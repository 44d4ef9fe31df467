set_option autoImplicit false

/-!
# Faults

What a sink or a source reports when it cannot move bytes.
-/

namespace SpongeTranscript

/-- The kinds of fault. -/
inductive FaultKind where
  | brokenPipe
  | interrupted
  | wouldBlock
  | timedOut
  | connectionReset
  | permissionDenied
  | invalidData
  | unexpectedEnd
  | writeZero
  | other
  deriving DecidableEq, Repr

/-- A fault with the text that explains it. -/
structure Fault where
  kind : FaultKind
  message : String
  deriving DecidableEq, Repr

namespace Fault

/-- A sink took nothing although bytes were left to write. -/
def writeZero : Fault where
  kind := .writeZero
  message := "failed to write whole buffer"

/-- A source ended before the buffer was full. -/
def unexpectedEnd : Fault where
  kind := .unexpectedEnd
  message := "failed to fill whole buffer"

/-- The call was interrupted and is to be repeated. -/
def Retry (fault : Fault) : Prop :=
  fault.kind = .interrupted

instance (fault : Fault) : Decidable fault.Retry :=
  inferInstanceAs (Decidable (fault.kind = .interrupted))

end Fault

end SpongeTranscript
