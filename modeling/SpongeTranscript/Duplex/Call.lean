import SpongeTranscript.Duplex.Basic

set_option autoImplicit false

/-!
# Calls on a duplex

The operations of a duplex as data, so that a run over any finite sequence of them is a function of
a list. A call answers with the bytes it hands back, which are none for a call that only moves the
state on.
-/

namespace SpongeTranscript.Duplex

/-- One operation with its arguments. -/
inductive Call where
  | absorb (input : Bytes)
  | squeeze (count : Nat)
  | encrypt (plaintext : Bytes)
  | decrypt (ciphertext : Bytes)
  | permute
  | startFrame
  | ratchet
  | wipe
  deriving DecidableEq, Repr

variable {P : Permutation}

/-- Carries out one call. -/
def call (d : Duplex P) : Call → Bytes × Duplex P
  | .absorb input => ([], d.absorb input)
  | .squeeze count => d.squeeze count
  | .encrypt plaintext => d.encrypt plaintext
  | .decrypt ciphertext => d.decrypt ciphertext
  | .permute => ([], d.permute)
  | .startFrame => ([], d.startFrame)
  | .ratchet => ([], d.ratchet)
  | .wipe => ([], d.wipe)

/-- Carries out calls one after the other, and collects what they hand back. -/
def run (d : Duplex P) : List Call → List Bytes × Duplex P
  | [] => ([], d)
  | c :: rest =>
    let (out, d) := d.call c
    let (outs, d) := d.run rest
    (out :: outs, d)

end SpongeTranscript.Duplex
