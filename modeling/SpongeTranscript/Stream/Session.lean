import SpongeTranscript.Stream.Writer
import SpongeTranscript.Stream.Reader

set_option autoImplicit false

/-!
# Sessions

A session is one streamed operation from its opening to its end: a finite sequence of calls on a
writer or reader, and a way of ending. However it ends, the body is closed once and the trailer
counts the bytes that went through.
-/

namespace SpongeTranscript

universe u v

/-- How a session ends. -/
inductive Ending where
  /-- The adapter is closed after the last call. -/
  | close
  /-- The adapter is given up after the last call, which closes it too. -/
  | abandon
  /-- The calls are the body of a scope: the first that fails ends it and hands its fault on. -/
  | scoped
  deriving DecidableEq, Repr

/-- What an adapter has of its operation: the body, and whether the trailer is in. -/
structure Lease (P : Permutation) where
  body : Body P
  closed : Bool

/-- Absorbs the trailer, unless that has been done. -/
def Lease.finish {P : Permutation} (l : Lease P) : Lease P :=
  if l.closed then l else { body := { l.body with transcript := l.body.close }, closed := true }

/-- Ends an adapter. A close finishes it, and then it is given up, which finishes it in any case. -/
def Ending.settle {P : Permutation} (ending : Ending) (b : Body P) : Transcript P :=
  let opened : Lease P := { body := b, closed := false }
  match ending with
  | .close | .scoped => opened.finish.finish.body.transcript
  | .abandon => opened.finish.body.transcript

/-- However an adapter ends, its trailer is absorbed once. -/
theorem Ending.settle_eq_close {P : Permutation} (ending : Ending) (b : Body P) :
    ending.settle b = b.close := by
  cases ending <;> rfl

/-- One call on a writer. -/
inductive WriteCall where
  | write (data : Bytes)
  | writeAll (data : Bytes)
  | flush
  deriving DecidableEq, Repr

/-- Carries out a call on a sink. The answer is the number of bytes that a single write delivered,
and zero for the calls that report no number. -/
def WriteCall.on {σ : Type u} [Sink σ] (s : σ) : WriteCall → Except Fault Nat × σ
  | .write data =>
    let (outcome, s) := Sink.write s data
    (outcome.map Subtype.val, s)
  | .writeAll data =>
    let (outcome, s) := Sink.writeAll s data
    (outcome.map fun _ => 0, s)
  | .flush =>
    let (outcome, s) := Sink.flush s
    (outcome.map fun _ => 0, s)

/-- One call on a reader. -/
inductive ReadCall where
  | read (room : Nat)
  | readExact (count : Nat)
  /-- Reads to the end, with room for `spare + 1` bytes at a time. -/
  | readToEnd (spare : Nat)
  deriving DecidableEq, Repr

/-- What a call on a reader answers. -/
structure Delivery where
  /-- The number of bytes reported, zero for an exact read, or the fault. -/
  outcome : Except Fault Nat
  /-- The bytes handed back. -/
  data : Bytes

/-- Carries out a call on a source. Only reading to the end hands back bytes when it fails. -/
def ReadCall.on {σ : Type u} [Source σ] (s : σ) : ReadCall → Delivery × σ
  | .read room =>
    match Source.read s room with
    | (.ok piece, s) => ({ outcome := .ok piece.val.length, data := piece.val }, s)
    | (.error fault, s) => ({ outcome := .error fault, data := [] }, s)
  | .readExact count =>
    match Source.readExact s count with
    | (.ok data, s) => ({ outcome := .ok 0, data }, s)
    | (.error fault, s) => ({ outcome := .error fault, data := [] }, s)
  | .readToEnd spare =>
    let ((data, ending), s) := Source.readToEnd s spare
    ({ outcome := ending.map fun _ => data.length, data }, s)

/-- Carries out calls in order, and notes each answer with what the call left behind. Where
`stopAt` holds of an answer, the rest is not carried out. -/
def runCalls {σ : Type u} {κ ρ : Type v} (on : σ → κ → ρ × σ) (stopAt : ρ → Bool) :
    σ → List κ → List (ρ × σ) × σ
  | s, [] => ([], s)
  | s, c :: rest =>
    let (answer, s) := on s c
    if stopAt answer then
      ([(answer, s)], s)
    else
      let (log, last) := runCalls on stopAt s rest
      ((answer, s) :: log, last)

/-- Whether an answer ends the calls. -/
def Ending.stopsAt (ending : Ending) (outcome : Except Fault Nat) : Bool :=
  ending = .scoped && !outcome.isOk

/-- What a scope returns: the first fault, or the number of its calls. -/
def scopeResult (outcomes : List (Except Fault Nat)) : Except Fault Nat :=
  (outcomes.mapM id).map List.length

variable {P : Permutation} {σ : Type u}

/-- The answers to the calls of a session, and what it leaves behind. -/
structure Session (ρ : Type v) (α : Type u) (P : Permutation) where
  /-- Each answer, with the adapter as the call left it. -/
  log : List (ρ × α)
  /-- The adapter after the last call. -/
  last : α
  /-- The transcript after the end. -/
  transcript : Transcript P

/-- Runs a session of writes. -/
def Writer.session [Sink σ] (w : Writer P σ) (calls : List WriteCall) (ending : Ending) :
    Session (Except Fault Nat) (Writer P σ) P :=
  let (log, last) := runCalls WriteCall.on ending.stopsAt w calls
  { log, last, transcript := ending.settle last.body }

/-- Runs a session of reads. -/
def Reader.session [Source σ] (r : Reader P σ) (calls : List ReadCall) (ending : Ending) :
    Session Delivery (Reader P σ) P :=
  let (log, last) := runCalls ReadCall.on (fun answer => ending.stopsAt answer.outcome) r calls
  { log, last, transcript := ending.settle last.body }

end SpongeTranscript
