import SpongeTranscript.Duplex.Call
import SpongeTranscript.Transcript.Call
import SpongeTranscript.Scheme.MessageHash
import SpongeTranscript.Scheme.MessageTag
import SpongeTranscript.Scheme.SealingKey
import SpongeTranscript.Proofs.Duplex.Stepwise

set_option autoImplicit false

/-!
# The parts of an operation

A transcript has no state but its duplex, so a labelled operation comes down to a list of duplex
calls, its parts. They depend on the operation and its arguments and never on the state:
`run_eq_run_parts` says that a run of operations leaves the duplex that a run of their parts leaves.
The same goes for a transcript that is begun, and for what the schemes do before their last
operation.

What is said here of all lists of duplex calls is therefore said of all operations.
-/

namespace SpongeTranscript

variable {P : Permutation}

namespace Duplex

/-- Two runs are one. -/
theorem run_append (d : Duplex P) (a b : List Call) :
    (d.run (a ++ b)).2 = ((d.run a).2.run b).2 := by
  induction a generalizing d with
  | nil => rfl
  | cons c rest ih => exact ih (d.call c).2

end Duplex

namespace Transcript

/-- The opening of an operation: its frame and its header. -/
def announceParts (op : Opcode) (label : String) : List Duplex.Call :=
  [.startFrame, .absorb (header op label)]

/-- One exchange between a permutation and a trailer. -/
def underKeyParts (op : Opcode) (label : String) (text : Duplex.Call) (count : Nat) :
    List Duplex.Call :=
  announceParts op label ++ [.permute, text, .absorb (trailer count)]

/-- Output that is drawn between two permutations. -/
def drawParts (count : Nat) : List Duplex.Call :=
  [.permute, .squeeze count, .permute]

/-- The duplex calls that an operation is made of. -/
def Call.parts : Call → List Duplex.Call
  | .mix label input =>
    announceParts .mix label ++ [.absorb input, .absorb (trailer input.length)]
  | .derive label count =>
    announceParts .derive label ++ .absorb (trailer count) :: drawParts count
  | .encrypt label plaintext =>
    underKeyParts .crypt label (.encrypt plaintext) plaintext.length
  | .decrypt label ciphertext =>
    underKeyParts .crypt label (.decrypt ciphertext) ciphertext.length
  | .mask label plaintext =>
    underKeyParts .mask label (.encrypt plaintext) plaintext.length
  | .unmask label ciphertext =>
    underKeyParts .mask label (.decrypt ciphertext) ciphertext.length
  | .sealMessage label plaintext =>
    underKeyParts .authCrypt label (.encrypt plaintext) plaintext.length ++ drawParts tagLength
  | .openMessage label message =>
    if message.length < tagLength then
      []
    else
      let ciphertext := message.take (message.length - tagLength)
      underKeyParts .authCrypt label (.decrypt ciphertext) ciphertext.length ++ drawParts tagLength
  | .ratchet label => announceParts .ratchet label ++ [.ratchet]

/-- The duplex calls that begin a transcript. -/
def initParts (domain : String) : List Duplex.Call :=
  announceParts .init domain ++ [.permute]

/-- The duplex calls of a mix whose input comes in pieces. Its trailer holds a count of 64 bits. -/
def piecewiseParts (label : String) (pieces : List Bytes) : List Duplex.Call :=
  announceParts .mix label ++ pieces.map .absorb ++
    [.absorb (trailer pieces.flatten.length.toUInt64.toNat)]

/-- Every operation runs its parts on the duplex. -/
theorem call_eq_run_parts (t : Transcript P) (c : Call) :
    (t.call c).2.duplex = (t.duplex.run c.parts).2 := by
  cases c with
  | mix label input => rfl
  | derive label count => rfl
  | encrypt label plaintext => rfl
  | decrypt label ciphertext => rfl
  | mask label plaintext => rfl
  | unmask label ciphertext => rfl
  | sealMessage label plaintext => rfl
  | openMessage label message =>
    change (t.openBuffer label message).transcript.duplex = _
    by_cases short : message.length < tagLength
    · rw [openBuffer, Call.parts, if_pos short, if_pos short]
      rfl
    · -- whether the tag verifies or not, the transcript moves on in the same way
      rw [openBuffer, Call.parts, if_neg short, if_neg short]
      dsimp only
      split <;> rfl
  | ratchet label => rfl

/-- A run of operations leaves the duplex that the run of their parts leaves. -/
theorem run_eq_run_parts (t : Transcript P) (calls : List Call) :
    (t.run calls).2.duplex = (t.duplex.run (calls.flatMap Call.parts)).2 := by
  induction calls generalizing t with
  | nil => rfl
  | cons c rest ih =>
    rw [List.flatMap_cons, Duplex.run_append, ← call_eq_run_parts]
    exact ih (t.call c).2

/-- A new transcript runs its parts on a fresh duplex. -/
theorem init_eq_run_parts (P : Permutation) (domain : String) :
    (init P domain).duplex = ((Duplex.fresh : Duplex P).run (initParts domain)).2 := rfl

end Transcript

namespace Body

/-- Passes pieces through the body one after the other. -/
def feedAll (b : Body P) (pieces : List Bytes) : Body P :=
  pieces.foldl (fun b piece => (b.feed piece).2) b

/-- A body counts the bytes of all pieces. -/
theorem count_feedAll (b : Body P) (pieces : List Bytes) :
    (b.feedAll pieces).count = b.count + pieces.flatten.length.toUInt64 := by
  induction pieces generalizing b with
  | nil => exact (UInt64.add_zero b.count).symm
  | cons piece rest ih =>
    have length_eq : (piece :: rest).flatten.length.toUInt64 =
        piece.length.toUInt64 + rest.flatten.length.toUInt64 := by
      rw [List.flatten_cons, List.length_append]
      exact UInt64.ofNat_add _ _
    have first : (b.feed piece).2.count = b.count + piece.length.toUInt64 := rfl
    have rest_eq := ih (b.feed piece).2
    rw [first, UInt64.add_assoc, ← length_eq] at rest_eq
    exact rest_eq

/-- A body that mixes absorbs the pieces that it is fed with. -/
theorem duplex_feedAll {b : Body P} (kind : b.kind = .mix) (pieces : List Bytes) :
    (b.feedAll pieces).transcript.duplex =
      (b.transcript.duplex.run (pieces.map .absorb)).2 := by
  induction pieces generalizing b with
  | nil => rfl
  | cons piece rest ih =>
    have first : (b.feed piece).2.transcript.duplex = b.transcript.duplex.absorb piece := by
      unfold feed
      rw [kind]
      rfl
    have rest_eq := ih (b := (b.feed piece).2) kind
    rw [first] at rest_eq
    exact rest_eq

/-- A mix that is opened, fed piece by piece and closed is the run of its parts. -/
theorem close_feedAll_openMix (t : Transcript P) (label : String) (pieces : List Bytes) :
    ((t.openMix label).feedAll pieces).close.duplex =
      (t.duplex.run (Transcript.piecewiseParts label pieces)).2 := by
  have count_eq : ((t.openMix label).feedAll pieces).count = pieces.flatten.length.toUInt64 := by
    rw [count_feedAll]
    exact UInt64.zero_add _
  have fed := duplex_feedAll (b := t.openMix label) rfl pieces
  calc ((t.openMix label).feedAll pieces).close.duplex
    _ = ((t.openMix label).feedAll pieces).transcript.duplex.absorb
        (Transcript.trailer pieces.flatten.length.toUInt64.toNat) := by
      rw [← count_eq]
      rfl
    _ = (t.duplex.run (Transcript.piecewiseParts label pieces)).2 := by
      rw [fed, Transcript.piecewiseParts, Duplex.run_append, Duplex.run_append]
      rfl

end Body

end SpongeTranscript
