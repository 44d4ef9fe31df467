import SpongeTranscript.Proofs.Tape.Playback
import SpongeTranscript.Proofs.Transcript.Header
import SpongeTranscript.Transcript.Call

set_option autoImplicit false

/-!
# Acts and their tapes

Mixing and deriving are the calls whose effect on the state does not depend on what the state is:
a mix adds its header, its input and its trailer, and a derive adds zeros where it reads. So a list
of them leaves a tape (`Tape.ofActs`) that is the same for all permutations, and to run the list is
to play its tape (`run_eq_play`).
-/

namespace SpongeTranscript

namespace Transcript

/-- A mix or a derive with its arguments. -/
inductive Act where
  | mix (label : String) (input : Bytes)
  | derive (label : String) (count : Nat)
  deriving DecidableEq, Repr

namespace Act

/-- The act as a call on a transcript. -/
def call : Act → Call
  | mix label input => .mix label input
  | derive label count => .derive label count

/-- The operation that the act announces. -/
def opcode : Act → Opcode
  | mix _ _ => .mix
  | derive _ _ => .derive

/-- The label that the act announces. -/
def label : Act → String
  | mix label _ => label
  | derive label _ => label

/-- The number in the trailer: the length of the input, or of the output. -/
def count : Act → Nat
  | mix _ input => input.length
  | derive _ count => count

/-- The same act under another label. -/
def relabel : Act → String → Act
  | mix _ input, label => mix label input
  | derive _ count, label => derive label count

/-- What the act absorbs before its body. -/
def header (act : Act) : Bytes :=
  Transcript.header act.opcode act.label

/-- Both lengths that the act encodes have length codes. -/
structure Codable (act : Act) : Prop where
  label : SpongeTranscript.Codable (Bytes.ofText act.label).length
  count : SpongeTranscript.Codable act.count

instance (act : Act) : Decidable act.Codable :=
  decidable_of_iff
    (SpongeTranscript.Codable (Bytes.ofText act.label).length ∧ SpongeTranscript.Codable act.count)
    ⟨fun h => ⟨h.1, h.2⟩, fun h => ⟨h.label, h.count⟩⟩

end Act

end Transcript

namespace Tape

open Transcript

/-- Writes the start of a frame and the header of an operation. -/
def announce (t : Tape) (op : Opcode) (label : String) : Tape :=
  t.startFrame.pushes (header op label)

/-- What an act leaves on the tape. -/
def enact (t : Tape) : Act → Tape
  | .mix label input =>
    ((t.announce .mix label).pushes input).pushes (trailer input.length)
  | .derive label count =>
    (((t.announce .derive label).pushes (trailer count)).turn.pushes (Bytes.zeros count)).turn

/-- The tape of a transcript that was just begun. -/
def opening (domain : String) : Tape :=
  (blank.announce .init domain).turn

/-- The tape of a transcript after a list of acts. -/
def ofActs (domain : String) (acts : List Act) : Tape :=
  acts.foldl enact (opening domain)

/-- The last act stands behind the others. -/
theorem ofActs_concat (domain : String) (acts : List Act) (act : Act) :
    ofActs domain (acts ++ [act]) = (ofActs domain acts).enact act := by
  rw [ofActs, List.foldl_append]
  rfl

/-! ## Playing what an act leaves -/

variable {P : Permutation}

/-- An announcement on the tape is played as one. -/
theorem play_announce (t : Tape) (op : Opcode) (label : String) :
    (t.announce op label).play P =
      (Transcript.announce ⟨t.play P⟩ op label).duplex := by
  rw [announce, play_pushes, play_startFrame]
  rfl

/-- The tape of a new transcript is played to it. -/
theorem play_opening (domain : String) :
    (opening domain).play P = (Transcript.init P domain).duplex := by
  rw [opening, play_turn, play_announce, play_blank]
  rfl

/-- What an act leaves on the tape is played as the act. -/
theorem play_enact (t : Tape) (act : Act) :
    (t.enact act).play P = (Transcript.call ⟨t.play P⟩ act.call).2.duplex := by
  cases act with
  | mix label input =>
    rw [enact, play_pushes, play_pushes, play_announce]
    rfl
  | derive label count =>
    have zeros_eq : Bytes.zeros count = Bytes.zeros (Bytes.zeros count).length := by
      rw [Bytes.length_zeros]
    rw [enact, play_turn, zeros_eq, play_squeeze, play_turn, play_pushes, play_announce]
    rfl

/-- Acts are played behind a tape as they are run behind what it is played to. -/
theorem run_play (t : Tape) (acts : List Act) :
    (Transcript.run ⟨t.play P⟩ (acts.map Act.call)).2 = ⟨(acts.foldl enact t).play P⟩ := by
  induction acts generalizing t with
  | nil => rfl
  | cons act rest ih =>
    rw [List.map_cons, List.foldl_cons, ← ih, play_enact]
    rfl

end Tape

namespace Transcript

/-- To run acts from the start is to play their tape. -/
theorem run_eq_play (P : Permutation) (domain : String) (acts : List Act) :
    ((init P domain).run (acts.map Act.call)).2 = ⟨(Tape.ofActs domain acts).play P⟩ := by
  have start : init P domain = ⟨(Tape.opening domain).play P⟩ := by
    rw [Tape.play_opening]
  rw [start, Tape.run_play]
  rfl

end Transcript

end SpongeTranscript
