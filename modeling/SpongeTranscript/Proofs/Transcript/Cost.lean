import Mathlib.Algebra.Ring.Nat
import SpongeTranscript.Proofs.Duplex.Logged
import SpongeTranscript.Proofs.Tape.Playback
import SpongeTranscript.Proofs.Transcript.Binding

set_option autoImplicit false

/-!
# What a mix costs

The bytes that are absorbed are cut into windows, and each window that they fill costs one
permutation. So the number of permutations and the position afterwards are the quotient and the
remainder by the window of all bytes, those included that were in it before. It makes no difference
which part of a mix fills a window, the mark of its frame, its header, its input or its trailer, so
the law of one mix is also that of many (`mix_pointers`), and a header may be absorbed in one call
or in several (`mixCalls_eq_mix`). The frame of a mix is noted as long as none of its parts fills
the window.
-/

namespace SpongeTranscript

variable {P : Permutation}

namespace Duplex

/-! ## Bytes through windows -/

/-- On the way from one duplex to another `count` bytes go through the window, and the log has one
duplex for each time that they fill it. -/
structure Moved (d : Duplex P) (count : Nat) (log : List (Duplex P)) (final : Duplex P) : Prop where
  position_eq : final.position = (d.position + count) % window
  length_eq : log.length = (d.position + count) / window

/-- Bytes that go through the window in two parts go through it together. -/
theorem Moved.trans {d m final : Duplex P} {count more : Nat} {log log' : List (Duplex P)}
    (h : Moved d count log m) (h' : Moved m more log' final) :
    Moved d (count + more) (log ++ log') final := by
  constructor
  · rw [h'.position_eq, h.position_eq, Nat.mod_add_mod, Nat.add_assoc]
  · have windows := Nat.div_add_mod (d.position + count) window
    have total : d.position + (count + more) =
        (d.position + count) % window + more + window * ((d.position + count) / window) := by
      omega
    rw [List.length_append, h.length_eq, h'.length_eq, h.position_eq, total,
      Nat.add_mul_div_left _ _ (by decide), Nat.add_comm]

/-- Bytes for which there is room cost no permutation. -/
theorem moved_of_room {d final : Duplex P} {count : Nat} (room : d.position + count < window)
    (position_eq : final.position = d.position + count) : Moved d count [] final where
  position_eq := by rw [position_eq, Nat.mod_eq_of_lt room]
  length_eq := (Nat.div_eq_of_lt room).symm

/-- Bytes that fill the window cost one permutation. -/
theorem moved_of_full {d m : Duplex P} {count : Nat} (full : d.position + count = window) :
    Moved d count [m] m.permute where
  position_eq := by
    rw [full, Nat.mod_self]
    rfl
  length_eq := by
    rw [full, Nat.div_self (by decide)]
    rfl

/-- An exchange moves its bytes through the window, one permutation each time they fill it. -/
theorem moved_exchange {d : Duplex P} (open_window : d.position < window) (e : Exchange)
    (buffer : Bytes) :
    Moved d buffer.length (d.exchangeLogged e buffer).permuted (d.exchange e buffer).2 := by
  rw [← result_exchangeLogged open_window]
  refine exchange_induction e (motive := fun d buffer => Moved d buffer.length
    (d.exchangeLogged e buffer).permuted (d.exchangeLogged e buffer).result.2) ?_ ?_
    open_window buffer
  · intro d buffer room
    rw [exchangeLogged_of_room e room]
    exact moved_of_room room rfl
  · intro d a b open_window full rest
    rw [exchangeLogged_of_full e b open_window full, List.length_append]
    exact (moved_of_full full).trans rest

/-- A permutation forgets the frame, and nothing else that an exchange does changes it. -/
theorem frame_exchange {d : Duplex P} (open_window : d.position < window) (e : Exchange)
    (buffer : Bytes) : (d.exchange e buffer).2.frame =
      if d.position + buffer.length < window then d.frame else 0 := by
  rw [← result_exchangeLogged open_window]
  refine exchange_induction e (motive := fun d buffer =>
    (d.exchangeLogged e buffer).result.2.frame =
      if d.position + buffer.length < window then d.frame else 0) ?_ ?_ open_window buffer
  · intro d buffer room
    rw [exchangeLogged_of_room e room, if_pos room]
    rfl
  · intro d a b open_window full rest
    have filled : ¬ d.position + (a ++ b).length < window := by
      rw [List.length_append]
      omega
    rw [exchangeLogged_of_full e b open_window full, if_neg filled]
    exact rest.trans (ite_self 0)

/-! ## Calls that absorb -/

/-- Pieces are absorbed as one input. -/
theorem run_absorbs {d : Duplex P} (open_window : d.position < window) (pieces : List Bytes) :
    (d.run (pieces.map .absorb)).2 = d.absorb pieces.flatten := by
  induction pieces generalizing d with
  | nil =>
    rw [List.flatten_nil, absorb, exchange_eq_steps open_window]
    rfl
  | cons piece rest ih =>
    rw [List.flatten_cons, absorb_append open_window]
    exact ih (position_exchange_lt open_window .absorb piece)

/-- Two stretches that fit into the window are overlaid as one. -/
theorem overlaid_append (d : Duplex P) (e : Exchange) (a b : Bytes) :
    d.overlaid e (a ++ b) = (d.overlaid e a).overlaid e b := by
  unfold overlaid
  dsimp only
  rw [Tape.overlay_append, List.length_append, Nat.add_assoc]

/-- A buffer that is cut in two permutes the same duplexes. -/
theorem permuted_exchangeLogged_append {d : Duplex P} (open_window : d.position < window)
    (e : Exchange) (a b : Bytes) :
    (d.exchangeLogged e (a ++ b)).permuted = (d.exchangeLogged e a).permuted ++
      ((d.exchange e a).2.exchangeLogged e b).permuted := by
  rw [← result_exchangeLogged open_window]
  refine exchange_induction e (motive := fun d a => (d.exchangeLogged e (a ++ b)).permuted =
    (d.exchangeLogged e a).permuted ++
      ((d.exchangeLogged e a).result.2.exchangeLogged e b).permuted) ?_ ?_ open_window a
  · -- the first part leaves the window open, and the second one may fill it
    intro d a room
    rw [exchangeLogged_of_room e room, List.nil_append]
    have open_behind : (d.overlaid e a).position < window := room
    by_cases room_both : (d.overlaid e a).position + b.length < window
    · have room_whole : d.position + (a ++ b).length < window := by
        rw [List.length_append, ← Nat.add_assoc]
        exact room_both
      rw [exchangeLogged_of_room e room_both, exchangeLogged_of_room e room_whole]
    · obtain ⟨b, c, rfl, full⟩ := exists_full open_behind room_both
      have full_whole : d.position + (a ++ b).length = window := by
        rw [List.length_append, ← Nat.add_assoc]
        exact full
      rw [exchangeLogged_of_full e c open_behind full, ← List.append_assoc,
        exchangeLogged_of_full e c (Nat.lt_of_le_of_lt (Nat.le_add_right _ _) room) full_whole,
        overlaid_append]
  · intro d a a' open_window full rest
    rw [List.append_assoc, exchangeLogged_of_full e a' open_window full,
      exchangeLogged_of_full e (a' ++ b) open_window full, List.cons_append]
    exact congrArg (d.overlaid e a :: ·) rest

/-- Calls that absorb permute what one call permutes that absorbs all their bytes. -/
theorem permuted_absorbs {d : Duplex P} (open_window : d.position < window)
    (pieces : List Bytes) : (d.runLogged (pieces.map .absorb)).permuted =
      (d.exchangeLogged .absorb pieces.flatten).permuted := by
  induction pieces generalizing d with
  | nil =>
    rw [List.flatten_nil, exchangeLogged_nil]
    rfl
  | cons piece rest ih =>
    rw [List.map_cons, permuted_runLogged_cons open_window, permuted_callLogged_absorb,
      List.flatten_cons, permuted_exchangeLogged_append open_window]
    exact congrArg (_ ++ ·) (ih (position_exchange_lt open_window .absorb piece))

/-- Absorbed pieces move through the window as one input. -/
theorem moved_absorbs {d : Duplex P} (open_window : d.position < window) (pieces : List Bytes) :
    Moved d pieces.flatten.length (d.runLogged (pieces.map .absorb)).permuted
      (d.absorb pieces.flatten) := by
  rw [permuted_absorbs open_window]
  exact moved_exchange open_window .absorb pieces.flatten

/-- The start of a frame never leaves the window full. -/
theorem position_startFrame_lt {d : Duplex P} (open_window : d.position < window) :
    d.startFrame.position < window :=
  position_exchange_lt open_window .absorb _

/-- The start of a frame moves one byte through the window. -/
theorem moved_startFrame {d : Duplex P} (open_window : d.position < window) :
    Moved d 1 (d.callLogged .startFrame).permuted d.startFrame := by
  have marked := moved_exchange open_window .absorb [d.frame.toUInt8]
  rw [permuted_callLogged_startFrame]
  exact ⟨marked.position_eq, marked.length_eq⟩

end Duplex

namespace Transcript

open LengthCode

/-- What a run of operations permutes, each duplex as it stands at that moment. -/
def permuted (t : Transcript P) (calls : List Call) : List (Duplex P) :=
  (t.duplex.runLogged (calls.flatMap Call.parts)).permuted

/-- The number of bytes that a mix absorbs: the mark of its frame and its opcode, the label behind
the code of its length, and the input before the code of its own. -/
def mixSize (label : String) (input : Bytes) : Nat :=
  2 + (left (8 * (Bytes.ofText label).length)).length + (Bytes.ofText label).length +
    input.length + (right (8 * input.length)).length

/-- What a mix absorbs in the frame that it starts. -/
def mixPieces (label : String) (input : Bytes) : List Bytes :=
  [header .mix label, input, trailer input.length]

/-- A mix starts a frame and absorbs its pieces. -/
theorem parts_mix (label : String) (input : Bytes) :
    (Call.mix label input).parts = .startFrame :: (mixPieces label input).map .absorb := rfl

/-- The size of a mix is that of its mark and of its pieces. -/
theorem mixSize_eq (label : String) (input : Bytes) :
    mixSize label input = 1 + (mixPieces label input).flatten.length := by
  simp [mixSize, mixPieces, header, trailer, bitLength]
  omega

/-- A mix absorbs its pieces, as one input, behind the start of its frame. -/
theorem duplex_mix {t : Transcript P} (open_window : t.duplex.position < window) (label : String)
    (input : Bytes) :
    (t.mix label input).duplex = t.duplex.startFrame.absorb (mixPieces label input).flatten := by
  have marked_room := Duplex.position_startFrame_lt open_window
  rw [← Duplex.run_absorbs marked_room]
  rfl

/-- A mix moves its size through the window. -/
theorem moved_mix {t : Transcript P} (open_window : t.duplex.position < window) (label : String)
    (input : Bytes) : Duplex.Moved t.duplex (mixSize label input)
      (t.duplex.runLogged (Call.mix label input).parts).permuted (t.mix label input).duplex := by
  have marked_room := Duplex.position_startFrame_lt open_window
  rw [mixSize_eq, parts_mix, Duplex.permuted_runLogged_cons open_window, duplex_mix open_window]
  exact (Duplex.moved_startFrame open_window).trans (Duplex.moved_absorbs marked_room _)

/-- The calls of a mix with its header in three pieces: the opcode, the code of the length of the
label, and the label. -/
def mixCalls (label : String) (input : Bytes) : List Duplex.Call :=
  [.startFrame, .absorb [Opcode.mix.byte],
    .absorb (left (bitLength (Bytes.ofText label).length)), .absorb (Bytes.ofText label),
    .absorb input, .absorb (trailer input.length)]

/-- It makes no difference whether a header is absorbed in one call or in three. -/
theorem mixCalls_eq_mix {t : Transcript P} (open_window : t.duplex.position < window)
    (label : String) (input : Bytes) :
    (t.duplex.runLogged (mixCalls label input)).permuted = t.permuted [.mix label input] ∧
      (t.duplex.run (mixCalls label input)).2 = (t.mix label input).duplex := by
  let pieces : List Bytes := [[Opcode.mix.byte],
    left (bitLength (Bytes.ofText label).length), Bytes.ofText label, input, trailer input.length]
  have calls_eq : mixCalls label input = .startFrame :: pieces.map .absorb := rfl
  have bytes_eq : pieces.flatten = (mixPieces label input).flatten := by
    simp [pieces, mixPieces, header]
  have marked_room := Duplex.position_startFrame_lt open_window
  constructor
  · have absorbed := Duplex.permuted_absorbs marked_room pieces
    rw [bytes_eq, ← Duplex.permuted_absorbs marked_room] at absorbed
    rw [permuted, List.flatMap_singleton, parts_mix, calls_eq,
      Duplex.permuted_runLogged_cons open_window, Duplex.permuted_runLogged_cons open_window]
    exact congrArg (_ ++ ·) absorbed
  · rw [duplex_mix open_window, ← bytes_eq]
    exact Duplex.run_absorbs marked_room pieces

/-- The frame that a mix starts stays noted unless one of its parts fills the window. -/
theorem frame_mix {t : Transcript P} (open_window : t.duplex.position < window) (label : String)
    (input : Bytes) : (t.mix label input).duplex.frame =
      if t.duplex.position + mixSize label input < window then t.duplex.position + 1 else 0 := by
  have marked_room := Duplex.position_startFrame_lt open_window
  have marked_frame : t.duplex.startFrame.frame = t.duplex.startFrame.position := rfl
  have marked_position : t.duplex.startFrame.position = (t.duplex.position + 1) % window :=
    (Duplex.moved_startFrame open_window).position_eq
  rw [duplex_mix open_window, Duplex.absorb, Duplex.frame_exchange marked_room, marked_frame,
    marked_position, mixSize_eq]
  by_cases room : t.duplex.position + 1 < window
  · rw [Nat.mod_eq_of_lt room, Nat.add_assoc]
  · -- the mark fills the window, and the pointer of the new frame is zero in any case
    have full : t.duplex.position + 1 = window := by omega
    rw [full, Nat.mod_self, ite_self, if_neg (by omega)]

/-- Mixes in a row move the sum of their sizes through the window. -/
theorem moved_mixes {t : Transcript P} (open_window : t.duplex.position < window)
    (labels : List String) (inputs : List Bytes) :
    Duplex.Moved t.duplex (List.zipWith mixSize labels inputs).sum
      (t.permuted (mixes labels inputs)) (t.run (mixes labels inputs)).2.duplex := by
  induction labels generalizing t inputs with
  | nil => exact Duplex.moved_of_room open_window rfl
  | cons label labels ih =>
    cases inputs with
    | nil => exact Duplex.moved_of_room open_window rfl
    | cons input inputs =>
      have first := moved_mix open_window label input
      have still_open : (t.mix label input).duplex.position < window := by
        rw [first.position_eq]
        exact Nat.mod_lt _ (by decide)
      have later := ih still_open inputs
      have log_eq : t.permuted (mixes (label :: labels) (input :: inputs)) =
          (t.duplex.runLogged (Call.mix label input).parts).permuted ++
            (t.mix label input).permuted (mixes labels inputs) :=
        Duplex.permuted_runLogged_append open_window _ _
      rw [List.zipWith_cons_cons, List.sum_cons, log_eq]
      exact first.trans later

/-- The position and the number of permutations are those of all bytes that go through the window.
The frame of a mix is the one that it started, or none if the window was filled since. All this is
so as well if the header of the mix is absorbed in pieces. -/
theorem mix_pointers {t : Transcript P} (open_window : t.duplex.position < window) :
    (∀ label input, let total := t.duplex.position + mixSize label input
      (t.mix label input).duplex.position = total % window ∧
      (t.mix label input).duplex.frame = (if total < window then t.duplex.position + 1 else 0) ∧
      (t.permuted [.mix label input]).length = total / window ∧
      (t.duplex.runLogged (mixCalls label input)).permuted = t.permuted [.mix label input] ∧
      (t.duplex.run (mixCalls label input)).2 = (t.mix label input).duplex) ∧
    ∀ labels inputs,
      let total := t.duplex.position + (List.zipWith mixSize labels inputs).sum
      (t.run (mixes labels inputs)).2.duplex.position = total % window ∧
      (t.permuted (mixes labels inputs)).length = total / window := by
  constructor
  · intro label input total
    have moved := moved_mix open_window label input
    refine ⟨moved.position_eq, frame_mix open_window label input, ?_,
      mixCalls_eq_mix open_window label input⟩
    rw [permuted, List.flatMap_singleton]
    exact moved.length_eq
  · intro labels inputs total
    have moved := moved_mixes open_window labels inputs
    exact ⟨moved.position_eq, moved.length_eq⟩

/-- A mix of one byte has eight bytes. They fit in front of the last byte of the window, and the
next eight go through its end. -/
theorem mix_pointers_at_end :
    let P : Permutation := { name := "identity", apply := id }
    let t : Transcript P := { duplex := { state := State.zero, position := 157, frame := 3 } }
    let labels := ["a", "b"]
    let inputs : List Bytes := [[1], [2]]
    t.duplex.position < window ∧
      (t.mix "a" [1]).duplex.position = 165 ∧ (t.mix "a" [1]).duplex.frame = 158 ∧
      (t.permuted [.mix "a" [1]]).length = 0 ∧
      (t.run (mixes labels inputs)).2.duplex.position = 7 ∧
      (t.permuted (mixes labels inputs)).length = 1 := by
  intro P t labels inputs
  have open_window : t.duplex.position < window := by decide
  have code_length : (bigEndian 8).length = 1 := by simp [bigEndian_of_pos]
  have size_eq : ∀ label byte, (Bytes.ofText label).length = 1 → mixSize label [byte] = 8 := by
    intro label byte label_length
    rw [mixSize, label_length, List.length_singleton, Nat.mul_one, length_left, length_right,
      code_length]
  have total_eq : (List.zipWith mixSize labels inputs).sum = 16 := by
    change mixSize "a" [1] + (mixSize "b" [2] + 0) = 16
    rw [size_eq "a" 1 rfl, size_eq "b" 2 rfl]
  obtain ⟨one, many⟩ := mix_pointers open_window
  obtain ⟨position_eq, frame_eq, length_eq, -⟩ := one "a" [1]
  obtain ⟨last_position_eq, total_length_eq⟩ := many labels inputs
  rw [size_eq "a" 1 rfl] at position_eq frame_eq length_eq
  rw [total_eq] at last_position_eq total_length_eq
  exact ⟨open_window, position_eq, frame_eq, length_eq.trans (by decide),
    last_position_eq.trans (by decide), total_length_eq.trans (by decide)⟩

end Transcript

end SpongeTranscript
