import Mathlib.Data.List.Induction
import SpongeTranscript.Proofs.Tape.Playback
import SpongeTranscript.Proofs.Transcript.Parts

set_option autoImplicit false

/-!
# Frames on one page

Byte strings that are absorbed one after the other, each behind the first in a frame of its own,
leave one page as long as they fit into the window. The bytes of the page do not say where a frame
starts, as any byte may look like a mark. But the page notes the start of its last frame, and in
front of this start stands the start of the frame before. Following these marks back to the first
string, one reads all of them off the page (`ofSegments_inj`).

Here the state is any state on which the page begins, so the result holds behind every permutation
(`run_segmentCalls_eq_iff`).
-/

namespace SpongeTranscript

variable {P : Permutation}

/-! ## Pages over a state -/

/-- Over one state, a duplex shows the page that it has absorbed. -/
theorem Page.load_injective {a b : Page} {state : State} (h : a.load P state = b.load P state) :
    a = b := by
  have padded_eq := congrArg Duplex.padded h
  rw [padded_load, padded_load] at padded_eq
  exact sealed_eq_sealed_iff.mp padded_eq

namespace Tape

/-- Bytes that fit on the page are absorbed over its state. -/
theorem load_pushes {t : Tape} (xs : Bytes) (room : t.page.bytes.length + xs.length < window)
    (state : State) :
    (t.pushes xs).page.load P state = (t.page.load P state).absorb xs := by
  have start : (t.page.load P state).position < window := t.room
  rw [Duplex.absorb, Duplex.exchange_eq_steps start]
  induction xs generalizing t with
  | nil => rfl
  | cons b rest ih =>
    rw [List.length_cons] at room
    have length_eq : (t.push b).page.bytes.length = t.page.bytes.length + 1 := by
      rw [(t.push_of_room b (by omega)).2, Page.append, List.length_append]
      rfl
    have first := load_push (P := P) (t := t) (by omega) b state
    rw [pushes_cons, ih (by omega) (t.push b).room, first, Duplex.steps_cons]

/-- A frame that starts on the page starts over its state. -/
theorem load_startFrame {t : Tape} (room : t.page.bytes.length + 1 < window) (state : State) :
    t.startFrame.page.load P state = (t.page.load P state).startFrame := by
  have marked := load_pushes (P := P) [t.page.frame.toUInt8] room state
  unfold Duplex.startFrame
  rw [show (t.page.load P state).frame = t.page.frame from rfl, ← marked]
  rfl

/-! ## The last frame of a page -/

/-- The mark of a frame takes one byte of the page. -/
theorem length_startFrame_of_room {t : Tape} (room : t.page.bytes.length + 1 < window) :
    t.startFrame.page.bytes.length = t.page.bytes.length + 1 := by
  rw [(startFrame_of_room room).2.1, List.length_append]
  rfl

/-- A frame that fits on the page stands there behind its mark, and the page notes its start. -/
theorem startFrame_pushes_of_room {t : Tape} {xs : Bytes}
    (room : t.page.bytes.length + 1 + xs.length < window) :
    (t.startFrame.pushes xs).past = t.past ∧
      (t.startFrame.pushes xs).page.bytes = t.page.bytes ++ [t.page.frame.toUInt8] ++ xs ∧
      (t.startFrame.pushes xs).page.frame = t.page.bytes.length + 1 := by
  have start_room : t.page.bytes.length + 1 < window := by omega
  have length_eq := length_startFrame_of_room start_room
  obtain ⟨past_eq, bytes_eq, frame_eq⟩ := startFrame_of_room start_room
  obtain ⟨past_eq', bytes_eq', frame_eq'⟩ := t.startFrame.pushes_of_room xs (by omega)
  rw [past_eq', bytes_eq', frame_eq', past_eq, bytes_eq, frame_eq]
  exact ⟨rfl, rfl, rfl⟩

/-- The start of the last frame tells its bytes, and the tape before it. -/
theorem startFrame_pushes_inj {t u : Tape} {xs ys : Bytes}
    (room : t.page.bytes.length + 1 + xs.length < window)
    (room' : u.page.bytes.length + 1 + ys.length < window)
    (h : t.startFrame.pushes xs = u.startFrame.pushes ys) : t = u ∧ xs = ys := by
  have frame_eq := congrArg (fun t => t.page.frame) h
  have length_eq := congrArg (fun t => t.page.bytes.length) h
  simp only [(startFrame_pushes_of_room room).2, (startFrame_pushes_of_room room').2,
    List.length_append, List.length_singleton] at frame_eq length_eq
  obtain ⟨started, strings_eq⟩ := pushes_inj_of_length (by omega) h
  exact ⟨startFrame_inj started, strings_eq⟩

/-! ## Many frames -/

/-- The tape of a first string and of further ones, each in a frame of its own. -/
def ofSegments (first : Bytes) (rest : List Bytes) : Tape :=
  rest.foldl (fun t segment => t.startFrame.pushes segment) (blank.pushes first)

/-- The last string stands in a frame behind the others. -/
theorem ofSegments_concat (first : Bytes) (rest : List Bytes) (last : Bytes) :
    ofSegments first (rest ++ [last]) = (ofSegments first rest).startFrame.pushes last := by
  simp [ofSegments]

/-- The number of bytes that the strings and the marks between them take. -/
def segmentsLength (first : Bytes) (rest : List Bytes) : Nat :=
  first.length + rest.flatten.length + rest.length

/-- The last string takes its length and one byte for its mark. -/
theorem segmentsLength_concat (first : Bytes) (rest : List Bytes) (last : Bytes) :
    segmentsLength first (rest ++ [last]) = segmentsLength first rest + 1 + last.length := by
  simp only [segmentsLength, List.flatten_append, List.flatten_singleton, List.length_append,
    List.length_singleton]
  omega

/-- The first string stands at the front of the page, without a mark. -/
theorem blank_pushes_of_room {first : Bytes} (room : first.length < window) :
    (blank.pushes first).past = [] ∧ (blank.pushes first).page.bytes = first ∧
      (blank.pushes first).page.frame = 0 := by
  have room' : blank.page.bytes.length + first.length < window := by
    rw [show blank.page.bytes.length = 0 from rfl, Nat.zero_add]
    exact room
  exact blank.pushes_of_room first room'

/-- Strings that fit into the window stay on one page. -/
theorem ofSegments_of_room {first : Bytes} {rest : List Bytes}
    (room : segmentsLength first rest < window) :
    (ofSegments first rest).past = [] ∧
      (ofSegments first rest).page.bytes.length = segmentsLength first rest := by
  induction rest using List.reverseRecOn with
  | nil =>
    have first_room : first.length < window := room
    obtain ⟨past_eq, bytes_eq, -⟩ := blank_pushes_of_room first_room
    exact ⟨past_eq, congrArg List.length bytes_eq⟩
  | append_singleton rest last ih =>
    rw [segmentsLength_concat] at room ⊢
    obtain ⟨past_eq, length_eq⟩ := ih (by omega)
    rw [← length_eq] at room ⊢
    obtain ⟨past_eq', bytes_eq, -⟩ := startFrame_pushes_of_room room
    rw [ofSegments_concat, past_eq', bytes_eq, past_eq, List.length_append, List.length_append]
    exact ⟨rfl, rfl⟩

/-- If all strings fit, so do all but the last, and there is room for the last behind them. -/
theorem room_of_concat {first last : Bytes} {rest : List Bytes}
    (room : segmentsLength first (rest ++ [last]) < window) :
    segmentsLength first rest < window ∧
      (ofSegments first rest).page.bytes.length + 1 + last.length < window := by
  rw [segmentsLength_concat] at room
  have before : segmentsLength first rest < window := by omega
  rw [(ofSegments_of_room before).2]
  exact ⟨before, room⟩

/-- A page without a second string notes no frame. -/
theorem ofSegments_nil_ne_concat {first first' last : Bytes} {rest : List Bytes}
    (room : segmentsLength first [] < window)
    (room' : segmentsLength first' (rest ++ [last]) < window) :
    ofSegments first [] ≠ ofSegments first' (rest ++ [last]) := by
  intro h
  have no_frame : (ofSegments first []).page.frame = 0 := (blank_pushes_of_room room).2.2
  have noted := (startFrame_pushes_of_room (room_of_concat room').2).2.2
  rw [← ofSegments_concat, ← h, no_frame] at noted
  exact absurd noted.symm (Nat.succ_ne_zero _)

/-- On one page the marks lead back to the first string. -/
theorem ofSegments_inj {first first' : Bytes} {rest rest' : List Bytes}
    (room : segmentsLength first rest < window) (room' : segmentsLength first' rest' < window)
    (h : ofSegments first rest = ofSegments first' rest') : first = first' ∧ rest = rest' := by
  -- from the back, since only the start of the last frame is noted on the page
  induction rest using List.reverseRecOn generalizing rest' with
  | nil =>
    rcases List.eq_nil_or_concat' rest' with rfl | ⟨rest', last', rfl⟩
    · have bytes_eq := congrArg (fun t => t.page.bytes) h
      rw [← (blank_pushes_of_room room).2.1, ← (blank_pushes_of_room room').2.1]
      exact ⟨bytes_eq, rfl⟩
    · exact absurd h (ofSegments_nil_ne_concat room room')
  | append_singleton rest last ih =>
    rcases List.eq_nil_or_concat' rest' with rfl | ⟨rest', last', rfl⟩
    · exact absurd h.symm (ofSegments_nil_ne_concat room' room)
    · obtain ⟨before, fits⟩ := room_of_concat room
      obtain ⟨before', fits'⟩ := room_of_concat room'
      rw [ofSegments_concat, ofSegments_concat] at h
      obtain ⟨before_eq, last_eq⟩ := startFrame_pushes_inj fits fits' h
      obtain ⟨first_eq, rest_eq⟩ := ih before before' before_eq
      exact ⟨first_eq, by rw [rest_eq, last_eq]⟩

end Tape

/-! ## The run that writes the frames -/

namespace Duplex

/-- Absorbs byte strings, and starts a frame between any two of them. -/
def segmentCalls : List Bytes → List Call
  | [] => []
  | first :: rest => .absorb first :: rest.flatMap fun segment => [.startFrame, .absorb segment]

/-- The last string is absorbed behind the start of its frame. -/
theorem segmentCalls_concat (first : Bytes) (rest : List Bytes) (last : Bytes) :
    segmentCalls (first :: (rest ++ [last])) =
      segmentCalls (first :: rest) ++ [.startFrame, .absorb last] := by
  simp [segmentCalls]

/-- The calls leave the duplex with the page of the strings over its state. -/
theorem run_segmentCalls {first : Bytes} {rest : List Bytes}
    (room : Tape.segmentsLength first rest < window) (state : State) :
    (run (⟨state, 0, 0⟩ : Duplex P) (segmentCalls (first :: rest))).2 =
      (Tape.ofSegments first rest).page.load P state := by
  induction rest using List.reverseRecOn with
  | nil =>
    rw [Tape.segmentsLength, List.flatten_nil, List.length_nil] at room
    have page_room : Tape.blank.page.bytes.length + first.length < window := by
      simpa [Tape.blank, Page.blank] using room
    exact (Tape.load_pushes first page_room state).symm
  | append_singleton rest last ih =>
    obtain ⟨before, fits⟩ := Tape.room_of_concat room
    have start_room : (Tape.ofSegments first rest).page.bytes.length + 1 < window := by omega
    rw [segmentCalls_concat, run_append, ih before, Tape.ofSegments_concat, Tape.load_pushes,
      Tape.load_startFrame start_room]
    · rfl
    · rw [Tape.length_startFrame_of_room start_room]
      exact fits

/-- From the start of the window and of a frame, two lists of byte strings that are absorbed in
frames leave the same duplex exactly if they are the same, as long as each of them fits into the
window together with its marks. -/
theorem run_segmentCalls_eq_iff {d : Duplex P} (position_eq : d.position = 0)
    (frame_eq : d.frame = 0) {a b : List Bytes} (a_ne : a ≠ []) (b_ne : b ≠ [])
    (a_room : a.flatten.length + (a.length - 1) < window)
    (b_room : b.flatten.length + (b.length - 1) < window) :
    (d.run (segmentCalls a)).2 = (d.run (segmentCalls b)).2 ↔ a = b := by
  obtain ⟨state, _, _⟩ := d
  obtain ⟨rfl, rfl⟩ : _ = 0 ∧ _ = 0 := ⟨position_eq, frame_eq⟩
  obtain ⟨x, xs, rfl⟩ := List.exists_cons_of_ne_nil a_ne
  obtain ⟨y, ys, rfl⟩ := List.exists_cons_of_ne_nil b_ne
  have x_room : Tape.segmentsLength x xs < window := by
    simpa [Tape.segmentsLength] using a_room
  have y_room : Tape.segmentsLength y ys < window := by
    simpa [Tape.segmentsLength] using b_room
  rw [run_segmentCalls x_room, run_segmentCalls y_room]
  constructor
  · intro same
    have page_eq := Page.load_injective same
    have past_eq := (Tape.ofSegments_of_room x_room).1.trans (Tape.ofSegments_of_room y_room).1.symm
    obtain ⟨rfl, rfl⟩ := Tape.ofSegments_inj x_room y_room (Tape.ext past_eq page_eq)
    rfl
  · intro same
    obtain ⟨rfl, rfl⟩ := List.cons.inj same
    rfl

/-- Both lists leave three bytes and note the same start of the last frame. Only the mark in front
of it tells whether a frame began before it. -/
theorem run_segmentCalls_eq_iff_chained :
    let P : Permutation := { name := "identity", apply := id }
    let d : Duplex P := { state := State.zero.setByte 1 7, position := 0, frame := 0 }
    (d.run (segmentCalls [[0], [5]])).2 ≠ (d.run (segmentCalls [[], [], [5]])).2 ∧
      [[], [], [5]].flatten.length + ([[], [], [5]].length - 1) < window := by
  intro P d
  have room : ([[], [], [5]] : List Bytes).flatten.length + (3 - 1) < window := by decide
  refine ⟨?_, room⟩
  have separated := run_segmentCalls_eq_iff (d := d) (a := [[0], [5]]) (b := [[], [], [5]])
    rfl rfl (by decide) (by decide) (by decide) room
  exact fun same => absurd (separated.mp same) (by decide)

end Duplex

end SpongeTranscript
