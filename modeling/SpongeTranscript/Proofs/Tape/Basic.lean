import Mathlib.Algebra.Ring.Nat
import Mathlib.Data.List.Basic
import Mathlib.Data.List.Induction
import SpongeTranscript.Proofs.Tape.Page

set_option autoImplicit false

/-!
# Tapes

A tape is everything that a duplex has taken in since it was fresh: the pages that were closed by a
permutation, and the page that is still open. It knows nothing of the permutation, so it is the
same for all of them.

Each way to move a tape on can be undone: the tape after a byte, a permutation or the start of a
frame determines the one before. Strings are different. Two strings may lead from two tapes to the
same one, and then one of them is the end of the other (`pushes_eq_pushes`): it is this overlap
that the codes at both ends of an operation are there to exclude.
-/

namespace SpongeTranscript

namespace Page

/-- Writes one more byte on a page that has room for it. -/
def append (page : Page) (b : UInt8) (room : page.bytes.length < window) : Page where
  bytes := page.bytes ++ [b]
  frame := page.frame
  fits := by
    rw [List.length_append]
    exact room
  frame_le := by
    rw [List.length_append]
    exact Nat.le_add_right_of_le page.frame_le

/-- Lets the frame start behind the last byte. -/
def restart (page : Page) : Page :=
  { page with frame := page.bytes.length, frame_le := Nat.le_refl _ }

/-- A page with one more byte shows the page and the byte. -/
theorem append_inj {a b : Page} {x y : UInt8} {room : a.bytes.length < window}
    {room' : b.bytes.length < window} (h : a.append x room = b.append y room') :
    a = b ∧ x = y := by
  obtain ⟨bytes_eq, last_eq⟩ := List.append_inj' (congrArg Page.bytes h) rfl
  have frame_eq := congrArg Page.frame h
  exact ⟨Page.ext bytes_eq frame_eq, (List.cons.inj last_eq).1⟩

/-- A page with a byte on it is not blank. -/
theorem append_ne_blank (page : Page) (b : UInt8) (room : page.bytes.length < window) :
    page.append b room ≠ blank := by
  intro h
  have bytes_eq : page.bytes ++ [b] = [] := congrArg Page.bytes h
  simp at bytes_eq

end Page

/-- The pages that a duplex has taken in. -/
@[ext]
structure Tape where
  /-- The closed pages, the last one first. -/
  past : List Page
  /-- The open page. -/
  page : Page
  room : page.bytes.length < window
  deriving DecidableEq

namespace Tape

/-- The tape of a fresh duplex. -/
def blank : Tape where
  past := []
  page := Page.blank
  room := by decide

/-- Closes the page, as a permutation does. -/
def turn (t : Tape) : Tape where
  past := t.page :: t.past
  page := Page.blank
  room := by decide

/-- Writes one byte, and closes the page if it is then full. -/
def push (t : Tape) (b : UInt8) : Tape :=
  let page := t.page.append b t.room
  if full : page.bytes.length = window then
    { past := page :: t.past, page := Page.blank, room := by decide }
  else
    { past := t.past, page := page, room := Nat.lt_of_le_of_ne page.fits full }

/-- Writes bytes one after the other. -/
def pushes (t : Tape) (bytes : Bytes) : Tape :=
  bytes.foldl push t

/-- Starts a frame: writes the start of the previous one, and notes the end of the page. -/
def startFrame (t : Tape) : Tape :=
  let marked := t.push t.page.frame.toUInt8
  { marked with page := marked.page.restart }

/-! ## One byte -/

/-- The byte that fills the page closes it. -/
theorem push_of_full (t : Tape) (b : UInt8) (full : t.page.bytes.length + 1 = window) :
    (t.push b).past = t.page.append b t.room :: t.past ∧ (t.push b).page = Page.blank := by
  have full' : (t.page.append b t.room).bytes.length = window := by
    rw [Page.append, List.length_append]
    exact full
  unfold push
  dsimp only
  rw [dif_pos full']
  exact ⟨rfl, rfl⟩

/-- Any other byte goes on the open page. -/
theorem push_of_room (t : Tape) (b : UInt8) (room : t.page.bytes.length + 1 < window) :
    (t.push b).past = t.past ∧ (t.push b).page = t.page.append b t.room := by
  have not_full : ¬ (t.page.append b t.room).bytes.length = window := by
    rw [Page.append, List.length_append]
    exact Nat.ne_of_lt room
  unfold push
  dsimp only
  rw [dif_neg not_full]
  exact ⟨rfl, rfl⟩

/-- The next byte either fills the page or leaves room on it. -/
theorem full_or_room (t : Tape) :
    t.page.bytes.length + 1 = window ∨ t.page.bytes.length + 1 < window := by
  have room := t.room
  omega

/-- The tape after a byte shows the byte and the tape before it. -/
theorem push_inj {t u : Tape} {a b : UInt8} (h : t.push a = u.push b) : t = u ∧ a = b := by
  have past_eq := congrArg past h
  have page_eq := congrArg page h
  rcases t.full_or_room with t_full | t_room <;> rcases u.full_or_room with u_full | u_room
  · rw [(t.push_of_full a t_full).1, (u.push_of_full b u_full).1, List.cons.injEq] at past_eq
    obtain ⟨page_eq, byte_eq⟩ := Page.append_inj past_eq.1
    exact ⟨Tape.ext past_eq.2 page_eq, byte_eq⟩
  · rw [(t.push_of_full a t_full).2, (u.push_of_room b u_room).2] at page_eq
    exact absurd page_eq.symm (Page.append_ne_blank _ _ _)
  · rw [(t.push_of_room a t_room).2, (u.push_of_full b u_full).2] at page_eq
    exact absurd page_eq (Page.append_ne_blank _ _ _)
  · rw [(t.push_of_room a t_room).1, (u.push_of_room b u_room).1] at past_eq
    rw [(t.push_of_room a t_room).2, (u.push_of_room b u_room).2] at page_eq
    obtain ⟨page_eq, byte_eq⟩ := Page.append_inj page_eq
    exact ⟨Tape.ext past_eq page_eq, byte_eq⟩

/-- The tape after a permutation shows the tape before it. -/
theorem turn_inj {t u : Tape} (h : t.turn = u.turn) : t = u := by
  have past_eq := congrArg past h
  obtain ⟨page_eq, past_eq⟩ := List.cons.inj past_eq
  exact Tape.ext past_eq page_eq

/-- The last page that a byte closes is full, and the last page that is turned is not. -/
theorem push_ne_turn (t u : Tape) (b : UInt8) : t.push b ≠ u.turn := by
  intro h
  rcases t.full_or_room with full | room
  · have past_eq := congrArg past h
    rw [(t.push_of_full b full).1] at past_eq
    have page_eq : t.page.append b t.room = u.page := (List.cons.inj past_eq).1
    have length_eq := congrArg (fun page => page.bytes.length) page_eq
    simp only [Page.append, List.length_append, List.length_singleton] at length_eq
    have u_room := u.room
    omega
  · have page_eq := congrArg page h
    rw [(t.push_of_room b room).2] at page_eq
    exact Page.append_ne_blank _ _ _ page_eq

/-! ## Strings -/

/-- Nothing is written for nothing. -/
@[simp] theorem pushes_nil (t : Tape) : t.pushes [] = t := rfl

/-- The first byte is written before the others. -/
@[simp] theorem pushes_cons (t : Tape) (b : UInt8) (rest : Bytes) :
    t.pushes (b :: rest) = (t.push b).pushes rest := rfl

/-- Two strings are written as one. -/
theorem pushes_append (t : Tape) (a b : Bytes) : t.pushes (a ++ b) = (t.pushes a).pushes b := by
  rw [pushes, pushes, pushes, List.foldl_append]

/-- The last byte is written behind the others. -/
theorem pushes_concat (t : Tape) (a : Bytes) (b : UInt8) :
    t.pushes (a ++ [b]) = (t.pushes a).push b := by
  rw [pushes_append]
  rfl

/-- If two strings lead to the same tape, one of them is the end of the other. -/
theorem pushes_eq_pushes {t u : Tape} {xs ys : Bytes} (h : t.pushes xs = u.pushes ys) :
    (∃ zs, xs = zs ++ ys ∧ t.pushes zs = u) ∨ (∃ zs, ys = zs ++ xs ∧ u.pushes zs = t) := by
  induction xs using List.reverseRecOn generalizing ys with
  | nil => exact .inr ⟨ys, by simp, h.symm⟩
  | append_singleton xs x ih =>
    rcases List.eq_nil_or_concat' ys with rfl | ⟨ys, y, rfl⟩
    · exact .inl ⟨xs ++ [x], by simp, h⟩
    · rw [pushes_concat, pushes_concat] at h
      obtain ⟨before, rfl⟩ := push_inj h
      rcases ih before with ⟨zs, rfl, aligned⟩ | ⟨zs, rfl, aligned⟩
      · exact .inl ⟨zs, by simp, aligned⟩
      · exact .inr ⟨zs, by simp, aligned⟩

/-- Strings of the same length that lead to the same tape are the same. -/
theorem pushes_inj_of_length {t u : Tape} {xs ys : Bytes} (same : xs.length = ys.length)
    (h : t.pushes xs = u.pushes ys) : t = u ∧ xs = ys := by
  rcases pushes_eq_pushes h with ⟨zs, rfl, aligned⟩ | ⟨zs, rfl, aligned⟩
  all_goals
    rw [List.length_append] at same
    obtain rfl : zs = [] := List.eq_nil_of_length_eq_zero (by omega)
  · exact ⟨aligned, rfl⟩
  · exact ⟨aligned.symm, rfl⟩

/-- Behind a permutation no byte stands on the open page. -/
theorem eq_nil_of_pushes_eq_turn {t u : Tape} {xs : Bytes} (h : t.pushes xs = u.turn) :
    xs = [] := by
  rcases List.eq_nil_or_concat' xs with rfl | ⟨xs, x, rfl⟩
  · rfl
  · rw [pushes_concat] at h
    exact absurd h (push_ne_turn _ _ _)

/-- The open page holds what is left over from full windows. -/
theorem length_pushes (t : Tape) (xs : Bytes) :
    (t.pushes xs).page.bytes.length = (t.page.bytes.length + xs.length) % window := by
  induction xs generalizing t with
  | nil => exact (Nat.mod_eq_of_lt t.room).symm
  | cons b rest ih =>
    rw [pushes_cons, ih, List.length_cons]
    rcases t.full_or_room with full | room
    · have regroup : t.page.bytes.length + (rest.length + 1) = window + rest.length := by omega
      rw [(t.push_of_full b full).2, regroup, Nat.add_mod_left]
      simp [Page.blank]
    · rw [(t.push_of_room b room).2, Page.append, List.length_append, List.length_singleton]
      congr 1
      omega

/-- Bytes for which there is room all go on the open page. -/
theorem pushes_of_room (t : Tape) (xs : Bytes) (room : t.page.bytes.length + xs.length < window) :
    (t.pushes xs).past = t.past ∧ (t.pushes xs).page.bytes = t.page.bytes ++ xs ∧
      (t.pushes xs).page.frame = t.page.frame := by
  induction xs generalizing t with
  | nil => simp
  | cons b rest ih =>
    rw [List.length_cons] at room
    obtain ⟨past_eq, page_eq⟩ := t.push_of_room b (by omega)
    have bytes_eq : (t.push b).page.bytes = t.page.bytes ++ [b] := by
      rw [page_eq, Page.append]
    have frame_eq : (t.push b).page.frame = t.page.frame := by
      rw [page_eq, Page.append]
    have room' : (t.push b).page.bytes.length + rest.length < window := by
      rw [bytes_eq, List.length_append, List.length_singleton]
      omega
    obtain ⟨past_eq', bytes_eq', frame_eq'⟩ := ih (t.push b) room'
    rw [pushes_cons]
    refine ⟨past_eq'.trans past_eq, ?_, frame_eq'.trans frame_eq⟩
    rw [bytes_eq', bytes_eq, List.append_assoc, List.singleton_append]

/-- A frame that started on an earlier page is no longer noted. -/
theorem frame_pushes_of_zero (t : Tape) (xs : Bytes) (zero : t.page.frame = 0) :
    (t.pushes xs).page.frame = 0 := by
  induction xs generalizing t with
  | nil => exact zero
  | cons b rest ih =>
    rw [pushes_cons]
    apply ih
    rcases t.full_or_room with full | room
    · rw [(t.push_of_full b full).2]
      rfl
    · rw [(t.push_of_room b room).2]
      exact zero

/-- Bytes that fill the page lead to one that notes no frame. -/
theorem frame_pushes_of_full (t : Tape) (xs : Bytes)
    (full : window ≤ t.page.bytes.length + xs.length) : (t.pushes xs).page.frame = 0 := by
  induction xs generalizing t with
  | nil =>
    have room := t.room
    simp only [List.length_nil] at full
    omega
  | cons b rest ih =>
    rw [List.length_cons] at full
    rw [pushes_cons]
    rcases t.full_or_room with full' | room
    · apply frame_pushes_of_zero
      rw [(t.push_of_full b full').2]
      rfl
    · apply ih
      rw [(t.push_of_room b room).2, Page.append, List.length_append, List.length_singleton]
      omega

/-! ## The start of a frame -/

/-- The tape stands on the last byte of a window, so that the mark of a new frame fills it. -/
def OnSeam (t : Tape) : Prop :=
  t.page.bytes.length + 1 = window

instance (t : Tape) : Decidable t.OnSeam :=
  inferInstanceAs (Decidable (_ = _))

/-- On a seam, the mark of a frame fills the page, and the next one notes no frame. -/
theorem startFrame_of_seam {t : Tape} (seam : t.OnSeam) :
    t.startFrame.past = t.page.append t.page.frame.toUInt8 t.room :: t.past ∧
      t.startFrame.page = Page.blank := by
  obtain ⟨past_eq, page_eq⟩ := t.push_of_full t.page.frame.toUInt8 seam
  refine ⟨past_eq, ?_⟩
  unfold startFrame
  dsimp only
  rw [page_eq]
  rfl

/-- Elsewhere the mark of a frame goes on the page, which notes its end. -/
theorem startFrame_of_room {t : Tape} (room : t.page.bytes.length + 1 < window) :
    t.startFrame.past = t.past ∧
      t.startFrame.page.bytes = t.page.bytes ++ [t.page.frame.toUInt8] ∧
      t.startFrame.page.frame = t.page.bytes.length + 1 := by
  obtain ⟨past_eq, page_eq⟩ := t.push_of_room t.page.frame.toUInt8 room
  refine ⟨past_eq, ?_, ?_⟩
  · exact congrArg Page.bytes page_eq
  · have marked_eq :
        t.startFrame.page.frame = (t.push t.page.frame.toUInt8).page.bytes.length := rfl
    rw [marked_eq, page_eq, Page.append, List.length_append, List.length_singleton]

/-- A frame starts at the end of its page. -/
theorem frame_startFrame (t : Tape) :
    t.startFrame.page.frame = t.startFrame.page.bytes.length := rfl

/-- The tape after the start of a frame shows the tape before it. -/
theorem startFrame_inj {t u : Tape} (h : t.startFrame = u.startFrame) : t = u := by
  have past_eq := congrArg past h
  have page_eq := congrArg page h
  have bytes_eq := congrArg (fun t => t.page.bytes) h
  rcases t.full_or_room with t_full | t_room <;> rcases u.full_or_room with u_full | u_room
  · rw [(startFrame_of_seam t_full).1, (startFrame_of_seam u_full).1, List.cons.injEq] at past_eq
    exact Tape.ext past_eq.2 (Page.append_inj past_eq.1).1
  · simp [(startFrame_of_seam t_full).2, (startFrame_of_room u_room).2.1, Page.blank] at bytes_eq
  · simp [(startFrame_of_room t_room).2.1, (startFrame_of_seam u_full).2, Page.blank] at bytes_eq
  · rw [(startFrame_of_room t_room).1, (startFrame_of_room u_room).1] at past_eq
    simp only [(startFrame_of_room t_room).2.1, (startFrame_of_room u_room).2.1] at bytes_eq
    obtain ⟨bytes_eq, mark_eq⟩ := List.append_inj' bytes_eq rfl
    have frame_eq := Page.frame_eq_of_toUInt8_eq (List.cons.inj mark_eq).1
    exact Tape.ext past_eq (Page.ext bytes_eq frame_eq)

/-! ## The length of a tape -/

/-- The number of bytes on the tape, with one more for each closed page. -/
def size (t : Tape) : Nat :=
  (t.past.map fun page => page.bytes.length + 1).sum + t.page.bytes.length

/-- A permutation makes a tape longer by one. -/
theorem size_turn (t : Tape) : t.turn.size = t.size + 1 := by
  simp only [size, turn, Page.blank, List.map_cons, List.sum_cons, List.length_nil]
  omega

/-- A byte makes a tape longer. -/
theorem size_lt_push (t : Tape) (b : UInt8) : t.size < (t.push b).size := by
  unfold size
  rcases t.full_or_room with full | room
  · rw [(t.push_of_full b full).1, (t.push_of_full b full).2]
    simp only [Page.append, List.map_cons, List.sum_cons, List.length_append]
    omega
  · rw [(t.push_of_room b room).1, (t.push_of_room b room).2]
    simp only [Page.append, List.length_append, List.length_singleton]
    omega

/-- Bytes make no tape shorter. -/
theorem size_le_pushes (t : Tape) (xs : Bytes) : t.size ≤ (t.pushes xs).size := by
  induction xs generalizing t with
  | nil => exact Nat.le_refl _
  | cons b rest ih =>
    have first := t.size_lt_push b
    have rest := ih (t.push b)
    rw [pushes_cons]
    omega

/-- The start of a frame makes a tape longer. -/
theorem size_lt_startFrame (t : Tape) : t.size < t.startFrame.size :=
  t.size_lt_push t.page.frame.toUInt8

end Tape

end SpongeTranscript
