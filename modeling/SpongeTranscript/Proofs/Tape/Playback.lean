import SpongeTranscript.Proofs.Tape.Basic

set_option autoImplicit false

/-!
# Playing a tape

A permutation turns a tape into a duplex: its closed pages are sealed and permuted one after the
other, and the open page is loaded. Moving the tape on and then playing it is the same as playing it
and then calling the duplex, so a run of calls is known for all permutations at once as soon as its
tape is. A squeeze leaves on the tape the zeros that it adds to the rate.
-/

namespace SpongeTranscript.Tape

variable {P : Permutation}

/-- The state after the closed pages. -/
def opened (P : Permutation) : List Page → State
  | [] => State.zero
  | page :: past => P.apply (page.sealed (opened P past))

/-- The duplex that has taken in the tape. -/
def play (P : Permutation) (t : Tape) : Duplex P :=
  t.page.load P (opened P t.past)

/-- The blank tape is played to a fresh duplex. -/
theorem play_blank : blank.play P = Duplex.fresh := rfl

/-- A page that is closed is played as a permutation. -/
theorem play_turn (t : Tape) : t.turn.play P = (t.play P).permute := rfl

/-- Two stretches that follow each other are overlaid as one. -/
theorem overlay_append (e : Exchange) (state : State) (offset : Nat) (a b : Bytes) :
    (e.overlay state offset (a ++ b)).2 =
      (e.overlay (e.overlay state offset a).2 (offset + a.length) b).2 := by
  induction a generalizing state offset with
  | nil => rfl
  | cons x rest ih =>
    rw [List.cons_append, List.length_cons]
    simp only [Exchange.overlay]
    have regroup : offset + (rest.length + 1) = offset + 1 + rest.length := by omega
    rw [ih, regroup]

/-- One more byte on a page is one more byte over its state. -/
theorem load_append (page : Page) (b : UInt8) (room : page.bytes.length < window)
    (state : State) :
    (page.append b room).load P state =
      { page.load P state with
        state := (page.load P state).state.setByte page.bytes.length
          ((page.load P state).state.byte page.bytes.length ^^^ b)
        position := page.bytes.length + 1 } := by
  unfold Page.load Page.append
  dsimp only
  rw [overlay_append, List.length_append, List.length_singleton, Nat.zero_add]
  rfl

/-- A byte for which there is room is absorbed over the state of the page. -/
theorem load_push {t : Tape} (room : t.page.bytes.length + 1 < window) (b : UInt8)
    (state : State) :
    (t.push b).page.load P state = ((t.page.load P state).step .absorb b).2 := by
  rw [Duplex.step_of_room .absorb b room, (t.push_of_room b room).2, load_append]
  rfl

/-- A byte is played as one step. -/
theorem play_push (t : Tape) (b : UInt8) :
    (t.push b).play P = ((t.play P).step .absorb b).2 := by
  unfold play
  rcases t.full_or_room with full | room
  · rw [Duplex.step_to_window .absorb b full, (t.push_of_full b full).1,
      (t.push_of_full b full).2, opened, ← Page.padded_load (P := P), load_append]
    rfl
  · rw [(t.push_of_room b room).1]
    exact load_push room b _

/-- A tape is never played to a full window. -/
theorem position_play_lt (t : Tape) : (t.play P).position < window :=
  t.room

/-- Bytes are played one by one. -/
theorem play_pushes_steps (t : Tape) (xs : Bytes) :
    (t.pushes xs).play P = ((t.play P).steps .absorb xs).2 := by
  induction xs generalizing t with
  | nil => rfl
  | cons b rest ih => rw [pushes_cons, ih, play_push, Duplex.steps_cons]

/-- Bytes are played as one input that is absorbed. -/
theorem play_pushes (t : Tape) (xs : Bytes) :
    (t.pushes xs).play P = (t.play P).absorb xs := by
  rw [Duplex.absorb, Duplex.exchange_eq_steps t.position_play_lt, play_pushes_steps]

/-- The start of a frame is played as such. -/
theorem play_startFrame (t : Tape) : t.startFrame.play P = (t.play P).startFrame := by
  have marked := t.play_pushes (P := P) [t.page.frame.toUInt8]
  unfold Duplex.startFrame
  dsimp only
  rw [show (t.play P).frame = t.page.frame from rfl, ← marked]
  rfl

/-- Reading the rate is adding zeros to it. -/
theorem steps_squeeze_eq_absorb (d : Duplex P) (buffer : Bytes) :
    (d.steps .squeeze buffer).2 = (d.steps .absorb (Bytes.zeros buffer.length)).2 := by
  induction buffer generalizing d with
  | nil => rfl
  | cons b rest ih =>
    have zeros_eq : Bytes.zeros (rest.length + 1) = 0 :: Bytes.zeros rest.length := rfl
    have same_rate (r : UInt8) : Exchange.squeeze.rateByte r b = Exchange.absorb.rateByte r 0 := by
      rw [Exchange.rateByte, Exchange.rateByte, UInt8.xor_zero]
    have first : (d.step .squeeze b).2 = (d.step .absorb 0).2 := by
      unfold Duplex.step
      dsimp only
      rw [same_rate]
    rw [List.length_cons, zeros_eq, Duplex.steps_cons, Duplex.steps_cons, ih, first]

/-- Squeezing is played as zeros on the tape: it moves on and leaves the rate as it is. -/
theorem play_squeeze (t : Tape) (buffer : Bytes) :
    (t.pushes (Bytes.zeros buffer.length)).play P = ((t.play P).exchange .squeeze buffer).2 := by
  rw [Duplex.exchange_eq_steps t.position_play_lt, steps_squeeze_eq_absorb, play_pushes_steps]

end SpongeTranscript.Tape
