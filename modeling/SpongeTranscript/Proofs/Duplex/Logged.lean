import SpongeTranscript.Proofs.Duplex.Observed

set_option autoImplicit false

/-!
# Logged calls

The permutation is a function and leaves no trace, so the result of a call does not tell how often
it was applied, or to what. The observer here keeps a log: each duplex that is permuted, as it
stands at this moment, with the window full or not. What the permutation is handed is the padded
state of this duplex. The results are those of the plain calls (`result_runLogged`).

A buffer is exchanged window by window. Either it stays inside the window and nothing is permuted
(`exchangeLogged_of_room`), or its beginning fills the window, the duplex is permuted and the rest
is exchanged from there (`exchangeLogged_of_full`). What holds of both cases holds of every exchange
(`exchange_induction`).
-/

namespace SpongeTranscript

variable {P : Permutation}

/-- A result, with the duplexes that were permuted on the way to it, the first one first. -/
@[ext]
structure Logged (P : Permutation) (α : Type) where
  /-- Each duplex at the moment when it was permuted. -/
  permuted : List (Duplex P)
  result : α

/-! ## The observer that keeps a log -/

namespace Logged

variable {α β : Type}

instance : Monad (Logged P) where
  pure a := { permuted := [], result := a }
  bind x f := { permuted := x.permuted ++ (f x.result).permuted, result := (f x.result).result }

/-- Nothing is permuted for a value that is there. -/
@[simp] theorem permuted_pure (a : α) : (pure a : Logged P α).permuted = [] := rfl

/-- A value that is there is the result. -/
@[simp] theorem result_pure (a : α) : (pure a : Logged P α).result = a := rfl

/-- What the first computation permuted stands in the log before what the second one permuted. -/
@[simp] theorem permuted_bind (x : Logged P α) (f : α → Logged P β) :
    (x >>= f).permuted = x.permuted ++ (f x.result).permuted := rfl

/-- The second computation goes on from the result of the first one. -/
@[simp] theorem result_bind (x : Logged P α) (f : α → Logged P β) :
    (x >>= f).result = (f x.result).result := rfl

/-- Goes on whatever is demanded. -/
instance : Guard (Logged P) where
  ensure _ _ := pure ()

/-- Under a log no condition is checked. -/
@[simp] theorem ensure_eq_pure (breach : Breach) (condition : Prop) [Decidable condition] :
    (Guard.ensure breach condition : Logged P Unit) = pure () := rfl

/-- Applies the permutation to the padded state of a duplex, and notes the duplex. -/
instance : Observer P (Logged P) where
  apply d := { permuted := [d], result := P.apply d.padded }

instance : LawfulGuard (Logged P) where
  strict := False
  Returns x a := x.result = a
  returns_pure _ := rfl
  returns_bind returned behind := by
    rw [result_bind, returned]
    exact behind
  returns_ensure := by
    intros
    rfl

instance : LawfulObserver P (Logged P) where
  returns_apply _ _ := rfl

end Logged

namespace Duplex

/-! ## Calls that keep a log -/

/-- Exchanges a whole buffer, and logs what it permutes. -/
def exchangeLogged (d : Duplex P) (e : Exchange) (buffer : Bytes) : Logged P (Bytes × Duplex P) :=
  exchangeObserved e d buffer

/-- Permutes pending bytes, and notes the duplex if there are any. -/
def permutePendingLogged (d : Duplex P) : Logged P (Duplex P) :=
  d.permutePendingObserved

/-- Carries out one call, and logs what it permutes. -/
def callLogged (d : Duplex P) (c : Call) : Logged P (Bytes × Duplex P) :=
  d.callObserved c

/-- Carries out calls one after the other, and logs all that they permute. -/
def runLogged (d : Duplex P) (calls : List Call) : Logged P (List Bytes × Duplex P) :=
  d.runObserved calls

/-! ## The log changes nothing -/

/-- A logged exchange returns what the exchange returns, and leaves the same duplex. -/
theorem result_exchangeLogged {d : Duplex P} (room : d.position < window) (e : Exchange)
    (buffer : Bytes) : (d.exchangeLogged e buffer).result = d.exchange e buffer :=
  returns_exchange (m := Logged P) e room False.elim buffer

/-- The log leaves pending bytes permuted. -/
theorem result_permutePendingLogged (d : Duplex P) :
    d.permutePendingLogged.result = if d.position > 0 then d.permute else d :=
  returns_permutePending (d := d) (m := Logged P) False.elim

/-- A logged call returns what the call returns, and leaves the same duplex. -/
theorem result_callLogged {d : Duplex P} (room : d.position < window) (c : Call) :
    (d.callLogged c).result = d.call c :=
  returns_call (m := Logged P) room False.elim c

/-- A logged run returns what the run returns, and leaves the same duplex. -/
theorem result_runLogged {d : Duplex P} (room : d.position < window) (calls : List Call) :
    (d.runLogged calls).result = d.run calls :=
  returns_run (m := Logged P) room False.elim calls

/-! ## What the calls permute -/

/-- An absorb permutes what its exchange permutes. -/
theorem permuted_callLogged_absorb (d : Duplex P) (input : Bytes) :
    (d.callLogged (.absorb input)).permuted = (d.exchangeLogged .absorb input).permuted := by
  simp [callLogged, callObserved, exchangeLogged]

/-- The start of a frame permutes what the exchange of its mark permutes. -/
theorem permuted_callLogged_startFrame (d : Duplex P) :
    (d.callLogged .startFrame).permuted =
      (d.exchangeLogged .absorb [d.frame.toUInt8]).permuted := by
  simp [callLogged, callObserved, startFrameObserved, pointerByte, exchangeLogged]

/-- A ratchet permutes pending bytes and nothing else. -/
theorem permuted_callLogged_ratchet (d : Duplex P) :
    (d.callLogged .ratchet).permuted = d.permutePendingLogged.permuted := by
  simp [callLogged, callObserved, ratchetObserved, permutePendingLogged, State.clearRate, moveTo]

/-- A run permutes what its first call permutes, and then what the rest does. -/
theorem permuted_runLogged_cons {d : Duplex P} (room : d.position < window) (c : Call)
    (rest : List Call) :
    (d.runLogged (c :: rest)).permuted =
      (d.callLogged c).permuted ++ ((d.call c).2.runLogged rest).permuted := by
  rw [← result_callLogged room]
  simp [runLogged, runObserved, callLogged]

/-- Runs one after the other permute what each of them permutes. -/
theorem permuted_runLogged_append {d : Duplex P} (room : d.position < window) (a b : List Call) :
    (d.runLogged (a ++ b)).permuted =
      (d.runLogged a).permuted ++ ((d.run a).2.runLogged b).permuted := by
  induction a generalizing d with
  | nil => rfl
  | cons c rest ih =>
    rw [List.cons_append, permuted_runLogged_cons room, permuted_runLogged_cons room,
      ih (position_call_lt room c), List.append_assoc]
    rfl

/-! ## Window by window -/

/-- The duplex after a stretch that fits into the window, before anything is permuted. -/
def overlaid (d : Duplex P) (e : Exchange) (stretch : Bytes) : Duplex P :=
  { d with
    state := (e.overlay d.state d.position stretch).2
    position := d.position + stretch.length }

/-- Nothing is permuted while a stretch is overlaid. -/
theorem overlayObserved_eq_pure (e : Exchange) (state : State) (offset : Nat) (stretch : Bytes) :
    (e.overlayObserved state offset stretch : Logged P (Bytes × State)) =
      pure (e.overlay state offset stretch) := by
  apply Logged.ext
  · induction stretch generalizing state offset with
    | nil => rfl
    | cons b rest ih => simp [Exchange.overlayObserved, State.readRate, State.writeRate, ih]
  · exact e.returns_overlay (m := Logged P) state False.elim

/-- A stretch that leaves the window open is overlaid, and nothing is permuted. -/
theorem exchangeStretchObserved_of_room {d : Duplex P} (e : Exchange) {stretch : Bytes}
    (room : d.position + stretch.length < window) :
    (d.exchangeStretchObserved e stretch : Logged P (Bytes × Duplex P)) =
      pure ((e.overlay d.state d.position stretch).1, d.overlaid e stretch) := by
  have not_full : ¬ d.position + stretch.length = window := Nat.ne_of_lt room
  unfold exchangeStretchObserved advanceObserved
  rw [overlayObserved_eq_pure]
  apply Logged.ext
  · simp [moveTo, not_full]
  · simp [moveTo, not_full, overlaid]

/-- A stretch that fills the window is overlaid, and then the duplex is permuted. -/
theorem exchangeStretchObserved_of_full {d : Duplex P} (e : Exchange) {stretch : Bytes}
    (full : d.position + stretch.length = window) :
    (d.exchangeStretchObserved e stretch : Logged P (Bytes × Duplex P)) =
      { permuted := [d.overlaid e stretch]
        result := ((e.overlay d.state d.position stretch).1, (d.overlaid e stretch).permute) } := by
  unfold exchangeStretchObserved advanceObserved
  rw [overlayObserved_eq_pure]
  apply Logged.ext
  · simp [moveTo, full, overlaid, permuteObserved, Observer.apply]
  · simp [moveTo, full, overlaid, permuteObserved, Observer.apply, permute]

/-- An exchange of nothing does not permute. -/
@[simp] theorem exchangeLogged_nil (d : Duplex P) (e : Exchange) :
    d.exchangeLogged e [] = { permuted := [], result := ([], d) } := by
  rw [exchangeLogged, exchangeObserved, if_pos rfl]
  rfl

/-- As long as the window is open, one round of the loop takes a stretch. -/
theorem exchangeLogged_of_take {d : Duplex P} (e : Exchange) {buffer : Bytes} {count : Nat}
    (count_eq : min d.room buffer.length = count) (some_taken : count ≠ 0) :
    d.exchangeLogged e buffer = (do
      let (done, d) ← d.exchangeStretchObserved e (buffer.take count)
      let (more, d) ← d.exchangeLogged e (buffer.drop count)
      return (done ++ more, d)) := by
  have nonempty : buffer ≠ [] := by
    rintro rfl
    rw [List.length_nil] at count_eq
    omega
  have room_ne : d.room ≠ 0 := by omega
  rw [exchangeLogged, exchangeObserved, if_neg nonempty]
  apply Logged.ext
  · simp [roomObserved, count_eq, room_ne, nonempty, exchangeLogged]
  · simp [roomObserved, count_eq, room_ne, nonempty, exchangeLogged]

/-- A buffer that leaves the window open permutes nothing. -/
theorem exchangeLogged_of_room {d : Duplex P} (e : Exchange) {buffer : Bytes}
    (room : d.position + buffer.length < window) :
    d.exchangeLogged e buffer =
      { permuted := []
        result := ((e.overlay d.state d.position buffer).1, d.overlaid e buffer) } := by
  by_cases empty : buffer = []
  · subst empty
    exact exchangeLogged_nil d e
  · have length_pos := List.length_pos_iff.mpr empty
    have room_def : d.room = window - d.position := rfl
    have count_eq : min d.room buffer.length = buffer.length := by omega
    rw [exchangeLogged_of_take e count_eq (by omega), List.take_length, List.drop_length,
      exchangeStretchObserved_of_room e room]
    apply Logged.ext
    · simp
    · simp

/-- A buffer that leaves the window open is overlaid. -/
theorem exchange_of_room {d : Duplex P} (e : Exchange) {buffer : Bytes}
    (room : d.position + buffer.length < window) :
    d.exchange e buffer = ((e.overlay d.state d.position buffer).1, d.overlaid e buffer) := by
  have open_window : d.position < window := Nat.lt_of_le_of_lt (Nat.le_add_right _ _) room
  rw [← result_exchangeLogged open_window, exchangeLogged_of_room e room]

/-- A buffer whose beginning fills the window goes on behind the permutation. -/
theorem exchangeLogged_of_full {d : Duplex P} (e : Exchange) {a : Bytes} (b : Bytes)
    (open_window : d.position < window) (full : d.position + a.length = window) :
    d.exchangeLogged e (a ++ b) =
      let rest := (d.overlaid e a).permute.exchangeLogged e b
      { permuted := d.overlaid e a :: rest.permuted
        result := ((e.overlay d.state d.position a).1 ++ rest.result.1, rest.result.2) } := by
  have room_def : d.room = window - d.position := rfl
  have count_eq : min d.room (a ++ b).length = a.length := by
    rw [List.length_append]
    omega
  rw [exchangeLogged_of_take e count_eq (by omega), List.take_left, List.drop_left,
    exchangeStretchObserved_of_full e full]
  apply Logged.ext
  · simp
  · rfl

/-- A buffer that does not leave the window open has a beginning that fills it. -/
theorem exists_full {d : Duplex P} (open_window : d.position < window) {buffer : Bytes}
    (enough : ¬ d.position + buffer.length < window) :
    ∃ a b, buffer = a ++ b ∧ d.position + a.length = window := by
  refine ⟨buffer.take d.room, buffer.drop d.room, (List.take_append_drop _ _).symm, ?_⟩
  have room_def : d.room = window - d.position := rfl
  rw [List.length_take]
  omega

/-- What holds of exchanges that leave the window open, and of one that fills it as soon as it holds
of the rest, holds of all exchanges. -/
theorem exchange_induction (e : Exchange) {motive : Duplex P → Bytes → Prop}
    (of_room : ∀ d buffer, d.position + buffer.length < window → motive d buffer)
    (of_full : ∀ d a b, d.position < window → d.position + a.length = window →
      motive (d.overlaid e a).permute b → motive d (a ++ b))
    {d : Duplex P} (open_window : d.position < window) (buffer : Bytes) : motive d buffer := by
  induction length_eq : buffer.length using Nat.strongRecOn generalizing d buffer with
  | ind size ih =>
    by_cases room : d.position + buffer.length < window
    · exact of_room d buffer room
    · obtain ⟨a, b, rfl, full⟩ := exists_full open_window room
      rw [List.length_append] at length_eq
      apply of_full d a b open_window full
      exact ih b.length (by omega) (valid_permute _).position_lt b rfl

/-- An exchange that permutes nothing leaves the window open. -/
theorem room_of_permuted_eq_nil {d : Duplex P} {e : Exchange} {buffer : Bytes}
    (open_window : d.position < window) (quiet : (d.exchangeLogged e buffer).permuted = []) :
    d.position + buffer.length < window := by
  by_cases room : d.position + buffer.length < window
  · exact room
  · obtain ⟨a, b, rfl, full⟩ := exists_full open_window room
    rw [exchangeLogged_of_full e b open_window full] at quiet
    cases quiet

end Duplex

end SpongeTranscript
