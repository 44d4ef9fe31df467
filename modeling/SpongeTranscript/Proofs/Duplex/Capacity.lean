import SpongeTranscript.Proofs.Duplex.Guarded
import SpongeTranscript.Proofs.Duplex.Logged
import SpongeTranscript.Proofs.Tape.Page

set_option autoImplicit false

/-!
# Only the permutation reaches the capacity

Calls read and write the window and nothing behind it, wherever the position stands. The frame and
the padding go at most two bytes further, and only into the block that is handed to the permutation.
So behind the window each block is what the permutation before has left, apart from these bytes, and
in the capacity it is that without exception.

It follows that the bytes behind the window do not show before the permutation mixes them in: two
duplexes that differ in them only give the same answers, and keep them, until then
(`capacity_is_only_permuted`).
-/

namespace SpongeTranscript

variable {P : Permutation}

/-! ## What an exchange leaves alone -/

namespace Exchange

/-- Bytes behind a stretch stay as they are. -/
theorem byte_overlay_behind (x : Exchange) (state : State) {offset i : Nat} {stretch : Bytes}
    (behind : offset + stretch.length ≤ i) :
    (x.overlay state offset stretch).2.byte i = state.byte i := by
  induction stretch generalizing state offset with
  | nil => rfl
  | cons b rest ih =>
    rw [List.length_cons] at behind
    have elsewhere : ¬ (i = offset ∧ i < width) := by omega
    rw [overlay]
    dsimp only
    rw [ih _ (by omega), State.byte_setByte, if_neg elsewhere]

/-- What an exchange does depends on the window only. -/
theorem overlay_congr (x : Exchange) {a b : State} {offset : Nat} {stretch : Bytes}
    (fits : offset + stretch.length ≤ window) (same : ∀ i, i < window → a.byte i = b.byte i) :
    (x.overlay a offset stretch).1 = (x.overlay b offset stretch).1 ∧
      ∀ i, i < window →
        (x.overlay a offset stretch).2.byte i = (x.overlay b offset stretch).2.byte i := by
  induction stretch generalizing a b offset with
  | nil => exact ⟨rfl, same⟩
  | cons r rest ih =>
    rw [List.length_cons] at fits
    have byte_eq := same offset (by omega)
    have fits' : offset + 1 + rest.length ≤ window := by omega
    have set_same : ∀ i, i < window →
        (a.setByte offset (x.rateByte (a.byte offset) r)).byte i =
          (b.setByte offset (x.rateByte (b.byte offset) r)).byte i := by
      intro i inside
      rw [State.byte_setByte, State.byte_setByte, byte_eq, same i inside]
    obtain ⟨out_eq, left_eq⟩ := ih fits' set_same
    refine ⟨?_, left_eq⟩
    rw [overlay, overlay]
    dsimp only
    rw [out_eq, byte_eq]

end Exchange

namespace Duplex

/-! ## From one permutation to the next -/

/-- The duplex has come from a state without a permutation: nothing has changed behind the
window. -/
structure Follows (d : Duplex P) (s : State) : Prop where
  position_le : d.position ≤ window
  behind_eq : ∀ i, window ≤ i → d.state.byte i = s.byte i

/-- Each duplex of a log comes from what the permutation before has left, the first one from the
state at the start, and so does the duplex at the end. -/
def Linked (s : State) : List (Duplex P) → Duplex P → Prop
  | [], final => final.Follows s
  | m :: log, final => m.Follows s ∧ Linked m.permute.state log final

/-- The state that the last permutation of a log has left, or that of the start. -/
def leftBy (d : Duplex P) (log : List (Duplex P)) : State :=
  ((log.map permute).getLastD d).state

/-- Where nothing has happened, nothing has changed behind the window. -/
theorem follows_self {d : Duplex P} (position_le : d.position ≤ window) : d.Follows d.state :=
  ⟨position_le, fun _ _ => rfl⟩

/-- Two ways without a permutation are one. -/
theorem Follows.trans {d m : Duplex P} {s : State} (h : m.Follows s) (h' : d.Follows m.state) :
    d.Follows s := by
  refine ⟨h'.position_le, ?_⟩
  intro i behind
  rw [h'.behind_eq i behind, h.behind_eq i behind]

/-- The log of two parts is linked if the second part starts where the first one ends. -/
theorem Linked.append {s : State} {log log' : List (Duplex P)} {m final : Duplex P}
    (h : Linked s log m) (h' : Linked m.state log' final) : Linked s (log ++ log') final := by
  induction log generalizing s with
  | nil =>
    cases log' with
    | nil => exact Follows.trans h h'
    | cons first rest => exact ⟨Follows.trans h h'.1, h'.2⟩
  | cons first rest ih => exact ⟨h.1, ih h.2⟩

/-- A linked log stays linked if the end is moved on without a permutation. -/
theorem Linked.trans_follows {s : State} {log : List (Duplex P)} {m final : Duplex P}
    (h : Linked s log m) (h' : final.Follows m.state) : Linked s log final := by
  have whole : Linked s (log ++ []) final := h.append h'
  rwa [List.append_nil] at whole

/-- Up to each of its entries, a linked log is a linked log. -/
theorem Linked.of_append_cons {s : State} {before after : List (Duplex P)} {m final : Duplex P}
    (h : Linked s (before ++ m :: after) final) : Linked s before m := by
  induction before generalizing s with
  | nil => exact h.1
  | cons first rest ih => exact ⟨h.1, ih h.2⟩

/-- The duplex at the end comes from what the last permutation has left. -/
theorem Linked.follows_leftBy {d final : Duplex P} {log : List (Duplex P)}
    (h : Linked d.state log final) : final.Follows (d.leftBy log) := by
  induction log generalizing d with
  | nil => exact h
  | cons m rest ih =>
    rw [leftBy, List.map_cons, List.getLastD_cons]
    exact ih h.2

/-! ## Calls -/

/-- A stretch that fits into the window leaves everything behind it alone. -/
theorem follows_overlaid {d : Duplex P} (x : Exchange) {stretch : Bytes}
    (fits : d.position + stretch.length ≤ window) : (d.overlaid x stretch).Follows d.state := by
  refine ⟨fits, ?_⟩
  intro i behind
  exact x.byte_overlay_behind d.state (Nat.le_trans fits behind)

/-- Each permutation of an exchange starts from what the one before has left. -/
theorem linked_exchange {d : Duplex P} (room : d.position < window) (x : Exchange)
    (buffer : Bytes) :
    Linked d.state (d.exchangeLogged x buffer).permuted (d.exchange x buffer).2 := by
  rw [← result_exchangeLogged room]
  refine exchange_induction x (motive := fun d buffer => Linked d.state
    (d.exchangeLogged x buffer).permuted (d.exchangeLogged x buffer).result.2) ?_ ?_ room buffer
  · intro d buffer room
    rw [exchangeLogged_of_room x room]
    exact follows_overlaid x (Nat.le_of_lt room)
  · intro d a b room full rest
    rw [exchangeLogged_of_full x b room full]
    exact ⟨follows_overlaid x (Nat.le_of_eq full), rest⟩

/-- The one permutation that may be pending starts from the duplex itself. -/
theorem linked_permutePending {d : Duplex P} (room : d.position < window) :
    Linked d.state d.permutePendingLogged.permuted d.permutePendingLogged.result := by
  unfold permutePendingLogged permutePendingObserved
  split
  · exact ⟨follows_self (Nat.le_of_lt room), follows_self (Nat.zero_le window)⟩
  · exact follows_self (Nat.le_of_lt room)

/-- Zeroing the start of the rate leaves everything behind the window alone. -/
theorem follows_clear (d : Duplex P) :
    Follows (P := P) { d with state := d.state.clear capacity, position := capacity } d.state := by
  refine ⟨(by decide : capacity ≤ window), ?_⟩
  intro i behind
  have kept : ¬ i < capacity := Nat.not_lt.mpr (Nat.le_trans (by decide) behind)
  rw [State.byte_clear, if_neg kept]

/-- Each permutation of a call starts from what the one before has left, unless the call wipes. -/
theorem linked_call {d : Duplex P} (room : d.position < window) {c : Call} (kept : c ≠ .wipe) :
    Linked d.state (d.callLogged c).permuted (d.call c).2 := by
  cases c with
  | absorb input =>
    rw [permuted_callLogged_absorb]
    exact linked_exchange room .absorb input
  | squeeze count => exact linked_exchange room .squeeze (Bytes.zeros count)
  | encrypt plaintext => exact linked_exchange room .encrypt plaintext
  | decrypt ciphertext => exact linked_exchange room .decrypt ciphertext
  | permute => exact ⟨follows_self (Nat.le_of_lt room), follows_self (Nat.zero_le window)⟩
  | startFrame =>
    have marked_room := position_exchange_lt room .absorb [d.frame.toUInt8]
    rw [permuted_callLogged_startFrame]
    exact (linked_exchange room .absorb _).trans_follows ⟨Nat.le_of_lt marked_room, fun _ _ => rfl⟩
  | ratchet =>
    rw [permuted_callLogged_ratchet]
    have erased := (linked_permutePending room).trans_follows (follows_clear _)
    rw [result_permutePendingLogged] at erased
    exact erased
  | wipe => exact absurd rfl kept

/-- Each permutation of a run starts from what the one before has left, unless the run wipes. -/
theorem linked_run {d : Duplex P} (h : d.Valid) {calls : List Call} (kept : .wipe ∉ calls) :
    Linked d.state (d.runLogged calls).permuted (d.run calls).2 := by
  induction calls generalizing d with
  | nil => exact follows_self (Nat.le_of_lt h.position_lt)
  | cons c rest ih =>
    obtain ⟨first, later⟩ := List.ne_and_not_mem_of_not_mem_cons kept
    rw [permuted_runLogged_cons h.position_lt]
    exact (linked_call h.position_lt first.symm).append (ih (valid_call h c) later)

/-! ## The bytes that padding adds -/

/-- What is added to the byte at an offset when the duplex is permuted: the start of the frame at
the position, the first padding bit behind it, and the last one at the end of the rate. -/
def padding (d : Duplex P) (i : Nat) : UInt8 :=
  (if i = d.position then d.frame.toUInt8 else 0) ^^^ (if i = d.position + 1 then 0x01 else 0) ^^^
    (if i = rate - 1 then 0x80 else 0)

/-- Padding adds to each byte what stands in the padding at its offset. -/
theorem byte_padded {d : Duplex P} (position_le : d.position ≤ window) (i : Nat) :
    d.padded.byte i = d.state.byte i ^^^ d.padding i := by
  have window_add_two : window + 2 = rate := rfl
  have rate_lt : rate < width := by decide
  unfold padded padding
  rw [Page.byte_xorByte_of_lt _ (by omega), Page.byte_xorByte_of_lt _ (by omega),
    Page.byte_xorByte_of_lt _ (by omega)]
  simp only [UInt8.xor_assoc]

/-- The padding ends with the rate. -/
theorem padding_of_rate_le {d : Duplex P} (position_le : d.position ≤ window) {i : Nat}
    (beyond : rate ≤ i) : d.padding i = 0 := by
  have window_add_two : window + 2 = rate := rfl
  have not_position : ¬ i = d.position := by omega
  have not_behind : ¬ i = d.position + 1 := by omega
  have not_last : ¬ i = rate - 1 := by omega
  simp [padding, not_position, not_behind, not_last]

/-! ## Two duplexes that differ behind the window -/

/-- The duplexes have the same pointers and the same bytes in the window. -/
structure SameWindow (d e : Duplex P) : Prop where
  position_eq : d.position = e.position
  frame_eq : d.frame = e.frame
  byte_eq : ∀ i, i < window → d.state.byte i = e.state.byte i

/-- The answers are the same, and so are the windows afterwards. -/
structure Alike {α : Type} (x y : α × Duplex P) : Prop where
  out_eq : x.1 = y.1
  same : x.2.SameWindow y.2

section

variable {d e : Duplex P} (same : d.SameWindow e)
include same

/-- A ratchet with nothing pending erases both windows alike. -/
theorem alike_ratchet (quiet : d.permutePendingLogged.permuted = []) :
    e.permutePendingLogged.permuted = [] ∧ d.ratchet.SameWindow e.ratchet := by
  by_cases pending : d.position > 0
  · rw [permutePendingLogged, permutePendingObserved, if_pos pending] at quiet
    cases quiet
  · unfold permutePendingLogged permutePendingObserved ratchet
    rw [← same.position_eq, if_neg pending, if_neg pending, if_neg pending]
    refine ⟨rfl, rfl, same.frame_eq, ?_⟩
    intro i inside
    rw [State.byte_clear, State.byte_clear, same.byte_eq i inside]

variable (open_window : d.position < window)
include open_window

/-- An exchange that does not permute reads and writes the same in both windows. -/
theorem alike_exchange (x : Exchange) {buffer : Bytes}
    (quiet : (d.exchangeLogged x buffer).permuted = []) :
    (e.exchangeLogged x buffer).permuted = [] ∧
      Alike (d.exchange x buffer) (e.exchange x buffer) := by
  have room := room_of_permuted_eq_nil open_window quiet
  have room' : e.position + buffer.length < window := by
    rw [← same.position_eq]
    exact room
  obtain ⟨out_eq, byte_eq⟩ := x.overlay_congr (Nat.le_of_lt room) same.byte_eq
  rw [exchangeLogged_of_room x room', exchange_of_room x room, exchange_of_room x room']
  unfold overlaid
  rw [← same.position_eq]
  exact ⟨rfl, out_eq, rfl, same.frame_eq, byte_eq⟩

/-- A start of a frame that does not permute is written to both windows alike. -/
theorem alike_startFrame (quiet : (d.exchangeLogged .absorb [d.frame.toUInt8]).permuted = []) :
    (e.exchangeLogged .absorb [e.frame.toUInt8]).permuted = [] ∧
      d.startFrame.SameWindow e.startFrame := by
  obtain ⟨quiet', marked⟩ := alike_exchange same open_window .absorb quiet
  unfold startFrame absorb
  rw [← same.frame_eq]
  exact ⟨quiet', marked.same.position_eq, marked.same.position_eq, marked.same.byte_eq⟩

/-- A call that does not permute answers the same on both duplexes. -/
theorem alike_call {c : Call} (kept : c ≠ .wipe) (quiet : (d.callLogged c).permuted = []) :
    (e.callLogged c).permuted = [] ∧ Alike (d.call c) (e.call c) := by
  cases c with
  | absorb input =>
    rw [permuted_callLogged_absorb] at quiet ⊢
    obtain ⟨quiet', absorbed⟩ := alike_exchange same open_window .absorb quiet
    exact ⟨quiet', rfl, absorbed.same⟩
  | squeeze count => exact alike_exchange same open_window .squeeze quiet
  | encrypt plaintext => exact alike_exchange same open_window .encrypt quiet
  | decrypt ciphertext => exact alike_exchange same open_window .decrypt quiet
  | permute => cases quiet
  | startFrame =>
    rw [permuted_callLogged_startFrame] at quiet ⊢
    obtain ⟨quiet', marked⟩ := alike_startFrame same open_window quiet
    exact ⟨quiet', rfl, marked⟩
  | ratchet =>
    rw [permuted_callLogged_ratchet] at quiet ⊢
    obtain ⟨quiet', erased⟩ := alike_ratchet same quiet
    exact ⟨quiet', rfl, erased⟩
  | wipe => exact absurd rfl kept

end

/-- A run that does not permute answers the same on both duplexes, to the end. -/
theorem alike_run {d e : Duplex P} (same : d.SameWindow e) (h : d.Valid) {calls : List Call}
    (kept : .wipe ∉ calls) (quiet : (d.runLogged calls).permuted = []) :
    (e.runLogged calls).permuted = [] ∧ Alike (d.run calls) (e.run calls) := by
  induction calls generalizing d e with
  | nil => exact ⟨rfl, rfl, same⟩
  | cons c rest ih =>
    obtain ⟨first_kept, rest_kept⟩ := List.ne_and_not_mem_of_not_mem_cons kept
    rw [permuted_runLogged_cons h.position_lt, List.append_eq_nil_iff] at quiet
    obtain ⟨quiet_first, first⟩ := alike_call same h.position_lt first_kept.symm quiet.1
    obtain ⟨quiet_rest, later⟩ := ih first.same (valid_call h c) rest_kept quiet.2
    have open_e : e.position < window := by
      rw [← same.position_eq]
      exact h.position_lt
    rw [permuted_runLogged_cons open_e, quiet_first, quiet_rest, run, run]
    dsimp only
    rw [first.out_eq, later.out_eq]
    exact ⟨rfl, rfl, later.same⟩

/-- In a run from a valid duplex without a wipe, each block that is handed to the permutation has
the capacity that the permutation before has left, or that of the start. The two reserved bytes
before the capacity differ from those left by the frame and the padding only. Behind the last
permutation nothing behind the window changes any more.

If the run permutes nothing, then from a duplex that is the same in the window and in its pointers
it permutes nothing either, gives the same answers and leaves the same window, and in both all bytes
behind the window are as before. -/
theorem capacity_is_only_permuted {d : Duplex P} (h : d.Valid) (calls : List Call)
    (kept : .wipe ∉ calls) :
    let log := (d.runLogged calls).permuted
    (∀ before m after, log = before ++ m :: after →
      (∀ i, rate ≤ i → i < width → m.padded.byte i = (d.leftBy before).byte i) ∧
      (∀ i, window ≤ i → i < rate →
        m.padded.byte i = (d.leftBy before).byte i ^^^ m.padding i)) ∧
    (∀ i, window ≤ i → i < width → (d.run calls).2.state.byte i = (d.leftBy log).byte i) ∧
    (∀ e : Duplex P, d.SameWindow e → log = [] →
      (e.runLogged calls).permuted = [] ∧ (d.run calls).1 = (e.run calls).1 ∧
      (d.run calls).2.SameWindow (e.run calls).2 ∧
      ∀ i, window ≤ i → i < width → (d.run calls).2.state.byte i = d.state.byte i ∧
        (e.run calls).2.state.byte i = e.state.byte i) := by
  intro log
  have linked : Linked d.state log (d.run calls).2 := linked_run h kept
  refine ⟨?_, fun i behind _ => linked.follows_leftBy.behind_eq i behind, ?_⟩
  · intro before m after log_eq
    rw [log_eq] at linked
    obtain ⟨position_le, behind_eq⟩ := linked.of_append_cons.follows_leftBy
    constructor
    · intro i beyond _
      rw [byte_padded position_le, padding_of_rate_le position_le beyond, UInt8.xor_zero,
        behind_eq i (Nat.le_trans (by decide) beyond)]
    · intro i behind _
      rw [byte_padded position_le, behind_eq i behind]
  · intro e same quiet
    have valid_e : e.Valid := by
      refine ⟨?_, ?_⟩
      · rw [← same.position_eq]
        exact h.position_lt
      · rw [← same.position_eq, ← same.frame_eq]
        exact h.frame_le
    obtain ⟨quiet_e, alike⟩ := alike_run same h kept quiet
    have linked_e := linked_run valid_e kept
    rw [quiet] at linked
    rw [quiet_e] at linked_e
    refine ⟨quiet_e, alike.out_eq, alike.same, ?_⟩
    intro i behind _
    exact ⟨linked.behind_eq i behind, linked_e.behind_eq i behind⟩

/-- Two bytes fill the window, and the frame goes into the first reserved byte of the block. A run
that starts with the window empty permutes nothing, and so does not show that a reserved byte and
one of the capacity differ. -/
theorem capacity_is_only_permuted_at_end :
    let P : Permutation := { name := "successor", apply := Vector.map (· + 1) }
    let base : State := State.zero.setByte 199 7
    let d : Duplex P := { state := base, position := 164, frame := 3 }
    let m := d.overlaid .absorb [1, 2]
    let e : Duplex P := { state := base, position := 0, frame := 0 }
    let e' : Duplex P := { e with state := (base.setByte 166 5).setByte 199 8 }
    let calls : List Call := [.ratchet, .encrypt [1, 2], .startFrame, .squeeze 3]
    d.Valid ∧ (d.runLogged [.absorb [1, 2]]).permuted = [m] ∧
      m.padded.byte 199 = 7 ∧ m.padded.byte 166 = 3 ∧
      e.Valid ∧ e.SameWindow e' ∧ (e.runLogged calls).permuted = [] ∧
      (e.run calls).1 = (e'.run calls).1 ∧ (e'.run calls).2.state.byte 199 = 8 := by
  intro P base d m e e' calls
  have valid_d : d.Valid := ⟨by decide, by decide⟩
  have valid_e : e.Valid := ⟨by decide, by decide⟩
  have log_eq : (d.runLogged [.absorb [1, 2]]).permuted = [] ++ m :: [] := by
    have full := exchangeLogged_of_full (d := d) .absorb (a := [1, 2]) [] (by decide) rfl
    rw [exchangeLogged_nil] at full
    rw [permuted_runLogged_cons valid_d.position_lt, permuted_callLogged_absorb]
    exact congrArg (Logged.permuted · ++ []) full
  have quiet : (e.runLogged calls).permuted = [] := by decide +kernel
  have same : e.SameWindow e' := ⟨rfl, rfl, by decide +kernel⟩
  obtain ⟨blocks, -, -⟩ := capacity_is_only_permuted valid_d [.absorb [1, 2]] (by decide)
  obtain ⟨in_capacity, reserved⟩ := blocks [] m [] log_eq
  obtain ⟨-, -, two_runs⟩ := capacity_is_only_permuted valid_e calls (by decide)
  obtain ⟨-, out_eq, -, unchanged⟩ := two_runs e' same quiet
  refine ⟨valid_d, log_eq, ?_, ?_, valid_e, same, quiet, out_eq, ?_⟩
  · exact (in_capacity 199 (by decide) (by decide)).trans (by decide +kernel)
  · exact (reserved 166 (by decide) (by decide)).trans (by decide +kernel)
  · exact (unchanged 199 (by decide) (by decide)).2.trans (by decide +kernel)

end Duplex

end SpongeTranscript
