import Mathlib.Data.FinEnum
import Mathlib.SetTheory.Cardinal.Finite
import SpongeTranscript.Proofs.Transcript.Divergence

set_option autoImplicit false

/-!
# What the ratchet erases

The ratchet announces itself, permutes what is then pending, and zeroes the start of the rate. It
need not permute where its header ends with a window, since the last byte of the header has then
brought a permutation about. Either way the block that holds this byte has been permuted
(`permutePending_absorb`), so all that came before, the header included, is mixed into the state
that is erased from.

If the permutation is a bijection, this state is a bijective image of the state at the start: all
calls on the way lose nothing. The zeroing is the only loss, and `ratchet_erases_capacity` counts
it. Each possible result comes from as many states as there are ways to fill the erased bytes.
-/

namespace SpongeTranscript

variable {P : Permutation}

/-! ## Counting states -/

namespace State

instance : Finite State := by
  apply Finite.of_injective fun (state : State) (i : Fin width) => state.byte i
  intro a b same
  apply ext_byte
  intro i inside
  exact congrFun same ⟨i, inside⟩

/-- States are cleared to the same exactly if they agree behind what is cleared. -/
theorem clear_eq_clear_iff {a b : State} {count : Nat} :
    a.clear count = b.clear count ↔ ∀ i, count ≤ i → i < width → a.byte i = b.byte i := by
  constructor
  · intro same i kept _
    have byte_eq := congrArg (fun state => byte state i) same
    simpa [byte_clear, Nat.not_lt.mpr kept] using byte_eq
  · intro same
    apply ext_byte
    intro i inside
    rw [byte_clear, byte_clear]
    split
    · rfl
    · rename_i kept
      exact same i (Nat.le_of_not_lt kept) inside

/-- A state that starts with zeros stays as it is. -/
theorem clear_eq_self {state : State} {count : Nat}
    (zero : ∀ i, i < count → state.byte i = 0) : state.clear count = state := by
  apply ext_byte
  intro i _
  rw [byte_clear]
  split
  · rename_i cleared
    exact (zero i cleared).symm
  · rfl

/-- The state with other bytes at its start. -/
def refill (state : State) {count : Nat} (bytes : Fin count → UInt8) : State :=
  Vector.ofFn fun i => if h : i.val < count then bytes ⟨i, h⟩ else state[i]

/-- The new bytes stand at the start, and the old ones behind them. -/
theorem byte_refill (state : State) {count i : Nat} (bytes : Fin count → UInt8)
    (inside : i < width) :
    (state.refill bytes).byte i = if h : i < count then bytes ⟨i, h⟩ else state.byte i := by
  rw [byte_eq_getElem _ inside, byte_eq_getElem _ inside, refill, Vector.getElem_ofFn]
  rfl

/-- Other bytes at the start make no difference once they are cleared. -/
theorem clear_refill (state : State) {count : Nat} (bytes : Fin count → UInt8) :
    (state.refill bytes).clear count = state.clear count := by
  rw [clear_eq_clear_iff]
  intro i kept inside
  rw [byte_refill _ _ inside, dif_neg (Nat.not_lt.mpr kept)]

/-- There are 256 bytes. -/
theorem card_byte : Nat.card UInt8 = 256 := by
  rw [Nat.card_congr FinEnum.equiv, Nat.card_fin]
  simp

/-- As many states are cleared to one and the same as there are ways to fill the cleared bytes. -/
theorem card_clear_eq {target : State} {count : Nat} (count_le : count ≤ width)
    (zero : ∀ i, i < count → target.byte i = 0) :
    Nat.card { state : State // state.clear count = target } = 256 ^ count := by
  have bijective : Function.Bijective
      fun (state : { state : State // state.clear count = target }) (i : Fin count) =>
        state.val.byte i := by
    constructor
    · rintro ⟨a, a_clear⟩ ⟨b, b_clear⟩ same
      have tail_eq := clear_eq_clear_iff.mp (a_clear.trans b_clear.symm)
      apply Subtype.ext
      apply ext_byte
      intro i inside
      by_cases cleared : i < count
      · exact congrFun same ⟨i, cleared⟩
      · exact tail_eq i (Nat.le_of_not_lt cleared) inside
    · intro bytes
      refine ⟨⟨target.refill bytes, ?_⟩, ?_⟩
      · rw [clear_refill, clear_eq_self zero]
      · funext i
        simp [byte_refill _ _ (Nat.lt_of_lt_of_le i.isLt count_le)]
  rw [Nat.card_eq_of_bijective _ bijective, Nat.card_fun, Nat.card_fin, card_byte]

end State

/-! ## The permutation before the erasure -/

namespace Duplex

/-- Permutes the state, unless there are no pending bytes. -/
def permutePending (d : Duplex P) : Duplex P :=
  if d.position > 0 then d.permute else d

/-- Adds one more byte to the rate, and leaves the window full if this fills it. -/
def hold (d : Duplex P) (b : UInt8) : Duplex P :=
  { d with state := d.state.xorByte d.position b, position := d.position + 1 }

/-- The block that holds the last byte is permuted, by that byte if it fills the window and by what
comes next if it does not. -/
theorem permutePending_absorb {d : Duplex P} (room : d.position < window) (before : Bytes)
    (last : UInt8) :
    (d.absorb (before ++ [last])).permutePending = ((d.absorb before).hold last).permute := by
  have room' : (d.absorb before).position < window := position_exchange_lt room .absorb before
  rw [absorb_append room]
  generalize d.absorb before = d at room'
  have stepped : d.absorb [last] = (d.step .absorb last).2 :=
    congrArg Prod.snd (exchange_eq_steps room' .absorb [last])
  rw [stepped]
  by_cases full : d.position + 1 = window
  · rw [step_to_window .absorb last full]
    rfl
  · rw [step_of_room .absorb last (by omega)]
    exact if_pos (Nat.succ_pos d.position)

/-- An injective permutation keeps diverged duplexes apart, whether it is pending or not. -/
theorem diverged_permutePending (injective : Function.Injective P.apply) {d e : Duplex P}
    (h : d.Diverged e) : d.permutePending.Diverged e.permutePending := by
  unfold permutePending
  rw [← h.position_eq]
  split
  · exact diverged_permute injective h
  · exact h

end Duplex

/-! ## The ratchet -/

namespace Transcript

/-- The state that the ratchet erases from. -/
def mixedForRatchet (t : Transcript P) (label : String) : State :=
  (t.announce .ratchet label).duplex.permutePending.state

/-- Every header has a last byte. -/
theorem header_eq_concat (op : Opcode) (label : String) :
    ∃ before last, header op label = before ++ [last] :=
  (List.eq_nil_or_concat' _).resolve_left (List.length_pos_iff.mp (length_header_pos op label))

/-- The block that holds the last byte of the header is permuted before the erasure. -/
theorem exists_permutePending_announce {t : Transcript P} (room : t.duplex.position < window)
    (op : Opcode) (label : String) :
    ∃ before last, header op label = before ++ [last] ∧
      (t.announce op label).duplex.permutePending =
        ((t.duplex.startFrame.absorb before).hold last).permute := by
  have marked : t.duplex.startFrame.position < window := Duplex.position_exchange_lt room _ _
  obtain ⟨before, last, header_eq⟩ := header_eq_concat op label
  refine ⟨before, last, header_eq, ?_⟩
  unfold announce absorb
  dsimp only
  rw [header_eq, Duplex.permutePending_absorb marked]

/-- The ratchet zeroes the start of the mixed state and stands behind the zeros. -/
theorem ratchet_eq {t : Transcript P} (room : t.duplex.position < window) (label : String) :
    t.ratchet label = ⟨{
      state := (t.mixedForRatchet label).clear capacity
      position := capacity
      frame := 0 }⟩ := by
  obtain ⟨before, last, -, permuted⟩ := exists_permutePending_announce room .ratchet label
  have frame_eq : (t.announce .ratchet label).duplex.permutePending.frame = 0 := by
    rw [permuted]
    rfl
  rw [← frame_eq]
  rfl

/-- The transcript stands behind a start of the rate that was erased. -/
structure Erased (u : Transcript P) : Prop where
  position_eq : u.duplex.position = capacity
  frame_eq : u.duplex.frame = 0
  zero : ∀ i, i < capacity → u.duplex.state.byte i = 0

/-- The ratchet ends in a transcript exactly if it is erased and holds what the zeroing leaves. -/
theorem ratchet_eq_iff {t u : Transcript P} (room : t.duplex.position < window)
    (label : String) : t.ratchet label = u ↔
      u.Erased ∧ (t.mixedForRatchet label).clear capacity = u.duplex.state := by
  rw [ratchet_eq room]
  constructor
  · rintro rfl
    refine ⟨⟨rfl, rfl, ?_⟩, rfl⟩
    intro i cleared
    simp [State.byte_clear, cleared]
  · rintro ⟨⟨position_eq, frame_eq, -⟩, state_eq⟩
    rw [state_eq, ← position_eq, ← frame_eq]

/-- The transcript with these pointers over a state. -/
abbrev ofState (P : Permutation) (position frame : Nat) (state : State) : Transcript P :=
  ⟨⟨state, position, frame⟩⟩

/-- No part of the state is lost before the erasure: whatever the label is, only calls that lose
nothing come before. -/
theorem mixedForRatchet_bijective (injective : Function.Injective P.apply) (position frame : Nat)
    (label : String) :
    Function.Bijective fun state => (ofState P position frame state).mixedForRatchet label := by
  apply Finite.injective_iff_bijective.mp
  intro a b same
  by_contra different
  have apart : (ofState P position frame a).duplex.Diverged (ofState P position frame b).duplex :=
    ⟨rfl, rfl, different⟩
  have lossless : ∀ c ∈ announceParts .ratchet label, c.Lossless := by
    simp [announceParts, Duplex.Call.Lossless]
  have announced := Duplex.diverged_run injective apart lossless
  exact (Duplex.diverged_permutePending injective announced).state_ne same

section

variable (bijective : Function.Bijective P.apply) (label : String) {position : Nat}
  (room : position < window) (frame : Nat)
include bijective room

/-- Every erased transcript is what the ratchet leaves of some state, and nothing else is. -/
theorem erased_iff_exists_ratchet_eq (u : Transcript P) :
    u.Erased ↔ ∃ state, (ofState P position frame state).ratchet label = u := by
  constructor
  · intro erased
    obtain ⟨state, mixed_eq⟩ :=
      (mixedForRatchet_bijective bijective.injective position frame label).surjective u.duplex.state
    refine ⟨state, (ratchet_eq_iff room label).mpr ⟨erased, ?_⟩⟩
    dsimp only at mixed_eq
    rw [mixed_eq, State.clear_eq_self erased.zero]
  · rintro ⟨state, result_eq⟩
    exact ((ratchet_eq_iff room label).mp result_eq).1

/-- Each erased transcript comes from as many states as there are ways to fill what was erased. -/
theorem card_ratchet_eq {u : Transcript P} (erased : u.Erased) :
    Nat.card { state // (ofState P position frame state).ratchet label = u } = 256 ^ capacity := by
  have mixed_bijective := mixedForRatchet_bijective bijective.injective position frame label
  let fibre : { state // (ofState P position frame state).ratchet label = u } ≃
      { mixed : State // mixed.clear capacity = u.duplex.state } :=
    (Equiv.ofBijective _ mixed_bijective).subtypeEquiv fun state =>
      (ratchet_eq_iff room label).trans (and_iff_right erased)
  rw [Nat.card_congr fibre]
  exact State.card_clear_eq (by decide) erased.zero

end

/-- Let the permutation be a bijection and fix the label and the pointers. Then the results of the
ratchet are the transcripts behind an erased start of the rate, and each of them comes from
`256 ^ 32` states. The erasure is all that is lost: the state that it starts from is a bijective
image of the state at the beginning, the end of the header having been permuted into it, and the
results for two states are the same exactly if these images differ in erased bytes only. -/
theorem ratchet_erases_capacity (bijective : Function.Bijective P.apply) (label : String)
    {position : Nat} (room : position < window) (frame : Nat) :
    let start : State → Transcript P := ofState P position frame
    let mixed (state : State) : State := (start state).mixedForRatchet label
    (∀ u : Transcript P, u.Erased ↔ ∃ state, (start state).ratchet label = u) ∧
    (∀ u : Transcript P, u.Erased →
      Nat.card { state // (start state).ratchet label = u } = 256 ^ capacity) ∧
    Function.Bijective mixed ∧
    (∀ state, ∃ before last, header .ratchet label = before ++ [last] ∧
      mixed state = P.apply (((start state).duplex.startFrame.absorb before).hold last).padded) ∧
    (∀ state, (start state).ratchet label =
      ⟨{ state := (mixed state).clear capacity, position := capacity, frame := 0 }⟩) ∧
    (∀ a b, (start a).ratchet label = (start b).ratchet label ↔
      ∀ i, capacity ≤ i → i < width → (mixed a).byte i = (mixed b).byte i) := by
  intro start mixed
  have result (state : State) : (start state).ratchet label =
      ⟨{ state := (mixed state).clear capacity, position := capacity, frame := 0 }⟩ :=
    ratchet_eq room label
  refine ⟨erased_iff_exists_ratchet_eq bijective label room frame,
    fun u erased => card_ratchet_eq bijective label room frame erased,
    mixedForRatchet_bijective bijective.injective position frame label, ?_, result, ?_⟩
  · intro state
    obtain ⟨before, last, header_eq, permuted⟩ :=
      exists_permutePending_announce (t := start state) room .ratchet label
    exact ⟨before, last, header_eq, congrArg Duplex.state permuted⟩
  · intro a b
    rw [result, result, ← State.clear_eq_clear_iff]
    simp

/-- From this position the header ends with the window, so the ratchet itself does not permute. -/
theorem ratchet_erases_capacity_on_seam :
    let P : Permutation := { name := "reversal", apply := Vector.reverse }
    let start : State → Transcript P := ofState P 161 3
    let u : Transcript P := ofState P capacity 0 State.zero
    ((start State.zero).announce .ratchet "a").duplex.position = 0 ∧
      (∃ state, (start state).ratchet "a" = u) ∧
      Nat.card { state // (start state).ratchet "a" = u } = 256 ^ capacity := by
  intro P start u
  have bijective : Function.Bijective P.apply :=
    Function.Involutive.bijective Vector.reverse_reverse
  have room : 161 < window := by decide
  have erased : u.Erased := ⟨rfl, rfl, fun i _ => State.byte_zero i⟩
  obtain ⟨reached, count, -⟩ := ratchet_erases_capacity bijective "a" room 3
  refine ⟨?_, (reached u).mp erased, count u erased⟩
  decide +kernel

end Transcript

end SpongeTranscript
