import SpongeTranscript.Proofs.Duplex.Duality

set_option autoImplicit false

/-!
# Pages

A page is what one window has taken in between two permutations: its bytes, and where the frame
starts that was current when it was closed. `Page.load` puts a page over a state, and `Page.sealed`
is the block that is then handed to the permutation.

The padding loses nothing. Over one state, different pages give different blocks, full pages
included (`sealed_eq_sealed_iff`), and no page reaches the capacity (`byte_sealed_of_rate_le`).
-/

namespace SpongeTranscript

/-- What a window takes in before it is permuted. -/
@[ext]
structure Page where
  /-- The bytes that were absorbed, from the start of the window. -/
  bytes : Bytes
  /-- The offset at which the frame starts, zero if it began on an earlier page. -/
  frame : Nat
  fits : bytes.length ≤ window
  frame_le : frame ≤ bytes.length
  deriving DecidableEq

namespace Page

variable {P : Permutation}

/-- The page with nothing on it. -/
def blank : Page where
  bytes := []
  frame := 0
  fits := by decide
  frame_le := Nat.le_refl 0

/-- The duplex that has absorbed the page, from a state that was just permuted. -/
def load (page : Page) (P : Permutation) (state : State) : Duplex P where
  state := (Exchange.absorb.overlay state 0 page.bytes).2
  position := page.bytes.length
  frame := page.frame

/-- The block that the page turns a state into. -/
def sealed (page : Page) (state : State) : State :=
  (((Exchange.absorb.overlay state 0 page.bytes).2.xorByte page.bytes.length
    page.frame.toUInt8).xorByte (page.bytes.length + 1) 0x01).xorByte (rate - 1) 0x80

/-- What the page adds to the byte at an offset: its own byte, the start of the frame behind the
last one, and the padding. -/
def mask (page : Page) (i : Nat) : UInt8 :=
  page.bytes[i]?.getD 0 ^^^ (if i = page.bytes.length then page.frame.toUInt8 else 0) ^^^
    (if i = page.bytes.length + 1 then 0x01 else 0) ^^^ (if i = rate - 1 then 0x80 else 0)

/-- A duplex with a page over its state is padded to the block of the page. -/
theorem padded_load (page : Page) (state : State) :
    (page.load P state).padded = page.sealed state := rfl

/-- Behind a full window there is room for two more bytes of the rate. -/
theorem window_add_two : window + 2 = rate := rfl

/-- Behind a page there is room for the two bytes of its end, and all of it is outside the
capacity. -/
theorem length_add_two_le (page : Page) :
    page.bytes.length + 2 ≤ rate ∧ rate < width := by
  have fits := page.fits
  have window_add_two := window_add_two
  have rate_lt : rate < width := by decide
  omega

/-! ## The bytes of a block -/

/-- Absorbing adds each byte of a stretch to the byte at its place, and nothing elsewhere. -/
theorem byte_overlay_absorb (state : State) (offset : Nat) (stretch : Bytes)
    (inside : offset + stretch.length ≤ width) (i : Nat) :
    (Exchange.absorb.overlay state offset stretch).2.byte i =
      state.byte i ^^^ (if offset ≤ i then stretch[i - offset]?.getD 0 else 0) := by
  induction stretch generalizing state offset with
  | nil => simp
  | cons b rest ih =>
    simp only [List.length_cons] at inside
    have inside' : offset + 1 + rest.length ≤ width := by omega
    simp only [Exchange.overlay, Exchange.rateByte]
    rw [ih _ _ inside', State.byte_setByte]
    by_cases here : i = offset
    · subst here
      have after : ¬ i + 1 ≤ i := by omega
      have in_width : i < width := by omega
      simp [after, in_width]
    · by_cases before : i < offset
      · have not_le : ¬ offset ≤ i := by omega
        have not_le' : ¬ offset + 1 ≤ i := by omega
        simp [here, not_le, not_le']
      · have le : offset ≤ i := by omega
        have le' : offset + 1 ≤ i := by omega
        obtain ⟨j, rfl⟩ := Nat.exists_eq_add_of_le le'
        have shift : offset + 1 + j - offset = j + 1 := by omega
        simp [here, le, le', shift]

/-- Adding to one byte adds nothing elsewhere. -/
theorem byte_xorByte_of_lt (state : State) {offset : Nat} (inside : offset < width) (i : Nat)
    (m : UInt8) :
    (state.xorByte offset m).byte i = state.byte i ^^^ (if i = offset then m else 0) := by
  rw [State.byte_xorByte]
  by_cases here : i = offset
  · subst here
    simp [inside]
  · simp [here]

/-- The block of a page is the state with the mask of the page added. -/
theorem byte_sealed (page : Page) (state : State) (i : Nat) :
    (page.sealed state).byte i = state.byte i ^^^ page.mask i := by
  obtain ⟨room, rate_lt⟩ := page.length_add_two_le
  have inside : 0 + page.bytes.length ≤ width := by omega
  unfold sealed mask
  rw [byte_xorByte_of_lt _ (by omega), byte_xorByte_of_lt _ (by omega),
    byte_xorByte_of_lt _ (by omega), byte_overlay_absorb _ _ _ inside]
  simp only [Nat.zero_le, ↓reduceIte, Nat.sub_zero, UInt8.xor_assoc]

/-! ## The mask of a page -/

/-- Up to its length, the mask of a page shows its bytes. -/
theorem mask_of_lt (page : Page) {i : Nat} (h : i < page.bytes.length) :
    page.mask i = page.bytes[i] := by
  have room := page.length_add_two_le.1
  have not_end : ¬ i = page.bytes.length := by omega
  have not_behind : ¬ i = page.bytes.length + 1 := by omega
  have not_last : ¬ i = rate - 1 := by omega
  simp [mask, h, not_end, not_behind, not_last]

/-- Behind its bytes, the mask of a page shows where the frame starts. -/
theorem mask_length (page : Page) : page.mask page.bytes.length = page.frame.toUInt8 := by
  have room := page.length_add_two_le.1
  have not_last : ¬ page.bytes.length = rate - 1 := by omega
  simp [mask, not_last]

/-- Behind the start of the frame stands the first padding bit, which shares its byte with the last
one if the page is full. -/
theorem mask_behind (page : Page) :
    page.mask (page.bytes.length + 1) = if page.bytes.length = window then 0x81 else 0x01 := by
  have window_add_two := window_add_two
  by_cases full : page.bytes.length = window
  · have last : page.bytes.length + 1 = rate - 1 := by omega
    have both : (0x01 ^^^ 0x80 : UInt8) = 0x81 := by decide
    rw [mask, if_pos last, if_pos full]
    simp [both]
  · have not_last : ¬ page.bytes.length + 1 = rate - 1 := by omega
    simp [mask, full, not_last]

/-- Behind the first bit of the padding, the mask has only the last one. -/
theorem mask_beyond (page : Page) {i : Nat} (h : page.bytes.length + 1 < i) :
    page.mask i = if i = rate - 1 then 0x80 else 0 := by
  have outside : page.bytes.length ≤ i := by omega
  have not_end : ¬ i = page.bytes.length := by omega
  have not_behind : ¬ i = page.bytes.length + 1 := by omega
  simp [mask, outside, not_end, not_behind]

/-- No page reaches the capacity. -/
theorem byte_sealed_of_rate_le (page : Page) (state : State) {i : Nat} (h : rate ≤ i) :
    (page.sealed state).byte i = state.byte i := by
  have room := page.length_add_two_le.1
  have not_last : ¬ i = rate - 1 := by omega
  rw [byte_sealed, mask_beyond page (by omega), if_neg not_last, UInt8.xor_zero]

/-! ## The padding loses nothing -/

/-- The mask of a page is not that of a longer one: at the padding bit of the longer page, the
shorter one has only its own last bit, or nothing. -/
theorem exists_mask_ne_of_length_lt {a b : Page} (h : a.bytes.length < b.bytes.length) :
    ∃ i, i < rate ∧ a.mask i ≠ b.mask i := by
  have room := b.length_add_two_le.1
  have window_add_two := window_add_two
  refine ⟨b.bytes.length + 1, by omega, ?_⟩
  rw [mask_behind, mask_beyond a (by omega)]
  by_cases full : b.bytes.length = window
  · have last : b.bytes.length + 1 = rate - 1 := by omega
    rw [if_pos last, if_pos full]
    decide
  · have not_last : ¬ b.bytes.length + 1 = rate - 1 := by omega
    rw [if_neg not_last, if_neg full]
    decide

/-- The start of a frame fits into a byte. -/
theorem frame_lt (page : Page) : page.frame < 256 :=
  Nat.lt_of_le_of_lt (Nat.le_trans page.frame_le page.fits) (by decide)

/-- Starts of frames with the same byte are the same. -/
theorem frame_eq_of_toUInt8_eq {a b : Page} (h : a.frame.toUInt8 = b.frame.toUInt8) :
    a.frame = b.frame :=
  Bytes.eq_of_toUInt8_eq a.frame_lt b.frame_lt h

/-- Pages with the same mask are the same. -/
theorem eq_of_mask_eq {a b : Page} (h : ∀ i, i < rate → a.mask i = b.mask i) : a = b := by
  have length_eq : a.bytes.length = b.bytes.length := by
    rcases Nat.lt_trichotomy a.bytes.length b.bytes.length with shorter | same | longer
    · obtain ⟨i, inside, differs⟩ := exists_mask_ne_of_length_lt shorter
      exact absurd (h i inside) differs
    · exact same
    · obtain ⟨i, inside, differs⟩ := exists_mask_ne_of_length_lt longer
      exact absurd (h i inside).symm differs
  have room := a.length_add_two_le.1
  have bytes_eq : a.bytes = b.bytes := by
    apply List.ext_getElem length_eq
    intro i in_a in_b
    rw [← mask_of_lt a in_a, ← mask_of_lt b in_b]
    exact h i (by omega)
  have frame_eq : a.frame = b.frame := by
    apply frame_eq_of_toUInt8_eq
    rw [← mask_length a, ← mask_length b, ← length_eq]
    exact h _ (by omega)
  exact Page.ext bytes_eq frame_eq

/-- Bytes that add up to the same with one byte are the same. -/
theorem xor_left_cancel {r x y : UInt8} (h : r ^^^ x = r ^^^ y) : x = y := by
  rw [← Exchange.xor_xor_cancel r x, h, Exchange.xor_xor_cancel]

/-- Over one state, a block shows the page that it was made from. -/
theorem sealed_eq_sealed_iff {a b : Page} {state : State} :
    a.sealed state = b.sealed state ↔ a = b := by
  constructor
  · intro h
    apply eq_of_mask_eq
    intro i _
    have byte_eq := congrArg (fun s => State.byte s i) h
    simp only [byte_sealed] at byte_eq
    exact xor_left_cancel byte_eq
  · rintro rfl
    rfl

end Page

end SpongeTranscript
