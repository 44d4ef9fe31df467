import Mathlib.Algebra.Ring.Nat
import SpongeTranscript.LengthCode

set_option autoImplicit false

/-!
# Length codes delimit themselves

A left code says at its front how many bytes it has, so the end of the code is found by a reader who
comes from the front, and nothing that follows can be taken for a part of it. A right code is the
same for a reader who comes from the back. Both are stated as laws of cancellation:
`left_append_cancel` and `append_right_cancel`.
-/

namespace SpongeTranscript.LengthCode

/-- A value below `256 ^ k` has at most `k` bytes. -/
theorem length_bigEndian_le {value k : Nat} (h : value < 256 ^ k) :
    (bigEndian value).length ≤ k := by
  induction value using bigEndian.induct generalizing k with
  | case1 => simp
  | case2 value nonzero ih =>
    cases k with
    | zero =>
      simp only [Nat.pow_zero] at h
      omega
    | succ k =>
      have quotient_lt : value / 256 < 256 ^ k := by
        rw [Nat.pow_succ] at h
        omega
      have := ih quotient_lt
      rw [bigEndian_of_pos (by omega), List.length_append, List.length_singleton]
      omega

/-- A number is known from its bytes. -/
theorem bigEndian_injective {a b : Nat} (h : bigEndian a = bigEndian b) : a = b := by
  rw [← ofBigEndian_bigEndian a, h, ofBigEndian_bigEndian]

/-- Numbers in range have at most 16 bytes. -/
theorem length_bigEndian_of_lt {value : Nat} (h : value < valueBound) :
    (bigEndian value).length ≤ 16 := by
  apply length_bigEndian_le
  have bound_eq : valueBound = 256 ^ 16 := by decide
  rw [← bound_eq]
  exact h

/-- The byte that counts the bytes of a number tells how many there are. -/
theorem count_injective {a b : Nat} (ha : a < valueBound) (hb : b < valueBound)
    (h : (bigEndian a).length.toUInt8 = (bigEndian b).length.toUInt8) :
    (bigEndian a).length = (bigEndian b).length := by
  have a_short := length_bigEndian_of_lt ha
  have b_short := length_bigEndian_of_lt hb
  exact Bytes.eq_of_toUInt8_eq (by omega) (by omega) h

/-- The length in bits of a string has a code if its length in bytes has 64 bits. -/
theorem bitLength_lt_valueBound {count : Nat} (few : count < 2 ^ 64) :
    bitLength count < valueBound := by
  have bound_eq : valueBound = 2 ^ 128 := by decide
  unfold bitLength
  omega

/-- A left code is not a proper beginning of another one. -/
theorem left_append_cancel {a b : Nat} (ha : a < valueBound) (hb : b < valueBound) {x y : Bytes}
    (h : left a ++ x = left b ++ y) : a = b ∧ x = y := by
  unfold left at h
  rw [List.cons_append, List.cons_append, List.cons.injEq] at h
  obtain ⟨count_eq, rest_eq⟩ := h
  have length_eq := count_injective ha hb count_eq
  obtain ⟨value_eq, tail_eq⟩ := List.append_inj rest_eq length_eq
  exact ⟨bigEndian_injective value_eq, tail_eq⟩

/-- A right code is not a proper end of another one. -/
theorem append_right_cancel {a b : Nat} (ha : a < valueBound) (hb : b < valueBound) {x y : Bytes}
    (h : x ++ right a = y ++ right b) : a = b ∧ x = y := by
  unfold right at h
  rw [← List.append_assoc, ← List.append_assoc] at h
  obtain ⟨rest_eq, count_eq⟩ := List.append_inj' h rfl
  have length_eq := count_injective ha hb (List.cons.inj count_eq).1
  obtain ⟨head_eq, value_eq⟩ := List.append_inj' rest_eq length_eq
  exact ⟨bigEndian_injective value_eq, head_eq⟩

end SpongeTranscript.LengthCode
