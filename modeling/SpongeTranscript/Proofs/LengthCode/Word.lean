import Mathlib.Algebra.Ring.Nat
import Mathlib.Data.List.Induction
import Mathlib.Order.Bounds.Basic
import SpongeTranscript.Proofs.LengthCode

set_option autoImplicit false

/-!
# Codes of words

The bytes of a length code are the shortest that spell its number: no zero byte stands in front of
them, so there are as few of them as bytes with room for the number can be
(`isLeast_length_bigEndian`).

Numbers of a fixed width have a shorter way to these bytes. The number is a word of 128 bits, and
the leading zero bits of the word, rounded down to whole bytes, tell which of its sixteen bytes are
left out. The other ones are copied into a buffer, next to their count. This gives the same codes
for every word, and no copy goes beyond the buffer (`Word.left?_eq`, `Word.right?_eq`). Words are
wide enough for the length in bits of any string.
-/

namespace SpongeTranscript.LengthCode

/-! ## Shortest bytes -/

/-- A number is smaller than the next power of 256 behind its bytes. -/
theorem lt_pow_length_bigEndian (value : Nat) : value < 256 ^ (bigEndian value).length := by
  induction value using bigEndian.induct with
  | case1 => simp
  | case2 value nonzero ih =>
    rw [bigEndian_of_pos (by omega), List.length_append, List.length_singleton, Nat.pow_succ]
    omega

/-- No bytes with room for the number are fewer than its shortest bytes. -/
theorem isLeast_length_bigEndian (value : Nat) :
    IsLeast { count | value < 256 ^ count } (bigEndian value).length := by
  constructor
  · exact lt_pow_length_bigEndian value
  · intro count enough
    exact length_bigEndian_le enough

/-- Bytes stand for a number below their power of 256. -/
theorem ofBigEndian_lt (bytes : Bytes) : ofBigEndian bytes < 256 ^ bytes.length := by
  induction bytes using List.reverseRecOn with
  | nil => simp [ofBigEndian]
  | append_singleton bytes byte ih =>
    have byte_lt := byte.toNat_lt
    rw [ofBigEndian_concat, List.length_append, List.length_singleton, Nat.pow_succ]
    omega

/-- A zero byte in front could be left out, and the rest would spell the same number. -/
theorem head?_bigEndian_ne_zero (value : Nat) : (bigEndian value).head? ≠ some 0 := by
  intro zero_first
  obtain ⟨rest, bytes_eq⟩ := List.head?_eq_some_iff.mp zero_first
  have rest_spells : ofBigEndian rest = value := by
    rw [← ofBigEndian_bigEndian value, bytes_eq]
    simp [ofBigEndian]
  have rest_enough : value < 256 ^ rest.length := by
    rw [← rest_spells]
    exact ofBigEndian_lt rest
  have length_le := length_bigEndian_le rest_enough
  rw [bytes_eq, List.length_cons] at length_le
  omega

/-- The `count` lowest bytes of a number, the most significant one first. -/
def lowBytes : Nat → Nat → Bytes
  | 0, _ => []
  | count + 1, value => lowBytes count (value / 256) ++ [value.toUInt8]

/-- All low bytes of zero are zero. -/
@[simp] theorem lowBytes_zero (count : Nat) : lowBytes count 0 = Bytes.zeros count := by
  induction count with
  | zero => rfl
  | succ count ih => simp [lowBytes, ih, Bytes.zeros, List.replicate_succ']

/-- In front of the shortest bytes the lowest bytes are zero. -/
theorem lowBytes_eq {count value : Nat} (enough : value < 256 ^ count) :
    lowBytes count value =
      Bytes.zeros (count - (bigEndian value).length) ++ bigEndian value := by
  induction count generalizing value with
  | zero =>
    have value_eq : value = 0 := by simpa using enough
    simp [value_eq]
  | succ count ih =>
    rcases Nat.eq_zero_or_pos value with rfl | positive
    · simp
    · have quotient_lt : value / 256 < 256 ^ count := by
        rw [Nat.pow_succ] at enough
        omega
      rw [lowBytes, ih quotient_lt, bigEndian_of_pos positive]
      simp

/-! ## Codes in a buffer -/

/-- Size of a word in bytes. -/
abbrev wordLength : Nat := 16

/-- Size of the longest codes. -/
abbrev longestCode : Nat := 1 + wordLength

/-- Copies a piece over the bytes of a buffer between `start` and `stop`, if the piece has this
length and the buffer goes so far. -/
def copyInto (buffer : Bytes) (start stop : Nat) (piece : Bytes) : Option Bytes :=
  if start + piece.length = stop ∧ stop ≤ buffer.length then
    some (buffer.take start ++ piece ++ buffer.drop stop)
  else
    none

/-- Copies two pieces into a new buffer, the second one from `seam` on, and returns the buffer up to
`stop`. -/
def assemble (seam stop : Nat) (front back : Bytes) : Option Bytes := do
  let buffer ← copyInto (Bytes.zeros longestCode) 0 seam front
  let buffer ← copyInto buffer seam stop back
  return buffer.take stop

/-- A copy into a range of the right length replaces what was there. -/
theorem copyInto_of_fits {buffer piece : Bytes} {start stop : Nat}
    (length_eq : start + piece.length = stop) (fits : stop ≤ buffer.length) :
    copyInto buffer start stop piece = some (buffer.take start ++ piece ++ buffer.drop stop) :=
  if_pos ⟨length_eq, fits⟩

/-- Two parts that meet at the seam and fit into the buffer are put together without a fault. -/
theorem assemble_eq {front back : Bytes} {seam stop : Nat} (front_length : front.length = seam)
    (back_length : seam + back.length = stop) (fits : stop ≤ longestCode) :
    assemble seam stop front back = some (front ++ back) := by
  let filled := front ++ (Bytes.zeros longestCode).drop seam
  have first : copyInto (Bytes.zeros longestCode) 0 seam front = some filled :=
    copyInto_of_fits (by omega) (by simp; omega)
  have filled_fits : stop ≤ filled.length := by
    simp [filled]
    omega
  have second := copyInto_of_fits back_length filled_fits
  have kept : filled.take seam = front := List.take_left' front_length
  rw [kept] at second
  rw [assemble, first]
  dsimp only [bind, Option.bind, pure]
  rw [second]
  dsimp only
  rw [List.take_left' (by simp [front_length, back_length])]

/-! ## Codes of words -/

/-- A number of 128 bits. -/
abbrev Word := BitVec 128

namespace Word

/-- The number of bytes behind the leading zero bytes. -/
def byteCount (word : Word) : Nat :=
  wordLength - word.clz.toNat / 8

/-- The bytes behind the leading zero bytes. -/
def significant (word : Word) : Bytes :=
  (lowBytes wordLength word.toNat).drop (wordLength - word.byteCount)

/-- The left code of a word. -/
def left? (word : Word) : Option Bytes :=
  assemble 1 (word.byteCount + 1) [word.byteCount.toUInt8] word.significant

/-- The right code of a word. -/
def right? (word : Word) : Option Bytes :=
  assemble word.byteCount (word.byteCount + 1) word.significant [word.byteCount.toUInt8]

/-- Eight times a word, unless this is too large for a word. -/
def bitLength? (word : Word) : Option Word :=
  if word.umulOverflow 8 then none else some (word * 8)

/-- A word is below the bound of all codes. -/
theorem toNat_lt (word : Word) : word.toNat < valueBound :=
  word.isLt

/-- A word fits into its significant bytes. -/
theorem toNat_lt_pow_byteCount (word : Word) : word.toNat < 256 ^ word.byteCount := by
  have below : word.toNat < 2 ^ (128 - word.clz.toNat) := BitVec.toNat_lt_two_pow_sub_clz
  have bits_le : 128 - word.clz.toNat ≤ 8 * word.byteCount := by
    unfold byteCount wordLength
    omega
  calc
    word.toNat < 2 ^ (128 - word.clz.toNat) := below
    _ ≤ 2 ^ (8 * word.byteCount) := Nat.pow_le_pow_right (by omega) bits_le
    _ = 256 ^ word.byteCount := Nat.pow_mul 2 8 word.byteCount

/-- The first bit that is set lies in the first byte that is counted. -/
theorem byteCount_le {word : Word} {count : Nat} (enough : word.toNat < 256 ^ count) :
    word.byteCount ≤ count := by
  by_cases zero : word = 0
  · subst zero
    exact Nat.zero_le count
  · have above : 2 ^ (127 - word.clz.toNat) ≤ word.toNat :=
      BitVec.two_pow_sub_clz_le_toNat_of_ne_zero (by omega) zero
    have powers_lt : 2 ^ (127 - word.clz.toNat) < 2 ^ (8 * count) :=
      calc
        2 ^ (127 - word.clz.toNat) ≤ word.toNat := above
        _ < 256 ^ count := enough
        _ = 2 ^ (8 * count) := (Nat.pow_mul 2 8 count).symm
    have bits_lt := (Nat.pow_lt_pow_iff_right (by omega)).mp powers_lt
    unfold byteCount wordLength
    omega

/-- The significant bytes are those of the number, none more and none less. -/
theorem byteCount_eq (word : Word) : word.byteCount = (bigEndian word.toNat).length := by
  have least : IsLeast { count | word.toNat < 256 ^ count } word.byteCount :=
    ⟨toNat_lt_pow_byteCount word, fun _ enough => byteCount_le enough⟩
  exact least.unique (isLeast_length_bigEndian word.toNat)

/-- What is left of a word without its leading zeros is its number in bytes. -/
theorem significant_eq (word : Word) : word.significant = bigEndian word.toNat := by
  have enough : word.toNat < 256 ^ wordLength := word.isLt
  rw [significant, lowBytes_eq enough, byteCount_eq]
  exact List.drop_left' (Bytes.length_zeros _)

/-- The longest code fits into the buffer. -/
theorem length_bigEndian_succ_le (word : Word) :
    (bigEndian word.toNat).length + 1 ≤ longestCode := by
  have length_le := length_bigEndian_of_lt word.toNat_lt
  unfold longestCode wordLength
  omega

/-- The buffer is never left while a left code is assembled, and it then holds the code. -/
theorem left?_eq (word : Word) : word.left? = some (left word.toNat) := by
  rw [left?, significant_eq, byteCount_eq]
  exact assemble_eq rfl (Nat.add_comm 1 _) (length_bigEndian_succ_le word)

/-- The buffer is never left while a right code is assembled, and it then holds the code. -/
theorem right?_eq (word : Word) : word.right? = some (right word.toNat) := by
  rw [right?, significant_eq, byteCount_eq]
  exact assemble_eq rfl rfl (length_bigEndian_succ_le word)

-- one more byte counts as soon as the leading zero bits do not make up a whole byte
example : (255 : Word).right? = some [255, 1] ∧ (256 : Word).right? = some [1, 0, 2] := by decide

/-- The length in bits of a string whose length in bytes has 64 bits is a word. -/
theorem toNat_bitLength? {count : Nat} (short : count < 2 ^ 64) :
    (bitLength? (.ofNat 128 count)).map BitVec.toNat = some (bitLength count) := by
  have count_eq : (BitVec.ofNat 128 count).toNat = count :=
    Nat.mod_eq_of_lt (Nat.lt_trans short (by omega))
  have no_overflow : ¬ (BitVec.ofNat 128 count).umulOverflow 8 = true := by
    rw [BitVec.umulOverflow, count_eq]
    simp
    omega
  rw [bitLength?, if_neg no_overflow, Option.map_some,
    BitVec.toNat_mul_of_not_umulOverflow no_overflow, count_eq]
  exact congrArg some (Nat.mul_comm count 8)

end Word

/-- Behind a left code the rest is read without doubt. -/
theorem left_append_inj {a b : Word} {x y : Bytes} :
    left a.toNat ++ x = left b.toNat ++ y ↔ a = b ∧ x = y := by
  constructor
  · intro same
    obtain ⟨value_eq, rest_eq⟩ := left_append_cancel a.toNat_lt b.toNat_lt same
    exact ⟨BitVec.eq_of_toNat_eq value_eq, rest_eq⟩
  · rintro ⟨rfl, rfl⟩
    rfl

/-- In front of a right code the rest is read without doubt. -/
theorem append_right_inj {a b : Word} {x y : Bytes} :
    x ++ right a.toNat = y ++ right b.toNat ↔ a = b ∧ x = y := by
  constructor
  · intro same
    obtain ⟨value_eq, rest_eq⟩ := append_right_cancel a.toNat_lt b.toNat_lt same
    exact ⟨BitVec.eq_of_toNat_eq value_eq, rest_eq⟩
  · rintro ⟨rfl, rfl⟩
    rfl

/-- Whatever follows a left code or precedes a right code, the bytes tell the word and the rest. A
code is what the buffer of its word holds: the count of the value's bytes next to these bytes, which
spell the value, begin with no zero byte and are as few as bytes with room for the value can be.
Zero has no bytes besides their count. The length in bits of a string fits into a word. -/
theorem codes_are_shortest_and_delimited :
    (∀ (a b : Word) (x y : Bytes),
      (left a.toNat ++ x = left b.toNat ++ y ↔ a = b ∧ x = y) ∧
      (x ++ right a.toNat = y ++ right b.toNat ↔ a = b ∧ x = y)) ∧
    (∀ a : Word, let bytes := bigEndian a.toNat
      a.left? = some (left a.toNat) ∧ left a.toNat = bytes.length.toUInt8 :: bytes ∧
      a.right? = some (right a.toNat) ∧ right a.toNat = bytes ++ [bytes.length.toUInt8] ∧
      ofBigEndian bytes = a.toNat ∧ bytes.head? ≠ some 0 ∧
      IsLeast { count | a.toNat < 256 ^ count } bytes.length ∧ bytes.length ≤ 16) ∧
    (left 0 = [0] ∧ right 0 = [0]) ∧
    (∀ count : UInt64, bitLength count.toNat < valueBound ∧
      (Word.bitLength? (.ofNat 128 count.toNat)).map BitVec.toNat =
        some (bitLength count.toNat)) ∧
    (∀ count : USize, bitLength count.toNat < valueBound ∧
      (Word.bitLength? (.ofNat 128 count.toNat)).map BitVec.toNat =
        some (bitLength count.toNat)) := by
  refine ⟨fun _ _ _ _ => ⟨left_append_inj, append_right_inj⟩, ?_, ⟨?_, ?_⟩, ?_, ?_⟩
  · intro a bytes
    exact ⟨a.left?_eq, rfl, a.right?_eq, rfl, ofBigEndian_bigEndian a.toNat,
      head?_bigEndian_ne_zero a.toNat, isLeast_length_bigEndian a.toNat,
      length_bigEndian_of_lt a.toNat_lt⟩
  · simp [left]
  · simp [right]
  · intro count
    exact ⟨bitLength_lt_valueBound count.toNat_lt, Word.toNat_bitLength? count.toNat_lt⟩
  · intro count
    exact ⟨bitLength_lt_valueBound count.toNat_lt, Word.toNat_bitLength? count.toNat_lt⟩

end SpongeTranscript.LengthCode
