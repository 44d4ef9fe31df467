import SpongeTranscript.Bytes

set_option autoImplicit false

/-!
# Length codes

A number is written as its shortest big-endian bytes next to the count of these bytes: before them
in the left code, which is read forwards, and behind them in the right code, which is read
backwards. Zero has no big-endian bytes, so both of its codes are the single byte zero. The codes
serve values below `2 ^ 128`, whose count is at most sixteen.
-/

namespace SpongeTranscript.LengthCode

/-- Exclusive upper end of the values that the codes serve. -/
def valueBound : Nat := Nat.pow 2 128

/-- The shortest big-endian bytes of a number. -/
def bigEndian (value : Nat) : Bytes :=
  if value = 0 then [] else bigEndian (value / 256) ++ [value.toUInt8]
termination_by value

/-- The number that big-endian bytes stand for. -/
def ofBigEndian (bytes : Bytes) : Nat :=
  bytes.foldl (fun value byte => 256 * value + byte.toNat) 0

/-- The count of the value's bytes, then these bytes. -/
def left (value : Nat) : Bytes :=
  (bigEndian value).length.toUInt8 :: bigEndian value

/-- The value's bytes, then their count. -/
def right (value : Nat) : Bytes :=
  bigEndian value ++ [(bigEndian value).length.toUInt8]

/-- The length in bits of a string of `count` bytes. -/
def bitLength (count : Nat) : Nat :=
  8 * count

/-- Zero has no bytes. -/
@[simp] theorem bigEndian_zero : bigEndian 0 = [] := by
  simp [bigEndian]

/-- The last byte of a number is its remainder by 256, and the quotient stands before it. -/
theorem bigEndian_of_pos {value : Nat} (h : 0 < value) :
    bigEndian value = bigEndian (value / 256) ++ [value.toUInt8] := by
  rw [bigEndian, if_neg (by omega)]

/-- One more byte at the end multiplies the number by 256. -/
@[simp] theorem ofBigEndian_concat (bytes : Bytes) (byte : UInt8) :
    ofBigEndian (bytes ++ [byte]) = 256 * ofBigEndian bytes + byte.toNat := by
  simp [ofBigEndian]

/-- Reading the shortest bytes gives the number back. -/
@[simp] theorem ofBigEndian_bigEndian (value : Nat) : ofBigEndian (bigEndian value) = value := by
  induction value using bigEndian.induct with
  | case1 => simp [ofBigEndian]
  | case2 value nonzero ih =>
    rw [bigEndian_of_pos (by omega), ofBigEndian_concat, ih]
    simp only [Nat.toUInt8, UInt8.toNat_ofNat']
    omega

/-- A left code is one byte longer than its number. -/
theorem length_left (value : Nat) :
    (left value).length = (bigEndian value).length + 1 := by
  simp [left]

/-- A right code is one byte longer than its number. -/
theorem length_right (value : Nat) :
    (right value).length = (bigEndian value).length + 1 := by
  simp [right]

end SpongeTranscript.LengthCode
