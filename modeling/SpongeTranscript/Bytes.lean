set_option autoImplicit false

/-!
# Byte strings

Everything that a transcript absorbs, transforms or returns is a list of bytes. Texts enter as
their UTF-8 bytes, and a byte string of a known length is a vector.
-/

namespace SpongeTranscript

/-- A byte string. -/
abbrev Bytes := List UInt8

namespace Bytes

/-- The UTF-8 bytes of a text. Lengths of labels and domains count these bytes. -/
def ofText (text : String) : Bytes :=
  text.toUTF8.data.toList

/-- A run of `count` zero bytes. -/
def zeros (count : Nat) : Bytes :=
  List.replicate count 0

/-- The byte string as a vector of `size` bytes, if it has that length. -/
def sized? (size : Nat) (bytes : Bytes) : Option (Vector UInt8 size) :=
  if h : bytes.length = size then some ⟨bytes.toArray, by simpa using h⟩ else none

/-- A run of zero bytes is as long as was asked for. -/
@[simp] theorem length_zeros (count : Nat) : (zeros count).length = count := by
  simp [zeros]

/-- A number below 256 is read back from its byte. -/
theorem toNat_toUInt8_of_lt {value : Nat} (narrow : value < 256) : value.toUInt8.toNat = value :=
  UInt8.toNat_ofNat_of_lt' narrow

/-- Numbers below 256 with the same byte are the same. -/
theorem eq_of_toUInt8_eq {a b : Nat} (a_narrow : a < 256) (b_narrow : b < 256)
    (h : a.toUInt8 = b.toUInt8) : a = b := by
  have value_eq := congrArg UInt8.toNat h
  rwa [toNat_toUInt8_of_lt a_narrow, toNat_toUInt8_of_lt b_narrow] at value_eq

/-- A text is known from its UTF-8 bytes. -/
theorem ofText_injective {a b : String} (h : ofText a = ofText b) : a = b := by
  have bytes_eq : a.toUTF8 = b.toUTF8 := ByteArray.ext (Array.ext' h)
  exact String.toByteArray_inj.mp bytes_eq

/-- The bytes of a vector are a byte string of its length. -/
theorem sized?_toList {size : Nat} (bytes : Vector UInt8 size) :
    sized? size bytes.toList = some bytes := by
  rw [sized?, dif_pos (by simp)]
  exact congrArg some (Vector.toArray_inj.mp (Array.toArray_toList))

/-- A byte string is made a vector exactly if these are the bytes of the vector. -/
theorem sized?_eq_some_iff {size : Nat} {bytes : Bytes} {vector : Vector UInt8 size} :
    sized? size bytes = some vector ↔ vector.toList = bytes := by
  constructor
  · intro h
    unfold sized? at h
    split at h
    · rw [← Option.some.inj h]
      simp
    · cases h
  · rintro rfl
    exact sized?_toList vector

/-- A byte string of another length is refused, and no other one is. -/
theorem sized?_eq_none_iff {size : Nat} {bytes : Bytes} :
    sized? size bytes = none ↔ bytes.length ≠ size := by
  simp [sized?]

end Bytes

end SpongeTranscript
