import SpongeTranscript.Bytes

set_option autoImplicit false

/-!
# The permuted state

A state is a fixed array of 200 bytes. A permutation is any function on states together with the
name it is shown by: the sponge needs no more of it, and laws that need an injective or bijective
function ask for it where they are stated.
-/

namespace SpongeTranscript

/-- Size of the state in bytes. -/
abbrev width : Nat := 200

/-- The bytes that the permutation acts on. -/
abbrev State := Vector UInt8 width

namespace State

/-- The state whose bytes are all zero. -/
def zero : State := Vector.replicate width 0

/-- The byte at an offset, and zero outside the state. -/
def byte (state : State) (offset : Nat) : UInt8 :=
  state[offset]?.getD 0

/-- Stores one byte. Offsets outside the state change nothing. -/
def setByte (state : State) (offset : Nat) (value : UInt8) : State :=
  state.setIfInBounds offset value

/-- XORs a mask into one byte. -/
def xorByte (state : State) (offset : Nat) (mask : UInt8) : State :=
  state.setByte offset (state.byte offset ^^^ mask)

/-- Zeroes the first `count` bytes. -/
def clear (state : State) (count : Nat) : State :=
  Vector.ofFn fun i => if i.val < count then 0 else state[i]

/-- A byte of the state is the entry at its offset. -/
theorem byte_eq_getElem (state : State) {offset : Nat} (h : offset < width) :
    state.byte offset = state[offset] := by
  simp [byte, h]

/-- Two states with the same bytes are the same state. -/
theorem ext_byte {a b : State} (h : ∀ i, i < width → a.byte i = b.byte i) : a = b := by
  apply Vector.ext
  intro i hi
  simpa [byte_eq_getElem _ hi] using h i hi

/-- All bytes of the zero state are zero. -/
@[simp] theorem byte_zero (offset : Nat) : zero.byte offset = 0 := by
  by_cases h : offset < width
  · simp [byte_eq_getElem _ h, zero]
  · simp [byte, h]

/-- Setting a byte changes this byte only. -/
theorem byte_setByte (state : State) (offset i : Nat) (value : UInt8) :
    (state.setByte offset value).byte i =
      if i = offset ∧ i < width then value else state.byte i := by
  by_cases h : i < width
  · by_cases same : i = offset
    · subst same
      simp [byte_eq_getElem _ h, setByte, h]
    · simp [byte_eq_getElem _ h, setByte, same, Ne.symm same]
  · simp [byte, h]

/-- Adding to a byte changes this byte only. -/
theorem byte_xorByte (state : State) (offset i : Nat) (mask : UInt8) :
    (state.xorByte offset mask).byte i =
      if i = offset ∧ i < width then state.byte i ^^^ mask else state.byte i := by
  rw [xorByte, byte_setByte]
  split
  · rename_i h
    rw [h.1]
  · rfl

/-- Clearing changes the bytes at the start only. -/
theorem byte_clear (state : State) (count i : Nat) :
    (state.clear count).byte i = if i < count then 0 else state.byte i := by
  by_cases h : i < width
  · simp [byte_eq_getElem _ h, clear]
  · simp [byte, h]

end State

/-- A function on states, with the name it is shown by. -/
structure Permutation where
  /-- The name under which the permutation is shown. -/
  name : String
  /-- The image of a state. -/
  apply : State → State

end SpongeTranscript
