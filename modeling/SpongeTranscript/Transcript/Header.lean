import SpongeTranscript.LengthCode

set_option autoImplicit false

/-!
# Operation headers

Every operation on a transcript opens with its opcode, the left code of the label's length in bits
and the label. A body of variable length is closed by a trailer, the right code of its length in
bits. The label is therefore read forwards and the body backwards.
-/

namespace SpongeTranscript

/-- The kinds of operation that a transcript tells apart. -/
inductive Opcode where
  | init
  | mix
  | derive
  | crypt
  | mask
  | authCrypt
  | ratchet
  deriving DecidableEq, Repr

/-- The byte that stands for an opcode. -/
def Opcode.byte : Opcode → UInt8
  | .init => 1
  | .mix => 2
  | .derive => 3
  | .crypt => 4
  | .mask => 5
  | .authCrypt => 6
  | .ratchet => 7

/-- Different opcodes have different bytes. -/
theorem Opcode.byte_injective {a b : Opcode} (h : a.byte = b.byte) : a = b := by
  revert h
  cases a <;> cases b <;> decide

namespace Transcript

open LengthCode

/-- What an operation absorbs before its body. -/
def header (op : Opcode) (label : String) : Bytes :=
  op.byte :: (left (bitLength (Bytes.ofText label).length) ++ Bytes.ofText label)

/-- What an operation absorbs behind a body of `count` bytes. -/
def trailer (count : Nat) : Bytes :=
  right (bitLength count)

end Transcript

end SpongeTranscript
