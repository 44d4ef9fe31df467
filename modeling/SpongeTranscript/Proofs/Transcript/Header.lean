import SpongeTranscript.Proofs.LengthCode
import SpongeTranscript.Transcript.Header

set_option autoImplicit false

/-!
# Headers and trailers are read back

A header tells where it ends, so it is no proper beginning of another header. A trailer tells where
it begins, so the body before it is as long as the trailer says. The number that a code carries
here is a length in bits, and the codes serve it while it is below `2 ^ 128`: this is what
`Codable` asks of a length in bytes.
-/

namespace SpongeTranscript

open LengthCode

/-- A length in bytes whose count of bits has a length code. -/
def Codable (count : Nat) : Prop :=
  bitLength count < valueBound

instance (count : Nat) : Decidable (Codable count) :=
  inferInstanceAs (Decidable (bitLength count < valueBound))

/-- A length is known from its number of bits. -/
theorem bitLength_injective {a b : Nat} (h : bitLength a = bitLength b) : a = b := by
  unfold bitLength at h
  omega

namespace Transcript

/-- A header is not a proper beginning of another one. -/
theorem header_append_cancel {op op' : Opcode} {label label' : String} {x y : Bytes}
    (codable : Codable (Bytes.ofText label).length)
    (codable' : Codable (Bytes.ofText label').length)
    (h : header op label ++ x = header op' label' ++ y) :
    op = op' ∧ label = label' ∧ x = y := by
  unfold header at h
  rw [List.cons_append, List.cons_append, List.cons.injEq] at h
  obtain ⟨byte_eq, rest_eq⟩ := h
  rw [List.append_assoc, List.append_assoc] at rest_eq
  obtain ⟨bits_eq, text_eq⟩ := left_append_cancel codable codable' rest_eq
  obtain ⟨label_eq, tail_eq⟩ := List.append_inj text_eq (bitLength_injective bits_eq)
  exact ⟨Opcode.byte_injective byte_eq, Bytes.ofText_injective label_eq, tail_eq⟩

/-- A trailer is not a proper end of another one. -/
theorem append_trailer_cancel {count count' : Nat} {x y : Bytes} (codable : Codable count)
    (codable' : Codable count') (h : x ++ trailer count = y ++ trailer count') :
    count = count' ∧ x = y := by
  obtain ⟨bits_eq, head_eq⟩ := append_right_cancel codable codable' h
  exact ⟨bitLength_injective bits_eq, head_eq⟩

/-- No header is empty. -/
theorem length_header_pos (op : Opcode) (label : String) : 0 < (header op label).length := by
  simp [header]

/-- No trailer is empty. -/
theorem length_trailer_pos (count : Nat) : 0 < (trailer count).length := by
  rw [trailer, length_right]
  omega

end Transcript

end SpongeTranscript
