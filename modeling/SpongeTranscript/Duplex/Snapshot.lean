import SpongeTranscript.Duplex.Basic
import SpongeTranscript.Error

set_option autoImplicit false

/-!
# Snapshots

A duplex is stored as 202 bytes: the position, the frame and the state. Reading checks the length
and both pointers, so what it accepts is a duplex that calls can leave behind.
-/

namespace SpongeTranscript

/-- Length of a snapshot in bytes. -/
abbrev snapshotLength : Nat := width + 2

namespace Duplex

variable {P : Permutation}

/-- Writes the pointers, one byte each, and then the state. -/
def toBytes (d : Duplex P) : Bytes :=
  d.position.toUInt8 :: d.frame.toUInt8 :: d.state.toList

/-- Reads a snapshot. -/
def ofBytes : Bytes → Except Error (Duplex P)
  | position :: frame :: bytes =>
    match Bytes.sized? width bytes with
    | none => .error .invalidState
    | some state =>
      if window ≤ position.toNat ∨ window ≤ frame.toNat ∨ position < frame then
        .error .invalidState
      else
        .ok { state, position := position.toNat, frame := frame.toNat }
  | _ => .error .invalidState

/-- A snapshot holds both pointers and the state. -/
@[simp] theorem length_toBytes (d : Duplex P) : d.toBytes.length = snapshotLength := by
  simp [toBytes]

end Duplex

end SpongeTranscript
