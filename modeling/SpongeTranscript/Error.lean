set_option autoImplicit false

/-!
# Errors

What a caller can be refused for. No error carries data that depends on a secret.
-/

namespace SpongeTranscript

/-- Length in bytes of the tag behind a sealed message. -/
abbrev tagLength : Nat := 16

/-- Why an operation was refused. -/
inductive Error where
  /-- A sealed message or a tag does not verify. -/
  | invalidCiphertext
  /-- A snapshot has the wrong length or pointers out of range. -/
  | invalidState
  /-- A buffer to seal in place is too short to hold the tag. -/
  | noRoomForTag
  deriving DecidableEq, Repr

/-- The text shown for an error. -/
def Error.message : Error → String
  | .invalidCiphertext => "Invalid ciphertext."
  | .invalidState => "Invalid duplex state."
  | .noRoomForTag => s!"seal buffer must have room for a {tagLength}-byte tag"

end SpongeTranscript
