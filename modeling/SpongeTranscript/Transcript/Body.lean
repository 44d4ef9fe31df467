import SpongeTranscript.Transcript.Basic

set_option autoImplicit false

/-!
# Open bodies

A mix or an encryption whose bytes arrive piece by piece is a body: the transcript behind the
header, what is done with each piece, and the count of the bytes so far. Closing it absorbs the
trailer. The count is a 64-bit word, and wraps.
-/

namespace SpongeTranscript

/-- Whether a body is encrypted or decrypted. -/
inductive Direction where
  | encrypt
  | decrypt
  deriving DecidableEq, Repr

/-- What is done with the pieces of a body. -/
inductive BodyKind where
  | mix
  | crypt (direction : Direction)
  deriving DecidableEq, Repr

/-- The exchange that each piece goes through. -/
def BodyKind.exchange : BodyKind → Exchange
  | .mix => .absorb
  | .crypt .encrypt => .encrypt
  | .crypt .decrypt => .decrypt

/-- An operation whose body is not complete yet. -/
structure Body (P : Permutation) where
  /-- The transcript so far. -/
  transcript : Transcript P
  /-- What is done with each piece. -/
  kind : BodyKind
  /-- Number of bytes so far. -/
  count : UInt64
  deriving DecidableEq

variable {P : Permutation}

/-- Opens a mix whose input is still to come. -/
def Transcript.openMix (t : Transcript P) (label : String) : Body P where
  transcript := t.announce .mix label
  kind := .mix
  count := 0

/-- Opens an encryption or decryption whose text is still to come. -/
def Transcript.openCrypt (t : Transcript P) (label : String) (direction : Direction) : Body P where
  transcript := (t.announce .crypt label).permute
  kind := .crypt direction
  count := 0

namespace Body

/-- Passes a piece through the body, and returns what it has become. -/
def feed (b : Body P) (piece : Bytes) : Bytes × Body P :=
  let (out, transcript) := b.transcript.exchange b.kind.exchange piece
  (out, { b with transcript, count := b.count + piece.length.toUInt64 })

/-- Closes the body. -/
def close (b : Body P) : Transcript P :=
  b.transcript.finish b.count.toNat

/-- What a piece becomes is as long as the piece. -/
@[simp] theorem length_feed (b : Body P) (piece : Bytes) :
    (b.feed piece).1.length = piece.length := by
  simp [feed]

/-- Only an empty piece becomes nothing. -/
@[simp] theorem feed_fst_eq_nil_iff (b : Body P) (piece : Bytes) :
    (b.feed piece).1 = [] ↔ piece = [] := by
  rw [← List.length_eq_zero_iff, length_feed, List.length_eq_zero_iff]

end Body

end SpongeTranscript
