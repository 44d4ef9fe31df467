import SpongeTranscript.Transcript.Body

set_option autoImplicit false

/-!
# Message authentication

The tag of a message under a key is 16 bytes derived from a transcript into which the key and then
the message were mixed. The message may come in pieces.
-/

namespace SpongeTranscript

/-- Length of a message tag in bytes. -/
abbrev messageTagLength : Nat := 16

/-- A tag whose message is not complete yet. -/
structure MessageTag (P : Permutation) where
  /-- The open mix of the message. -/
  body : Body P

namespace MessageTag

variable {P : Permutation}

/-- The domain of every message tag. -/
def domain : String := "duplex-transcript.mac"

/-- The tag under a key of a message of which nothing has come yet. -/
def start (P : Permutation) (key : Bytes) : MessageTag P :=
  ⟨((Transcript.init P domain).mix "key" key).openMix "message"⟩

/-- Appends a piece to the message. -/
def update (m : MessageTag P) (piece : Bytes) : MessageTag P :=
  ⟨(m.body.feed piece).2⟩

/-- The tag of the message so far. -/
def tag (m : MessageTag P) : Bytes :=
  (m.body.close.derive "tag" messageTagLength).1

/-- Compares a candidate with the tag of the message so far. -/
def verify (m : MessageTag P) (candidate : Bytes) : Except Error Unit :=
  if m.tag = candidate then .ok () else .error .invalidCiphertext

end MessageTag

end SpongeTranscript
