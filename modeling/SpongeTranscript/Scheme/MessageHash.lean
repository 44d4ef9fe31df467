import SpongeTranscript.Stream.Sink
import SpongeTranscript.Transcript.Body

set_option autoImplicit false

/-!
# Hashing

The digest of a message is 32 bytes derived from a transcript into which the message was mixed. A
hash in progress is the open mix, so the message may come in pieces; being a sink that takes all it
is offered, it can also stand at the end of a stream.
-/

namespace SpongeTranscript

/-- Length of a digest in bytes. -/
abbrev digestLength : Nat := 32

/-- A hash whose message is not complete yet. -/
structure MessageHash (P : Permutation) where
  /-- The open mix of the message. -/
  body : Body P

namespace MessageHash

variable {P : Permutation}

/-- The domain of every hash. -/
def domain : String := "duplex-transcript.hash"

/-- The hash of a message of which nothing has come yet. -/
def start (P : Permutation) : MessageHash P :=
  ⟨(Transcript.init P domain).openMix "message"⟩

/-- Appends a piece to the message. -/
def update (h : MessageHash P) (piece : Bytes) : MessageHash P :=
  ⟨(h.body.feed piece).2⟩

/-- The digest of the message so far. -/
def digest (h : MessageHash P) : Bytes :=
  (h.body.close.derive "digest" digestLength).1

/-- Writing to a hash appends to its message, and takes everything. -/
instance : Sink (MessageHash P) where
  write h offer := (.ok ⟨offer.length, Nat.le_refl _⟩, h.update offer)
  flush h := (.ok (), h)
  patience _ := 0
  patience_lt _ _ _ _ answer := by cases answer

/-- The digest of a message in one call. -/
def hash (P : Permutation) (message : Bytes) : Bytes :=
  (((Transcript.init P domain).mix "message" message).derive "digest" digestLength).1

end MessageHash

end SpongeTranscript
