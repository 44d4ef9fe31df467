import SpongeTranscript.Transcript.Sealing

set_option autoImplicit false

/-!
# Authenticated encryption

A sealing key is a transcript into which the key was mixed once. Each message starts again from
this transcript, mixes its nonce and its associated data, and is sealed or opened there.
-/

namespace SpongeTranscript

/-- Length of a sealing key in bytes. -/
abbrev keyLength : Nat := 32

/-- A key for sealing and opening messages. -/
structure SealingKey (P : Permutation) where
  /-- The transcript that the key was mixed into. -/
  transcript : Transcript P

namespace SealingKey

variable {P : Permutation}

/-- The domain of every sealing key. -/
def domain : String := "duplex-transcript.aead"

/-- The sealing key made from 32 bytes. -/
def ofBytes (P : Permutation) (key : Vector UInt8 keyLength) : SealingKey P :=
  ⟨(Transcript.init P domain).mix "key" key.toList⟩

/-- The transcript on which one message is sealed or opened. -/
def forMessage (k : SealingKey P) (nonce ad : Bytes) : Transcript P :=
  (k.transcript.mix "nonce" nonce).mix "ad" ad

/-- Encrypts and authenticates a plaintext: the ciphertext, and a tag behind it. -/
def sealMessage (k : SealingKey P) (nonce ad plaintext : Bytes) : Bytes :=
  ((k.forMessage nonce ad).sealMessage "message" plaintext).1

/-- Seals a buffer that holds a plaintext and room for the tag. -/
def sealBuffer (k : SealingKey P) (nonce ad buffer : Bytes) : Except Error Bytes :=
  ((k.forMessage nonce ad).sealBuffer "message" buffer).map Prod.fst

/-- Verifies and decrypts a sealed message. -/
def openMessage (k : SealingKey P) (nonce ad message : Bytes) : Except Error Bytes :=
  ((k.forMessage nonce ad).openMessage "message" message).1

/-- Opens a buffer that holds a sealed message; gives the plaintext and the buffer afterwards. -/
def openBuffer (k : SealingKey P) (nonce ad buffer : Bytes) : Except Error Bytes × Bytes :=
  let opening := (k.forMessage nonce ad).openBuffer "message" buffer
  (opening.plaintext, opening.buffer)

end SealingKey

end SpongeTranscript
