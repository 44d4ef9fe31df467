import SpongeTranscript.Transcript.Basic

set_option autoImplicit false

/-!
# Sealing and opening

A sealed message is a ciphertext and the 16 bytes drawn from the transcript behind it. Opening
draws them again from the received ciphertext and compares. In either case the transcript has moved
on, except that a message too short to hold a tag is refused at once.
-/

namespace SpongeTranscript.Transcript

variable {P : Permutation}

/-- Encrypts a text and draws its tag over the bytes in `space`. -/
def sealOver (t : Transcript P) (label : String) (plaintext space : Bytes) :
    Bytes × Transcript P :=
  let (ciphertext, t) := t.exchangeUnderKey .authCrypt label .encrypt plaintext
  let (tag, t) := t.draw space
  (ciphertext ++ tag, t)

/-- Encrypts a text and appends its tag. -/
def sealMessage (t : Transcript P) (label : String) (plaintext : Bytes) : Bytes × Transcript P :=
  t.sealOver label plaintext (Bytes.zeros tagLength)

/-- Seals a buffer that holds a plaintext and room for the tag. A buffer without that room is
refused, and nothing changes. -/
def sealBuffer (t : Transcript P) (label : String) (buffer : Bytes) :
    Except Error (Bytes × Transcript P) :=
  if buffer.length < tagLength then
    .error .noRoomForTag
  else
    let count := buffer.length - tagLength
    .ok (t.sealOver label (buffer.take count) (buffer.drop count))

/-- What opening in place leaves behind. -/
structure Opening (P : Permutation) where
  /-- The plaintext, or why there is none. -/
  plaintext : Except Error Bytes
  /-- The whole buffer afterwards. -/
  buffer : Bytes
  /-- The transcript afterwards. -/
  transcript : Transcript P

/-- Opens a buffer that holds a sealed message. The plaintext takes the place of the ciphertext; if
the tag does not verify, every byte of the buffer becomes zero instead. -/
def openBuffer (t : Transcript P) (label : String) (buffer : Bytes) : Opening P :=
  if buffer.length < tagLength then
    { plaintext := .error .invalidCiphertext, buffer, transcript := t }
  else
    let count := buffer.length - tagLength
    let tag := buffer.drop count
    let (plaintext, t) := t.exchangeUnderKey .authCrypt label .decrypt (buffer.take count)
    let (expected, t) := t.draw (Bytes.zeros tagLength)
    if expected = tag then
      { plaintext := .ok plaintext, buffer := plaintext ++ tag, transcript := t }
    else
      { plaintext := .error .invalidCiphertext
        buffer := Bytes.zeros buffer.length
        transcript := t }

/-- Opens a sealed message. -/
def openMessage (t : Transcript P) (label : String) (message : Bytes) :
    Except Error Bytes × Transcript P :=
  let opening := t.openBuffer label message
  (opening.plaintext.map fun plaintext => opening.buffer.take plaintext.length, opening.transcript)

/-- A sealed message is the text and a tag long. -/
theorem length_sealMessage (t : Transcript P) (label : String) (plaintext : Bytes) :
    (t.sealMessage label plaintext).1.length = plaintext.length + tagLength := by
  simp [sealMessage, sealOver]

/-- Opening in place never changes the length of the buffer. -/
theorem length_buffer_openBuffer (t : Transcript P) (label : String) (buffer : Bytes) :
    (t.openBuffer label buffer).buffer.length = buffer.length := by
  unfold openBuffer
  split
  · rfl
  · dsimp only
    split <;> simp

end SpongeTranscript.Transcript
