import SpongeTranscript.Proofs.Transcript.Sealing

set_option autoImplicit false

/-!
# What opening in place leaves behind

A ciphertext alone settles the text that it decrypts to, the one tag that is right behind it and
the transcript after the call, all before the tag that came with it is looked at (`decipher`). The
tag only decides between the two buffers: the text in front of the tag, or zeros throughout.
So nothing that was decrypted is left in the buffer when the tag is wrong, and the transcript cannot
tell whether it was.
-/

namespace SpongeTranscript.Transcript

variable {P : Permutation}

/-- What a ciphertext settles before the tag behind it is looked at. -/
structure Deciphered (P : Permutation) where
  plaintext : Bytes
  /-- The tag that will be accepted. -/
  tag : Vector UInt8 tagLength
  transcript : Transcript P

/-- Deciphers a text, and draws the tag that it should have. -/
def decipher (t : Transcript P) (label : String) (ciphertext : Bytes) : Deciphered P :=
  let received := t.exchangeUnderKey .authCrypt label .decrypt ciphertext
  let drawn := received.2.draw (Bytes.zeros tagLength)
  { plaintext := received.1
    tag := ⟨drawn.1.toArray, by simp [drawn]⟩
    transcript := drawn.2 }

/-- The tag is what is drawn behind the text. -/
theorem toList_tag_decipher (t : Transcript P) (label : String) (ciphertext : Bytes) :
    (t.decipher label ciphertext).tag.toList =
      ((t.exchangeUnderKey .authCrypt label .decrypt ciphertext).2.draw
        (Bytes.zeros tagLength)).1 := by
  simp [decipher]

/-- Sealing the text again gives the ciphertext with the tag that is accepted, and leads to the same
transcript. -/
theorem sealMessage_decipher (t : Transcript P) (label : String) (ciphertext : Bytes) :
    t.sealMessage label (t.decipher label ciphertext).plaintext =
      (ciphertext ++ (t.decipher label ciphertext).tag.toList,
        (t.decipher label ciphertext).transcript) := by
  have again := exchangeUnderKey_undone Exchange.encrypt_undoes_decrypt t .authCrypt label
    ciphertext
  rw [sealMessage_eq, toList_tag_decipher]
  dsimp only [decipher]
  rw [again]

/-- A buffer that is shorter than a tag is refused and left alone. -/
theorem openBuffer_of_short (t : Transcript P) (label : String) {buffer : Bytes}
    (short : buffer.length < tagLength) :
    t.openBuffer label buffer =
      { plaintext := .error .invalidCiphertext, buffer, transcript := t } := by
  rw [openBuffer, if_pos short]

/-- The tag in the buffer is compared with the one that is settled, and decides nothing else. -/
theorem openBuffer_tagged (t : Transcript P) (label : String) (ciphertext : Bytes)
    (tag : Vector UInt8 tagLength) :
    t.openBuffer label (ciphertext ++ tag.toList) =
      if tag = (t.decipher label ciphertext).tag then
        { plaintext := .ok (t.decipher label ciphertext).plaintext
          buffer := (t.decipher label ciphertext).plaintext ++ tag.toList
          transcript := (t.decipher label ciphertext).transcript }
      else
        { plaintext := .error .invalidCiphertext
          buffer := Bytes.zeros (ciphertext.length + tagLength)
          transcript := (t.decipher label ciphertext).transcript } := by
  have length_eq : tag.toList.length = tagLength := by simp
  rw [openBuffer_append t label ciphertext length_eq]
  dsimp only
  rw [← toList_tag_decipher, List.length_append, length_eq]
  by_cases same : tag = (t.decipher label ciphertext).tag
  · rw [if_pos same, if_pos (congrArg Vector.toList same).symm]
    rfl
  · have differ : (t.decipher label ciphertext).tag.toList ≠ tag.toList := by
      intro equal
      exact same (Vector.toList_inj.mp equal).symm
    rw [if_neg same, if_neg differ]
    rfl

/-- A buffer too short for a tag is refused, and neither the buffer nor the transcript changes.
Otherwise there are a text, a tag and a transcript for each ciphertext, those which sealing the text
gives: behind this tag the ciphertext becomes the text, and behind any other one the whole buffer
becomes zero and the message is refused. The transcript afterwards is the same in either case. -/
theorem openBuffer_outcomes (t : Transcript P) (label : String) :
    (∀ buffer : Bytes, buffer.length < tagLength →
      t.openBuffer label buffer =
        { plaintext := .error .invalidCiphertext, buffer, transcript := t }) ∧
    ∀ ciphertext : Bytes, ∃ (plaintext : Bytes) (expected : Vector UInt8 tagLength)
      (after : Transcript P),
      plaintext = (t.exchangeUnderKey .authCrypt label .decrypt ciphertext).1 ∧
      t.sealMessage label plaintext = (ciphertext ++ expected.toList, after) ∧
      ∀ tag : Vector UInt8 tagLength,
        t.openBuffer label (ciphertext ++ tag.toList) =
          if tag = expected then
            { plaintext := .ok plaintext, buffer := plaintext ++ tag.toList, transcript := after }
          else
            { plaintext := .error .invalidCiphertext
              buffer := Bytes.zeros (ciphertext.length + tagLength)
              transcript := after } := by
  refine ⟨fun buffer short => t.openBuffer_of_short label short, ?_⟩
  intro ciphertext
  exact ⟨(t.decipher label ciphertext).plaintext, (t.decipher label ciphertext).tag,
    (t.decipher label ciphertext).transcript, rfl, t.sealMessage_decipher label ciphertext,
    t.openBuffer_tagged label ciphertext⟩

/-- Fifteen bytes are left as they are, and two messages that differ in the tag alone lead to one
transcript. -/
theorem openBuffer_outcomes_forged :
    let t := Transcript.init { name := "identity", apply := id } "com.example.seal"
    let cut := Bytes.zeros 15
    let forged (b : UInt8) : Bytes := [1, 2, 3] ++ (Vector.replicate tagLength b).toList
    cut.length < tagLength ∧ (t.openBuffer "message" cut).buffer = cut ∧
      (t.openBuffer "message" (forged 7)).transcript =
        (t.openBuffer "message" (forged 8)).transcript := by
  intro t cut forged
  have short : cut.length < tagLength := by decide
  obtain ⟨refused, outcomes⟩ := openBuffer_outcomes t "message"
  obtain ⟨plaintext, expected, after, -, -, tagged⟩ := outcomes [1, 2, 3]
  have lead (b : UInt8) : (t.openBuffer "message" (forged b)).transcript = after := by
    show (t.openBuffer "message" ([1, 2, 3] ++ (Vector.replicate tagLength b).toList)).transcript
      = after
    rw [tagged]
    split <;> rfl
  refine ⟨short, ?_, ?_⟩
  · rw [refused cut short]
  · rw [lead 7, lead 8]

end SpongeTranscript.Transcript
