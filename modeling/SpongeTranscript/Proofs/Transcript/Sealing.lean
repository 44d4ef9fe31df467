import SpongeTranscript.Scheme.SealingKey
import SpongeTranscript.Proofs.Transcript.Duality

set_option autoImplicit false

/-!
# Opening accepts what sealing makes

A message opens to a text exactly if sealing the text gives the message, and then both sides end in
the same transcript (`openMessage_eq_ok_iff`). So no message is accepted that was not sealed in the
same state under the same label. The forms that work in place agree with those that do not, and all
of this passes on to sealing keys.
-/

namespace SpongeTranscript

namespace Transcript

variable {P : Permutation}

/-- A sealed message is the ciphertext and the tag that is drawn behind it. -/
theorem sealMessage_eq (t : Transcript P) (label : String) (plaintext : Bytes) :
    t.sealMessage label plaintext =
      let sent := t.exchangeUnderKey .authCrypt label .encrypt plaintext
      let drawn := sent.2.draw (Bytes.zeros tagLength)
      (sent.1 ++ drawn.1, drawn.2) := rfl

/-- The bytes in the room for the tag make no difference. -/
theorem sealOver_eq_sealMessage (t : Transcript P) (label : String) (plaintext : Bytes)
    {space : Bytes} (same : space.length = tagLength) :
    t.sealOver label plaintext space = t.sealMessage label plaintext := by
  have spaces : space.length = (Bytes.zeros tagLength).length := by
    rw [same, Bytes.length_zeros]
  unfold sealMessage sealOver
  dsimp only
  rw [draw_congr _ spaces]

/-- Sealing in place fills the space for the tag, whatever is in it. -/
theorem sealBuffer_append (t : Transcript P) (label : String) (plaintext : Bytes)
    {space : Bytes} (same : space.length = tagLength) :
    t.sealBuffer label (plaintext ++ space) = .ok (t.sealMessage label plaintext) := by
  have enough : ¬(plaintext ++ space).length < tagLength := by
    rw [List.length_append]
    omega
  have count : (plaintext ++ space).length - tagLength = plaintext.length := by
    rw [List.length_append]
    omega
  unfold sealBuffer
  rw [if_neg enough]
  dsimp only
  rw [count, List.take_left, List.drop_left, sealOver_eq_sealMessage t label plaintext same]

/-- Opening in place deciphers the text and compares the tag that is drawn behind it. -/
theorem openBuffer_append (t : Transcript P) (label : String) (ciphertext : Bytes) {tag : Bytes}
    (same : tag.length = tagLength) :
    t.openBuffer label (ciphertext ++ tag) =
      let received := t.exchangeUnderKey .authCrypt label .decrypt ciphertext
      let drawn := received.2.draw (Bytes.zeros tagLength)
      if drawn.1 = tag then
        { plaintext := .ok received.1, buffer := received.1 ++ tag, transcript := drawn.2 }
      else
        { plaintext := .error .invalidCiphertext
          buffer := Bytes.zeros (ciphertext ++ tag).length
          transcript := drawn.2 } := by
  have enough : ¬(ciphertext ++ tag).length < tagLength := by
    rw [List.length_append]
    omega
  have count : (ciphertext ++ tag).length - tagLength = ciphertext.length := by
    rw [List.length_append]
    omega
  conv =>
    lhs
    unfold openBuffer
    rw [if_neg enough]
    dsimp only
    rw [count, List.take_left, List.drop_left]

/-- A buffer is too short for a tag, or ends with the bytes of one. -/
theorem short_or_tagged (buffer : Bytes) :
    buffer.length < tagLength ∨
      ∃ ciphertext tag : Bytes, tag.length = tagLength ∧ buffer = ciphertext ++ tag := by
  by_cases short : buffer.length < tagLength
  · exact Or.inl short
  · refine Or.inr ⟨buffer.take (buffer.length - tagLength),
      buffer.drop (buffer.length - tagLength), ?_, ?_⟩
    · rw [List.length_drop]
      omega
    · exact (List.take_append_drop _ buffer).symm

/-- The plaintext that is returned is the first part of the buffer. -/
theorem openBuffer_take (t : Transcript P) (label : String) (buffer plaintext : Bytes)
    (accepted : (t.openBuffer label buffer).plaintext = .ok plaintext) :
    (t.openBuffer label buffer).buffer.take plaintext.length = plaintext := by
  rcases short_or_tagged buffer with short | ⟨ciphertext, tag, tag_length, rfl⟩
  · unfold openBuffer at accepted
    rw [if_pos short] at accepted
    cases accepted
  · rw [openBuffer_append t label ciphertext tag_length] at accepted ⊢
    dsimp only at accepted ⊢
    split at accepted
    · rename_i verified
      rw [if_pos verified]
      cases accepted
      exact List.take_left
    · cases accepted

/-- Opening a message is opening a buffer that holds it. -/
theorem openMessage_eq (t : Transcript P) (label : String) (message : Bytes) :
    t.openMessage label message =
      ((t.openBuffer label message).plaintext, (t.openBuffer label message).transcript) := by
  unfold openMessage
  dsimp only
  cases outcome : (t.openBuffer label message).plaintext with
  | error e => rfl
  | ok plaintext =>
    have first := openBuffer_take t label message plaintext outcome
    simp only [Except.map, first]

/-- A message opens to a text, and leads to a transcript, exactly if sealing the text gives the
message and leads to the transcript. -/
theorem openMessage_eq_ok_iff (t u : Transcript P) (label : String) (message plaintext : Bytes) :
    t.openMessage label message = (.ok plaintext, u) ↔
      t.sealMessage label plaintext = (message, u) := by
  rw [openMessage_eq, sealMessage_eq]
  dsimp only
  constructor
  · intro opened
    rcases short_or_tagged message with short | ⟨ciphertext, tag, tag_length, rfl⟩
    · unfold openBuffer at opened
      rw [if_pos short] at opened
      cases opened
    · rw [openBuffer_append t label ciphertext tag_length] at opened
      dsimp only at opened
      split at opened
      · rename_i verified
        obtain ⟨plaintext_eq, rfl⟩ := Prod.mk.inj opened
        -- the text that came out is the one whose encryption is the ciphertext
        have sent := (exchangeUnderKey_eq_iff Exchange.decrypt_undoes_encrypt
          Exchange.encrypt_undoes_decrypt t _ .authCrypt label ciphertext plaintext).mp
          (Prod.ext (Except.ok.inj plaintext_eq) rfl)
        rw [sent]
        dsimp only
        rw [verified]
      · cases (Prod.mk.inj opened).1
  · intro sealed
    obtain ⟨message_eq, rfl⟩ := Prod.mk.inj sealed
    have received := exchangeUnderKey_undone Exchange.decrypt_undoes_encrypt t .authCrypt label
      plaintext
    have tag_length : ((t.exchangeUnderKey .authCrypt label .encrypt plaintext).2.draw
        (Bytes.zeros tagLength)).1.length = tagLength := by
      rw [length_draw, Bytes.length_zeros]
    rw [← message_eq, openBuffer_append t label _ tag_length]
    dsimp only
    rw [received]
    dsimp only
    rw [if_pos rfl]

/-- A message is opened to a plaintext exactly if that plaintext is sealed to it. -/
theorem openMessage_fst_eq_ok_iff (t : Transcript P) (label : String)
    (message plaintext : Bytes) :
    (t.openMessage label message).1 = .ok plaintext ↔
      (t.sealMessage label plaintext).1 = message := by
  constructor
  · intro opened
    have whole := (openMessage_eq_ok_iff t _ label message plaintext).mp (Prod.ext opened rfl)
    rw [whole]
  · intro sealed
    have whole := (openMessage_eq_ok_iff t _ label message plaintext).mpr (Prod.ext sealed rfl)
    rw [whole]

end Transcript

/-! ## The four forms together -/

/-- The ways to seal and to open from one state, each with what it leaves behind. -/
structure SealingForms (σ : Type) where
  sealMessage : Bytes → Bytes × σ
  sealBuffer : Bytes → Except Error (Bytes × σ)
  openMessage : Bytes → Except Error Bytes × σ
  /-- Opens in place; gives the plaintext and the buffer afterwards. -/
  openBuffer : Bytes → (Except Error Bytes × Bytes) × σ

namespace SealingForms

variable {σ : Type}

/-- Opening is the exact partial inverse of sealing, and the forms in place do the same. -/
structure Agree (f : SealingForms σ) : Prop where
  opens_iff : ∀ message plaintext,
    (f.openMessage message).1 = .ok plaintext ↔ (f.sealMessage plaintext).1 = message
  same_state : ∀ message plaintext, (f.openMessage message).1 = .ok plaintext →
    (f.openMessage message).2 = (f.sealMessage plaintext).2
  sealBuffer_eq : ∀ (plaintext : Bytes) (space : Vector UInt8 tagLength),
    f.sealBuffer (plaintext ++ space.toList) = .ok (f.sealMessage plaintext)
  openBuffer_eq : ∀ message,
    ((f.openBuffer message).1.1, (f.openBuffer message).2) = f.openMessage message
  openBuffer_take : ∀ message plaintext, (f.openBuffer message).1.1 = .ok plaintext →
    (f.openBuffer message).1.2.take plaintext.length = plaintext

/-- The same forms for a caller who does not keep the state. -/
def forget (f : SealingForms σ) : SealingForms Unit where
  sealMessage plaintext := ((f.sealMessage plaintext).1, ())
  sealBuffer buffer := (f.sealBuffer buffer).map fun done => (done.1, ())
  openMessage message := ((f.openMessage message).1, ())
  openBuffer buffer := ((f.openBuffer buffer).1, ())

/-- Forms that agree still do when their transcripts are forgotten. -/
theorem Agree.forget {f : SealingForms σ} (h : f.Agree) : f.forget.Agree where
  opens_iff := h.opens_iff
  same_state _ _ _ := rfl
  sealBuffer_eq plaintext space := by
    have sealed := h.sealBuffer_eq plaintext space
    simp only [SealingForms.forget, sealed, Except.map]
  openBuffer_eq message := by
    have opened := congrArg Prod.fst (h.openBuffer_eq message)
    exact Prod.ext opened rfl
  openBuffer_take := h.openBuffer_take

end SealingForms

/-- The forms of a transcript under a label. -/
def Transcript.forms {P : Permutation} (t : Transcript P) (label : String) :
    SealingForms (Transcript P) where
  sealMessage := t.sealMessage label
  sealBuffer := t.sealBuffer label
  openMessage := t.openMessage label
  openBuffer buffer :=
    let opening := t.openBuffer label buffer
    ((opening.plaintext, opening.buffer), opening.transcript)

/-- The forms of a sealing key for one nonce and one associated data. -/
def SealingKey.forms {P : Permutation} (k : SealingKey P) (nonce ad : Bytes) :
    SealingForms Unit where
  sealMessage plaintext := (k.sealMessage nonce ad plaintext, ())
  sealBuffer buffer := (k.sealBuffer nonce ad buffer).map fun done => (done, ())
  openMessage message := (k.openMessage nonce ad message, ())
  openBuffer buffer := (k.openBuffer nonce ad buffer, ())

/-- The forms of a transcript agree. -/
theorem agree_forms {P : Permutation} (t : Transcript P) (label : String) :
    (t.forms label).Agree where
  opens_iff := t.openMessage_fst_eq_ok_iff label
  same_state message plaintext opened := by
    have sealed := (t.openMessage_eq_ok_iff _ label message plaintext).mp (Prod.ext opened rfl)
    exact (congrArg Prod.snd sealed).symm
  sealBuffer_eq plaintext space := t.sealBuffer_append label plaintext (by simp)
  openBuffer_eq message := (t.openMessage_eq label message).symm
  openBuffer_take := t.openBuffer_take label

/-- A sealing key does what the transcript of the message does. -/
theorem SealingKey.forms_eq_forget {P : Permutation} (k : SealingKey P) (nonce ad : Bytes) :
    k.forms nonce ad = ((k.forMessage nonce ad).forms "message").forget := by
  unfold SealingKey.forms SealingForms.forget Transcript.forms
  congr 1
  funext buffer
  unfold SealingKey.sealBuffer
  dsimp only
  cases (k.forMessage nonce ad).sealBuffer "message" buffer <;> rfl

/-- Opening is the exact partial inverse of sealing in every state and under every label, with equal
transcripts afterwards and in all four forms, and so it is for every sealing key. -/
theorem opening_inverts_sealing (P : Permutation) :
    (∀ (t : Transcript P) (label : String), (t.forms label).Agree) ∧
      ∀ (key : Vector UInt8 keyLength) (nonce ad : Bytes),
        ((SealingKey.ofBytes P key).forms nonce ad).Agree := by
  refine ⟨agree_forms, ?_⟩
  intro key nonce ad
  rw [SealingKey.forms_eq_forget]
  exact (agree_forms _ "message").forget

end SpongeTranscript
