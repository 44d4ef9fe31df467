import SpongeTranscript.Duplex.Snapshot
import SpongeTranscript.Transcript.Header

set_option autoImplicit false

/-!
# Transcripts

A transcript is a duplex that is only moved on by labelled operations. Each one starts a frame and
absorbs its header, so two parties that begin with the same domain and carry out the same operations
hold the same state, and derive the same bytes from it.

The operations whose output depends on the state first permute it, which binds the output to all
that came before, their own header included.
-/

namespace SpongeTranscript

/-- The state that labelled operations share. -/
structure Transcript (P : Permutation) where
  /-- The duplex beneath. -/
  duplex : Duplex P
  deriving DecidableEq

namespace Transcript

variable {P : Permutation}

/-- Adds bytes to the state. -/
def absorb (t : Transcript P) (input : Bytes) : Transcript P :=
  ⟨t.duplex.absorb input⟩

/-- Opens an operation: starts a frame and absorbs the header. -/
def announce (t : Transcript P) (op : Opcode) (label : String) : Transcript P :=
  absorb ⟨t.duplex.startFrame⟩ (header op label)

/-- Closes a body of `count` bytes with its trailer. -/
def finish (t : Transcript P) (count : Nat) : Transcript P :=
  t.absorb (trailer count)

/-- Permutes the state. -/
def permute (t : Transcript P) : Transcript P :=
  ⟨t.duplex.permute⟩

/-- Exchanges a buffer with the rate. -/
def exchange (t : Transcript P) (e : Exchange) (buffer : Bytes) : Bytes × Transcript P :=
  let (out, duplex) := t.duplex.exchange e buffer
  (out, ⟨duplex⟩)

/-- Begins a transcript that is bound to a domain, the text that names an application. -/
def init (P : Permutation) (domain : String) : Transcript P :=
  (announce ⟨Duplex.fresh⟩ .init domain).permute

/-- Folds input into the transcript. It costs no permutation of its own: successive inputs share
that of the next operation which needs one. -/
def mix (t : Transcript P) (label : String) (input : Bytes) : Transcript P :=
  ((t.announce .mix label).absorb input).finish input.length

/-- Fills a buffer with output that depends on everything so far and is not seen again. -/
def draw (t : Transcript P) (buffer : Bytes) : Bytes × Transcript P :=
  let (out, t) := t.permute.exchange .squeeze buffer
  (out, t.permute)

/-- Derives `count` bytes. Their number is absorbed first, so a short output is no part of a longer
one. -/
def derive (t : Transcript P) (label : String) (count : Nat) : Bytes × Transcript P :=
  ((t.announce .derive label).finish count).draw (Bytes.zeros count)

/-- Exchanges a text under a key that depends on everything so far, and closes it. -/
def exchangeUnderKey (t : Transcript P) (op : Opcode) (label : String) (e : Exchange)
    (text : Bytes) : Bytes × Transcript P :=
  let (out, t) := (t.announce op label).permute.exchange e text
  (out, t.finish text.length)

/-- Encrypts without authentication. -/
def encrypt (t : Transcript P) (label : String) (plaintext : Bytes) : Bytes × Transcript P :=
  t.exchangeUnderKey .crypt label .encrypt plaintext

/-- Decrypts what `encrypt` returned. -/
def decrypt (t : Transcript P) (label : String) (ciphertext : Bytes) : Bytes × Transcript P :=
  t.exchangeUnderKey .crypt label .decrypt ciphertext

/-- Encrypts what the caller authenticates by other means, such as a later seal. -/
def mask (t : Transcript P) (label : String) (plaintext : Bytes) : Bytes × Transcript P :=
  t.exchangeUnderKey .mask label .encrypt plaintext

/-- Decrypts what `mask` returned. -/
def unmask (t : Transcript P) (label : String) (ciphertext : Bytes) : Bytes × Transcript P :=
  t.exchangeUnderKey .mask label .decrypt ciphertext

/-- Erases part of the state, so that it does not tell what was returned before. -/
def ratchet (t : Transcript P) (label : String) : Transcript P :=
  ⟨(t.announce .ratchet label).duplex.ratchet⟩

/-- One child per variant, with the variant mixed in. The children share the past and nothing
else. -/
def fork (t : Transcript P) (label : String) (variants : List Bytes) : List (Transcript P) :=
  variants.map (t.mix label)

/-- Forgets everything. -/
def wipe (t : Transcript P) : Transcript P :=
  ⟨t.duplex.wipe⟩

/-- The snapshot of the duplex. -/
def toBytes (t : Transcript P) : Bytes :=
  t.duplex.toBytes

/-- Reads a snapshot. -/
def ofBytes (bytes : Bytes) : Except Error (Transcript P) :=
  (Duplex.ofBytes bytes).map Transcript.mk

/-- Transcripts agree if their duplexes do. -/
instance : BEq (Transcript P) :=
  ⟨fun t u => t.duplex == u.duplex⟩

/-- Shows the pointers, and never the state. -/
def describe (t : Transcript P) : String :=
  s!"Protocol \x7b duplex: {t.duplex.describe} \x7d"

/-- An exchange gives as many bytes as it takes. -/
@[simp] theorem length_exchange (t : Transcript P) (e : Exchange) (buffer : Bytes) :
    (t.exchange e buffer).1.length = buffer.length := by
  simp [exchange]

/-- A draw fills its buffer. -/
@[simp] theorem length_draw (t : Transcript P) (buffer : Bytes) :
    (t.draw buffer).1.length = buffer.length := by
  simp [draw]

/-- As many bytes are derived as were asked for. -/
@[simp] theorem length_derive (t : Transcript P) (label : String) (count : Nat) :
    (t.derive label count).1.length = count := by
  simp [derive]

/-- Under the key, a text becomes one of its length. -/
@[simp] theorem length_exchangeUnderKey (t : Transcript P) (op : Opcode) (label : String)
    (e : Exchange) (text : Bytes) :
    (t.exchangeUnderKey op label e text).1.length = text.length := by
  simp [exchangeUnderKey]

end Transcript

end SpongeTranscript
