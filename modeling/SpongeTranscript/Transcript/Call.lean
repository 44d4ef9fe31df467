import SpongeTranscript.Transcript.Sealing

set_option autoImplicit false

/-!
# Calls on a transcript

The labelled operations as data, each with the label and the argument that it is given. A call
answers with nothing, with bytes, or with the reason for which it was refused.
-/

namespace SpongeTranscript.Transcript

/-- One labelled operation with its arguments. -/
inductive Call where
  | mix (label : String) (input : Bytes)
  | derive (label : String) (count : Nat)
  | encrypt (label : String) (plaintext : Bytes)
  | decrypt (label : String) (ciphertext : Bytes)
  | mask (label : String) (plaintext : Bytes)
  | unmask (label : String) (ciphertext : Bytes)
  | sealMessage (label : String) (plaintext : Bytes)
  | openMessage (label : String) (message : Bytes)
  | ratchet (label : String)
  deriving DecidableEq, Repr

/-- What a call hands back. -/
inductive Reply where
  | silent
  | bytes (out : Bytes)
  | refused (error : Error)
  deriving DecidableEq, Repr

/-- The reply that hands back the bytes, or the reason why there are none. -/
def Reply.ofExcept : Except Error Bytes → Reply
  | .ok out => .bytes out
  | .error e => .refused e

variable {P : Permutation}

/-- Carries out one call. -/
def call (t : Transcript P) : Call → Reply × Transcript P
  | .mix label input => (.silent, t.mix label input)
  | .derive label count => (t.derive label count).map .bytes id
  | .encrypt label plaintext => (t.encrypt label plaintext).map .bytes id
  | .decrypt label ciphertext => (t.decrypt label ciphertext).map .bytes id
  | .mask label plaintext => (t.mask label plaintext).map .bytes id
  | .unmask label ciphertext => (t.unmask label ciphertext).map .bytes id
  | .sealMessage label plaintext => (t.sealMessage label plaintext).map .bytes id
  | .openMessage label message => (t.openMessage label message).map .ofExcept id
  | .ratchet label => (.silent, t.ratchet label)

/-- Carries out calls one after the other, and collects their replies. -/
def run (t : Transcript P) : List Call → List Reply × Transcript P
  | [] => ([], t)
  | c :: rest =>
    let (reply, t) := t.call c
    let (replies, t) := t.run rest
    (reply :: replies, t)

end SpongeTranscript.Transcript
