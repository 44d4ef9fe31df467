import SpongeTranscript.Transcript.Basic
import SpongeTranscript.Proofs.Duplex.Duality

set_option autoImplicit false

/-!
# Operations that undo each other

An operation under a key begins with a permutation, so its text always starts in an empty window
and crosses the same permutations on both sides, whatever was pending before. Hence an exchange
that undoes another also undoes it under a key (`exchangeUnderKey_undone`), and drawn bytes depend
on the transcript alone (`draw_congr`).
-/

namespace SpongeTranscript.Transcript

variable {P : Permutation}

/-- A permutation leaves room in the window. -/
theorem position_permute_lt (t : Transcript P) : t.permute.duplex.position < window :=
  (Duplex.valid_permute t.duplex).position_lt

/-- What was exchanged is given back, and both transcripts end the same. -/
theorem exchange_undone {back e : Exchange} (h : back.Undoes e) {t : Transcript P}
    (room : t.duplex.position < window) (buffer : Bytes) :
    t.exchange back (t.exchange e buffer).1 = (buffer, (t.exchange e buffer).2) := by
  unfold exchange
  dsimp only
  rw [Duplex.exchange_undone h room]

/-- The other side gets the text back and ends in the same transcript. -/
theorem exchangeUnderKey_undone {back e : Exchange} (h : back.Undoes e) (t : Transcript P)
    (op : Opcode) (label : String) (text : Bytes) :
    t.exchangeUnderKey op label back (t.exchangeUnderKey op label e text).1 =
      (text, (t.exchangeUnderKey op label e text).2) := by
  have room := position_permute_lt (t.announce op label)
  unfold exchangeUnderKey
  dsimp only
  rw [exchange_undone h room, length_exchange]

/-- Two exchanges that undo each other relate the same texts and transcripts. -/
theorem exchangeUnderKey_eq_iff {back e : Exchange} (h : back.Undoes e) (h' : e.Undoes back)
    (t u : Transcript P) (op : Opcode) (label : String) (x m : Bytes) :
    t.exchangeUnderKey op label back x = (m, u) ↔
      t.exchangeUnderKey op label e m = (x, u) := by
  constructor
  · intro there
    have again := exchangeUnderKey_undone h' t op label x
    rwa [there] at again
  · intro there
    have again := exchangeUnderKey_undone h t op label m
    rwa [there] at again

/-- What a draw finds in its buffer makes no difference. -/
theorem draw_congr (t : Transcript P) {a b : Bytes} (same : a.length = b.length) :
    t.draw a = t.draw b := by
  have room := position_permute_lt t
  unfold draw exchange
  rw [Duplex.exchange_squeeze_congr room same]

end SpongeTranscript.Transcript
