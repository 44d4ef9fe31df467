import Mathlib.Data.List.Forall2
import SpongeTranscript.Transcript.Call
import SpongeTranscript.Proofs.Transcript.Sealing

set_option autoImplicit false

/-!
# Two parties in step

Two parties hold the same transcript. In every turn one of them makes a move, and the other answers
with the dual call on what it receives: it decrypts what was encrypted, opens what was sealed, and
repeats what needs no key. Then it recovers what went in, and both transcripts are the same again
(`call_dual`). So they stay the same over any number of turns, whoever moves.
-/

namespace SpongeTranscript.Transcript

variable {P : Permutation}

/-- What the party whose turn it is may do. -/
inductive Move where
  | mix (label : String) (data : Bytes)
  | derive (label : String) (count : Nat)
  | encrypt (label : String) (text : Bytes)
  | mask (label : String) (text : Bytes)
  | sealMessage (label : String) (text : Bytes)
  | ratchet (label : String)
  deriving DecidableEq, Repr

namespace Move

/-- The call of the party that moves. -/
def call : Move → Call
  | .mix label data => .mix label data
  | .derive label count => .derive label count
  | .encrypt label text => .encrypt label text
  | .mask label text => .mask label text
  | .sealMessage label text => .sealMessage label text
  | .ratchet label => .ratchet label

/-- The call of the other party, on the bytes that it receives. -/
def dual (m : Move) (received : Bytes) : Call :=
  match m with
  | .mix label data => .mix label data
  | .derive label count => .derive label count
  | .encrypt label _ => .decrypt label received
  | .mask label _ => .unmask label received
  | .sealMessage label _ => .openMessage label received
  | .ratchet label => .ratchet label

/-- What the other party learns: the text that went in, or the same derived bytes. -/
def learnt (m : Move) (sent : Reply) : Reply :=
  match m with
  | .mix _ _ => .silent
  | .derive _ _ => sent
  | .encrypt _ text => .bytes text
  | .mask _ text => .bytes text
  | .sealMessage _ text => .bytes text
  | .ratchet _ => .silent

end Move

/-- The bytes of a reply. -/
def Reply.payload : Reply → Bytes
  | .bytes out => out
  | _ => []

/-- From the same transcript, the dual call on what a move sends recovers what went in, and leaves
the same transcript as the move. -/
theorem call_dual (t : Transcript P) (m : Move) :
    t.call (m.dual (t.call m.call).1.payload) =
      (m.learnt (t.call m.call).1, (t.call m.call).2) := by
  cases m with
  | mix label data => rfl
  | derive label count => rfl
  | encrypt label text =>
    have back := exchangeUnderKey_undone Exchange.decrypt_undoes_encrypt t .crypt label text
    exact congrArg (Prod.map Reply.bytes id) back
  | mask label text =>
    have back := exchangeUnderKey_undone Exchange.decrypt_undoes_encrypt t .mask label text
    exact congrArg (Prod.map Reply.bytes id) back
  | sealMessage label text =>
    have opened := (openMessage_eq_ok_iff t _ label _ text).mpr
      (Prod.ext rfl rfl : t.sealMessage label text = (_, _))
    exact congrArg (Prod.map Reply.ofExcept id) opened
  | ratchet label => rfl

/-! ## Conversations -/

/-- The two parties. -/
inductive Party where
  | first
  | second
  deriving DecidableEq, Repr

/-- The transcripts that the parties hold. -/
structure Pair (P : Permutation) where
  first : Transcript P
  second : Transcript P

/-- What happened in one turn. -/
structure Round (P : Permutation) where
  /-- What the party that moved was answered. -/
  sent : Reply
  /-- What the other party was answered. -/
  received : Reply
  /-- The transcripts afterwards. -/
  after : Pair P

namespace Pair

/-- One turn: one party moves, and the other makes the dual call on the bytes that it is sent. -/
def round (p : Pair P) : Party × Move → Round P
  | (.first, m) =>
    let (sent, first) := p.first.call m.call
    let (received, second) := p.second.call (m.dual sent.payload)
    { sent, received, after := { first, second } }
  | (.second, m) =>
    let (sent, second) := p.second.call m.call
    let (received, first) := p.first.call (m.dual sent.payload)
    { sent, received, after := { first, second } }

/-- All turns of a conversation, one after the other. -/
def converse (p : Pair P) : List (Party × Move) → List (Round P)
  | [] => []
  | turn :: rest => p.round turn :: (p.round turn).after.converse rest

end Pair

/-- The other party learnt what it should, and both hold the same transcript. -/
def Round.InStep (turn : Party × Move) (r : Round P) : Prop :=
  r.received = turn.2.learnt r.sent ∧ r.after.first = r.after.second

/-- From one transcript, a turn leaves both parties with one transcript. -/
theorem inStep_round (t : Transcript P) (turn : Party × Move) :
    Round.InStep turn ((Pair.mk t t).round turn) := by
  obtain ⟨who, m⟩ := turn
  have dual := call_dual t m
  unfold Round.InStep
  cases who with
  | first =>
    simp only [Pair.round]
    rw [dual]
    exact ⟨rfl, rfl⟩
  | second =>
    simp only [Pair.round]
    rw [dual]
    exact ⟨rfl, rfl⟩

/-- Two parties that start with the same transcript stay in step, turn by turn: the one that does
not move recovers what the other put in, and their transcripts agree after every turn. -/
theorem parties_stay_in_step (P : Permutation) (domain : String) (turns : List (Party × Move)) :
    List.Forall₂ Round.InStep turns
      ((Pair.mk (Transcript.init P domain) (Transcript.init P domain)).converse turns) := by
  generalize Transcript.init P domain = t
  induction turns generalizing t with
  | nil => exact List.Forall₂.nil
  | cons turn rest ih =>
    have now := inStep_round t turn
    refine List.Forall₂.cons now ?_
    -- the two transcripts are one again, so the rest of the conversation starts the same way
    have next : ((Pair.mk t t).round turn).after =
        ⟨((Pair.mk t t).round turn).after.first, ((Pair.mk t t).round turn).after.first⟩ :=
      congrArg (Pair.mk _) now.2.symm
    rw [next]
    exact ih _

end SpongeTranscript.Transcript
