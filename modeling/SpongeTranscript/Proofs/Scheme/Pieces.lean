import SpongeTranscript.Scheme.MessageHash
import SpongeTranscript.Scheme.MessageTag
import SpongeTranscript.Stream.Session
import SpongeTranscript.Transcript.Call
import SpongeTranscript.Proofs.Stream.Recorded
import SpongeTranscript.Proofs.Transcript.Body

set_option autoImplicit false

/-!
# Messages in pieces

A hash or a message tag in progress is an open mix, and each piece of its message is fed to it. Two
updates one after the other are one update with both pieces put together, so any sequence of them is
one update with the whole message, an empty sequence included. Writes to a hash are updates too: it
takes all that it is offered, and never fails.

Behind one update the close absorbs the trailer of the whole message, and what is left is the mix in
one call, as long as the message is one that a call can take.
-/

namespace SpongeTranscript

variable {P : Permutation}

/-! ## Hashes -/

namespace MessageHash

/-- One call on a hash in progress: an update, or a call on it as the sink of a stream. -/
inductive Call where
  | update (piece : Bytes)
  | stream (c : WriteCall)
  deriving DecidableEq, Repr

/-- Carries out one call. An update answers nothing, which is noted as zero. -/
def call (h : MessageHash P) : Call → Except Fault Nat × MessageHash P
  | .update piece => (.ok 0, h.update piece)
  | .stream c => WriteCall.on h c

/-- Carries out calls one after the other, and notes each answer. -/
def run (h : MessageHash P) (calls : List Call) :
    List (Except Fault Nat × MessageHash P) × MessageHash P :=
  runCalls call (fun _ => false) h calls

namespace Call

/-- The bytes that a call appends to the message. -/
def piece : Call → Bytes
  | .update piece => piece
  | .stream (.write data) => data
  | .stream (.writeAll data) => data
  | .stream .flush => []

/-- The number that a call answers, which is never a fault. -/
def answer : Call → Nat
  | .stream (.write data) => data.length
  | _ => 0

end Call

/-- A new hash has room in its window. -/
theorem room_start (P : Permutation) : (start P).body.transcript.duplex.position < window :=
  Transcript.position_announce_lt (Transcript.position_permute_lt _) .mix "message"

variable {h : MessageHash P}

/-- An update with nothing changes nothing. -/
theorem update_nil (room : h.body.transcript.duplex.position < window) : h.update [] = h := by
  unfold update
  rw [Body.feed_nil room]

/-- Two updates are one. -/
theorem update_append (room : h.body.transcript.duplex.position < window) (a b : Bytes) :
    h.update (a ++ b) = (h.update a).update b := by
  unfold update
  rw [Body.feed_append room]

/-- Writing everything to a hash is an update. -/
theorem writeAll_eq (room : h.body.transcript.duplex.position < window) (data : Bytes) :
    Sink.writeAll h data = (.ok (), h.update data) := by
  cases data with
  | nil => rw [Sink.writeAll_nil, update_nil room]
  | cons b rest =>
    have taken : Sink.write h (b :: rest) =
        (.ok ⟨(b :: rest).length, Nat.le_refl _⟩, h.update (b :: rest)) := rfl
    rw [Sink.writeAll_of_taken (List.cons_ne_nil b rest) taken (Nat.succ_ne_zero _),
      List.drop_length, Sink.writeAll_nil]

/-- Whatever the call, it succeeds and comes to an update. -/
theorem call_eq (room : h.body.transcript.duplex.position < window) (c : Call) :
    h.call c = (.ok c.answer, h.update c.piece) := by
  cases c with
  | update piece => rfl
  | stream c =>
    cases c with
    | write data => rfl
    | writeAll data =>
      show WriteCall.on h (.writeAll data) = _
      rw [WriteCall.on_writeAll, writeAll_eq room]
      rfl
    | flush =>
      show WriteCall.on h .flush = _
      rw [Call.piece, update_nil room]
      rfl

/-- A run of calls comes to one update with all that they append. -/
theorem run_eq (room : h.body.transcript.duplex.position < window) (calls : List Call) :
    (h.run calls).1.map Prod.fst = calls.map (fun c => .ok c.answer) ∧
      (h.run calls).2 = h.update (calls.flatMap Call.piece) := by
  induction calls generalizing h with
  | nil => exact ⟨rfl, (update_nil room).symm⟩
  | cons c rest ih =>
    have next : (h.update c.piece).body.transcript.duplex.position < window :=
      Body.position_feed_lt room c.piece
    obtain ⟨answers, last⟩ := ih next
    unfold run at answers last ⊢
    rw [runCalls_cons, call_eq room]
    simp only [Bool.false_eq_true, if_false, List.map_cons, List.flatMap_cons]
    rw [answers, last, update_append room]
    exact ⟨rfl, rfl⟩

/-- A message that comes in one piece is hashed as in one call. -/
theorem digest_update_start (P : Permutation) {message : Bytes} (few : message.length < 2 ^ 64) :
    ((start P).update message).digest = hash P message := by
  unfold digest hash
  rw [← close_feed_openMix (Transcript.init P domain) "message" few]
  rfl

end MessageHash

/-! ## Message tags -/

namespace MessageTag

/-- A new tag has room in its window. -/
theorem room_start (P : Permutation) (key : Bytes) :
    (start P key).body.transcript.duplex.position < window := by
  have begun : (Transcript.init P domain).duplex.position < window :=
    Transcript.position_permute_lt _
  have keyed : ((Transcript.init P domain).mix "key" key).duplex.position < window := by
    apply Duplex.position_exchange_lt
    apply Duplex.position_exchange_lt
    exact Transcript.position_announce_lt begun .mix "key"
  exact Transcript.position_announce_lt keyed .mix "message"

/-- A run of updates comes to one update with all their pieces. -/
theorem foldl_update {m : MessageTag P} (room : m.body.transcript.duplex.position < window)
    (pieces : List Bytes) :
    pieces.foldl update m = m.update pieces.flatten := by
  induction pieces generalizing m with
  | nil =>
    show m = ⟨(m.body.feed []).2⟩
    rw [Body.feed_nil room]
  | cons piece rest ih =>
    have next : (m.update piece).body.transcript.duplex.position < window :=
      Body.position_feed_lt room piece
    rw [List.foldl_cons, ih next, List.flatten_cons]
    unfold update
    rw [Body.feed_append room]

/-- The answers of the operations that make the tag of a message. -/
theorem run_eq_tag (P : Permutation) (key : Bytes) {message : Bytes}
    (few : message.length < 2 ^ 64) :
    ((Transcript.init P domain).run
      [.mix "key" key, .mix "message" message, .derive "tag" messageTagLength]).1 =
      [.silent, .silent, .bytes ((start P key).update message).tag] := by
  have whole := close_feed_openMix ((Transcript.init P domain).mix "key" key) "message" few
  unfold tag
  rw [show ((start P key).update message).body.close = _ from whole]
  rfl

/-- A candidate is accepted exactly if it is the tag. -/
theorem verify_eq (m : MessageTag P) (candidate : Bytes) :
    m.verify candidate = if candidate = m.tag then .ok () else .error .invalidCiphertext := by
  unfold verify
  by_cases same : candidate = m.tag
  · rw [if_pos same, if_pos same.symm]
  · rw [if_neg same, if_neg (Ne.symm same)]

end MessageTag

/-! ## Both together -/

/-- However a message is cut into updates and writes, with empty ones and flushes between, its hash
is the one of the whole message, and its tag the bytes that three operations derive from the key and
the whole message, which is one that a call can take. No call on the hash fails. A tag in progress
is what one update with the whole message makes of it, however long this is. A candidate is verified
exactly if it is the tag; any other one, of whatever length, is refused. -/
theorem pieces_make_whole (P : Permutation) :
    (∀ calls : List MessageHash.Call, (calls.flatMap MessageHash.Call.piece).length < 2 ^ 64 →
      ((MessageHash.start P).run calls).2.digest =
          MessageHash.hash P (calls.flatMap MessageHash.Call.piece) ∧
        ((MessageHash.start P).run calls).1.map Prod.fst =
          calls.map (fun c => .ok c.answer)) ∧
    (∀ (key : Bytes) (pieces : List Bytes), pieces.flatten.length < 2 ^ 64 →
      ((Transcript.init P "duplex-transcript.mac").run
        [.mix "key" key, .mix "message" pieces.flatten, .derive "tag" 16]).1 =
        [.silent, .silent, .bytes (pieces.foldl MessageTag.update (MessageTag.start P key)).tag]) ∧
    ∀ (key : Bytes) (pieces : List Bytes) (candidate : Bytes),
      let m := pieces.foldl MessageTag.update (MessageTag.start P key)
      m = (MessageTag.start P key).update pieces.flatten ∧
        m.tag.length = 16 ∧
        (m.verify candidate = .ok () ↔ candidate = m.tag) ∧
        (candidate ≠ m.tag → m.verify candidate = .error .invalidCiphertext) := by
  refine ⟨?_, ?_, ?_⟩
  · intro calls few
    obtain ⟨answers, last⟩ := MessageHash.run_eq (MessageHash.room_start P) calls
    refine ⟨?_, answers⟩
    rw [last]
    exact MessageHash.digest_update_start P few
  · intro key pieces few
    rw [MessageTag.foldl_update (MessageTag.room_start P key)]
    exact MessageTag.run_eq_tag P key few
  · intro key pieces candidate m
    have together := MessageTag.foldl_update (MessageTag.room_start P key) pieces
    refine ⟨together, Transcript.length_derive _ _ _, ?_, ?_⟩
    · rw [MessageTag.verify_eq]
      split <;> simp [*]
    · intro differ
      rw [MessageTag.verify_eq, if_neg differ]

/-- Three bytes in four calls, two of them without a byte, and a candidate of the wrong length. -/
theorem pieces_make_whole_cut :
    let P : Permutation := { name := "identity", apply := id }
    let calls : List MessageHash.Call :=
      [.update [], .stream (.write [1]), .stream .flush, .stream (.writeAll [2, 3])]
    let m := [[1], [], [2, 3]].foldl MessageTag.update (MessageTag.start P [9])
    (calls.flatMap MessageHash.Call.piece).length < 2 ^ 64 ∧
      ((MessageHash.start P).run calls).2.digest = MessageHash.hash P [1, 2, 3] ∧
      ((Transcript.init P "duplex-transcript.mac").run
        [.mix "key" [9], .mix "message" [1, 2, 3], .derive "tag" 16]).1 =
        [.silent, .silent, .bytes m.tag] ∧
      m.verify [1, 2, 3] = .error .invalidCiphertext := by
  intro P calls m
  obtain ⟨hashed, tagged, verified⟩ := pieces_make_whole P
  have few : (calls.flatMap MessageHash.Call.piece).length < 2 ^ 64 := by decide
  obtain ⟨-, length_eq, -, refused⟩ := verified [9] [[1], [], [2, 3]] [1, 2, 3]
  have differ : [1, 2, 3] ≠ m.tag := by
    intro same
    have lengths := congrArg List.length same
    rw [length_eq] at lengths
    simp at lengths
  exact ⟨few, (hashed calls few).1, tagged [9] [[1], [], [2, 3]] (by decide), refused differ⟩

end SpongeTranscript
