import Mathlib.Algebra.Ring.Nat
import SpongeTranscript.Stream.Script
import SpongeTranscript.Proofs.Stream.Recorded
import SpongeTranscript.Proofs.Transcript.Body

set_option autoImplicit false

/-!
# What a writer delivers

A writer that encrypts tries each offer on a scratch copy of its body, and keeps the copy only if
the sink takes everything; otherwise it feeds the part that was taken to the body that it had. The
sink already holds bytes cut from the copy by then. A writer that mixes offers its bytes as they are
and feeds its body what was taken. All ways leave the body fed with the bytes taken
(`write_of_taken`), and in all of them the sink is offered what the body makes of the offer
(`offered_eq`), which for the bytes taken does not depend on the rest.

So whatever the sink does, the body is always the opened one fed with the bytes taken so far, and
the sink has received what became of them (`Delivered`). However the session ends, it comes to one
call of the operation on these bytes (`refines_of_opens`), which for an encryption or a decryption
is `session_refines_crypt`.
-/

namespace SpongeTranscript

universe u

variable {P : Permutation} {σ τ : Type u}

namespace Writer

/-! ## Behind a view of the sink -/

section View

/-- What the sink is offered is what the body makes of the bytes. -/
theorem offered_eq {w : Writer P σ} (room : w.body.transcript.duplex.position < window)
    (offer : Bytes) : w.offered offer = (w.body.feed offer).1 := by
  unfold offered
  split
  · rename_i mix
    exact (Body.feed_mix_fst mix room offer).symm
  · rfl

variable [Sink σ] [Sink τ]

/-- One write on the writer is one write on its sink. -/
theorem sink_write_snd (w : Writer P σ) (offer : Bytes) :
    (w.write offer).2.sink = (Sink.write w.sink (w.offered offer)).2 := by
  cases answer : Sink.write w.sink (w.offered offer) with
  | mk outcome sink =>
    cases outcome with
    | ok n => rw [write_of_taken answer]
    | error fault => rw [write_of_fault answer]

/-- A flush goes through to the sink. -/
theorem flush_eq (w : Writer P σ) :
    Sink.flush w = ((Sink.flush w.sink).1, { w with sink := (Sink.flush w.sink).2 }) := rfl

/-- The same body in front of what a view shows of the sink. -/
def mapSink (view : τ → σ) (w : Writer P τ) : Writer P σ where
  body := w.body
  sink := view w.sink

/-- A view of the sink is a view of the writer. -/
theorem view_mapSink {view : τ → σ} {within : τ → Prop} (h : Sink.View view within) :
    Sink.View (mapSink view : Writer P τ → Writer P σ) fun w => within w.sink where
  write_eq w offer ends := by
    have sink_ends : within (w.write offer).2.sink := ends
    rw [sink_write_snd] at sink_ends
    have behind := h.write_eq w.sink (w.offered offer) sink_ends
    cases answer : Sink.write w.sink (w.offered offer) with
    | mk outcome sink =>
      rw [answer] at behind
      cases outcome with
      | ok n =>
        have through : Sink.write w offer = _ := write_of_taken answer
        rw [through]
        exact write_of_taken (w := mapSink view w) behind
      | error fault =>
        have through : Sink.write w offer = _ := write_of_fault answer
        rw [through]
        exact write_of_fault (w := mapSink view w) behind
  flush_eq w ends := by
    have behind : Sink.flush (mapSink view w).sink = _ := h.flush_eq w.sink ends
    rw [flush_eq, flush_eq, behind]
    rfl
  write_within w offer ends := by
    have sink_ends : within (w.write offer).2.sink := ends
    rw [sink_write_snd] at sink_ends
    exact h.write_within w.sink (w.offered offer) sink_ends
  flush_within w ends := h.flush_within w.sink ends

end View

/-! ## Watching a writer from both sides -/

section Watch

variable [Sink σ]

/-- A writer with a record of the bytes taken from its offers, in front of a sink with a record of
the bytes received. -/
abbrev Watched (P : Permutation) (σ : Type u) :=
  Recorded (Writer P (Recorded σ))

/-- Puts both records in place. -/
def watch (w : Writer P σ) : Watched P σ :=
  Recorded.start { body := w.body, sink := Recorded.start w.sink }

/-- Takes both records away. -/
def unwatch (x : Watched P σ) : Writer P σ :=
  x.sink.mapSink Recorded.sink

/-- A writer behaves the same without its records. -/
theorem view_unwatch : Sink.View (unwatch : Watched P σ → Writer P σ) fun _ => True where
  write_eq x offer _ := by
    have outer := Recorded.view_sink.write_eq x offer trivial
    have inner := (view_mapSink Recorded.view_sink).write_eq x.sink offer trivial
    rw [outer] at inner
    exact inner
  flush_eq x _ := (view_mapSink Recorded.view_sink).flush_eq x.sink trivial
  write_within _ _ _ := trivial
  flush_within _ _ := trivial

/-- A session under watch. -/
def watched (w : Writer P σ) (calls : List WriteCall) (ending : Ending) :
    List (Except Fault Nat × Watched P σ) × Watched P σ :=
  runCalls WriteCall.on ending.stopsAt w.watch calls

/-- Watching a session changes nothing about it. -/
theorem session_eq_watched (w : Writer P σ) (calls : List WriteCall) (ending : Ending) :
    w.session calls ending =
      { log := (w.watched calls ending).1.map fun entry => (entry.1, unwatch entry.2)
        last := unwatch (w.watched calls ending).2
        transcript := ending.settle (w.watched calls ending).2.sink.body } := by
  have same : runCalls WriteCall.on ending.stopsAt w calls = _ :=
    view_unwatch.runCalls_eq (s := w.watch) trivial
  unfold session
  rw [same]
  rfl

/-! ## The invariant -/

/-- The body is `b` fed with the bytes taken so far, and the sink has received what they became. -/
structure Delivered (b : Body P) (x : Watched P σ) : Prop where
  body_eq : x.sink.body = (b.feed x.taken).2
  received_eq : x.sink.sink.taken = (b.feed x.taken).1

omit [Sink σ] in
/-- Before the first call nothing has been taken, and the body is as it was opened. -/
theorem delivered_watch {w : Writer P σ}
    (room : w.body.transcript.duplex.position < window) : Delivered w.body w.watch where
  body_eq := (congrArg Prod.snd (Body.feed_nil room)).symm
  received_eq := (congrArg Prod.fst (Body.feed_nil room)).symm

/-- One write keeps the invariant, whatever the sink answers. -/
theorem delivered_write {b : Body P} (room : b.transcript.duplex.position < window)
    (x : Watched P σ) (offer : Bytes) (h : Delivered b x) :
    Delivered b (Sink.write x offer).2 := by
  obtain ⟨body_eq, received_eq⟩ := h
  have room' := Body.position_feed_lt room x.taken
  have room_now : x.sink.body.transcript.duplex.position < window := by
    rw [body_eq]
    exact room'
  cases raw : Sink.write x.sink.sink.sink (x.sink.offered offer) with
  | mk outcome sink =>
    cases outcome with
    | ok n =>
      have inner := Recorded.write_of_ok raw
      have through : Sink.write x.sink offer = _ := write_of_taken inner
      have outer := Recorded.write_of_ok through
      rw [outer]
      constructor
      · dsimp only
        generalize n.val = count
        rw [body_eq, Body.feed_append room]
      · -- the sink has bytes cut from what the whole offer would become
        dsimp only
        generalize n.val = count
        rw [offered_eq room_now, received_eq, body_eq, Body.feed_append room, Body.feed_take room']
    | error fault =>
      have inner := Recorded.write_of_fault raw
      have through : Sink.write x.sink offer = _ := write_of_fault inner
      have outer := Recorded.write_of_fault through
      rw [outer]
      exact ⟨body_eq, received_eq⟩

/-- A flush keeps the invariant, whatever the sink answers. -/
theorem delivered_flush {b : Body P} (x : Watched P σ) (h : Delivered b x) :
    Delivered b (Sink.flush x).2 :=
  ⟨h.body_eq, h.received_eq⟩

/-- Every call keeps the invariant. -/
theorem delivered_on {b : Body P} (room : b.transcript.duplex.position < window)
    (x : Watched P σ) (c : WriteCall) (h : Delivered b x) : Delivered b (WriteCall.on x c).2 :=
  on_keeps (delivered_write room) delivered_flush x c h

/-- The invariant holds after every call of a session, and at its end. -/
theorem delivered_watched {w : Writer P σ} (room : w.body.transcript.duplex.position < window)
    (calls : List WriteCall) (ending : Ending) :
    (∀ entry ∈ (w.watched calls ending).1, Delivered w.body entry.2) ∧
      Delivered w.body (w.watched calls ending).2 :=
  runCalls_keeps (delivered_on room) (delivered_watch room) calls

/-! ## One operation on the bytes accepted -/

/-- All bytes of the offers that a session brought to its sink, as they were offered. -/
def accepted (w : Writer P σ) (calls : List WriteCall) (ending : Ending) : Bytes :=
  (w.watched calls ending).2.taken

/-- All bytes that the sink of a session received. -/
def received (w : Writer P σ) (calls : List WriteCall) (ending : Ending) : Bytes :=
  (w.watched calls ending).2.sink.sink.taken

/-- A session leaves its body fed with what was accepted. -/
theorem last_body_eq {w : Writer P σ} (room : w.body.transcript.duplex.position < window)
    (calls : List WriteCall) (ending : Ending) :
    (w.session calls ending).last.body = (w.body.feed (w.accepted calls ending)).2 := by
  rw [session_eq_watched]
  exact (delivered_watched room calls ending).2.body_eq

/-- The sink of a session has received what the body makes of what was accepted. -/
theorem received_eq {w : Writer P σ} (room : w.body.transcript.duplex.position < window)
    (calls : List WriteCall) (ending : Ending) :
    w.received calls ending = (w.body.feed (w.accepted calls ending)).1 :=
  (delivered_watched room calls ending).2.received_eq

/-- However a session ends, its body is closed behind what was accepted. -/
theorem transcript_eq {w : Writer P σ} (room : w.body.transcript.duplex.position < window)
    (calls : List WriteCall) (ending : Ending) :
    (w.session calls ending).transcript = (w.body.feed (w.accepted calls ending)).2.close := by
  rw [← last_body_eq room]
  exact ending.settle_eq_close _

/-- No more is accepted than was offered. -/
theorem length_accepted_le (w : Writer P σ) (calls : List WriteCall) (ending : Ending) :
    (w.accepted calls ending).length ≤ (calls.map WriteCall.size).sum := by
  have bound := length_taken_runCalls ending.stopsAt w.watch calls
  have nothing : w.watch.taken.length = 0 := rfl
  rw [nothing, Nat.zero_add] at bound
  exact bound

/-- One call of a session of writes that began with the body `b`. -/
structure Passage (b : Body P) (before : Watched P σ) (c : WriteCall)
    (answer : Except Fault Nat) (after : Watched P σ) : Prop where
  /-- The body has moved on by what the sink accepted, and the sink has what that became. -/
  delivered : Delivered b after
  /-- The answer says what was accepted. -/
  contributes : c.Contributes before.taken after.taken answer
  /-- The count is that of the bytes accepted. -/
  count_eq : after.sink.body.count.toNat = after.taken.length
  /-- If nothing was accepted, the body is still the same. -/
  unmoved : after.taken = before.taken → after.sink.body = before.sink.body

/-- A session of writes comes to one call of the operation on the bytes accepted. -/
structure Refines (w : Writer P σ) (calls : List WriteCall) (ending : Ending)
    (operation : Bytes → Bytes × Transcript P) : Prop where
  transcript_eq : (w.session calls ending).transcript = (operation (w.accepted calls ending)).2
  received_eq : w.received calls ending = (operation (w.accepted calls ending)).1
  count_eq : (w.session calls ending).last.body.count.toNat = (w.accepted calls ending).length
  log_eq : (w.session calls ending).log =
    (w.watched calls ending).1.map fun entry => (entry.1, unwatch entry.2)
  calls_pass : Chained (Passage w.body) w.watch calls (w.watched calls ending).1

/-- Every call contributes what it answers and leaves the body fed with what was accepted. -/
theorem chained_watched {w : Writer P σ} (room : w.body.transcript.duplex.position < window)
    (calls : List WriteCall) (ending : Ending) :
    Chained (fun before c answer after => Delivered w.body before ∧ Delivered w.body after ∧
      c.Contributes before.taken after.taken answer) w.watch calls (w.watched calls ending).1 :=
  chained_runCalls (delivered_on room)
    (fun x c h => ⟨h, delivered_on room x c h, contributes_on x c⟩) (delivered_watch room) calls

/-- What is on record stays there. -/
theorem taken_on_prefix (x : Watched P σ) (c : WriteCall) :
    x.taken <+: (WriteCall.on x c).2.taken :=
  WriteCall.prefix_of_contributes (contributes_on x c)

/-- If a body opens an operation, every session of writes on it comes to one call. -/
theorem refines_of_opens {b : Body P} {operation : Bytes → Bytes × Transcript P}
    (opens : b.Opens operation) (sink : σ) (calls : List WriteCall) (ending : Ending)
    (few : ((b.writer sink).accepted calls ending).length < 2 ^ 64) :
    (b.writer sink).Refines calls ending operation := by
  have room : (b.writer sink).body.transcript.duplex.position < window := opens.room
  constructor
  case transcript_eq =>
    rw [transcript_eq room]
    exact opens.close_eq _ few
  case received_eq =>
    rw [received_eq room]
    exact opens.feed_eq _
  case count_eq => exact opens.count_of_fed few (last_body_eq room calls ending)
  case log_eq => rw [session_eq_watched]
  case calls_pass =>
    -- no call has on record what the end has not, so no count has wrapped before
    have ahead : ∀ entry ∈ ((b.writer sink).watched calls ending).1,
        entry.2.taken <+: (b.writer sink).accepted calls ending :=
      (prefix_last_runCalls taken_on_prefix (b.writer sink).watch calls).2
    refine Chained.imp (fun x => x.taken <+: (b.writer sink).accepted calls ending)
      (chained_watched room calls ending) ahead ?_
    rintro before c answer after ⟨known, delivered, contributes⟩ within
    constructor
    case delivered => exact delivered
    case contributes => exact contributes
    case count_eq =>
      have few_yet : after.taken.length < 2 ^ 64 :=
        Nat.lt_of_le_of_lt (List.IsPrefix.length_le within) few
      exact opens.count_of_fed few_yet delivered.body_eq
    case unmoved =>
      intro same
      rw [delivered.body_eq, known.body_eq, same]

/-- A streamed encryption or decryption, whatever its sink does and however it ends: it leaves the
transcript of one call on the bytes that the sink accepted, has handed the sink what this call
returns, and has counted these bytes. After every call, a failed one too, the body is the opened one
fed with what was accepted until then, and each call brought no more than its answer says. -/
theorem session_refines_crypt (t : Transcript P) (label : String) (direction : Direction)
    (sink : σ) (calls : List WriteCall) (ending : Ending)
    (few : (((t.openCrypt label direction).writer sink).accepted calls ending).length < 2 ^ 64) :
    let b := t.openCrypt label direction
    let w := b.writer sink
    let accepted := w.accepted calls ending
    let log := (w.watched calls ending).1
    (w.session calls ending).transcript = (t.crypt label direction accepted).2 ∧
      w.received calls ending = (t.crypt label direction accepted).1 ∧
      (w.session calls ending).last.body.count.toNat = accepted.length ∧
      (w.session calls ending).log = log.map (fun entry => (entry.1, unwatch entry.2)) ∧
      (∀ entry ∈ log, Delivered b entry.2) ∧
      Chained (Passage b) w.watch calls log := by
  intro b w accepted log
  have refines : w.Refines calls ending (t.crypt label direction) :=
    refines_of_opens (opens_openCrypt t label direction) sink calls ending few
  have always : ∀ entry ∈ log, Delivered b entry.2 :=
    (delivered_watched (w := w) (room_openCrypt t label direction) calls ending).1
  exact ⟨refines.transcript_eq, refines.received_eq, refines.count_eq, refines.log_eq, always,
    refines.calls_pass⟩

end Watch

/-- A sink that breaks after two bytes: the rest of the failed write is not part of the
transcript, and the next write is. -/
theorem session_refines_crypt_broken_pipe :
    let t := Transcript.init { name := "identity", apply := id } "com.example.stream"
    let sink : ScriptedSink :=
      { script := { limit := none, incidents := [⟨2, 1, some ⟨.brokenPipe, "budget exhausted"⟩⟩] }
        taken := []
        flushFault := none }
    let w := (t.openCrypt "body" .encrypt).writer sink
    let calls := [.writeAll [1, 2, 3, 4], .write [5]]
    (w.accepted calls .close).length < 2 ^ 64 ∧
      (w.session calls .close).transcript = (t.crypt "body" .encrypt [1, 2, 5]).2 ∧
      w.received calls .close = (t.crypt "body" .encrypt [1, 2, 5]).1 := by
  intro t sink w calls
  have few : (w.accepted calls .close).length < 2 ^ 64 :=
    Nat.lt_of_le_of_lt (length_accepted_le w calls .close) (by decide)
  have taken : w.accepted calls .close = [1, 2, 5] := by
    let x := w.watch
    have first : (Sink.write x [1, 2, 3, 4]).1 = .ok ⟨2, by decide⟩ := by decide +kernel
    have second : (Sink.write (Sink.write x [1, 2, 3, 4]).2 [3, 4]).1 =
        .error ⟨.brokenPipe, "budget exhausted"⟩ := by decide +kernel
    have broken := Sink.writeAll_of_broken first (by decide) (by decide) second (by decide)
    change (Sink.write (Sink.writeAll x [1, 2, 3, 4]).2 [5]).2.taken = _
    rw [broken]
    decide +kernel
  have refines := session_refines_crypt t "body" .encrypt sink calls .close few
  rw [← taken]
  exact ⟨few, refines.1, refines.2.1⟩

end Writer

end SpongeTranscript
