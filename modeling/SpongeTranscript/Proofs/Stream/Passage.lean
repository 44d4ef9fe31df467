import Mathlib.Algebra.Ring.Nat
import SpongeTranscript.Proofs.Stream.Delivery
import SpongeTranscript.Proofs.Stream.Traced
import SpongeTranscript.Proofs.Transcript.Body

set_option autoImplicit false

/-!
# What passes through a stream

A reader feeds its body whatever the source hands over, before anybody knows whether the call that
asked for it will succeed. So the body is the opened one fed with all that the source has handed
over, the bytes lost in a failed call included (`Reader.Delivered`), and the bytes that a call does
hand back stand in the output of the operation where the source stood in its input
(`Reader.Passage`).

As with a writer, a session of reads comes to one call of the operation on the bytes that went
through it, whatever the source did and however the session ends (`Reader.refines_of_opens`). So do
all kinds of streams (`streams_refine_one_call`). Nothing is assumed about how a source cuts its
bytes, so a read to the end with room for a changing number of bytes is covered by one with constant
room and a source that hands over less.
-/

namespace SpongeTranscript

universe u

variable {P : Permutation} {σ τ : Type u}

namespace Reader

/-! ## Behind a view of the source -/

section View

variable [Source σ] [Source τ]

/-- What the source hands over goes through the body and on. -/
theorem read_of_ok {r : Reader P σ} {room : Nat} {piece : { piece : Bytes // piece.length ≤ room }}
    {source : σ} (answer : Source.read r.source room = (.ok piece, source)) :
    Source.read r room =
      (.ok ⟨(r.body.feed piece.val).1, by simpa using piece.property⟩,
        { body := (r.body.feed piece.val).2, source }) := by
  change r.read room = _
  unfold read
  rw [answer]

/-- A fault of the source leaves the body where it was. -/
theorem read_of_fault {r : Reader P σ} {room : Nat} {fault : Fault} {source : σ}
    (answer : Source.read r.source room = (.error fault, source)) :
    Source.read r room = (.error fault, { r with source }) := by
  change r.read room = _
  unfold read
  rw [answer]

/-- One read on the reader is one read on its source. -/
theorem source_read_snd (r : Reader P σ) (room : Nat) :
    (r.read room).2.source = (Source.read r.source room).2 := by
  unfold read
  cases Source.read r.source room with
  | mk outcome source => cases outcome <;> rfl

/-- The same body behind what a view shows of the source. -/
def mapSource (view : τ → σ) (r : Reader P τ) : Reader P σ where
  body := r.body
  source := view r.source

/-- A view of the source is a view of the reader. -/
theorem view_mapSource {view : τ → σ} {within : τ → Prop} (h : Source.View view within) :
    Source.View (mapSource view : Reader P τ → Reader P σ) fun r => within r.source where
  read_eq r room ends := by
    have source_ends : within (r.read room).2.source := ends
    rw [source_read_snd] at source_ends
    have behind := h.read_eq r.source room source_ends
    cases answer : Source.read r.source room with
    | mk outcome source =>
      rw [answer] at behind
      cases outcome with
      | ok piece =>
        rw [read_of_ok answer]
        exact read_of_ok behind
      | error fault =>
        rw [read_of_fault answer]
        exact read_of_fault behind
  read_within r room ends := by
    have source_ends : within (r.read room).2.source := ends
    rw [source_read_snd] at source_ends
    exact h.read_within r.source room source_ends

end View

/-! ## Watching a reader from both sides -/

section Watch

variable [Source σ]

/-- A reader with a record of the bytes that it hands on, behind a source with a record of those
that it hands over. -/
abbrev Watched (P : Permutation) (σ : Type u) :=
  Traced (Reader P (Traced σ))

namespace Watched

/-- The bytes that the source has handed over. -/
def fetched (x : Watched P σ) : Bytes :=
  x.source.source.given

/-- The body that they have gone through. -/
def body (x : Watched P σ) : Body P :=
  x.source.body

end Watched

/-- Puts both records in place. -/
def watch (r : Reader P σ) : Watched P σ :=
  Traced.start { body := r.body, source := Traced.start r.source }

/-- Takes both records away. -/
def unwatch (x : Watched P σ) : Reader P σ :=
  x.source.mapSource Traced.source

/-- A reader behaves the same without its records. -/
theorem view_unwatch : Source.View (unwatch : Watched P σ → Reader P σ) fun _ => True where
  read_eq x room _ := by
    have outer := Traced.view_source.read_eq x room trivial
    have inner := (view_mapSource Traced.view_source).read_eq x.source room trivial
    rw [outer] at inner
    exact inner
  read_within _ _ _ := trivial

/-- A read under watch notes what the source hands over and what the body makes of it. -/
theorem read_watched_of_ok {x : Watched P σ} {room : Nat}
    {piece : { piece : Bytes // piece.length ≤ room }} {source : σ}
    (answer : Source.read x.source.source.source room = (.ok piece, source)) :
    Source.read x room =
      (.ok ⟨(x.body.feed piece.val).1, by simpa using piece.property⟩,
        { source :=
            { body := (x.body.feed piece.val).2
              source := { source, given := x.fetched ++ piece.val } }
          given := x.given ++ (x.body.feed piece.val).1 }) :=
  Traced.read_of_ok (read_of_ok (Traced.read_of_ok answer))

/-- A fault under watch leaves the body and both records where they were. -/
theorem read_watched_of_fault {x : Watched P σ} {room : Nat} {fault : Fault} {source : σ}
    (answer : Source.read x.source.source.source room = (.error fault, source)) :
    Source.read x room =
      (.error fault,
        { x with source := { x.source with source := { x.source.source with source } } }) :=
  Traced.read_of_fault (read_of_fault (Traced.read_of_fault answer))

/-- A session under watch. -/
def watched (r : Reader P σ) (calls : List ReadCall) (ending : Ending) :
    List (Delivery × Watched P σ) × Watched P σ :=
  runCalls ReadCall.on (fun answer => ending.stopsAt answer.outcome) r.watch calls

/-- Watching a session changes nothing about it. -/
theorem session_eq_watched (r : Reader P σ) (calls : List ReadCall) (ending : Ending) :
    r.session calls ending =
      { log := (r.watched calls ending).1.map fun entry => (entry.1, unwatch entry.2)
        last := unwatch (r.watched calls ending).2
        transcript := ending.settle (r.watched calls ending).2.body } := by
  have same :
      runCalls ReadCall.on (fun answer => ending.stopsAt answer.outcome) r calls = _ :=
    view_unwatch.runCalls_eq (s := r.watch) trivial
  unfold session
  rw [same]
  rfl

/-! ## The invariant -/

/-- The body is `b` fed with the bytes that the source has handed over, and what they became is on
record as handed on. -/
structure Delivered (b : Body P) (x : Watched P σ) : Prop where
  body_eq : x.body = (b.feed x.fetched).2
  given_eq : x.given = (b.feed x.fetched).1

omit [Source σ] in
/-- Before the first call nothing has been fetched, and the body is as it was opened. -/
theorem delivered_watch {r : Reader P σ} (room : r.body.transcript.duplex.position < window) :
    Delivered r.body r.watch where
  body_eq := (congrArg Prod.snd (Body.feed_nil room)).symm
  given_eq := (congrArg Prod.fst (Body.feed_nil room)).symm

omit [Source σ] in
/-- As many bytes are handed on as were fetched. -/
theorem length_given {b : Body P} {x : Watched P σ} (h : Delivered b x) :
    x.given.length = x.fetched.length := by
  rw [h.given_eq, Body.length_feed]

/-- One read keeps the invariant, whatever the source answers. -/
theorem delivered_read {b : Body P} (room : b.transcript.duplex.position < window)
    (x : Watched P σ) (count : Nat) (h : Delivered b x) :
    Delivered b (Source.read x count).2 := by
  obtain ⟨body_eq, given_eq⟩ := h
  cases raw : Source.read x.source.source.source count with
  | mk outcome source =>
    cases outcome with
    | ok piece =>
      have together := Body.feed_append room x.fetched piece.val
      rw [read_watched_of_ok raw]
      constructor
      · change (x.body.feed piece.val).2 = (b.feed (x.fetched ++ piece.val)).2
        rw [body_eq, together]
      · change x.given ++ (x.body.feed piece.val).1 = (b.feed (x.fetched ++ piece.val)).1
        rw [given_eq, body_eq, together]
    | error fault =>
      rw [read_watched_of_fault raw]
      exact ⟨body_eq, given_eq⟩

/-- Every call keeps the invariant. -/
theorem delivered_on {b : Body P} (room : b.transcript.duplex.position < window)
    (x : Watched P σ) (c : ReadCall) (h : Delivered b x) : Delivered b (ReadCall.on x c).2 :=
  readCall_keeps (delivered_read room) x c h

/-- The invariant holds at the end of a session. -/
theorem delivered_watched {r : Reader P σ} (room : r.body.transcript.duplex.position < window)
    (calls : List ReadCall) (ending : Ending) :
    Delivered r.body (r.watched calls ending).2 :=
  (runCalls_keeps (delivered_on room) (delivered_watch room) calls).2

/-! ## One operation on the bytes fetched -/

/-- All bytes that the source of a session handed over. -/
def fetched (r : Reader P σ) (calls : List ReadCall) (ending : Ending) : Bytes :=
  (r.watched calls ending).2.fetched

/-- All that they became, the bytes included that were lost in a failed call. -/
def passedOn (r : Reader P σ) (calls : List ReadCall) (ending : Ending) : Bytes :=
  (r.watched calls ending).2.given

/-- A session leaves its body fed with what was fetched. -/
theorem last_body_eq {r : Reader P σ} (room : r.body.transcript.duplex.position < window)
    (calls : List ReadCall) (ending : Ending) :
    (r.session calls ending).last.body = (r.body.feed (r.fetched calls ending)).2 := by
  rw [session_eq_watched]
  exact (delivered_watched room calls ending).body_eq

/-- A session passes on what the body makes of what was fetched. -/
theorem passedOn_eq {r : Reader P σ} (room : r.body.transcript.duplex.position < window)
    (calls : List ReadCall) (ending : Ending) :
    r.passedOn calls ending = (r.body.feed (r.fetched calls ending)).1 :=
  (delivered_watched room calls ending).given_eq

/-- However a session ends, its body is closed behind what was fetched. -/
theorem transcript_eq {r : Reader P σ} (room : r.body.transcript.duplex.position < window)
    (calls : List ReadCall) (ending : Ending) :
    (r.session calls ending).transcript = (r.body.feed (r.fetched calls ending)).2.close := by
  rw [← last_body_eq room]
  exact ending.settle_eq_close _

/-- One call of a session that began with the body `b` and whose operation puts out `out`. -/
structure Passage (b : Body P) (out : Bytes) (before : Watched P σ) (c : ReadCall)
    (answer : Delivery) (after : Watched P σ) : Prop where
  /-- The body has moved on by what was fetched. -/
  delivered : Delivered b after
  /-- The answer says how many bytes were handed on, and which ones. -/
  yields : c.Yields before.given after.given answer
  /-- The bytes handed back stand in the output where the source stood before the call. -/
  data_eq : answer.data = (out.drop before.fetched.length).take answer.data.length
  /-- The count is that of the bytes fetched. -/
  count_eq : after.body.count.toNat = after.fetched.length
  /-- If nothing was fetched, the body is still the same. -/
  unmoved : after.fetched = before.fetched → after.body = before.body

/-- A session of reads comes to one call of the operation on the bytes fetched. -/
structure Refines (r : Reader P σ) (calls : List ReadCall) (ending : Ending)
    (operation : Bytes → Bytes × Transcript P) : Prop where
  transcript_eq : (r.session calls ending).transcript = (operation (r.fetched calls ending)).2
  passedOn_eq : r.passedOn calls ending = (operation (r.fetched calls ending)).1
  count_eq : (r.session calls ending).last.body.count.toNat = (r.fetched calls ending).length
  log_eq : (r.session calls ending).log =
    (r.watched calls ending).1.map fun entry => (entry.1, unwatch entry.2)
  calls_pass : Chained (Passage r.body (operation (r.fetched calls ending)).1) r.watch calls
    (r.watched calls ending).1

/-- Every call yields what it answers and leaves the body fed with what was fetched. -/
theorem chained_watched {r : Reader P σ} (room : r.body.transcript.duplex.position < window)
    (calls : List ReadCall) (ending : Ending) :
    Chained (fun before c answer after => Delivered r.body before ∧ Delivered r.body after ∧
      c.Yields before.given after.given answer) r.watch calls (r.watched calls ending).1 :=
  chained_runCalls (delivered_on room)
    (fun x c h => ⟨h, delivered_on room x c h, yields_on x c⟩) (delivered_watch room) calls

/-- What is on record stays there. -/
theorem given_on_prefix (x : Watched P σ) (c : ReadCall) : x.given <+: (ReadCall.on x c).2.given :=
  (List.prefix_append _ _).trans (ReadCall.prefix_of_yields (yields_on x c))

/-- Bytes that follow `before` in `out` can be cut out of it. -/
theorem eq_take_drop_of_prefix {before data out : Bytes} (h : before ++ data <+: out) :
    data = (out.drop before.length).take data.length := by
  obtain ⟨rest, rfl⟩ := h
  rw [List.append_assoc, List.drop_left, List.take_left]

/-- If a body opens an operation, every session of reads on it comes to one call. -/
theorem refines_of_opens {b : Body P} {operation : Bytes → Bytes × Transcript P}
    (opens : b.Opens operation) (source : σ) (calls : List ReadCall) (ending : Ending)
    (few : ((b.reader source).fetched calls ending).length < 2 ^ 64) :
    (b.reader source).Refines calls ending operation := by
  have room : (b.reader source).body.transcript.duplex.position < window := opens.room
  have passed : (b.reader source).passedOn calls ending =
      (operation ((b.reader source).fetched calls ending)).1 := by
    rw [passedOn_eq room]
    exact opens.feed_eq _
  constructor
  case transcript_eq =>
    rw [transcript_eq room]
    exact opens.close_eq _ few
  case passedOn_eq => exact passed
  case count_eq => exact opens.count_of_fed few (last_body_eq room calls ending)
  case log_eq => rw [session_eq_watched]
  case calls_pass =>
    -- what a call has on record stays there, so the output at the end shows it where it was
    have ahead : ∀ entry ∈ ((b.reader source).watched calls ending).1,
        entry.2.given <+: (b.reader source).passedOn calls ending :=
      (prefix_last_runCalls given_on_prefix (b.reader source).watch calls).2
    refine Chained.imp (fun x => x.given <+: (b.reader source).passedOn calls ending)
      (chained_watched room calls ending) ahead ?_
    rintro before c answer after ⟨known, delivered, yields⟩ within
    constructor
    case delivered => exact delivered
    case yields => exact yields
    case data_eq =>
      rw [← length_given known, ← passed]
      exact eq_take_drop_of_prefix ((ReadCall.prefix_of_yields yields).trans within)
    case count_eq =>
      have few_yet : after.fetched.length < 2 ^ 64 := by
        have shorter := List.IsPrefix.length_le within
        rw [length_given delivered, passedOn_eq room, Body.length_feed] at shorter
        exact Nat.lt_of_le_of_lt shorter few
      exact opens.count_of_fed few_yet delivered.body_eq
    case unmoved =>
      intro same
      rw [delivered.body_eq, known.body_eq, same]

end Watch

end Reader

/-! ## Streams of either kind -/

/-- Streams come to one call on the bytes that went through them, for every transcript whose window
is not full, whatever the sink or the source does, and however they end: a writer or a reader that
mixes to a mix, and a reader that encrypts or decrypts to an encryption or decryption. -/
theorem streams_refine_one_call [Sink σ] [Source τ] {t : Transcript P}
    (room : t.duplex.position < window) (label : String) (direction : Direction) (sink : σ)
    (source : τ) (writes : List WriteCall) (reads : List ReadCall) (ending : Ending) :
    let mix := fun input => (input, t.mix label input)
    let mixWriter := (t.openMix label).writer sink
    let mixReader := (t.openMix label).reader source
    let cryptReader := (t.openCrypt label direction).reader source
    ((mixWriter.accepted writes ending).length < 2 ^ 64 →
        mixWriter.Refines writes ending mix) ∧
      ((mixReader.fetched reads ending).length < 2 ^ 64 →
        mixReader.Refines reads ending mix) ∧
      ((cryptReader.fetched reads ending).length < 2 ^ 64 →
        cryptReader.Refines reads ending (t.crypt label direction)) :=
  ⟨Writer.refines_of_opens (opens_openMix room label) sink writes ending,
    Reader.refines_of_opens (opens_openMix room label) source reads ending,
    Reader.refines_of_opens (opens_openCrypt t label direction) source reads ending⟩

/-- A sink that breaks after two bytes, and a source without end that asks for a retry after every
byte: of the three reads the first one succeeds, the second is interrupted, and the third loses a
byte because no answer is left. -/
theorem streams_refine_one_call_interrupted :
    let t := Transcript.init { name := "identity", apply := id } "com.example.stream"
    let sink : ScriptedSink :=
      { script := { limit := none, incidents := [⟨2, 1, some ⟨.brokenPipe, "budget exhausted"⟩⟩] }
        taken := []
        flushFault := none }
    let next : UInt8 × Bool → (room : Nat) →
        Except Fault { piece : Bytes // piece.length ≤ room } × (UInt8 × Bool) :=
      fun state room =>
        match state with
        | (b, false) => (.ok ⟨[b].take room, List.length_take_le room [b]⟩, (b + 1, true))
        | (b, true) => (.error ⟨.interrupted, "again"⟩, (b, false))
    let source : Excerpt next := { state := (1, false), left := 6 }
    let writes := [.writeAll [1, 2, 3, 4], .write [5]]
    let reads := [.readExact 2, .read 4, .readExact 3]
    let mixWriter := (t.openMix "body").writer sink
    let mixReader := (t.openMix "body").reader source
    let cryptReader := (t.openCrypt "body" .decrypt).reader source
    t.duplex.position < window ∧
      (mixWriter.session writes .abandon).transcript = t.mix "body" [1, 2, 5] ∧
      (mixReader.session reads .abandon).transcript = t.mix "body" [1, 2, 3] ∧
      (cryptReader.session reads .abandon).transcript = (t.decrypt "body" [1, 2, 3]).2 := by
  intro t sink next source writes reads mixWriter mixReader cryptReader
  let P : Permutation := { name := "identity", apply := id }
  have room : t.duplex.position < window := Transcript.position_permute_lt _
  obtain ⟨written, mixed, decrypted⟩ :=
    streams_refine_one_call room "body" .decrypt sink source writes reads .abandon
  have accepted : mixWriter.accepted writes .abandon = [1, 2, 5] := by
    let x := mixWriter.watch
    have first : (Sink.write x [1, 2, 3, 4]).1 = .ok ⟨2, by decide⟩ := rfl
    have second : (Sink.write (Sink.write x [1, 2, 3, 4]).2 [3, 4]).1 =
        .error ⟨.brokenPipe, "budget exhausted"⟩ := rfl
    have broken := Sink.writeAll_of_broken first (by decide) (by decide) second (by decide)
    change (Sink.write (Sink.writeAll x [1, 2, 3, 4]).2 [5]).2.taken = _
    rw [broken]
    rfl
  -- how a source is read does not depend on what the body makes of its bytes
  have fetched : ∀ b : Body P, (b.reader source).fetched reads .abandon = [1, 2, 3] := by
    intro b
    let step (room : Nat) (x : Reader.Watched P (Excerpt next)) := (Source.read x room).2
    let x := (b.reader source).watch
    let x₂ := step 4 (step 1 (step 1 (step 2 x)))
    have becomes_some {b : Body P} {byte : UInt8} : (b.feed [byte]).1 ≠ [] := by simp
    have succeeds : (Source.readExact x 2).2 = step 1 (step 1 (step 2 x)) := by
      rw [Source.readExact_of_bytes (by decide) rfl becomes_some]
      dsimp only
      rw [Body.length_feed, Source.readExact_of_retry (by decide) rfl (by decide)]
      rw [Source.readExact_of_bytes (by decide) rfl becomes_some]
      dsimp only
      rw [Body.length_feed]
      exact congrArg Prod.snd (Source.readExact_zero _)
    have fails : (Source.readExact x₂ 3).2 = step 2 (step 2 (step 3 x₂)) := by
      rw [Source.readExact_of_bytes (by decide) rfl becomes_some]
      dsimp only
      rw [Body.length_feed, Source.readExact_of_retry (by decide) rfl (by decide)]
      exact congrArg Prod.snd (Source.readExact_of_end (by decide) rfl (by simp))
    change Reader.Watched.fetched (ReadCall.on (ReadCall.on (ReadCall.on x (.readExact 2)).2
      (.read 4)).2 (.readExact 3)).2 = _
    rw [ReadCall.snd_on_readExact, ReadCall.snd_on_read, ReadCall.snd_on_readExact, succeeds, fails]
    rfl
  refine ⟨room, ?_, ?_, ?_⟩
  · have few : (mixWriter.accepted writes .abandon).length < 2 ^ 64 := by
      rw [accepted]
      decide
    rw [(written few).transcript_eq, accepted]
  · have few : (mixReader.fetched reads .abandon).length < 2 ^ 64 := by
      rw [fetched]
      decide
    rw [(mixed few).transcript_eq, fetched]
  · have few : (cryptReader.fetched reads .abandon).length < 2 ^ 64 := by
      rw [fetched]
      decide
    rw [(decrypted few).transcript_eq, fetched]
    rfl

end SpongeTranscript
