import Mathlib.Algebra.Ring.Nat
import SpongeTranscript.Proofs.Stream.Passage

set_option autoImplicit false

/-!
# Two ends of an encryption

An encryption can be carried out in one call, by a writer in front of a sink, or by a reader behind
a source, and the party at the other end is free to decrypt in another of these ways. Sinks and
sources cut the bytes and fail as they like, at each end on their own.

What an end does comes to one fact: the body that it opened was fed with the bytes that went in, in
whatever pieces, and closed (`passes_transfer`). A body that decrypts, fed with what came out of one
that encrypts, gives back what went in there, and behind the pieces both hold the same transcript
and the same count (`feed_decrypt_feed_encrypt`). So any two ends fit together
(`endpoints_interoperate`).
-/

namespace SpongeTranscript

universe u

variable {P : Permutation} {σ τ : Type u}

/-! ## What a session hands back -/

/-- Whether a call hands back every byte that it gets out of the source, also if it fails. -/
def ReadCall.HandsOver : ReadCall → Prop
  | .read _ | .readToEnd _ => True
  | .readExact _ => False

section HandedBack

variable [Source σ]

/-- A call that hands over hands back all that it gets out of the source. -/
theorem given_on_of_handsOver (r : Traced σ) {c : ReadCall} (handing : c.HandsOver) :
    (ReadCall.on r c).2.given = r.given ++ (ReadCall.on r c).1.data := by
  have yields := yields_on r c
  cases c with
  | read room =>
    unfold ReadCall.Yields at yields
    dsimp only at yields
    split at yields
    · exact yields.2.2
    · rw [yields.1, yields.2, List.append_nil]
  | readExact count => exact handing.elim
  | readToEnd spare => exact yields.1

/-- If every call hands over, then all that the source has given was handed back by some call. -/
theorem given_runCalls_of_handsOver (stopAt : Delivery → Bool) (r : Traced σ)
    {calls : List ReadCall} (handing : ∀ c ∈ calls, c.HandsOver) :
    (runCalls ReadCall.on stopAt r calls).2.given =
      r.given ++ (runCalls ReadCall.on stopAt r calls).1.flatMap fun entry => entry.1.data := by
  induction calls generalizing r with
  | nil => simp [runCalls]
  | cons c rest ih =>
    have first := given_on_of_handsOver r (handing c List.mem_cons_self)
    rw [runCalls_cons]
    split
    · simpa using first
    · have later := ih (ReadCall.on r c).2 fun c' among => handing c' (List.mem_cons_of_mem c among)
      simp only [List.flatMap_cons]
      rw [later, first, List.append_assoc]

end HandedBack

namespace Reader

variable [Source σ]

/-- All bytes that the calls of a session handed back. -/
def handedBack (r : Reader P σ) (calls : List ReadCall) (ending : Ending) : Bytes :=
  (r.session calls ending).log.flatMap fun entry => entry.1.data

/-- If every call hands over, what was handed back is all that went through the body. -/
theorem handedBack_eq_passedOn (r : Reader P σ) {calls : List ReadCall}
    (handing : ∀ c ∈ calls, c.HandsOver) (ending : Ending) :
    r.handedBack calls ending = r.passedOn calls ending := by
  have all := given_runCalls_of_handsOver (fun answer => ending.stopsAt answer.outcome) r.watch
    handing
  have nothing : r.watch.given = [] := rfl
  rw [nothing, List.nil_append] at all
  unfold handedBack passedOn watched
  rw [session_eq_watched, List.flatMap_map, all]
  rfl

end Reader

/-! ## The ends -/

/-- A way to carry out an encryption or a decryption. -/
inductive Endpoint (σ τ : Type u) where
  /-- One call on a text in memory, whose length fits into a word. -/
  | oneCall (text : Bytes) (few : text.length < 2 ^ 64)
  /-- Calls on a writer in front of a sink. -/
  | writer (sink : σ) (calls : List WriteCall) (ending : Ending)
  /-- Calls on a reader behind a source, each of which hands over what it pulls. -/
  | reader (source : τ) (calls : List ReadCall) (handing : ∀ c ∈ calls, c.HandsOver)
    (ending : Ending)

/-- What an end did. -/
structure Transfer (P : Permutation) where
  /-- The bytes that went in: the text, what the sink accepted of the offers, or what the source
  delivered. -/
  input : Bytes
  /-- The bytes that came out: the result, what the sink received, or what the reads handed back. -/
  output : Bytes
  /-- The transcript after the end. -/
  transcript : Transcript P

/-- Carries out the operation. -/
def Endpoint.transfer [Sink σ] [Source τ] (e : Endpoint σ τ) (t : Transcript P) (label : String)
    (direction : Direction) : Transfer P :=
  match e with
  | .oneCall text _ =>
    let (output, transcript) := t.crypt label direction text
    { input := text, output, transcript }
  | .writer sink calls ending =>
    let w := (t.openCrypt label direction).writer sink
    { input := w.accepted calls ending
      output := w.received calls ending
      transcript := (w.session calls ending).transcript }
  | .reader source calls _ ending =>
    let r := (t.openCrypt label direction).reader source
    { input := r.fetched calls ending
      output := r.handedBack calls ending
      transcript := (r.session calls ending).transcript }

/-- The input went through the body, which was closed after it. -/
structure Transfer.Passes (x : Transfer P) (b : Body P) : Prop where
  output_eq : x.output = (b.feed x.input).1
  transcript_eq : x.transcript = (b.feed x.input).2.close

/-- In whichever way an end works, its input goes through one body, which is then closed. -/
theorem Endpoint.passes_transfer [Sink σ] [Source τ] (e : Endpoint σ τ) (t : Transcript P)
    (label : String) (direction : Direction) :
    (e.transfer t label direction).Passes (t.openCrypt label direction) := by
  have room := room_openCrypt t label direction
  cases e with
  | oneCall text few =>
    exact ⟨(feed_openCrypt t label direction text).symm,
      (close_feed_openCrypt t label direction few).symm⟩
  | writer sink calls ending =>
    exact ⟨Writer.received_eq room calls ending, Writer.transcript_eq room calls ending⟩
  | reader source calls handing ending =>
    refine ⟨?_, Reader.transcript_eq room calls ending⟩
    show Reader.handedBack _ calls ending = _
    rw [Reader.handedBack_eq_passedOn _ handing]
    exact Reader.passedOn_eq room calls ending

/-! ## Both ends together -/

/-- Fed with a ciphertext, the body that decrypts gives back the plaintext, and what it holds then
differs from what the other body holds only in its kind. -/
theorem feed_decrypt_feed_encrypt (t : Transcript P) (label : String) (text : Bytes) :
    (t.openCrypt label .decrypt).feed ((t.openCrypt label .encrypt).feed text).1 =
      (text, { ((t.openCrypt label .encrypt).feed text).2 with kind := .crypt .decrypt }) := by
  have back := Transcript.exchange_undone Exchange.decrypt_undoes_encrypt
    (room_openCrypt t label .encrypt) text
  have same : (t.openCrypt label .decrypt).transcript = (t.openCrypt label .encrypt).transcript :=
    rfl
  unfold Body.feed
  dsimp only [BodyKind.exchange, Transcript.openCrypt] at back same ⊢
  rw [back, Transcript.length_exchange]

/-- From a common transcript one party encrypts and the other decrypts, each in its own way and
however its sink or source behaves, until the receiver has taken in just the bytes that came out at
the sender. Then the receiver has the bytes that went in there, the ciphertext is what one call
makes of them, and after both have closed they hold the same transcript. -/
theorem endpoints_interoperate {σ' τ' : Type u} [Sink σ] [Source τ] [Sink σ'] [Source τ']
    (t : Transcript P) (label : String) (sender : Endpoint σ τ) (receiver : Endpoint σ' τ')
    (all_consumed : (receiver.transfer t label .decrypt).input =
      (sender.transfer t label .encrypt).output) :
    let sent := sender.transfer t label .encrypt
    let opened := receiver.transfer t label .decrypt
    sent.output = (t.encrypt label sent.input).1 ∧
      opened.output = sent.input ∧ opened.transcript = sent.transcript := by
  intro sent opened
  have passed : sent.Passes _ := sender.passes_transfer t label .encrypt
  have opened_passed : opened.Passes _ := receiver.passes_transfer t label .decrypt
  have back := feed_decrypt_feed_encrypt t label sent.input
  have consumed : opened.input = ((t.openCrypt label .encrypt).feed sent.input).1 := by
    rw [← passed.output_eq]
    exact all_consumed
  refine ⟨?_, ?_, ?_⟩
  · rw [passed.output_eq]
    exact feed_openCrypt t label .encrypt sent.input
  · rw [opened_passed.output_eq, consumed, back]
  · rw [opened_passed.transcript_eq, consumed, back, passed.transcript_eq]
    rfl

/-- The sink of a sender breaks after two of four bytes, and a receiver reads what came out byte by
byte from a source that asks for a retry in between. -/
theorem endpoints_interoperate_broken_pipe :
    let t := Transcript.init { name := "identity", apply := id } "com.example.stream"
    let sink : ScriptedSink :=
      { script := { limit := none, incidents := [⟨2, 1, some ⟨.brokenPipe, "budget exhausted"⟩⟩] }
        taken := []
        flushFault := none }
    let sender : Endpoint ScriptedSink ScriptedSource :=
      .writer sink [.writeAll [1, 2, 3, 4]] .scoped
    let sent := sender.transfer t "body" .encrypt
    let source : ScriptedSource :=
      { script := { limit := some 1, incidents := [⟨1, 1, some ⟨.interrupted, "again"⟩⟩] }
        left := sent.output
        offset := 0 }
    let receiver : Endpoint ScriptedSink ScriptedSource :=
      .reader source [.read 4, .readToEnd 7] (by simp [ReadCall.HandsOver]) .abandon
    let opened := receiver.transfer t "body" .decrypt
    opened.input = sent.output ∧ opened.output = [1, 2] ∧ opened.transcript = sent.transcript := by
  intro t sink sender sent source receiver opened
  let P : Permutation := { name := "identity", apply := id }
  let x := ((t.openCrypt "body" .encrypt).writer sink).watch
  have first : (Sink.write x [1, 2, 3, 4]).1 = .ok ⟨2, by decide⟩ := by decide +kernel
  have second : (Sink.write (Sink.write x [1, 2, 3, 4]).2 [3, 4]).1 =
      .error ⟨.brokenPipe, "budget exhausted"⟩ := by decide +kernel
  have broken := Sink.writeAll_of_broken first (by decide) (by decide) second (by decide)
  -- the scope has one call, so it makes no difference that it stops behind it
  have sent_all : (runCalls WriteCall.on (Ending.stopsAt .scoped) x [.writeAll [1, 2, 3, 4]]).2 =
      (Sink.write (Sink.write x [1, 2, 3, 4]).2 [3, 4]).2 := by
    rw [snd_runCalls_singleton, WriteCall.on_writeAll, broken]
    rfl
  have delivered : sent.input = [1, 2] := by
    change Recorded.taken (Prod.snd (runCalls _ _ x _)) = _
    rw [sent_all]
    decide +kernel
  have came_out : sent.output = [1, 7] := by
    change Recorded.taken (Writer.sink (Recorded.sink (Prod.snd (runCalls _ _ x _)))) = _
    rw [sent_all]
    decide +kernel
  -- one byte at a time, with a retry behind the first
  have consumed : ∀ b : Body P, (b.reader { source with left := [1, 7] }).fetched
      [.read 4, .readToEnd 7] .abandon = [1, 7] := by
    intro b
    let left_after (times offset : Nat) (left : Bytes) : ScriptedSource :=
      { script := { limit := some 1, incidents := [⟨1, times, some ⟨.interrupted, "again"⟩⟩] }
        left
        offset }
    have first : Source.read (left_after 1 0 [1, 7]) 4 =
        (.ok ⟨[1], by decide⟩, left_after 1 1 [7]) := rfl
    have again : Source.read (left_after 1 1 [7]) 8 =
        (.error ⟨.interrupted, "again"⟩, left_after 0 1 [7]) := rfl
    have second : Source.read (left_after 0 1 [7]) 8 =
        (.ok ⟨[7], by decide⟩, left_after 0 2 []) := rfl
    have nothing : Source.read (left_after 0 2 []) 8 =
        (.ok ⟨[], by decide⟩, left_after 0 2 []) := rfl
    let y := (b.reader (left_after 1 0 [1, 7])).watch
    change (Source.readToEnd (ReadCall.on y (.read 4)).2 7).2.fetched = _
    rw [ReadCall.on_read_of_ok (Reader.read_watched_of_ok first),
      Source.readToEnd_of_retry (Reader.read_watched_of_fault again) (by decide),
      Source.readToEnd_of_bytes (Reader.read_watched_of_ok second) (by simp),
      Source.readToEnd_of_end (Reader.read_watched_of_ok nothing) (by simp)]
    rfl
  have all_consumed : opened.input = sent.output := by
    change (Body.reader _ { source with left := sent.output }).fetched _ _ = sent.output
    rw [came_out]
    exact consumed _
  have fits := endpoints_interoperate t "body" sender receiver all_consumed
  refine ⟨all_consumed, ?_, fits.2.2⟩
  rw [← delivered]
  exact fits.2.1

end SpongeTranscript
