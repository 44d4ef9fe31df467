import SpongeTranscript.Stream.Sink
import SpongeTranscript.Transcript.Body

set_option autoImplicit false

/-!
# Writers

A writer passes bytes through an open body on their way to a sink. The sink may take less than it
is offered, and the transcript has to bind what was delivered and nothing more.

A mix leaves its bytes as they are, so a writer that mixes offers them first and moves its body on
by those that were taken. A writer that encrypts or decrypts has to know what the bytes become
before it can offer them. So it first tries a scratch copy of the body, which is kept only if the
sink takes all of it; otherwise the bytes that it took go through the body as it was before.
-/

namespace SpongeTranscript

universe u

/-- An open body in front of a sink. -/
structure Writer (P : Permutation) (σ : Type u) where
  /-- The body behind the bytes delivered so far. -/
  body : Body P
  /-- The sink. -/
  sink : σ

/-- Puts an open body in front of a sink. -/
def Body.writer {P : Permutation} {σ : Type u} (b : Body P) (sink : σ) : Writer P σ where
  body := b
  sink := sink

namespace Writer

variable {P : Permutation} {σ : Type u} [Sink σ]

/-- Offers the bytes to the sink once, and moves the body on by those it takes. -/
def writeMixing (w : Writer P σ) (offer : Bytes) :
    Except Fault { n : Nat // n ≤ offer.length } × Writer P σ :=
  match Sink.write w.sink offer with
  | (.ok taken, sink) => (.ok taken, { body := (w.body.feed (offer.take taken)).2, sink })
  | (.error fault, sink) => (.error fault, { w with sink })

/-- Offers what the bytes become to the sink once, and moves the body on by those it takes. -/
def writeProbing (w : Writer P σ) (offer : Bytes) :
    Except Fault { n : Nat // n ≤ offer.length } × Writer P σ :=
  let scratch := w.body.feed offer
  match Sink.write w.sink scratch.1 with
  | (.ok taken, sink) =>
    have taken_le : taken.val ≤ offer.length := by simpa [scratch] using taken.property
    let body :=
      if taken.val = offer.length then scratch.2 else (w.body.feed (offer.take taken)).2
    (.ok ⟨taken, taken_le⟩, { body, sink })
  | (.error fault, sink) => (.error fault, { w with sink })

/-- Passes bytes on, in the way of the operation. -/
def write (w : Writer P σ) (offer : Bytes) :
    Except Fault { n : Nat // n ≤ offer.length } × Writer P σ :=
  match w.body.kind with
  | .mix => w.writeMixing offer
  | .crypt _ => w.writeProbing offer

/-- The bytes that the sink is offered. -/
def offered (w : Writer P σ) (offer : Bytes) : Bytes :=
  match w.body.kind with
  | .mix => offer
  | .crypt _ => (w.body.feed offer).1

omit [Sink σ] in
/-- The sink is offered as many bytes as the writer. -/
@[simp] theorem length_offered (w : Writer P σ) (offer : Bytes) :
    (w.offered offer).length = offer.length := by
  unfold offered
  split
  · rfl
  · exact w.body.length_feed offer

/-- The body moves on by the bytes that the sink takes, whether this is all of the offer or not. -/
theorem write_of_taken {w : Writer P σ} {offer : Bytes}
    {n : { n : Nat // n ≤ (w.offered offer).length }} {sink : σ}
    (answer : Sink.write w.sink (w.offered offer) = (.ok n, sink)) :
    w.write offer =
      (.ok ⟨n.val, by simpa using n.property⟩,
        { body := (w.body.feed (offer.take n)).2, sink }) := by
  obtain ⟨⟨transcript, kind, count⟩, behind⟩ := w
  cases kind with
  | mix =>
    have taken : Sink.write behind offer = (.ok n, sink) := answer
    dsimp only [write, writeMixing]
    rw [taken]
    rfl
  | crypt direction =>
    let body : Body P := { transcript, kind := .crypt direction, count }
    have taken : Sink.write behind (body.feed offer).1 = (.ok n, sink) := answer
    dsimp only [write, writeProbing]
    rw [taken]
    dsimp only
    split
    · rename_i everything
      have whole : offer.take n.val = offer := List.take_of_length_le (by omega)
      rw [whole]
    · rfl

/-- A fault of the sink leaves the body where it was. -/
theorem write_of_fault {w : Writer P σ} {offer : Bytes} {fault : Fault} {sink : σ}
    (answer : Sink.write w.sink (w.offered offer) = (.error fault, sink)) :
    w.write offer = (.error fault, { w with sink }) := by
  obtain ⟨⟨transcript, kind, count⟩, behind⟩ := w
  cases kind with
  | mix =>
    have refused : Sink.write behind offer = (.error fault, sink) := answer
    dsimp only [write, writeMixing]
    rw [refused]
  | crypt direction =>
    let body : Body P := { transcript, kind := .crypt direction, count }
    have refused : Sink.write behind (body.feed offer).1 = (.error fault, sink) := answer
    dsimp only [write, writeProbing]
    rw [refused]

/-- A writer is itself a sink, exactly as patient as the one behind it. -/
instance : Sink (Writer P σ) where
  write := write
  flush w :=
    let (outcome, sink) := Sink.flush w.sink
    (outcome, { w with sink })
  patience w := Sink.patience w.sink
  patience_lt w offer fault nonempty answer retry := by
    have offered_ne : w.offered offer ≠ [] := by
      rw [← List.length_pos_iff, length_offered]
      exact List.length_pos_iff.mpr nonempty
    cases behind : Sink.write w.sink (w.offered offer) with
    | mk outcome sink =>
      cases outcome with
      | ok taken =>
        rw [write_of_taken behind] at answer
        cases answer
      | error reported =>
        rw [write_of_fault behind] at answer ⊢
        cases answer
        have less := Sink.patience_lt w.sink (w.offered offer) fault offered_ne
          (by rw [behind]) retry
        rw [behind] at less
        exact less

end Writer

end SpongeTranscript
