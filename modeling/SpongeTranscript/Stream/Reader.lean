import SpongeTranscript.Stream.Source
import SpongeTranscript.Transcript.Body

set_option autoImplicit false

/-!
# Readers

A reader passes bytes through an open body on their way from a source. Whatever the source hands
over has gone through the body, also when the call that asked for it fails later.
-/

namespace SpongeTranscript

universe u

/-- An open body behind a source. -/
structure Reader (P : Permutation) (σ : Type u) where
  /-- The body behind the bytes read so far. -/
  body : Body P
  /-- The source. -/
  source : σ

/-- Puts an open body behind a source. -/
def Body.reader {P : Permutation} {σ : Type u} (b : Body P) (source : σ) : Reader P σ where
  body := b
  source := source

namespace Reader

variable {P : Permutation} {σ : Type u} [Source σ]

/-- Asks the source once, and returns what its bytes become. -/
def read (r : Reader P σ) (room : Nat) :
    Except Fault { piece : Bytes // piece.length ≤ room } × Reader P σ :=
  match Source.read r.source room with
  | (.ok piece, source) =>
    let fed := r.body.feed piece.val
    (.ok ⟨fed.1, by simpa [fed] using piece.property⟩, { body := fed.2, source })
  | (.error fault, source) => (.error fault, { r with source })

/-- A reader is itself a source, with the supply of the one before it. -/
instance : Source (Reader P σ) where
  read := read
  supply r := Source.supply r.source
  supply_lt_of_bytes r room piece answer nonempty := by
    cases h : Source.read r.source room with
    | mk outcome source =>
      cases outcome with
      | error fault => simp [read, h] at answer
      | ok handed =>
        have same : (r.body.feed handed.val).1 = piece.val := by
          simp only [read, h, Except.ok.injEq] at answer
          rw [← answer]
        have handed_ne : handed.val ≠ [] := by
          rwa [← same, Ne, Body.feed_fst_eq_nil_iff] at nonempty
        simpa [read, h] using
          Source.supply_lt_of_bytes r.source room handed (by rw [h]) handed_ne
  supply_lt_of_retry r room fault room_pos answer retry := by
    cases h : Source.read r.source room with
    | mk outcome source =>
      cases outcome with
      | ok handed => simp [read, h] at answer
      | error reported =>
        have same : reported = fault := by simpa [read, h] using answer
        subst same
        simpa [read, h] using
          Source.supply_lt_of_retry r.source room reported room_pos (by rw [h]) retry

end Reader

end SpongeTranscript
