import SpongeTranscript.Bytes
import SpongeTranscript.Stream.Fault

set_option autoImplicit false

/-!
# Sources

A source hands over at most as many bytes as there is room for, possibly none, or reports a fault.
No bytes at all mean that it has ended, though it may be asked again. A source runs dry: what it
can still hand over, together with the retries that it can still ask for, is bounded. A behaviour
without such a bound is followed as far as a number of reads goes (`Excerpt`).
-/

namespace SpongeTranscript

universe u

/-- A type whose values hand over bytes. -/
class Source (σ : Type u) where
  /-- Asks for at most `room` bytes. -/
  read : σ → (room : Nat) → Except Fault { piece : Bytes // piece.length ≤ room } × σ
  /-- Bounds the number of bytes and retries still to come. -/
  supply : σ → Nat
  /-- Bytes that are handed over come out of the supply. -/
  supply_lt_of_bytes (s : σ) (room : Nat) (piece : { piece : Bytes // piece.length ≤ room }) :
    (read s room).1 = .ok piece → piece.val ≠ [] → supply (read s room).2 < supply s
  /-- Each request for a retry comes out of the supply. -/
  supply_lt_of_retry (s : σ) (room : Nat) (fault : Fault) :
    0 < room → (read s room).1 = .error fault → fault.Retry → supply (read s room).2 < supply s

namespace Source

variable {σ : Type u} [Source σ]

/-- Reads exactly `count` bytes. Requests for a retry are met; any other fault ends the call, and so
does a source that has ended. -/
def readExact (s : σ) (count : Nat) : Except Fault Bytes × σ :=
  if wanted : 0 < count then
    match answer : read s count with
    | (.ok piece, s') =>
      if nonempty : piece.val ≠ [] then
        have less : supply s' < supply s := by
          simpa [answer] using supply_lt_of_bytes s count piece (by rw [answer]) nonempty
        let (rest, s') := readExact s' (count - piece.val.length)
        (rest.map (piece.val ++ ·), s')
      else
        (.error .unexpectedEnd, s')
    | (.error fault, s') =>
      if retry : fault.Retry then
        have less : supply s' < supply s := by
          simpa [answer] using supply_lt_of_retry s count fault wanted (by rw [answer]) retry
        readExact s' count
      else
        (.error fault, s')
  else
    (.ok [], s)
termination_by supply s

/-- Reads to the end with room for `spare + 1` bytes at a time, and returns all that was handed over
with how it ended. Requests for a retry are met, and any other fault ends the call. -/
def readToEnd (s : σ) (spare : Nat) : (Bytes × Except Fault Unit) × σ :=
  match answer : read s (spare + 1) with
  | (.ok piece, s') =>
    if nonempty : piece.val ≠ [] then
      have less : supply s' < supply s := by
        simpa [answer] using supply_lt_of_bytes s (spare + 1) piece (by rw [answer]) nonempty
      let ((rest, ending), s') := readToEnd s' spare
      ((piece.val ++ rest, ending), s')
    else
      (([], .ok ()), s')
  | (.error fault, s') =>
    if retry : fault.Retry then
      have less : supply s' < supply s := by
        simpa [answer] using
          supply_lt_of_retry s (spare + 1) fault (Nat.succ_pos spare) (by rw [answer]) retry
      readToEnd s' spare
    else
      (([], .error fault), s')
termination_by supply s

/-! What the first answer makes of the call -/

section

variable {s s' : σ} {count spare : Nat}

/-- There is nothing to do for no bytes. -/
theorem readExact_zero (s : σ) : readExact s 0 = (.ok [], s) := by
  rw [readExact, dif_neg (Nat.lt_irrefl 0)]

/-- If some bytes are handed over, the others are read next. -/
theorem readExact_of_bytes {piece : { piece : Bytes // piece.length ≤ count }} (wanted : 0 < count)
    (answer : read s count = (.ok piece, s')) (nonempty : piece.val ≠ []) :
    readExact s count =
      ((readExact s' (count - piece.val.length)).1.map (piece.val ++ ·),
        (readExact s' (count - piece.val.length)).2) := by
  rw [readExact, dif_pos wanted]
  split
  · rename_i answer'
    cases answer'.symm.trans answer
    rw [dif_pos nonempty]
  · rename_i answer'
    cases answer'.symm.trans answer

/-- A source that has ended ends the call. -/
theorem readExact_of_end {piece : { piece : Bytes // piece.length ≤ count }} (wanted : 0 < count)
    (answer : read s count = (.ok piece, s')) (empty : piece.val = []) :
    readExact s count = (.error .unexpectedEnd, s') := by
  rw [readExact, dif_pos wanted]
  split
  · rename_i answer'
    cases answer'.symm.trans answer
    rw [dif_neg (Decidable.not_not.mpr empty)]
  · rename_i answer'
    cases answer'.symm.trans answer

/-- A request for a retry is met with the same room. -/
theorem readExact_of_retry {fault : Fault} (wanted : 0 < count)
    (answer : read s count = (.error fault, s')) (retry : fault.Retry) :
    readExact s count = readExact s' count := by
  rw [readExact, dif_pos wanted]
  split
  · rename_i answer'
    cases answer'.symm.trans answer
  · rename_i answer'
    cases answer'.symm.trans answer
    rw [dif_pos retry]

/-- Any other fault ends the call. -/
theorem readExact_of_fault {fault : Fault} (wanted : 0 < count)
    (answer : read s count = (.error fault, s')) (final : ¬fault.Retry) :
    readExact s count = (.error fault, s') := by
  rw [readExact, dif_pos wanted]
  split
  · rename_i answer'
    cases answer'.symm.trans answer
  · rename_i answer'
    cases answer'.symm.trans answer
    rw [dif_neg final]

/-- As long as bytes are handed over, more are read. -/
theorem readToEnd_of_bytes {piece : { piece : Bytes // piece.length ≤ spare + 1 }}
    (answer : read s (spare + 1) = (.ok piece, s')) (nonempty : piece.val ≠ []) :
    readToEnd s spare =
      ((piece.val ++ (readToEnd s' spare).1.1, (readToEnd s' spare).1.2),
        (readToEnd s' spare).2) := by
  rw [readToEnd]
  split
  · rename_i answer'
    cases answer'.symm.trans answer
    rw [dif_pos nonempty]
  · rename_i answer'
    cases answer'.symm.trans answer

/-- The call succeeds where the source has ended. -/
theorem readToEnd_of_end {piece : { piece : Bytes // piece.length ≤ spare + 1 }}
    (answer : read s (spare + 1) = (.ok piece, s')) (empty : piece.val = []) :
    readToEnd s spare = (([], .ok ()), s') := by
  rw [readToEnd]
  split
  · rename_i answer'
    cases answer'.symm.trans answer
    rw [dif_neg (Decidable.not_not.mpr empty)]
  · rename_i answer'
    cases answer'.symm.trans answer

/-- A request for a retry is met with the same room. -/
theorem readToEnd_of_retry {fault : Fault} (answer : read s (spare + 1) = (.error fault, s'))
    (retry : fault.Retry) : readToEnd s spare = readToEnd s' spare := by
  rw [readToEnd]
  split
  · rename_i answer'
    cases answer'.symm.trans answer
  · rename_i answer'
    cases answer'.symm.trans answer
    rw [dif_pos retry]

/-- Any other fault ends the call. -/
theorem readToEnd_of_fault {fault : Fault} (answer : read s (spare + 1) = (.error fault, s'))
    (final : ¬fault.Retry) : readToEnd s spare = (([], .error fault), s') := by
  rw [readToEnd]
  split
  · rename_i answer'
    cases answer'.symm.trans answer
  · rename_i answer'
    cases answer'.symm.trans answer
    rw [dif_neg final]

end

end Source

/-- A behaviour without a bound, followed for a number of reads and ended after them. A call that
leaves reads over is the same on every longer excerpt, and on the whole. -/
structure Excerpt {σ : Type u}
    (next : σ → (room : Nat) → Except Fault { piece : Bytes // piece.length ≤ room } × σ) where
  /-- The state of the behaviour. -/
  state : σ
  /-- The number of reads that are left. -/
  left : Nat

namespace Excerpt

variable {σ : Type u}
  {next : σ → (room : Nat) → Except Fault { piece : Bytes // piece.length ≤ room } × σ}

/-- Answers as the behaviour does, as long as reads are left. -/
def read (s : Excerpt next) (room : Nat) :
    Except Fault { piece : Bytes // piece.length ≤ room } × Excerpt next :=
  match s.left with
  | 0 => (.ok ⟨[], Nat.zero_le room⟩, s)
  | left + 1 =>
    let (outcome, state) := next s.state room
    (outcome, { state, left })

instance : Source (Excerpt next) where
  read := read
  supply := left
  supply_lt_of_bytes s room piece answer nonempty := by
    unfold read at answer ⊢
    split
    · rename_i ended
      simp only [ended, Except.ok.injEq] at answer
      exact absurd (congrArg Subtype.val answer).symm nonempty
    · rename_i left_eq
      rw [left_eq]
      exact Nat.lt_succ_self _
  supply_lt_of_retry s room fault _ answer _ := by
    unfold read at answer ⊢
    split
    · rename_i ended
      simp [ended] at answer
    · rename_i left_eq
      rw [left_eq]
      exact Nat.lt_succ_self _

/-- The same excerpt with more reads left. -/
def extend (s : Excerpt next) (more : Nat) : Excerpt next :=
  { s with left := s.left + more }

end Excerpt

end SpongeTranscript
