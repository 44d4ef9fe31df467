import SpongeTranscript.Bytes
import SpongeTranscript.Stream.Fault

set_option autoImplicit false

/-!
# Sinks

A sink takes some first part of the bytes it is offered, possibly none of them, or reports a fault.
A fault of the retry kind asks for the same call again. Nobody can wait for a sink that asks for
this without end, so each sink bounds what it may still ask for. A behaviour without such a bound is
followed as far as a number of writes goes (`SinkExcerpt`).
-/

namespace SpongeTranscript

universe u

/-- A type whose values take bytes. -/
class Sink (σ : Type u) where
  /-- Offers bytes; answers with the number of bytes taken. -/
  write : σ → (offer : Bytes) → Except Fault { n : Nat // n ≤ offer.length } × σ
  /-- Asks for the bytes taken to be passed on. -/
  flush : σ → Except Fault Unit × σ
  /-- Bounds how often the sink may still ask for a retry in a row. -/
  patience : σ → Nat
  /-- Each such request uses up patience. -/
  patience_lt (s : σ) (offer : Bytes) (fault : Fault) :
    offer ≠ [] → (write s offer).1 = .error fault → fault.Retry →
      patience (write s offer).2 < patience s

namespace Sink

/-- The answer that none of the bytes are taken. -/
def nothing (offer : Bytes) : { n : Nat // n ≤ offer.length } :=
  ⟨0, Nat.zero_le offer.length⟩

variable {σ : Type u} [Sink σ]

/-- Writes until nothing is left. Requests for a retry are met; any other fault ends the call, and
so does a sink that takes nothing. -/
def writeAll (s : σ) (data : Bytes) : Except Fault Unit × σ :=
  if nonempty : data ≠ [] then
    match answer : write s data with
    | (.ok taken, s') =>
      if some_taken : taken.val ≠ 0 then
        have shorter : (data.drop taken).length < data.length := by
          have data_pos := List.length_pos_iff.mpr nonempty
          rw [List.length_drop]
          omega
        writeAll s' (data.drop taken)
      else
        (.error .writeZero, s')
    | (.error fault, s') =>
      if retry : fault.Retry then
        have less : patience s' < patience s := by
          simpa [answer] using patience_lt s data fault nonempty (by rw [answer]) retry
        writeAll s' data
      else
        (.error fault, s')
  else
    (.ok (), s)
termination_by (data.length, patience s)

/-! What the first answer makes of the call -/

section

variable {s s' : σ} {data : Bytes}

/-- There is nothing to do for no bytes. -/
theorem writeAll_nil (s : σ) : writeAll s [] = (.ok (), s) := by
  rw [writeAll, dif_neg (by simp)]

/-- If some bytes are taken, the others are written next. -/
theorem writeAll_of_taken {taken : { n : Nat // n ≤ data.length }} (nonempty : data ≠ [])
    (answer : write s data = (.ok taken, s')) (some_taken : taken.val ≠ 0) :
    writeAll s data = writeAll s' (data.drop taken) := by
  rw [writeAll, dif_pos nonempty]
  split
  · rename_i answer'
    cases answer'.symm.trans answer
    rw [dif_pos some_taken]
  · rename_i answer'
    cases answer'.symm.trans answer

/-- A sink that takes nothing ends the call. -/
theorem writeAll_of_none_taken {taken : { n : Nat // n ≤ data.length }} (nonempty : data ≠ [])
    (answer : write s data = (.ok taken, s')) (none_taken : taken.val = 0) :
    writeAll s data = (.error .writeZero, s') := by
  rw [writeAll, dif_pos nonempty]
  split
  · rename_i answer'
    cases answer'.symm.trans answer
    rw [dif_neg (Decidable.not_not.mpr none_taken)]
  · rename_i answer'
    cases answer'.symm.trans answer

/-- A request for a retry is met with the same bytes. -/
theorem writeAll_of_retry {fault : Fault} (nonempty : data ≠ [])
    (answer : write s data = (.error fault, s')) (retry : fault.Retry) :
    writeAll s data = writeAll s' data := by
  rw [writeAll, dif_pos nonempty]
  split
  · rename_i answer'
    cases answer'.symm.trans answer
  · rename_i answer'
    cases answer'.symm.trans answer
    rw [dif_pos retry]

/-- Any other fault ends the call. -/
theorem writeAll_of_fault {fault : Fault} (nonempty : data ≠ [])
    (answer : write s data = (.error fault, s')) (final : ¬fault.Retry) :
    writeAll s data = (.error fault, s') := by
  rw [writeAll, dif_pos nonempty]
  split
  · rename_i answer'
    cases answer'.symm.trans answer
  · rename_i answer'
    cases answer'.symm.trans answer
    rw [dif_neg final]

/-- If a first part is taken and the sink then breaks, the call ends with the second write. -/
theorem writeAll_of_broken {taken : { n : Nat // n ≤ data.length }} {fault : Fault}
    (first : (write s data).1 = .ok taken) (some_taken : taken.val ≠ 0)
    (not_all : taken.val < data.length)
    (second : (write (write s data).2 (data.drop taken)).1 = .error fault)
    (final : ¬fault.Retry) :
    writeAll s data = (.error fault, (write (write s data).2 (data.drop taken)).2) := by
  have nonempty : data ≠ [] := by
    rintro rfl
    exact Nat.not_lt_zero _ not_all
  have some_left : data.drop taken ≠ [] := by
    rw [← List.length_pos_iff, List.length_drop]
    omega
  rw [writeAll_of_taken nonempty (Prod.ext first rfl) some_taken]
  exact writeAll_of_fault some_left (Prod.ext second rfl) final

end

end Sink

/-- A behaviour without a bound on its requests, followed for a number of writes. Behind them it
takes nothing. A call that leaves writes over is the same on every longer excerpt, and on the
whole. -/
structure SinkExcerpt {σ : Type u}
    (next : σ → (offer : Bytes) → Except Fault { n : Nat // n ≤ offer.length } × σ)
    (pass : σ → Except Fault Unit × σ) where
  /-- The state of the behaviour. -/
  state : σ
  /-- The number of writes that are left. -/
  left : Nat

namespace SinkExcerpt

variable {σ : Type u}
  {next : σ → (offer : Bytes) → Except Fault { n : Nat // n ≤ offer.length } × σ}
  {pass : σ → Except Fault Unit × σ}

/-- Answers as the behaviour does, as long as writes are left. -/
def write (s : SinkExcerpt next pass) (offer : Bytes) :
    Except Fault { n : Nat // n ≤ offer.length } × SinkExcerpt next pass :=
  match s.left with
  | 0 => (.ok (Sink.nothing offer), s)
  | left + 1 =>
    let (outcome, state) := next s.state offer
    (outcome, { state, left })

instance : Sink (SinkExcerpt next pass) where
  write := write
  flush s :=
    let (outcome, state) := pass s.state
    (outcome, { s with state })
  patience := left
  patience_lt s offer fault _ answer _ := by
    unfold write at answer ⊢
    split
    · rename_i ended
      simp [ended] at answer
    · rename_i left_eq
      rw [left_eq]
      exact Nat.lt_succ_self _

/-- The same excerpt with more writes left. -/
def extend (s : SinkExcerpt next pass) (more : Nat) : SinkExcerpt next pass :=
  { s with left := s.left + more }

end SinkExcerpt

end SpongeTranscript
