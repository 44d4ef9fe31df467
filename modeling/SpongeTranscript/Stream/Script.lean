import SpongeTranscript.Stream.Sink
import SpongeTranscript.Stream.Source

set_option autoImplicit false

/-!
# Scripted sinks and sources

A sink or source in memory whose behaviour is set down beforehand: how much it moves at most in one
call, and at which offsets a number of calls are to fail or to move nothing. A call never carries
on past an offset at which something is still due.
-/

namespace SpongeTranscript

/-- Something that is due at an offset for a number of calls. -/
structure Incident where
  /-- The number of bytes moved before. -/
  offset : Nat
  /-- The number of calls that it still meets. -/
  times : Nat
  /-- What such a call reports; without a fault it moves nothing. -/
  fault : Option Fault
  deriving DecidableEq, Repr

/-- The behaviour of a sink or source. -/
structure Script where
  /-- The most that one call moves, if there is a limit. -/
  limit : Option Nat
  /-- What is due, the first match being met first. -/
  incidents : List Incident
  deriving DecidableEq, Repr

namespace Script

/-- The first incident that is due at the offset, and the incidents that are left after it. -/
def strike (offset : Nat) : List Incident → Option (Option Fault × List Incident)
  | [] => none
  | i :: rest =>
    if i.offset = offset ∧ 0 < i.times then
      some (i.fault, { i with times := i.times - 1 } :: rest)
    else
      (strike offset rest).map fun (fault, left) => (fault, i :: left)

/-- The number of bytes that a call at the offset moves when nothing is due there: at most
`wanted`, within the limit, and up to the next offset at which something is due. -/
def allowance (script : Script) (offset wanted : Nat) : Nat :=
  let upper := (script.limit.map (min wanted)).getD wanted
  script.incidents.foldl
    (fun n i => if 0 < i.times ∧ offset < i.offset then min n (i.offset - offset) else n) upper

/-- The number of calls that incidents are still to meet. -/
def due : List Incident → Nat
  | [] => 0
  | i :: rest => i.times + due rest

/-- A call that meets an incident leaves one fewer to be met. -/
theorem due_of_strike {offset : Nat} {incidents left : List Incident} {fault : Option Fault}
    (h : strike offset incidents = some (fault, left)) : due left < due incidents := by
  induction incidents generalizing left with
  | nil => simp [strike] at h
  | cons i rest ih =>
    rw [strike] at h
    split at h
    · rename_i struck
      obtain ⟨-, rfl⟩ := Prod.mk.inj (Option.some.inj h)
      simp only [due]
      omega
    · obtain ⟨⟨found, tail⟩, struck, same⟩ := Option.map_eq_some_iff.mp h
      obtain ⟨rfl, rfl⟩ := Prod.mk.inj same
      have less := ih struck
      simp only [due] at less ⊢
      omega

/-- Steps that never go up never go beyond the start. -/
theorem foldl_le_start {α : Type} (f : Nat → α → Nat) (f_le : ∀ n a, f n a ≤ n) (items : List α)
    (start : Nat) : items.foldl f start ≤ start := by
  induction items generalizing start with
  | nil => exact Nat.le_refl start
  | cons a rest ih => exact Nat.le_trans (ih (f start a)) (f_le start a)

/-- No script moves more than is wanted. -/
theorem allowance_le (script : Script) (offset wanted : Nat) :
    script.allowance offset wanted ≤ wanted := by
  have upper_le : (script.limit.map (min wanted)).getD wanted ≤ wanted := by
    cases script.limit with
    | none => exact Nat.le_refl wanted
    | some limit => exact Nat.min_le_left wanted limit
  refine Nat.le_trans (foldl_le_start _ (fun n i => ?_) _ _) upper_le
  split
  · exact Nat.min_le_left _ _
  · exact Nat.le_refl n

end Script

/-- A sink that follows a script and keeps what it takes. -/
structure ScriptedSink where
  script : Script
  /-- All bytes taken so far. -/
  taken : Bytes
  /-- What every flush reports. -/
  flushFault : Option Fault
  deriving DecidableEq, Repr

namespace ScriptedSink

/-- The number of bytes taken so far. -/
def offset (s : ScriptedSink) : Nat :=
  s.taken.length

/-- Takes what the script allows. -/
def write (s : ScriptedSink) (offer : Bytes) :
    Except Fault { n : Nat // n ≤ offer.length } × ScriptedSink :=
  match Script.strike s.offset s.script.incidents with
  | some (fault, incidents) =>
    let s := { s with script := { s.script with incidents } }
    match fault with
    | some fault => (.error fault, s)
    | none => (.ok (Sink.nothing offer), s)
  | none =>
    let n := s.script.allowance s.offset offer.length
    (.ok ⟨n, s.script.allowance_le s.offset offer.length⟩,
      { s with taken := s.taken ++ offer.take n })

instance : Sink ScriptedSink where
  write := write
  flush s := (match s.flushFault with | some fault => .error fault | none => .ok (), s)
  patience s := Script.due s.script.incidents
  patience_lt s offer fault _ answer _ := by
    unfold write at answer ⊢
    split
    · rename_i struck
      have less := Script.due_of_strike struck
      dsimp only
      split <;> exact less
    · rename_i struck
      simp [struck] at answer

end ScriptedSink

/-- A source that hands over its bytes as a script allows. -/
structure ScriptedSource where
  script : Script
  /-- The bytes that are left. -/
  left : Bytes
  /-- The number of bytes handed over so far. -/
  offset : Nat
  deriving DecidableEq, Repr

namespace ScriptedSource

/-- Hands over what the script allows. -/
def read (s : ScriptedSource) (room : Nat) :
    Except Fault { piece : Bytes // piece.length ≤ room } × ScriptedSource :=
  match Script.strike s.offset s.script.incidents with
  | some (fault, incidents) =>
    let s := { s with script := { s.script with incidents } }
    match fault with
    | some fault => (.error fault, s)
    | none => (.ok ⟨[], Nat.zero_le _⟩, s)
  | none =>
    let n := s.script.allowance s.offset (min room s.left.length)
    have n_le : n ≤ room :=
      Nat.le_trans (Script.allowance_le _ _ _) (Nat.min_le_left _ _)
    (.ok ⟨s.left.take n, Nat.le_trans (List.length_take_le n s.left) n_le⟩,
      { s with left := s.left.drop n, offset := s.offset + n })

instance : Source ScriptedSource where
  read := read
  supply s := Script.due s.script.incidents + s.left.length
  supply_lt_of_bytes s room piece answer nonempty := by
    unfold read at answer ⊢
    split
    · rename_i struck
      have less := Script.due_of_strike struck
      dsimp only
      split <;> exact Nat.add_lt_add_right less _
    · rename_i struck
      simp only [struck, Except.ok.injEq] at answer
      have piece_pos := List.length_pos_iff.mpr nonempty
      rw [← answer, List.length_take] at piece_pos
      simp only [List.length_drop]
      omega
  supply_lt_of_retry s room fault _ answer _ := by
    unfold read at answer ⊢
    split
    · rename_i struck
      have less := Script.due_of_strike struck
      dsimp only
      split <;> exact Nat.add_lt_add_right less _
    · rename_i struck
      simp [struck] at answer

end ScriptedSource

end SpongeTranscript
