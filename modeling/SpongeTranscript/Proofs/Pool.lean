import SpongeTranscript.Proofs.Duplex.Guarded
import SpongeTranscript.Proofs.Transcript.Parts

set_option autoImplicit false

/-!
# Pools of duplexes

A program may begin several duplexes and transcripts, take some from snapshots, copy and fork them,
and move each one on by calls and by labelled operations in any order. A pool holds what it has so
far, each transcript by its duplex, and an action is one step of such a program.

However long the program runs, every duplex in its pool is valid, and no action on the way would
have met a guard (`run_is_guarded`).
-/

namespace SpongeTranscript

variable {P : Permutation}

/-- The duplexes that a program holds, each in its slot. -/
abbrev Pool (P : Permutation) := List (Duplex P)

namespace Pool

/-! ## Actions -/

/-- Where a duplex may come from. -/
inductive Origin where
  /-- A duplex with an all-zero state. -/
  | fresh
  /-- A transcript that is bound to a domain. -/
  | init (domain : String)
  /-- A snapshot, which may be refused. -/
  | restore (snapshot : Bytes)
  deriving DecidableEq, Repr

/-- The duplex that is begun, unless its snapshot is refused. -/
def Origin.begin (P : Permutation) : Origin → Option (Duplex P)
  | .fresh => some Duplex.fresh
  | .init domain => some (Transcript.init P domain).duplex
  | .restore snapshot => (Duplex.ofBytes snapshot).toOption

/-- What is done with a duplex. -/
inductive Step where
  | call (c : Duplex.Call)
  | operate (c : Transcript.Call)
  | clone
  | fork (label : String) (variants : List Bytes)
  deriving DecidableEq, Repr

/-- The duplex after the step, and the new ones that were made from it. -/
def Step.on (d : Duplex P) : Step → Duplex P × List (Duplex P)
  | .call c => ((d.call c).2, [])
  | .operate c => ((Transcript.call ⟨d⟩ c).2.duplex, [])
  | .clone => (d, [d])
  | .fork label variants => (d, (Transcript.fork ⟨d⟩ label variants).map Transcript.duplex)

/-- What a program does next. -/
inductive Action where
  | begin (origin : Origin)
  | step (slot : Nat) (s : Step)
  deriving DecidableEq, Repr

/-- Carries out one action. Nothing is done with an empty slot. -/
def act (pool : Pool P) : Action → Pool P
  | .begin origin => pool ++ (origin.begin P).toList
  | .step slot s =>
    match pool[slot]? with
    | some d => pool.set slot (s.on d).1 ++ (s.on d).2
    | none => pool

/-- Carries out actions one after the other. -/
def run (pool : Pool P) : List Action → Pool P
  | [] => pool
  | a :: rest => (pool.act a).run rest

/-! ## Valid pools -/

/-- All duplexes of the pool are valid. -/
def Valid (pool : Pool P) : Prop :=
  ∀ d ∈ pool, d.Valid

/-- Valid pools are valid together. -/
theorem valid_append {pool more : Pool P} (h : pool.Valid) (h' : more.Valid) :
    Valid (pool ++ more) := by
  intro d mem
  rcases List.mem_append.mp mem with old | new
  · exact h d old
  · exact h' d new

/-- A new transcript has a valid duplex. -/
theorem valid_init (P : Permutation) (domain : String) :
    (Transcript.init P domain).duplex.Valid := by
  rw [Transcript.init_eq_run_parts]
  exact Duplex.valid_run Duplex.valid_fresh (Transcript.initParts domain)

/-- Every operation keeps a duplex valid. -/
theorem valid_operate {d : Duplex P} (h : d.Valid) (c : Transcript.Call) :
    (Transcript.call ⟨d⟩ c).2.duplex.Valid := by
  rw [Transcript.call_eq_run_parts]
  exact Duplex.valid_run h c.parts

/-- Whatever a program begins is valid, also what it restores. -/
theorem valid_begin (origin : Origin) : Valid (origin.begin P).toList := by
  intro d mem
  have begun : origin.begin P = some d := Option.mem_toList.mp mem
  cases origin with
  | fresh =>
    rw [← Option.some.inj begun]
    exact Duplex.valid_fresh
  | init domain =>
    rw [← Option.some.inj begun]
    exact valid_init P domain
  | restore snapshot =>
    cases accepted : Duplex.ofBytes (P := P) snapshot with
    | ok e =>
      rw [Origin.begin, accepted] at begun
      rw [← Option.some.inj begun]
      exact Duplex.valid_of_ofBytes accepted
    | error refused =>
      rw [Origin.begin, accepted] at begun
      cases begun

/-- A step keeps its duplex valid and makes none that is not. -/
theorem valid_on {d : Duplex P} (h : d.Valid) (s : Step) :
    (s.on d).1.Valid ∧ Valid (s.on d).2 := by
  have none_new : Valid ([] : Pool P) := fun _ mem => absurd mem List.not_mem_nil
  cases s with
  | call c => exact ⟨Duplex.valid_call h c, none_new⟩
  | operate c => exact ⟨valid_operate h c, none_new⟩
  | clone =>
    refine ⟨h, ?_⟩
    intro copy mem
    rw [List.mem_singleton.mp mem]
    exact h
  | fork label variants =>
    refine ⟨h, ?_⟩
    intro child mem
    rw [Step.on, Transcript.fork, List.map_map] at mem
    obtain ⟨variant, -, rfl⟩ := List.mem_map.mp mem
    exact valid_operate h (.mix label variant)

/-- One action keeps a pool valid. -/
theorem valid_act {pool : Pool P} (h : pool.Valid) (a : Action) : (pool.act a).Valid := by
  cases a with
  | begin origin => exact valid_append h (valid_begin origin)
  | step slot s =>
    unfold act
    dsimp only
    split
    · rename_i d found
      obtain ⟨after, new⟩ := valid_on (h d (List.mem_of_getElem? found)) s
      refine valid_append ?_ new
      intro e mem
      rcases List.mem_or_eq_of_mem_set mem with old | rfl
      · exact h e old
      · exact after
    · exact h

/-- A program that holds valid duplexes holds valid ones to its end. -/
theorem valid_run {pool : Pool P} (h : pool.Valid) (actions : List Action) :
    (pool.run actions).Valid := by
  induction actions generalizing pool with
  | nil => exact h
  | cons a rest ih => exact ih (valid_act h a)

/-! ## Actions under guard -/

/-- Carries out the parts of an operation under guard. -/
def operateGuarded (d : Duplex P) (parts : List Duplex.Call) : Except Breach (Duplex P) := do
  let (_, d) ← d.runGuarded parts
  return d

/-- Begins a duplex under guard. -/
def Origin.beginGuarded (P : Permutation) : Origin → Except Breach (Option (Duplex P))
  | .fresh => return some Duplex.fresh
  | .init domain => do return some (← operateGuarded Duplex.fresh (Transcript.initParts domain))
  | .restore snapshot => return (Duplex.ofBytes snapshot).toOption

/-- Takes a step under guard. -/
def Step.onGuarded (d : Duplex P) : Step → Except Breach (Duplex P × List (Duplex P))
  | .call c => do return ((← d.callGuarded c).2, [])
  | .operate c => do return (← operateGuarded d c.parts, [])
  | .clone => return (d, [d])
  | .fork label variants => do
    let children ← variants.mapM fun variant =>
      operateGuarded d (Transcript.Call.mix label variant).parts
    return (d, children)

/-- Carries out one action under guard. -/
def actGuarded (pool : Pool P) : Action → Except Breach (Pool P)
  | .begin origin => do return pool ++ (← origin.beginGuarded P).toList
  | .step slot s =>
    match pool[slot]? with
    | some d => do
      let (d, new) ← s.onGuarded d
      return pool.set slot d ++ new
    | none => return pool

/-- Carries out actions one after the other under guard. -/
def runGuarded (pool : Pool P) : List Action → Except Breach (Pool P)
  | [] => return pool
  | a :: rest => do
    let pool ← pool.actGuarded a
    pool.runGuarded rest

/-- On a valid duplex no part of an operation breaches a guard. -/
theorem operateGuarded_eq_ok {d : Duplex P} (h : d.Valid) (parts : List Duplex.Call) :
    operateGuarded d parts = .ok (d.run parts).2 := by
  rw [operateGuarded, Duplex.runGuarded_eq_ok h]
  rfl

/-- No beginning breaches a guard. -/
theorem beginGuarded_eq_ok (origin : Origin) :
    origin.beginGuarded P = .ok (origin.begin P) := by
  cases origin with
  | fresh => rfl
  | init domain =>
    rw [Origin.beginGuarded, operateGuarded_eq_ok Duplex.valid_fresh, Origin.begin,
      Transcript.init_eq_run_parts]
    rfl
  | restore snapshot => rfl

/-- On a valid duplex no step breaches a guard. -/
theorem onGuarded_eq_ok {d : Duplex P} (h : d.Valid) (s : Step) :
    s.onGuarded d = .ok (s.on d) := by
  cases s with
  | call c =>
    rw [Step.onGuarded, Duplex.callGuarded_eq_ok h]
    rfl
  | operate c =>
    rw [Step.onGuarded, operateGuarded_eq_ok h, ← Transcript.call_eq_run_parts ⟨d⟩]
    rfl
  | clone => rfl
  | fork label variants =>
    have child_eq (variant : Bytes) :
        operateGuarded d (Transcript.Call.mix label variant).parts =
          pure (Transcript.mix ⟨d⟩ label variant).duplex :=
      operateGuarded_eq_ok h _
    rw [Step.onGuarded, Step.on, Transcript.fork, List.map_map]
    simp only [child_eq, List.mapM_pure]
    rfl

/-- On a valid pool no action breaches a guard. -/
theorem actGuarded_eq_ok {pool : Pool P} (h : pool.Valid) (a : Action) :
    pool.actGuarded a = .ok (pool.act a) := by
  cases a with
  | begin origin =>
    rw [actGuarded, beginGuarded_eq_ok]
    rfl
  | step slot s =>
    unfold actGuarded act
    dsimp only
    split
    · rename_i d found
      rw [onGuarded_eq_ok (h d (List.mem_of_getElem? found))]
      rfl
    · rfl

/-- A program that starts from a valid pool never breaches a guard. -/
theorem runGuarded_eq_ok {pool : Pool P} (h : pool.Valid) (actions : List Action) :
    pool.runGuarded actions = .ok (pool.run actions) := by
  induction actions generalizing pool with
  | nil => rfl
  | cons a rest ih =>
    rw [runGuarded, actGuarded_eq_ok h]
    exact ih (valid_act h a)

/-- Whatever a program does with duplexes and transcripts that it begins, every duplex that it holds
afterwards has its pointers in range, and they are stored without loss. Under guard the program runs
through and leaves the same: no position goes behind the window, no access leaves the rate, no
pointer is cut down to a byte, and no round of a loop takes nothing. -/
theorem run_is_guarded (P : Permutation) (actions : List Action) :
    (∀ d ∈ run ([] : Pool P) actions,
      d.position < window ∧ d.frame ≤ d.position ∧ d.toBytesGuarded = .ok d.toBytes) ∧
    runGuarded ([] : Pool P) actions = .ok (run [] actions) := by
  have start : Valid ([] : Pool P) := fun _ mem => absurd mem List.not_mem_nil
  refine ⟨?_, runGuarded_eq_ok start actions⟩
  intro d mem
  have valid := valid_run start actions d mem
  exact ⟨valid.position_lt, valid.frame_le, Duplex.toBytesGuarded_eq_ok valid⟩

end Pool

end SpongeTranscript
