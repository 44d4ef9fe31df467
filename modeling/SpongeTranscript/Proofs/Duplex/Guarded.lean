import SpongeTranscript.Duplex.Snapshot
import SpongeTranscript.Proofs.Duplex.Observed

set_option autoImplicit false

/-!
# Guarded calls

Under guard a call ends at the first condition that does not hold, with the breach that it names:
the observer is the monad of breaches, and pads a state byte by byte under guard before it permutes.

From a valid duplex no call meets a breach, all of them return what they return without the guards,
and they leave a valid duplex (`callGuarded_eq_ok`, `valid_call`). Hence the same holds of runs, and
the pointers of what they leave are stored without loss (`toBytesGuarded_eq_ok`).
-/

namespace SpongeTranscript

variable {P : Permutation}

/-! ## The observer that ends at a breach -/

instance : Guard (Except Breach) where
  ensure breach condition := if condition then .ok () else .error breach

instance : LawfulGuard (Except Breach) where
  strict := True
  Returns x a := x = .ok a
  returns_pure _ := rfl
  returns_bind returned behind := by
    rw [returned]
    exact behind
  returns_ensure := by
    intro breach condition _ holds
    exact if_pos (holds trivial)

instance : Observer P (Except Breach) where
  apply d := do
    let block ← d.paddedObserved
    return P.apply block

instance : LawfulObserver P (Except Breach) where
  returns_apply _ fits :=
    LawfulGuard.returns_bind (Duplex.returns_padded fits) (LawfulGuard.returns_pure _)

namespace Duplex

/-- Carries out one call under guard. -/
def callGuarded (d : Duplex P) (c : Call) : Except Breach (Bytes × Duplex P) :=
  d.callObserved c

/-- Carries out calls one after the other under guard. -/
def runGuarded (d : Duplex P) (calls : List Call) : Except Breach (List Bytes × Duplex P) :=
  d.runObserved calls

/-- Stores the pointers under guard, in front of the state. -/
def toBytesGuarded (d : Duplex P) : Except Breach Bytes := do
  let position ← pointerByte d.position
  let frame ← pointerByte d.frame
  return position :: frame :: d.state.toList

/-! ## No guard is met -/

/-- From a valid duplex, no call meets a guard. -/
theorem callGuarded_eq_ok {d : Duplex P} (h : d.Valid) (c : Call) :
    d.callGuarded c = .ok (d.call c) :=
  returns_call (m := Except Breach) h.position_lt (fun _ => h) c

/-- From a valid duplex, no run meets a guard. -/
theorem runGuarded_eq_ok {d : Duplex P} (h : d.Valid) (calls : List Call) :
    d.runGuarded calls = .ok (d.run calls) :=
  returns_run (m := Except Breach) h.position_lt (fun _ => h) calls

/-- The pointers of a valid duplex are stored without loss. -/
theorem toBytesGuarded_eq_ok {d : Duplex P} (h : d.Valid) :
    d.toBytesGuarded = .ok d.toBytes := by
  have position_lt : d.position < 256 := Nat.lt_trans h.position_lt (by decide)
  have position_eq : pointerByte d.position = Except.ok d.position.toUInt8 :=
    returns_pointerByte (m := Except Breach) fun _ => position_lt
  have frame_eq : pointerByte d.frame = Except.ok d.frame.toUInt8 :=
    returns_pointerByte (m := Except Breach) fun _ => frame_lt_of_valid h
  rw [toBytesGuarded, position_eq, frame_eq]
  rfl

/-- A snapshot that is accepted gives a valid duplex. -/
theorem valid_of_ofBytes {bytes : Bytes} {d : Duplex P} (accepted : ofBytes bytes = .ok d) :
    d.Valid := by
  unfold ofBytes at accepted
  split at accepted
  · split at accepted
    · cases accepted
    · split at accepted
      · cases accepted
      · rename_i position frame _ _ _ _ in_range
        cases accepted
        have ordered : ¬ position.toNat < frame.toNat := fun less => in_range (.inr (.inr less))
        exact ⟨by simp only; omega, by simp only; omega⟩
  · cases accepted

/-- Behind the window the guards are met. -/
example : roomObserved (P := P) { state := State.zero, position := 167, frame := 0 } =
    Except.error Breach.negativeRoom := rfl

end Duplex

end SpongeTranscript
