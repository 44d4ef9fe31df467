import SpongeTranscript.Stream.Session

set_option autoImplicit false

/-!
# Runs of calls

A run carries out calls in turn, and notes each answer with what the call left behind. What every
call keeps holds of all that a run leaves (`runCalls_keeps`), and what every call does behind a view
the run does behind it (`runCalls_view`). A log can be read in turn: each entry is related to the
call that made it and to what the call before left (`Chained`).
-/

namespace SpongeTranscript

universe u v

section Runs

variable {σ τ : Type u} {κ ρ : Type v} {on : σ → κ → ρ × σ} {stopAt : ρ → Bool} {inv : σ → Prop}
  {related : σ → κ → ρ → σ → Prop}

/-- A run carries out its first call, and the rest unless the answer ends the run. -/
theorem runCalls_cons (s : σ) (c : κ) (rest : List κ) :
    runCalls on stopAt s (c :: rest) =
      if stopAt (on s c).1 then ([on s c], (on s c).2)
      else
        (on s c :: (runCalls on stopAt (on s c).2 rest).1,
          (runCalls on stopAt (on s c).2 rest).2) := rfl

/-- A run of one call leaves behind what the call does. -/
theorem snd_runCalls_singleton (s : σ) (c : κ) : (runCalls on stopAt s [c]).2 = (on s c).2 := by
  rw [runCalls_cons]
  split <;> rfl

/-! ## What a run keeps -/

/-- What every call keeps holds of all that a run leaves behind. -/
theorem runCalls_keeps (keeps : ∀ s c, inv s → inv (on s c).2) {s : σ} (start : inv s)
    (calls : List κ) :
    (∀ entry ∈ (runCalls on stopAt s calls).1, inv entry.2) ∧
      inv (runCalls on stopAt s calls).2 := by
  induction calls generalizing s with
  | nil => exact ⟨fun _ none => absurd none (List.not_mem_nil), start⟩
  | cons c rest ih =>
    have next := keeps s c start
    obtain ⟨later, last⟩ := ih next
    rw [runCalls_cons]
    split
    · refine ⟨?_, next⟩
      intro entry among
      rw [List.mem_singleton.mp among]
      exact next
    · refine ⟨?_, last⟩
      intro entry among
      rcases List.mem_cons.mp among with rfl | among
      · exact next
      · exact later entry among

/-- What grows with every call is never more in the log than it is at the end. -/
theorem prefix_last_runCalls {view : σ → Bytes} (grows : ∀ s c, view s <+: view (on s c).2) (s : σ)
    (calls : List κ) :
    view s <+: view (runCalls on stopAt s calls).2 ∧
      ∀ entry ∈ (runCalls on stopAt s calls).1,
        view entry.2 <+: view (runCalls on stopAt s calls).2 := by
  induction calls generalizing s with
  | nil => exact ⟨List.prefix_rfl, fun _ none => absurd none List.not_mem_nil⟩
  | cons c rest ih =>
    have first := grows s c
    obtain ⟨later, always⟩ := ih (on s c).2
    rw [runCalls_cons]
    split
    · refine ⟨first, ?_⟩
      intro entry among
      obtain rfl := List.mem_singleton.mp among
      exact List.prefix_rfl
    · refine ⟨first.trans later, ?_⟩
      intro entry among
      rcases List.mem_cons.mp among with rfl | among
      · exact later
      · exact always entry among

/-! ## Runs behind a view -/

/-- A run that ends within bounds to which no call comes back was within them all the time. -/
theorem within_of_runCalls {within : σ → Prop} (back : ∀ s c, within (on s c).2 → within s) {s : σ}
    {calls : List κ} (ends : within (runCalls on stopAt s calls).2) : within s := by
  by_cases inside : within s
  · exact inside
  · have stays_out : ∀ s c, ¬ within s → ¬ within (on s c).2 :=
      fun s c out ends => out (back s c ends)
    exact absurd ends (runCalls_keeps stays_out inside calls).2

/-- If calls do the same behind a view as long as they end within bounds, then so do runs. -/
theorem runCalls_view {on' : τ → κ → ρ × τ} {view : τ → σ} {within : τ → Prop}
    (same : ∀ s c, within (on' s c).2 → on (view s) c = ((on' s c).1, view (on' s c).2))
    (back : ∀ s c, within (on' s c).2 → within s) {s : τ} {calls : List κ}
    (ends : within (runCalls on' stopAt s calls).2) :
    runCalls on stopAt (view s) calls =
      ((runCalls on' stopAt s calls).1.map fun entry => (entry.1, view entry.2),
        view (runCalls on' stopAt s calls).2) := by
  induction calls generalizing s with
  | nil => rfl
  | cons c rest ih =>
    rw [runCalls_cons] at ends
    rw [runCalls_cons, runCalls_cons]
    split at ends
    · rename_i stops
      rw [same s c ends, if_pos stops, if_pos stops]
      rfl
    · rename_i goes_on
      rw [same s c (within_of_runCalls back ends), if_neg goes_on, if_neg goes_on, ih ends]
      rfl

/-! ## Logs -/

/-- Each entry of a log is related to the call that made it and to what the call before left. -/
def Chained (related : σ → κ → ρ → σ → Prop) : σ → List κ → List (ρ × σ) → Prop
  | _, _, [] => True
  | _, [], _ :: _ => False
  | s, c :: rest, (answer, s') :: log =>
    related s c answer s' ∧ Chained related s' rest log

/-- If calls relate what they find to what they leave, as long as an invariant holds which they
keep, then so does the log of a run. -/
theorem chained_runCalls (keeps : ∀ s c, inv s → inv (on s c).2)
    (relates : ∀ s c, inv s → related s c (on s c).1 (on s c).2) {s : σ} (start : inv s)
    (calls : List κ) : Chained related s calls (runCalls on stopAt s calls).1 := by
  induction calls generalizing s with
  | nil => trivial
  | cons c rest ih =>
    have now := relates s c start
    rw [runCalls_cons]
    split
    · refine ⟨now, ?_⟩
      cases rest <;> trivial
    · exact ⟨now, ih (keeps s c start)⟩

/-- A relation along a log can take up what holds of all that the log shows. -/
theorem Chained.imp {related' : σ → κ → ρ → σ → Prop} (seen : σ → Prop) {s : σ} {calls : List κ}
    {log : List (ρ × σ)} (h : Chained related s calls log) (all : ∀ entry ∈ log, seen entry.2)
    (takes_up : ∀ s c answer s', related s c answer s' → seen s' → related' s c answer s') :
    Chained related' s calls log := by
  induction log generalizing s calls with
  | nil => cases calls <;> trivial
  | cons entry rest ih =>
    cases calls with
    | nil => exact h
    | cons c calls =>
      obtain ⟨first, later⟩ := h
      refine ⟨takes_up _ _ _ _ first (all entry List.mem_cons_self), ih later ?_⟩
      intro e among
      exact all e (List.mem_cons_of_mem _ among)

end Runs

end SpongeTranscript
