import Mathlib.Algebra.Ring.Nat
import SpongeTranscript.Proofs.Stream.Runs

set_option autoImplicit false

/-!
# Recorded sinks

A recorded sink keeps the bytes that the sink behind it has taken, and does nothing else: whoever
writes to it gets the same answers and leaves the same sink behind, since to forget the record is a
view (`Recorded.view_sink`) and every call does the same behind a view (`Sink.View.on_eq`).

From the record one can say what each call brought to the sink, whatever the sink did
(`contributes_on`): a single write as many bytes as it answers with, a failed one none, and a failed
write of everything a first part of its data.
-/

namespace SpongeTranscript

universe u v

/-! ## Views of sinks -/

section Views

variable {σ τ : Type u} [Sink σ] [Sink τ]

/-- A single write answers with the number of bytes taken. -/
theorem WriteCall.on_write (s : σ) (data : Bytes) :
    WriteCall.on s (.write data) =
      ((Sink.write s data).1.map Subtype.val, (Sink.write s data).2) := rfl

/-- Writing everything answers with no number. -/
theorem WriteCall.on_writeAll (s : σ) (data : Bytes) :
    WriteCall.on s (.writeAll data) =
      ((Sink.writeAll s data).1.map fun _ => 0, (Sink.writeAll s data).2) := rfl

/-- A flush answers with no number. -/
theorem WriteCall.on_flush (s : σ) :
    WriteCall.on s .flush = ((Sink.flush s).1.map fun _ => 0, (Sink.flush s).2) := rfl

/-- Behind the view, a sink behaves as another one, as long as it ends within bounds to which no
write or flush comes back. -/
structure Sink.View (view : τ → σ) (within : τ → Prop) : Prop where
  write_eq : ∀ s offer, within (Sink.write s offer).2 →
    Sink.write (view s) offer = ((Sink.write s offer).1, view (Sink.write s offer).2)
  flush_eq : ∀ s, within (Sink.flush s).2 →
    Sink.flush (view s) = ((Sink.flush s).1, view (Sink.flush s).2)
  write_within : ∀ s offer, within (Sink.write s offer).2 → within s
  flush_within : ∀ s, within (Sink.flush s).2 → within s

end Views

/-! ## What every call keeps -/

section Keeps

variable {σ : Type u} [Sink σ] {inv : σ → Prop}

/-- What single writes keep is kept by writing everything. -/
theorem writeAll_keeps (write_keeps : ∀ s offer, inv s → inv (Sink.write s offer).2) {s : σ}
    (start : inv s) (data : Bytes) : inv (Sink.writeAll s data).2 := by
  fun_induction Sink.writeAll s data with
  | case1 s data nonempty taken s' answer some_taken shorter ih =>
    have next := write_keeps s data start
    rw [answer] at next
    exact ih next
  | case2 s data nonempty taken s' answer none_taken =>
    have next := write_keeps s data start
    rwa [answer] at next
  | case3 s data nonempty fault s' answer retry less ih =>
    have next := write_keeps s data start
    rw [answer] at next
    exact ih next
  | case4 s data nonempty fault s' answer final =>
    have next := write_keeps s data start
    rwa [answer] at next
  | case5 s data empty => exact start

/-- What single writes and flushes keep is kept by every call. -/
theorem on_keeps (write_keeps : ∀ s offer, inv s → inv (Sink.write s offer).2)
    (flush_keeps : ∀ s, inv s → inv (Sink.flush s).2) (s : σ) (c : WriteCall) (start : inv s) :
    inv (WriteCall.on s c).2 := by
  cases c with
  | write data => exact write_keeps s data start
  | writeAll data => exact writeAll_keeps write_keeps start data
  | flush => exact flush_keeps s start

end Keeps

/-! ## Calls behind a view -/

section Views

variable {σ τ : Type u} [Sink σ] [Sink τ] {view : τ → σ} {within : τ → Prop}

namespace Sink.View

/-- A call that ends within the bounds began within them. -/
theorem on_within (h : Sink.View view within) (s : τ) (c : WriteCall)
    (ends : within (WriteCall.on s c).2) : within s := by
  by_contra outside
  have write_out : ∀ s offer, ¬ within s → ¬ within (Sink.write s offer).2 :=
    fun s offer out ends => out (h.write_within s offer ends)
  have flush_out : ∀ s, ¬ within s → ¬ within (Sink.flush s).2 :=
    fun s out ends => out (h.flush_within s ends)
  exact on_keeps write_out flush_out s c outside ends

/-- Writing everything is the same behind the view. -/
theorem writeAll_eq (h : Sink.View view within) (s : τ) (data : Bytes)
    (ends : within (Sink.writeAll s data).2) :
    Sink.writeAll (view s) data = ((Sink.writeAll s data).1, view (Sink.writeAll s data).2) := by
  fun_induction Sink.writeAll s data with
  | case1 s data nonempty taken s' answer some_taken shorter ih =>
    have written := h.write_eq s data
    rw [answer] at written
    have between : within s' := h.on_within s' (.writeAll (data.drop taken)) ends
    rw [Sink.writeAll_of_taken nonempty (written between) some_taken, ih ends]
  | case2 s data nonempty taken s' answer none_taken =>
    have written := h.write_eq s data
    rw [answer] at written
    rw [Sink.writeAll_of_none_taken nonempty (written ends) (Decidable.not_not.mp none_taken)]
  | case3 s data nonempty fault s' answer retry less ih =>
    have written := h.write_eq s data
    rw [answer] at written
    have between : within s' := h.on_within s' (.writeAll data) ends
    rw [Sink.writeAll_of_retry nonempty (written between) retry, ih ends]
  | case4 s data nonempty fault s' answer final =>
    have written := h.write_eq s data
    rw [answer] at written
    rw [Sink.writeAll_of_fault nonempty (written ends) final]
  | case5 s data empty =>
    rw [Decidable.not_not.mp empty, Sink.writeAll_nil]

/-- Every call is the same behind the view. -/
theorem on_eq (h : Sink.View view within) (s : τ) (c : WriteCall)
    (ends : within (WriteCall.on s c).2) :
    WriteCall.on (view s) c = ((WriteCall.on s c).1, view (WriteCall.on s c).2) := by
  cases c with
  | write data => rw [WriteCall.on_write, WriteCall.on_write, h.write_eq s data ends]
  | writeAll data => rw [WriteCall.on_writeAll, WriteCall.on_writeAll, h.writeAll_eq s data ends]
  | flush => rw [WriteCall.on_flush, WriteCall.on_flush, h.flush_eq s ends]

/-- So is a run of calls. -/
theorem runCalls_eq (h : Sink.View view within) {stopAt : Except Fault Nat → Bool} {s : τ}
    {calls : List WriteCall} (ends : within (runCalls WriteCall.on stopAt s calls).2) :
    runCalls WriteCall.on stopAt (view s) calls =
      ((runCalls WriteCall.on stopAt s calls).1.map fun entry => (entry.1, view entry.2),
        view (runCalls WriteCall.on stopAt s calls).2) :=
  runCalls_view h.on_eq h.on_within ends

end Sink.View

end Views

/-! ## The record -/

/-- A sink with a record of the bytes that it has taken. -/
structure Recorded (σ : Type u) where
  sink : σ
  taken : Bytes

namespace Recorded

/-- A sink of which nothing is on record yet. -/
def start {σ : Type u} (sink : σ) : Recorded σ where
  sink := sink
  taken := []

variable {σ : Type u} [Sink σ]

/-- Offers bytes to the sink behind, and notes those that it takes. -/
def write (r : Recorded σ) (offer : Bytes) :
    Except Fault { n : Nat // n ≤ offer.length } × Recorded σ :=
  match Sink.write r.sink offer with
  | (.ok n, sink) => (.ok n, { sink, taken := r.taken ++ offer.take n })
  | (.error fault, sink) => (.error fault, { r with sink })

/-- A recorded sink answers as the one behind it. -/
theorem write_fst (r : Recorded σ) (offer : Bytes) :
    (r.write offer).1 = (Sink.write r.sink offer).1 := by
  unfold write
  cases Sink.write r.sink offer with
  | mk outcome sink => cases outcome <;> rfl

/-- A recorded sink leaves the one behind it as its own answer does. -/
theorem sink_write_snd (r : Recorded σ) (offer : Bytes) :
    (r.write offer).2.sink = (Sink.write r.sink offer).2 := by
  unfold write
  cases Sink.write r.sink offer with
  | mk outcome sink => cases outcome <;> rfl

instance : Sink (Recorded σ) where
  write := write
  flush r :=
    let (outcome, sink) := Sink.flush r.sink
    (outcome, { r with sink })
  patience r := Sink.patience r.sink
  patience_lt r offer fault nonempty answer retry := by
    rw [write_fst] at answer
    rw [sink_write_snd]
    exact Sink.patience_lt r.sink offer fault nonempty answer retry

/-- A sink behaves the same without its record. -/
theorem view_sink : Sink.View (Recorded.sink : Recorded σ → σ) fun _ => True where
  write_eq r offer _ := Prod.ext (write_fst r offer).symm (sink_write_snd r offer).symm
  flush_eq _ _ := rfl
  write_within _ _ _ := trivial
  flush_within _ _ := trivial

/-- Bytes that are taken go on record. -/
theorem write_of_ok {r : Recorded σ} {offer : Bytes} {n : { n : Nat // n ≤ offer.length }}
    {sink : σ} (answer : Sink.write r.sink offer = (.ok n, sink)) :
    Sink.write r offer = (.ok n, { sink, taken := r.taken ++ offer.take n }) := by
  change r.write offer = _
  unfold write
  rw [answer]

/-- A fault leaves the record as it is. -/
theorem write_of_fault {r : Recorded σ} {offer : Bytes} {fault : Fault} {sink : σ}
    (answer : Sink.write r.sink offer = (.error fault, sink)) :
    Sink.write r offer = (.error fault, { r with sink }) := by
  change r.write offer = _
  unfold write
  rw [answer]

/-- A write adds to the record what was taken. -/
theorem taken_of_write {r r' : Recorded σ} {offer : Bytes}
    {n : { n : Nat // n ≤ offer.length }} (answer : Sink.write r offer = (.ok n, r')) :
    r'.taken = r.taken ++ offer.take n := by
  change r.write offer = (.ok n, r') at answer
  unfold write at answer
  split at answer <;> cases answer
  rfl

/-- A write that fails adds nothing to the record. -/
theorem taken_of_fault {r r' : Recorded σ} {offer : Bytes} {fault : Fault}
    (answer : Sink.write r offer = (.error fault, r')) : r'.taken = r.taken := by
  change r.write offer = (.error fault, r') at answer
  unfold write at answer
  split at answer <;> cases answer
  rfl

end Recorded

/-- What a call brings to a sink, given its answer: the bytes on record before and after. -/
def WriteCall.Contributes (before after : Bytes) : WriteCall → Except Fault Nat → Prop
  | .write data, .ok n => n ≤ data.length ∧ after = before ++ data.take n
  | .write _, .error _ => after = before
  | .writeAll data, .ok _ => after = before ++ data
  | .writeAll data, .error _ => ∃ n < data.length, after = before ++ data.take n
  | .flush, _ => after = before

/-- Whatever a call brings stands behind what was there before. -/
theorem WriteCall.prefix_of_contributes {c : WriteCall} {before after : Bytes}
    {answer : Except Fault Nat} (h : c.Contributes before after answer) : before <+: after := by
  cases c with
  | write data =>
    cases answer with
    | ok n =>
      obtain ⟨-, rfl⟩ := h
      exact List.prefix_append _ _
    | error fault =>
      obtain rfl : after = before := h
      exact List.prefix_rfl
  | writeAll data =>
    cases answer with
    | ok n =>
      obtain rfl : after = before ++ data := h
      exact List.prefix_append _ _
    | error fault =>
      obtain ⟨n, -, rfl⟩ := h
      exact List.prefix_append _ _
  | flush =>
    obtain rfl : after = before := h
    exact List.prefix_rfl

section Contributions

variable {σ : Type u} [Sink σ]

/-- Writing everything brings all of it if it succeeds, and otherwise a first part. -/
theorem contributes_writeAll (r : Recorded σ) (data : Bytes) :
    match Sink.writeAll r data with
    | (.ok _, r') => r'.taken = r.taken ++ data
    | (.error _, r') => ∃ n < data.length, r'.taken = r.taken ++ data.take n := by
  fun_induction Sink.writeAll r data with
  | case1 r data nonempty taken r' answer some_taken shorter ih =>
    have first := Recorded.taken_of_write answer
    split
    · rename_i rest
      rw [rest] at ih
      rw [ih, first, List.append_assoc, List.take_append_drop]
    · rename_i rest
      rw [rest] at ih
      obtain ⟨n, n_lt, taken_eq⟩ := ih
      rw [List.length_drop] at n_lt
      refine ⟨taken.val + n, by omega, ?_⟩
      rw [taken_eq, first, List.append_assoc, List.take_add]
  | case2 r data nonempty taken r' answer none_taken =>
    have first := Recorded.taken_of_write answer
    exact ⟨0, List.length_pos_iff.mpr nonempty, by
      rw [first, Decidable.not_not.mp none_taken]⟩
  | case3 r data nonempty fault r' answer retry less ih =>
    rwa [Recorded.taken_of_fault answer] at ih
  | case4 r data nonempty fault r' answer final =>
    exact ⟨0, List.length_pos_iff.mpr nonempty, by
      rw [Recorded.taken_of_fault answer, List.take_zero, List.append_nil]⟩
  | case5 r data empty => simp [Decidable.not_not.mp empty]

/-- Every call brings to the sink what its answer says. -/
theorem contributes_on (r : Recorded σ) (c : WriteCall) :
    c.Contributes r.taken (WriteCall.on r c).2.taken (WriteCall.on r c).1 := by
  cases c with
  | write data =>
    rw [WriteCall.on_write]
    cases answer : Sink.write r data with
    | mk outcome r' =>
      cases outcome with
      | ok n => exact ⟨n.property, Recorded.taken_of_write answer⟩
      | error fault => exact Recorded.taken_of_fault answer
  | writeAll data =>
    have brought := contributes_writeAll r data
    rw [WriteCall.on_writeAll]
    cases answer : Sink.writeAll r data with
    | mk outcome r' =>
      rw [answer] at brought
      cases outcome with
      | ok _ => exact brought
      | error fault => exact brought
  | flush => exact rfl

/-- The number of bytes that a call offers. -/
def WriteCall.size : WriteCall → Nat
  | .write data => data.length
  | .writeAll data => data.length
  | .flush => 0

/-- A call brings no more than it offers. -/
theorem length_of_contributes {c : WriteCall} {before after : Bytes} {answer : Except Fault Nat}
    (h : c.Contributes before after answer) : after.length ≤ before.length + c.size := by
  cases c with
  | write data =>
    cases answer with
    | ok n =>
      obtain ⟨-, rfl⟩ := h
      rw [List.length_append, List.length_take]
      simp only [WriteCall.size]
      omega
    | error fault =>
      have same : after = before := h
      rw [same]
      exact Nat.le_add_right _ _
  | writeAll data =>
    cases answer with
    | ok n =>
      have all : after = before ++ data := h
      rw [all, List.length_append]
      exact Nat.le_refl _
    | error fault =>
      obtain ⟨n, -, rfl⟩ := h
      rw [List.length_append, List.length_take]
      simp only [WriteCall.size]
      omega
  | flush =>
    have same : after = before := h
    rw [same]
    exact Nat.le_refl _

/-- No more is taken than was offered. -/
theorem length_taken_runCalls (stopAt : Except Fault Nat → Bool) (r : Recorded σ)
    (calls : List WriteCall) :
    (runCalls WriteCall.on stopAt r calls).2.taken.length ≤
      r.taken.length + (calls.map WriteCall.size).sum := by
  induction calls generalizing r with
  | nil => exact Nat.le_add_right _ _
  | cons c rest ih =>
    have first := length_of_contributes (contributes_on r c)
    have later := ih (WriteCall.on r c).2
    rw [runCalls_cons, List.map_cons, List.sum_cons]
    split
    · dsimp only
      omega
    · dsimp only
      omega

end Contributions

end SpongeTranscript
