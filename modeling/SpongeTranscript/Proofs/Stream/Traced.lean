import Mathlib.Algebra.Ring.Nat
import SpongeTranscript.Proofs.Stream.Runs

set_option autoImplicit false

/-!
# Traced sources

A traced source keeps the bytes that the source behind it has handed over, and does nothing else:
whoever reads from it gets the same answers and leaves the same source behind (`view_source`). From
the record one can say what each call got out of the source, whatever the source did
(`yields_on`): a read the bytes that it answers with, a read to the end these too even if it
fails, and a failed exact read fewer bytes than were asked for, which it does not hand on.
-/

namespace SpongeTranscript

universe u v

/-! ## Views of sources -/

section Views

variable {σ τ : Type u} [Source σ] [Source τ]

/-- A read that succeeds hands its piece back. -/
theorem ReadCall.on_read_of_ok {s s' : σ} {room : Nat}
    {piece : { piece : Bytes // piece.length ≤ room }}
    (answer : Source.read s room = (.ok piece, s')) :
    ReadCall.on s (.read room) = ({ outcome := .ok piece.val.length, data := piece.val }, s') := by
  unfold ReadCall.on
  dsimp only
  rw [answer]

/-- A read that fails hands nothing back. -/
theorem ReadCall.on_read_of_fault {s s' : σ} {room : Nat} {fault : Fault}
    (answer : Source.read s room = (.error fault, s')) :
    ReadCall.on s (.read room) = ({ outcome := .error fault, data := [] }, s') := by
  unfold ReadCall.on
  dsimp only
  rw [answer]

/-- An exact read that succeeds hands its bytes back. -/
theorem ReadCall.on_readExact_of_ok {s s' : σ} {count : Nat} {data : Bytes}
    (answer : Source.readExact s count = (.ok data, s')) :
    ReadCall.on s (.readExact count) = ({ outcome := .ok 0, data }, s') := by
  unfold ReadCall.on
  dsimp only
  rw [answer]

/-- An exact read that fails hands nothing back. -/
theorem ReadCall.on_readExact_of_fault {s s' : σ} {count : Nat} {fault : Fault}
    (answer : Source.readExact s count = (.error fault, s')) :
    ReadCall.on s (.readExact count) = ({ outcome := .error fault, data := [] }, s') := by
  unfold ReadCall.on
  dsimp only
  rw [answer]

/-- A read leaves behind what the source answers with. -/
theorem ReadCall.snd_on_read (s : σ) (room : Nat) :
    (ReadCall.on s (.read room)).2 = (Source.read s room).2 := by
  cases answer : Source.read s room with
  | mk outcome s' =>
    cases outcome with
    | ok piece => rw [on_read_of_ok answer]
    | error fault => rw [on_read_of_fault answer]

/-- An exact read leaves behind what the last of its reads does. -/
theorem ReadCall.snd_on_readExact (s : σ) (count : Nat) :
    (ReadCall.on s (.readExact count)).2 = (Source.readExact s count).2 := by
  cases answer : Source.readExact s count with
  | mk outcome s' =>
    cases outcome with
    | ok data => rw [on_readExact_of_ok answer]
    | error fault => rw [on_readExact_of_fault answer]

/-- A read to the end hands back what it got, also if it fails. -/
theorem ReadCall.on_readToEnd (s : σ) (spare : Nat) :
    ReadCall.on s (.readToEnd spare) =
      ({ outcome := (Source.readToEnd s spare).1.2.map fun _ =>
          (Source.readToEnd s spare).1.1.length
         data := (Source.readToEnd s spare).1.1 }, (Source.readToEnd s spare).2) := rfl

/-- Behind the view, a source behaves as another one, as long as it ends within bounds to which no
read comes back. -/
structure Source.View (view : τ → σ) (within : τ → Prop) : Prop where
  read_eq : ∀ s room, within (Source.read s room).2 →
    Source.read (view s) room = ((Source.read s room).1, view (Source.read s room).2)
  read_within : ∀ s room, within (Source.read s room).2 → within s

end Views

/-! ## What every call keeps -/

section Keeps

variable {σ : Type u} [Source σ] {inv : σ → Prop}

/-- What single reads keep is kept by exact reads. -/
theorem readExact_keeps (read_keeps : ∀ s room, inv s → inv (Source.read s room).2) {s : σ}
    (start : inv s) (count : Nat) : inv (Source.readExact s count).2 := by
  fun_induction Source.readExact s count with
  | case1 s count wanted piece s' answer nonempty less rest last rest_eq ih =>
    have next := read_keeps s count start
    rw [answer] at next
    have later := ih next
    rwa [rest_eq] at later
  | case2 s count wanted piece s' answer empty =>
    have next := read_keeps s count start
    rwa [answer] at next
  | case3 s count wanted fault s' answer retry less ih =>
    have next := read_keeps s count start
    rw [answer] at next
    exact ih next
  | case4 s count wanted fault s' answer final =>
    have next := read_keeps s count start
    rwa [answer] at next
  | case5 s count nothing => exact start

/-- What single reads keep is kept by reads to the end. -/
theorem readToEnd_keeps (read_keeps : ∀ s room, inv s → inv (Source.read s room).2) {s : σ}
    (start : inv s) (spare : Nat) : inv (Source.readToEnd s spare).2 := by
  fun_induction Source.readToEnd s spare with
  | case1 s piece s' answer nonempty less rest ending last rest_eq ih =>
    have next := read_keeps s (spare + 1) start
    rw [answer] at next
    have later := ih next
    rwa [rest_eq] at later
  | case2 s piece s' answer empty =>
    have next := read_keeps s (spare + 1) start
    rwa [answer] at next
  | case3 s fault s' answer retry less ih =>
    have next := read_keeps s (spare + 1) start
    rw [answer] at next
    exact ih next
  | case4 s fault s' answer final =>
    have next := read_keeps s (spare + 1) start
    rwa [answer] at next

/-- What single reads keep is kept by every call. -/
theorem readCall_keeps (read_keeps : ∀ s room, inv s → inv (Source.read s room).2) (s : σ)
    (c : ReadCall) (start : inv s) : inv (ReadCall.on s c).2 := by
  cases c with
  | read room =>
    rw [ReadCall.snd_on_read]
    exact read_keeps s room start
  | readExact count =>
    rw [ReadCall.snd_on_readExact]
    exact readExact_keeps read_keeps start count
  | readToEnd spare => exact readToEnd_keeps read_keeps start spare

end Keeps

/-! ## Calls behind a view -/

section Views

variable {σ τ : Type u} [Source σ] [Source τ] {view : τ → σ} {within : τ → Prop}

namespace Source.View

/-- A call that ends within the bounds began within them. -/
theorem on_within (h : Source.View view within) (s : τ) (c : ReadCall)
    (ends : within (ReadCall.on s c).2) : within s := by
  by_contra outside
  have read_out : ∀ s room, ¬ within s → ¬ within (Source.read s room).2 :=
    fun s room out ends => out (h.read_within s room ends)
  exact readCall_keeps read_out s c outside ends

/-- Reading exactly is the same behind the view. -/
theorem readExact_eq (h : Source.View view within) (s : τ) (count : Nat)
    (ends : within (Source.readExact s count).2) :
    Source.readExact (view s) count =
      ((Source.readExact s count).1, view (Source.readExact s count).2) := by
  fun_induction Source.readExact s count with
  | case1 s count wanted piece s' answer nonempty less rest last rest_eq ih =>
    have handed := h.read_eq s count
    rw [answer] at handed
    rw [rest_eq] at ih
    have between : within s' := h.on_within s' (.readExact (count - piece.val.length)) (by
      rw [ReadCall.snd_on_readExact, rest_eq]
      exact ends)
    rw [Source.readExact_of_bytes wanted (handed between) nonempty, ih ends]
  | case2 s count wanted piece s' answer empty =>
    have handed := h.read_eq s count
    rw [answer] at handed
    rw [Source.readExact_of_end wanted (handed ends) (Decidable.not_not.mp empty)]
  | case3 s count wanted fault s' answer retry less ih =>
    have handed := h.read_eq s count
    rw [answer] at handed
    have between : within s' := h.on_within s' (.readExact count) (by
      rw [ReadCall.snd_on_readExact]
      exact ends)
    rw [Source.readExact_of_retry wanted (handed between) retry, ih ends]
  | case4 s count wanted fault s' answer final =>
    have handed := h.read_eq s count
    rw [answer] at handed
    rw [Source.readExact_of_fault wanted (handed ends) final]
  | case5 s count nothing =>
    rw [Nat.eq_zero_of_not_pos nothing, Source.readExact_zero]

/-- Reading to the end is the same behind the view. -/
theorem readToEnd_eq (h : Source.View view within) (s : τ) (spare : Nat)
    (ends : within (Source.readToEnd s spare).2) :
    Source.readToEnd (view s) spare =
      ((Source.readToEnd s spare).1, view (Source.readToEnd s spare).2) := by
  fun_induction Source.readToEnd s spare with
  | case1 s piece s' answer nonempty less rest ending last rest_eq ih =>
    have handed := h.read_eq s (spare + 1)
    rw [answer] at handed
    rw [rest_eq] at ih
    have between : within s' := h.on_within s' (.readToEnd spare) (by
      rw [ReadCall.on_readToEnd, rest_eq]
      exact ends)
    rw [Source.readToEnd_of_bytes (handed between) nonempty, ih ends]
  | case2 s piece s' answer empty =>
    have handed := h.read_eq s (spare + 1)
    rw [answer] at handed
    rw [Source.readToEnd_of_end (handed ends) (Decidable.not_not.mp empty)]
  | case3 s fault s' answer retry less ih =>
    have handed := h.read_eq s (spare + 1)
    rw [answer] at handed
    have between : within s' := h.on_within s' (.readToEnd spare) ends
    rw [Source.readToEnd_of_retry (handed between) retry, ih ends]
  | case4 s fault s' answer final =>
    have handed := h.read_eq s (spare + 1)
    rw [answer] at handed
    rw [Source.readToEnd_of_fault (handed ends) final]

/-- Every call is the same behind the view. -/
theorem on_eq (h : Source.View view within) (s : τ) (c : ReadCall)
    (ends : within (ReadCall.on s c).2) :
    ReadCall.on (view s) c = ((ReadCall.on s c).1, view (ReadCall.on s c).2) := by
  cases c with
  | read room =>
    have handed := h.read_eq s room
    cases answer : Source.read s room with
    | mk outcome s' =>
      rw [answer] at handed
      cases outcome with
      | ok piece =>
        rw [ReadCall.on_read_of_ok answer] at ends ⊢
        rw [ReadCall.on_read_of_ok (handed ends)]
      | error fault =>
        rw [ReadCall.on_read_of_fault answer] at ends ⊢
        rw [ReadCall.on_read_of_fault (handed ends)]
  | readExact count =>
    have handed := h.readExact_eq s count
    cases answer : Source.readExact s count with
    | mk outcome s' =>
      rw [answer] at handed
      cases outcome with
      | ok data =>
        rw [ReadCall.on_readExact_of_ok answer] at ends ⊢
        rw [ReadCall.on_readExact_of_ok (handed ends)]
      | error fault =>
        rw [ReadCall.on_readExact_of_fault answer] at ends ⊢
        rw [ReadCall.on_readExact_of_fault (handed ends)]
  | readToEnd spare =>
    rw [ReadCall.on_readToEnd, ReadCall.on_readToEnd, h.readToEnd_eq s spare ends]

/-- So is a run of calls. -/
theorem runCalls_eq (h : Source.View view within) {stopAt : Delivery → Bool} {s : τ}
    {calls : List ReadCall} (ends : within (runCalls ReadCall.on stopAt s calls).2) :
    runCalls ReadCall.on stopAt (view s) calls =
      ((runCalls ReadCall.on stopAt s calls).1.map fun entry => (entry.1, view entry.2),
        view (runCalls ReadCall.on stopAt s calls).2) :=
  runCalls_view h.on_eq h.on_within ends

end Source.View

end Views

/-! ## The record -/

/-- A source with a record of the bytes that it has handed over. -/
structure Traced (σ : Type u) where
  source : σ
  given : Bytes

namespace Traced

/-- A source of which nothing is on record yet. -/
def start {σ : Type u} (source : σ) : Traced σ where
  source := source
  given := []

variable {σ : Type u} [Source σ]

/-- Asks the source behind, and notes the bytes that it hands over. -/
def read (r : Traced σ) (room : Nat) :
    Except Fault { piece : Bytes // piece.length ≤ room } × Traced σ :=
  match Source.read r.source room with
  | (.ok piece, source) => (.ok piece, { source, given := r.given ++ piece.val })
  | (.error fault, source) => (.error fault, { r with source })

/-- A traced source answers as the one behind it. -/
theorem read_fst (r : Traced σ) (room : Nat) :
    (r.read room).1 = (Source.read r.source room).1 := by
  unfold read
  cases Source.read r.source room with
  | mk outcome source => cases outcome <;> rfl

/-- A traced source leaves the one behind it as its own answer does. -/
theorem source_read_snd (r : Traced σ) (room : Nat) :
    (r.read room).2.source = (Source.read r.source room).2 := by
  unfold read
  cases Source.read r.source room with
  | mk outcome source => cases outcome <;> rfl

instance : Source (Traced σ) where
  read := read
  supply r := Source.supply r.source
  supply_lt_of_bytes r room piece answer nonempty := by
    rw [read_fst] at answer
    rw [source_read_snd]
    exact Source.supply_lt_of_bytes r.source room piece answer nonempty
  supply_lt_of_retry r room fault room_pos answer retry := by
    rw [read_fst] at answer
    rw [source_read_snd]
    exact Source.supply_lt_of_retry r.source room fault room_pos answer retry

/-- A source behaves the same without its record. -/
theorem view_source : Source.View (Traced.source : Traced σ → σ) fun _ => True where
  read_eq r room _ := Prod.ext (read_fst r room).symm (source_read_snd r room).symm
  read_within _ _ _ := trivial

/-- Bytes that are handed over go on record. -/
theorem read_of_ok {r : Traced σ} {room : Nat} {piece : { piece : Bytes // piece.length ≤ room }}
    {source : σ} (answer : Source.read r.source room = (.ok piece, source)) :
    Source.read r room = (.ok piece, { source, given := r.given ++ piece.val }) := by
  change r.read room = _
  unfold read
  rw [answer]

/-- A fault leaves the record as it is. -/
theorem read_of_fault {r : Traced σ} {room : Nat} {fault : Fault} {source : σ}
    (answer : Source.read r.source room = (.error fault, source)) :
    Source.read r room = (.error fault, { r with source }) := by
  change r.read room = _
  unfold read
  rw [answer]

/-- A read adds to the record what was handed over. -/
theorem given_of_read {r r' : Traced σ} {room : Nat}
    {piece : { piece : Bytes // piece.length ≤ room }}
    (answer : Source.read r room = (.ok piece, r')) : r'.given = r.given ++ piece.val := by
  change r.read room = (.ok piece, r') at answer
  unfold read at answer
  split at answer <;> cases answer
  rfl

/-- A read that fails adds nothing to the record. -/
theorem given_of_fault {r r' : Traced σ} {room : Nat} {fault : Fault}
    (answer : Source.read r room = (.error fault, r')) : r'.given = r.given := by
  change r.read room = (.error fault, r') at answer
  unfold read at answer
  split at answer <;> cases answer
  rfl

end Traced

/-- What a call gets out of a source, given its answer: the bytes on record before and after. -/
def ReadCall.Yields (before after : Bytes) (answer : Delivery) : ReadCall → Prop
  | .read room =>
    match answer.outcome with
    | .ok n => n = answer.data.length ∧ n ≤ room ∧ after = before ++ answer.data
    | .error _ => after = before ∧ answer.data = []
  | .readExact count =>
    match answer.outcome with
    | .ok _ => answer.data.length = count ∧ after = before ++ answer.data
    | .error _ => answer.data = [] ∧ ∃ lost : Bytes, lost.length < count ∧ after = before ++ lost
  | .readToEnd _ =>
    after = before ++ answer.data ∧ ∀ n, answer.outcome = .ok n → n = answer.data.length

/-- The bytes that a call hands back follow those on record before it. -/
theorem ReadCall.prefix_of_yields {c : ReadCall} {before after : Bytes} {answer : Delivery}
    (h : c.Yields before after answer) : before ++ answer.data <+: after := by
  obtain ⟨outcome, data⟩ := answer
  cases c with
  | read room =>
    cases outcome with
    | ok n =>
      obtain ⟨-, -, rfl⟩ := h
      exact List.prefix_rfl
    | error fault =>
      obtain ⟨rfl, nothing⟩ := h
      have none_back : data = [] := nothing
      refine ⟨[], ?_⟩
      rw [none_back, List.append_nil, List.append_nil]
  | readExact count =>
    cases outcome with
    | ok n =>
      obtain ⟨-, rfl⟩ := h
      exact List.prefix_rfl
    | error fault =>
      obtain ⟨nothing, lost, -, rfl⟩ := h
      have none_back : data = [] := nothing
      rw [none_back, List.append_nil]
      exact List.prefix_append before lost
  | readToEnd spare =>
    obtain ⟨rfl, -⟩ := h
    exact List.prefix_rfl

section Yields

variable {σ : Type u} [Source σ]

/-- Reading exactly yields as many bytes as were asked for if it succeeds, and otherwise fewer. -/
theorem yields_readExact (r : Traced σ) (count : Nat) :
    match Source.readExact r count with
    | (.ok data, r') => data.length = count ∧ r'.given = r.given ++ data
    | (.error _, r') => ∃ lost : Bytes, lost.length < count ∧ r'.given = r.given ++ lost := by
  fun_induction Source.readExact r count with
  | case1 r count wanted piece r' answer nonempty less rest last rest_eq ih =>
    have first := Traced.given_of_read answer
    have short := piece.property
    rw [rest_eq] at ih
    cases rest with
    | ok data =>
      obtain ⟨length_eq, given_eq⟩ := ih
      refine ⟨?_, ?_⟩
      · rw [List.length_append]
        omega
      · rw [given_eq, first, List.append_assoc]
    | error fault =>
      obtain ⟨lost, lost_lt, given_eq⟩ := ih
      refine ⟨piece.val ++ lost, ?_, ?_⟩
      · rw [List.length_append]
        omega
      · rw [given_eq, first, List.append_assoc]
  | case2 r count wanted piece r' answer empty =>
    have first := Traced.given_of_read answer
    rw [Decidable.not_not.mp empty] at first
    exact ⟨[], wanted, first⟩
  | case3 r count wanted fault r' answer retry less ih =>
    rwa [Traced.given_of_fault answer] at ih
  | case4 r count wanted fault r' answer final =>
    refine ⟨[], wanted, ?_⟩
    rw [Traced.given_of_fault answer, List.append_nil]
  | case5 r count nothing =>
    refine ⟨(Nat.eq_zero_of_not_pos nothing).symm, ?_⟩
    rw [List.append_nil]

/-- Reading to the end yields what it returns, however it ends. -/
theorem yields_readToEnd (r : Traced σ) (spare : Nat) :
    (Source.readToEnd r spare).2.given = r.given ++ (Source.readToEnd r spare).1.1 := by
  fun_induction Source.readToEnd r spare with
  | case1 r piece r' answer nonempty less rest ending last rest_eq ih =>
    rw [rest_eq] at ih
    dsimp only at ih ⊢
    rw [ih, Traced.given_of_read answer, List.append_assoc]
  | case2 r piece r' answer empty =>
    rw [Traced.given_of_read answer, Decidable.not_not.mp empty]
  | case3 r fault r' answer retry less ih =>
    rwa [Traced.given_of_fault answer] at ih
  | case4 r fault r' answer final =>
    rw [Traced.given_of_fault answer, List.append_nil]

/-- Every call gets out of the source what its answer says. -/
theorem yields_on (r : Traced σ) (c : ReadCall) :
    c.Yields r.given (ReadCall.on r c).2.given (ReadCall.on r c).1 := by
  cases c with
  | read room =>
    cases answer : Source.read r room with
    | mk outcome r' =>
      cases outcome with
      | ok piece =>
        rw [ReadCall.on_read_of_ok answer]
        exact ⟨rfl, piece.property, Traced.given_of_read answer⟩
      | error fault =>
        rw [ReadCall.on_read_of_fault answer]
        exact ⟨Traced.given_of_fault answer, rfl⟩
  | readExact count =>
    have yielded := yields_readExact r count
    cases answer : Source.readExact r count with
    | mk outcome r' =>
      rw [answer] at yielded
      cases outcome with
      | ok data =>
        rw [ReadCall.on_readExact_of_ok answer]
        exact yielded
      | error fault =>
        rw [ReadCall.on_readExact_of_fault answer]
        exact ⟨rfl, yielded⟩
  | readToEnd spare =>
    rw [ReadCall.on_readToEnd]
    refine ⟨yields_readToEnd r spare, ?_⟩
    intro n outcome_eq
    dsimp only at outcome_eq
    cases ending : (Source.readToEnd r spare).1.2 with
    | ok _ =>
      rw [ending] at outcome_eq
      exact (Except.ok.inj outcome_eq).symm
    | error fault =>
      rw [ending] at outcome_eq
      cases outcome_eq

end Yields

end SpongeTranscript
