import SpongeTranscript.Proofs.Tape.Playback

set_option autoImplicit false

/-!
# A permutation that tells tapes apart

Given a tape, there is a function on states that follows it and nothing else. It keeps in the
capacity, which no page reaches, the number of pages of the tape that have been matched so far. A
block that is the next page over this number leads to the next number, and every other block leads
to a number beyond the end of the tape, from which there is no way back. Played with this function,
no other tape ends as the given one does (`exists_play_ne`).

The number is written to the base 256 into the capacity, so the tape may have almost `256 ^ 32`
closed pages.
-/

namespace SpongeTranscript

namespace State

/-- The state with the number in its capacity and zeros in its rate. -/
def numbered (n : Nat) : State :=
  Vector.ofFn fun i => if i.val < rate then 0 else (n / 256 ^ (i.val - rate)).toUInt8

/-- The number stands in the capacity to the base 256, with its last digit first. -/
theorem byte_numbered (n : Nat) {i : Nat} (inside : i < width) :
    (numbered n).byte i = if i < rate then 0 else (n / 256 ^ (i - rate)).toUInt8 := by
  rw [byte_eq_getElem _ inside, numbered, Vector.getElem_ofFn]

/-- The number zero stands in the zero state. -/
theorem numbered_zero : numbered 0 = zero := by
  apply ext_byte
  intro i inside
  rw [byte_numbered 0 inside, byte_zero, Nat.zero_div]
  split <;> rfl

/-- Numbers with the same digits are the same. -/
theorem eq_of_digits_eq {k n m : Nat} (hn : n < 256 ^ k) (hm : m < 256 ^ k)
    (digits : ∀ j, j < k → n / 256 ^ j % 256 = m / 256 ^ j % 256) : n = m := by
  induction k generalizing n m with
  | zero =>
    rw [Nat.pow_zero] at hn hm
    omega
  | succ k ih =>
    rw [Nat.pow_succ] at hn hm
    have last : n % 256 = m % 256 := by
      simpa using digits 0 (by omega)
    have rest : n / 256 = m / 256 := by
      refine ih (by omega) (by omega) ?_
      intro j hj
      rw [Nat.div_div_eq_div_mul, Nat.div_div_eq_div_mul, ← Nat.pow_succ']
      exact digits (j + 1) (by omega)
    omega

/-- Numbers that look the same in the capacity are the same. -/
theorem eq_of_capacity_eq {n m : Nat} (hn : n < 256 ^ capacity) (hm : m < 256 ^ capacity)
    (same : ∀ i, rate ≤ i → i < width → (numbered n).byte i = (numbered m).byte i) : n = m := by
  apply eq_of_digits_eq hn hm
  intro j hj
  have split_eq : rate + capacity = width := rfl
  have byte_eq := same (rate + j) (by omega) (by omega)
  rw [byte_numbered n (by omega), byte_numbered m (by omega), if_neg (by omega),
    if_neg (by omega), Nat.add_sub_cancel_left] at byte_eq
  have value_eq := congrArg UInt8.toNat byte_eq
  simpa only [Nat.toUInt8, UInt8.toNat_ofNat'] using value_eq

end State

/-- The block of a page over a number shows both, as no page reaches the capacity. -/
theorem Page.sealed_numbered_inj {a b : Page} {n m : Nat} (hn : n < 256 ^ capacity)
    (hm : m < 256 ^ capacity)
    (h : a.sealed (State.numbered n) = b.sealed (State.numbered m)) : a = b ∧ n = m := by
  have number_eq : n = m := by
    apply State.eq_of_capacity_eq hn hm
    intro i beyond _
    rw [← byte_sealed_of_rate_le a _ beyond, h, byte_sealed_of_rate_le b _ beyond]
  subst number_eq
  exact ⟨sealed_eq_sealed_iff.mp h, rfl⟩

namespace Tape

/-- Leads a block that is one of the pages over the number of pages before it to the next number,
and every other block to the state `lost`. -/
def follow (lost : State) : List Page → State → State
  | [], _ => lost
  | page :: past, block =>
    if block = page.sealed (State.numbered past.length) then State.numbered (past.length + 1)
    else follow lost past block

/-- The permutation that follows a tape. -/
def guide (t : Tape) : Permutation where
  name := "guide"
  apply := follow (State.numbered (t.past.length + 1)) t.past

/-! ## One block -/

/-- A block that is the next page over its number leads to the next number. -/
theorem follow_of_suffix {lost : State} {page : Page} {before past : List Page}
    (on_tape : page :: before <:+ past) (bound : past.length < 256 ^ capacity) :
    follow lost past (page.sealed (State.numbered before.length)) =
      State.numbered (before.length + 1) := by
  induction past with
  | nil => simp at on_tape
  | cons last past ih =>
    rw [List.length_cons] at bound
    rcases List.suffix_cons_iff.mp on_tape with here | earlier
    · obtain ⟨rfl, rfl⟩ := List.cons.inj here
      rw [follow, if_pos rfl]
    · have length_le := earlier.length_le
      rw [List.length_cons] at length_le
      have other : page.sealed (State.numbered before.length) ≠
          last.sealed (State.numbered past.length) := by
        intro h
        have number_eq := (Page.sealed_numbered_inj (by omega) (by omega) h).2
        omega
      rw [follow, if_neg other]
      exact ih earlier (by omega)

/-- A block that is none of the pages over its number is lost. -/
theorem follow_of_not_suffix {lost : State} {page : Page} {n : Nat} {past : List Page}
    (off_tape : ∀ before, before.length = n → ¬ page :: before <:+ past)
    (hn : n < 256 ^ capacity) (bound : past.length < 256 ^ capacity) :
    follow lost past (page.sealed (State.numbered n)) = lost := by
  induction past with
  | nil => rfl
  | cons last past ih =>
    rw [List.length_cons] at bound
    have other : page.sealed (State.numbered n) ≠ last.sealed (State.numbered past.length) := by
      intro h
      obtain ⟨rfl, rfl⟩ := Page.sealed_numbered_inj hn (by omega) h
      exact off_tape past rfl (List.suffix_refl _)
    rw [follow, if_neg other]
    refine ih ?_ (by omega)
    intro before length_eq earlier
    exact off_tape before length_eq (earlier.trans (List.suffix_cons last past))

/-! ## Many pages -/

/-- Along its own tape the guide counts the pages. -/
theorem opened_guide_of_suffix {t : Tape} {past : List Page} (on_tape : past <:+ t.past)
    (bound : t.past.length < 256 ^ capacity) :
    opened t.guide past = State.numbered past.length := by
  induction past with
  | nil => exact State.numbered_zero.symm
  | cons page past ih =>
    rw [opened, ih ((List.suffix_cons page past).trans on_tape)]
    exact follow_of_suffix on_tape bound

/-- Pages are followed as long as they are on the tape, and lost from then on. -/
theorem opened_guide_cases (t : Tape) (past : List Page)
    (bound : t.past.length + 1 < 256 ^ capacity) :
    past <:+ t.past ∨ opened t.guide past = State.numbered (t.past.length + 1) := by
  induction past with
  | nil => exact .inl (List.nil_suffix)
  | cons page past ih =>
    by_cases on_tape : page :: past <:+ t.past
    · exact .inl on_tape
    · refine .inr ?_
      rw [opened]
      rcases ih with followed | lost
      · rw [opened_guide_of_suffix followed (by omega)]
        have length_le := followed.length_le
        refine follow_of_not_suffix ?_ (by omega) (by omega)
        intro before length_eq suffix
        -- two ends of one list with the same length are the same
        have before_suffix := (List.suffix_cons page before).trans suffix
        have same : before = past :=
          (List.suffix_of_suffix_length_le before_suffix followed (by omega)).eq_of_length length_eq
        exact on_tape (same ▸ suffix)
      · rw [lost]
        refine follow_of_not_suffix ?_ bound (by omega)
        intro before length_eq suffix
        have length_le := suffix.length_le
        rw [List.length_cons] at length_le
        omega

/-- The permutation that follows a tape brings no other tape to the same end. -/
theorem eq_of_play_guide_eq {t u : Tape} (bound : t.past.length + 1 < 256 ^ capacity)
    (h : t.play t.guide = u.play t.guide) : t = u := by
  have block_eq := congrArg Duplex.padded h
  unfold play at block_eq
  rw [Page.padded_load, Page.padded_load,
    opened_guide_of_suffix (List.suffix_refl _) (by omega)] at block_eq
  rcases opened_guide_cases t u.past bound with followed | lost
  · rw [opened_guide_of_suffix followed (by omega)] at block_eq
    have length_le := followed.length_le
    obtain ⟨page_eq, length_eq⟩ :=
      Page.sealed_numbered_inj (by omega) (by omega) block_eq
    exact Tape.ext (followed.eq_of_length length_eq.symm).symm page_eq
  · rw [lost] at block_eq
    have number_eq := (Page.sealed_numbered_inj (by omega) bound block_eq).2
    omega

/-- Different tapes end differently under some permutation, unless both are too long to number
their pages. -/
theorem exists_play_ne {t u : Tape} (h : t ≠ u)
    (bound : t.past.length + 1 < 256 ^ capacity ∨ u.past.length + 1 < 256 ^ capacity) :
    ∃ P : Permutation, t.play P ≠ u.play P := by
  rcases bound with t_bound | u_bound
  · exact ⟨t.guide, fun same => h (eq_of_play_guide_eq t_bound same)⟩
  · exact ⟨u.guide, fun same => h (eq_of_play_guide_eq u_bound same.symm).symm⟩

end Tape

end SpongeTranscript
