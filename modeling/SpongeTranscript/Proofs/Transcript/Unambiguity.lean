import Mathlib.Data.Fintype.BigOperators
import Mathlib.Data.Fintype.Pigeonhole
import Mathlib.Dynamics.PeriodicPts.Defs
import SpongeTranscript.Proofs.Tape.Separation
import SpongeTranscript.Proofs.Transcript.Decoding

set_option autoImplicit false

/-!
# Different acts, different transcripts

Two lists of acts are told apart by some permutation exactly if they leave different tapes
(`run_eq_iff_ofActs_eq`), and a tape is read back except where one list blurs the other. So
different lists that are not blurred end in different transcripts (`exists_run_ne`).

Lists that are blurred need not: where the mark of a frame fills a window, the page behind it notes
no start, and a header that runs on past it leaves the same tape as a shorter header that starts
there (`not_all_acts_separable`).

The number of permutations has to be bounded too, for another reason. A duplex has finitely many
configurations, so a list that repeats one act for long enough passes through the same ones as a
longer list, whatever the permutation is (`exists_run_replicate_eq`).
-/

namespace SpongeTranscript.Transcript

/-- Where the duplex stands after acts is where their tape stands. -/
theorem onSeam_iff_position (P : Permutation) (domain : String) (acts : List Act) :
    (Tape.ofActs domain acts).OnSeam ↔
      ((init P domain).run (acts.map Act.call)).2.duplex.position + 1 = window := by
  rw [run_eq_play]
  rfl

/-- Two lists, one of them not too long, end the same under all permutations exactly if they leave
the same tape. -/
theorem run_eq_iff_ofActs_eq {domain : String} {a b : List Act}
    (bound : (Tape.ofActs domain a).past.length + 1 < 256 ^ capacity ∨
      (Tape.ofActs domain b).past.length + 1 < 256 ^ capacity) :
    (∀ P, ((init P domain).run (a.map Act.call)).2 = ((init P domain).run (b.map Act.call)).2) ↔
      Tape.ofActs domain a = Tape.ofActs domain b := by
  constructor
  · intro same
    by_contra different
    obtain ⟨P, separated⟩ := Tape.exists_play_ne different bound
    have end_eq := same P
    rw [run_eq_play, run_eq_play] at end_eq
    exact separated (congrArg Transcript.duplex end_eq)
  · intro tape_eq P
    rw [run_eq_play, run_eq_play, tape_eq]

/-- Different lists of acts end in different transcripts under some permutation, if one of them
permutes fewer than `256 ^ 32 - 1` times, and if at the acts where they part, read from the end,
neither has a header that runs on past a start of the other on a seam. -/
theorem exists_run_ne (domain : String) {a b : List Act} (different : a ≠ b)
    (a_codable : ∀ act ∈ a, act.Codable) (b_codable : ∀ act ∈ b, act.Codable)
    (bound : (Tape.ofActs domain a).past.length + 1 < 256 ^ capacity ∨
      (Tape.ofActs domain b).past.length + 1 < 256 ^ capacity)
    (apart : ¬ Tape.Blurs domain a b) (apart' : ¬ Tape.Blurs domain b a) :
    ∃ P : Permutation, ((init P domain).run (a.map Act.call)).2 ≠
      ((init P domain).run (b.map Act.call)).2 := by
  by_contra none_separates
  push Not at none_separates
  have tape_eq := (run_eq_iff_ofActs_eq bound).mp none_separates
  exact different (Tape.eq_of_ofActs_eq a_codable b_codable apart apart' tape_eq)

/-- One list has a label of 200 bytes, and the other starts its second act on a seam. But the lists
part at other acts, and so they are told apart. -/
theorem exists_run_ne_long_label :
    let long := [Act.mix (String.ofList (List.replicate 200 'q')) [], .mix "x" []]
    let seam := [Act.mix "a" (List.replicate 157 7), .mix "x" [], .mix "y" []]
    ∃ P : Permutation, ((init P "com.example.kat").run (long.map Act.call)).2 ≠
      ((init P "com.example.kat").run (seam.map Act.call)).2 := by
  intro long seam
  have last_ne : Act.mix "x" [] ≠ Act.mix "y" [] := by decide
  exact exists_run_ne "com.example.kat" (a := long) (b := seam) (by decide +kernel)
    (by decide +kernel) (by decide +kernel) (.inl (by decide +kernel))
    (Tape.not_blurs_concat (a := [_]) (b := [_, _]) last_ne (by decide +kernel))
    (Tape.not_blurs_concat (a := [_, _]) (b := [_]) last_ne.symm (by decide +kernel))

/-! ## Acts that are repeated for ever -/

/-- What a duplex can be like between calls, whatever its permutation is. -/
abbrev Configuration : Type :=
  (Fin width → Fin 256) × Fin window × Fin window

/-- The configuration of a duplex that has taken in a tape. -/
def configuration (P : Permutation) (t : Tape) : Configuration :=
  (fun i => ((t.play P).state.byte i).toFin, ⟨t.page.bytes.length, t.room⟩,
    ⟨t.page.frame, Nat.lt_of_le_of_lt t.page.frame_le t.room⟩)

/-- Duplexes of the same configuration are the same. -/
theorem play_eq_of_configuration_eq {P : Permutation} {t u : Tape}
    (h : configuration P t = configuration P u) : t.play P = u.play P := by
  have bytes_eq := congrArg Prod.fst h
  have position_eq : t.page.bytes.length = u.page.bytes.length :=
    congrArg (fun c => c.2.1.val) h
  have frame_eq : t.page.frame = u.page.frame := congrArg (fun c => c.2.2.val) h
  have state_eq : (t.play P).state = (u.play P).state := by
    apply State.ext_byte
    intro i inside
    exact UInt8.toFin_inj.mp (congrFun bytes_eq ⟨i, inside⟩)
  calc t.play P = ⟨(t.play P).state, t.page.bytes.length, t.page.frame⟩ := rfl
    _ = ⟨(u.play P).state, u.page.bytes.length, u.page.frame⟩ := by
      rw [state_eq, position_eq, frame_eq]
    _ = u.play P := rfl

/-- A sequence that repeats itself within `n` steps is at the same point after `n` and after
`n + n !` steps. -/
theorem iterate_add_factorial_eq {α : Type} {f : α → α} {x : α} {i j n : Nat} (later : i < j)
    (within : j ≤ n) (h : f^[i] x = f^[j] x) : f^[n + n.factorial] x = f^[n] x := by
  have cycle : Function.IsPeriodicPt f (j - i) (f^[i] x) := by
    have regroup : j - i + i = j := by omega
    unfold Function.IsPeriodicPt Function.IsFixedPt
    rw [← Function.iterate_add_apply, regroup, h]
  have divides : j - i ∣ n.factorial := Nat.dvd_factorial (by omega) (by omega)
  have around : f^[n.factorial] (f^[i] x) = f^[i] x := cycle.trans_dvd divides
  have split_long : n + n.factorial = (n - i) + (n.factorial + i) := by omega
  have split_short : n = (n - i) + i := by omega
  calc f^[n + n.factorial] x = f^[n - i] (f^[n.factorial] (f^[i] x)) := by
        rw [split_long, Function.iterate_add_apply, Function.iterate_add_apply f n.factorial]
    _ = f^[n - i] (f^[i] x) := by rw [around]
    _ = f^[n] x := by rw [← Function.iterate_add_apply, ← split_short]

/-- To play an act that is repeated is to repeat what it does to the duplex. -/
theorem play_replicate (P : Permutation) (domain : String) (act : Act) (n : Nat) :
    (Tape.ofActs domain (List.replicate n act)).play P =
      (fun d => (Transcript.call ⟨d⟩ act.call).2.duplex)^[n] ((Tape.opening domain).play P) := by
  induction n with
  | zero => rfl
  | succ n ih =>
    rw [List.replicate_succ', Tape.ofActs_concat, Tape.play_enact, ih,
      Function.iterate_succ_apply']

/-- An act that is repeated often enough leads back to a transcript that was there before, by two
numbers of repetitions that are the same for all permutations. -/
theorem exists_run_replicate_eq (domain : String) (act : Act) :
    ∃ n m, n < m ∧ ∀ P : Permutation,
      ((init P domain).run ((List.replicate n act).map Act.call)).2 =
        ((init P domain).run ((List.replicate m act).map Act.call)).2 := by
  let n := Fintype.card Configuration
  refine ⟨n, n + n.factorial, Nat.lt_add_of_pos_right n.factorial_pos, ?_⟩
  intro P
  have more : Fintype.card Configuration < Fintype.card (Fin (n + 1)) := by
    rw [Fintype.card_fin]
    exact Nat.lt_succ_self _
  obtain ⟨i, j, different, same⟩ := Fintype.exists_ne_map_eq_of_card_lt
    (fun i : Fin (n + 1) => configuration P (Tape.ofActs domain (List.replicate i act))) more
  have play_eq := play_eq_of_configuration_eq same
  rw [play_replicate, play_replicate] at play_eq
  rw [run_eq_play, run_eq_play, play_replicate, play_replicate]
  rcases Nat.lt_or_gt_of_ne (Fin.val_ne_of_ne different) with later | earlier
  · rw [iterate_add_factorial_eq later (by omega) play_eq]
  · rw [iterate_add_factorial_eq earlier (by omega) play_eq.symm]

/-! ## A header that runs on past a start -/

/-- A label that ends in the trailer of one act, the mark of a frame that fills a window and the
header of another act. -/
def longLabel : String :=
  String.ofList (List.replicate 158 'x' ++ [10, 24, 2, 0, 2, 0].map Char.ofNat)

/-- The mark of the second frame fills the first window. The header behind it fills the second one
and ends on the third. -/
def crossing : List Act :=
  [.mix "a" (List.replicate 157 7), .mix longLabel []]

/-- The first input goes on with what `crossing` writes behind its own: the trailer, the mark and
the long header, up to the bytes that are the trailer, the mark and the short header here. -/
def restarting : List Act :=
  [.mix "a" (List.replicate 157 7 ++ trailer 157 ++ [1] ++ (header .mix longLabel).take 162),
    .mix "" []]

/-- The two lists leave the same tape. -/
theorem ofActs_crossing_eq :
    Tape.ofActs "com.example.kat" crossing = Tape.ofActs "com.example.kat" restarting := by
  decide +kernel

/-- Not all different lists of acts are told apart, however few permutations they take. These two
leave the same tape. -/
theorem not_all_acts_separable :
    crossing ≠ restarting ∧
      (∀ act ∈ crossing, act.Codable) ∧ (∀ act ∈ restarting, act.Codable) ∧
      (Tape.ofActs "com.example.kat" crossing).past.length + 1 < 256 ^ capacity ∧
      ∀ P : Permutation,
        ((init P "com.example.kat").run (crossing.map Act.call)).2 =
          ((init P "com.example.kat").run (restarting.map Act.call)).2 := by
  refine ⟨by decide +kernel, by decide +kernel, by decide +kernel, by decide +kernel, ?_⟩
  intro P
  rw [run_eq_play, run_eq_play, ofActs_crossing_eq]

end SpongeTranscript.Transcript
