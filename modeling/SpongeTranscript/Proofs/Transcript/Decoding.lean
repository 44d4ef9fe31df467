import SpongeTranscript.Proofs.Transcript.Act

set_option autoImplicit false

/-!
# Reading acts back from a tape

A tape is read from its end. The last page tells a derive from a mix, the trailer tells how long the
body is, and then the header is all that is left of the act. The header has no mark at its front
that a reader from the back could see, so two lists of acts could leave the same tape if the header
of one ended in what the other takes for the mark of a frame and a shorter header.

On one page this cannot be: behind the start of the frame, which the page itself notes, there stands
a header, and no header goes on beyond another (`Labelled`). Only where the mark of the frame is the
last byte of a window is the start of the frame lost, since a new page notes none. Then the longer
header has to have begun on an earlier page than the one that it ends on, and to be longer than a
window (`Overruns`). `eq_of_ofActs_eq` excludes just this, and only at the two acts where the lists
part when they are read from the end (`Blurs`); then the tape determines the acts.
-/

namespace SpongeTranscript.Tape

open Transcript

/-! ## What stands behind the start of a frame -/

/-- If the open page notes the start of a frame, a header stands there. -/
def Labelled (t : Tape) : Prop :=
  0 < t.page.frame → ∃ op label rest, Codable (Bytes.ofText label).length ∧
    t.page.bytes.drop t.page.frame = header op label ++ rest

/-- A page that notes no frame has nothing to show. -/
theorem labelled_of_frame_zero {t : Tape} (zero : t.page.frame = 0) : t.Labelled := by
  intro pos
  omega

/-- Behind a permutation the open page notes no frame. -/
theorem labelled_turn (t : Tape) : t.turn.Labelled :=
  labelled_of_frame_zero rfl

/-- Writing behind a header either leaves it where it is, or starts a page that notes no frame. -/
theorem labelled_announce_pushes (t : Tape) {op : Opcode} {label : String}
    (codable : Codable (Bytes.ofText label).length) (body : Bytes) :
    ((t.announce op label).pushes body).Labelled := by
  have regroup : (t.announce op label).pushes body =
      t.startFrame.pushes (header op label ++ body) := by
    rw [announce, pushes_append]
  rw [regroup]
  by_cases room : t.startFrame.page.bytes.length + (header op label ++ body).length < window
  · obtain ⟨-, bytes_eq, frame_eq⟩ := t.startFrame.pushes_of_room _ room
    intro _
    refine ⟨op, label, body, codable, ?_⟩
    rw [bytes_eq, frame_eq, frame_startFrame, List.drop_left]
  · exact labelled_of_frame_zero (t.startFrame.frame_pushes_of_full _ (by omega))

/-- Behind an act, a header stands at the start that the page notes, if it notes one. -/
theorem labelled_enact (t : Tape) {act : Act} (codable : act.Codable) :
    (t.enact act).Labelled := by
  cases act with
  | mix label input =>
    rw [enact, ← pushes_append]
    exact t.labelled_announce_pushes codable.label _
  | derive label count => exact labelled_turn _

/-- So it does behind any number of acts. -/
theorem labelled_ofActs (domain : String) {acts : List Act}
    (codable : ∀ act ∈ acts, act.Codable) : (ofActs domain acts).Labelled := by
  rcases List.eq_nil_or_concat' acts with rfl | ⟨before, act, rfl⟩
  · exact labelled_turn _
  · rw [ofActs_concat]
    exact labelled_enact _ (codable act (by simp))

/-! ## Two frames that overlap -/

/-- The mark of a frame that fills a window is a byte like any other. -/
theorem startFrame_eq_push {t : Tape} (seam : t.OnSeam) :
    t.startFrame = t.push t.page.frame.toUInt8 := by
  apply Tape.ext
  · rfl
  · rw [(startFrame_of_seam seam).2, (t.push_of_full _ seam).2]

/-- A frame whose start stands inside of another frame starts on a seam: elsewhere the page would
note both starts. -/
theorem onSeam_of_overlap {t u : Tape} {zs : Bytes} (nonempty : zs ≠ [])
    (aligned : t.startFrame.pushes zs = u.startFrame) : u.OnSeam := by
  rcases u.full_or_room with seam | room
  · exact seam
  · have pos := List.length_pos_iff.mpr nonempty
    have frame_eq : (t.startFrame.pushes zs).page.frame = u.page.bytes.length + 1 := by
      rw [aligned, (startFrame_of_room room).2.2]
    have at_end : (t.startFrame.pushes zs).page.frame =
        (t.startFrame.pushes zs).page.bytes.length := by
      rw [aligned, frame_startFrame]
    by_cases fits : t.startFrame.page.bytes.length + zs.length < window
    · obtain ⟨-, bytes_eq, start_eq⟩ := t.startFrame.pushes_of_room zs fits
      rw [start_eq, frame_startFrame, bytes_eq, List.length_append] at at_end
      omega
    · rw [t.startFrame.frame_pushes_of_full zs (by omega)] at frame_eq
      omega

/-- No overlap starts and ends with one page: the page notes where the frame starts, a whole header
stands there before the mark of the other frame, and it would be a beginning of the header that
runs on past this mark. -/
theorem not_overlap_on_page {t u : Tape} {zs rest : Bytes} {op : Opcode} {label : String}
    (labelled : u.Labelled) (codable : Codable (Bytes.ofText label).length) (nonempty : zs ≠ [])
    (header_eq : header op label = zs ++ rest) (aligned : t.startFrame.pushes zs = u.startFrame)
    (noted : 0 < t.startFrame.page.bytes.length) :
    t.startFrame.page.bytes.length + zs.length ≠ window := by
  intro on_page
  have seam := onSeam_of_overlap nonempty aligned
  obtain ⟨before, mark, rfl⟩ := (List.eq_nil_or_concat' zs).resolve_left nonempty
  rw [List.length_append, List.length_singleton] at on_page
  -- the mark is the last byte of the page, so the tape before it is `u`
  rw [pushes_concat, startFrame_eq_push seam] at aligned
  obtain ⟨rfl, -⟩ := push_inj aligned
  obtain ⟨-, bytes_eq, frame_eq⟩ := t.startFrame.pushes_of_room before (by omega)
  rw [frame_startFrame] at frame_eq
  obtain ⟨op', label', tail, codable', behind⟩ := labelled (by omega)
  rw [bytes_eq, frame_eq, List.drop_left] at behind
  have both : header op label ++ [] = header op' label' ++ (tail ++ [mark] ++ rest) := by
    rw [List.append_nil, header_eq, behind]
    simp only [List.append_assoc]
  have tail_eq := (header_append_cancel codable codable' both).2.2
  simp at tail_eq

/-- A header that overlaps the start of another frame is longer than a window: it fills the page on
which the other mark stands, from its first byte on. -/
theorem window_lt_of_overlap {t u : Tape} {zs rest : Bytes} {op : Opcode} {label : String}
    (labelled : u.Labelled) (codable : Codable (Bytes.ofText label).length) (nonempty : zs ≠ [])
    (more : rest ≠ []) (header_eq : header op label = zs ++ rest)
    (aligned : t.startFrame.pushes zs = u.startFrame) :
    window < (header op label).length := by
  have zs_pos := List.length_pos_iff.mpr nonempty
  have rest_pos := List.length_pos_iff.mpr more
  have start_room := t.startFrame.room
  have seam := onSeam_of_overlap nonempty aligned
  have at_end : (t.startFrame.page.bytes.length + zs.length) % window = 0 := by
    rw [← length_pushes, aligned, (startFrame_of_seam seam).2]
    rfl
  have other_page : 0 < t.startFrame.page.bytes.length →
      t.startFrame.page.bytes.length + zs.length ≠ window :=
    not_overlap_on_page labelled codable nonempty header_eq aligned
  have window_eq : window = 166 := rfl
  rw [header_eq, List.length_append]
  rw [window_eq] at at_end start_room other_page ⊢
  omega

/-- A header runs on past the start of another frame: it is longer than a window and ends in the
other header, which is a different one and starts where the mark of its frame fills a window. -/
structure Overruns (start : Tape) (long short : Bytes) : Prop where
  window_lt : window < long.length
  suffix : short <:+ long
  different : long ≠ short
  seam : start.OnSeam

/-- If one header ends in another and both lead to the same tape, they are the same, unless the
first runs on past the start of the second. -/
theorem eq_of_header_eq_append {t u : Tape} {zs : Bytes} {op op' : Opcode} {label label' : String}
    (labelled : u.Labelled) (codable : Codable (Bytes.ofText label).length)
    (codable' : Codable (Bytes.ofText label').length)
    (apart : ¬ Overruns u (header op label) (header op' label'))
    (header_eq : header op label = zs ++ header op' label')
    (aligned : t.startFrame.pushes zs = u.startFrame) : t = u ∧ op = op' ∧ label = label' := by
  by_cases empty : zs = []
  · subst empty
    have both : header op label ++ [] = header op' label' ++ [] := by
      simpa using header_eq
    obtain ⟨op_eq, label_eq, -⟩ := header_append_cancel codable codable' both
    exact ⟨startFrame_inj aligned, op_eq, label_eq⟩
  · have header_ne : header op' label' ≠ [] :=
      List.length_pos_iff.mp (length_header_pos op' label')
    have different : header op label ≠ header op' label' := by
      intro same
      rw [same] at header_eq
      exact empty (List.self_eq_append_left.mp header_eq)
    have overruns : Overruns u (header op label) (header op' label') :=
      { window_lt := window_lt_of_overlap labelled codable empty header_ne header_eq aligned
        suffix := ⟨zs, header_eq.symm⟩
        different := different
        seam := onSeam_of_overlap empty aligned }
    exact absurd overruns apart

/-- Headers that lead to the same tape are the same, from the same tape, unless one runs on past the
start of the other. -/
theorem announce_inj {t u : Tape} {op op' : Opcode} {label label' : String}
    (t_labelled : t.Labelled) (u_labelled : u.Labelled)
    (codable : Codable (Bytes.ofText label).length)
    (codable' : Codable (Bytes.ofText label').length)
    (apart : ¬ Overruns u (header op label) (header op' label'))
    (apart' : ¬ Overruns t (header op' label') (header op label))
    (h : t.announce op label = u.announce op' label') : t = u ∧ op = op' ∧ label = label' := by
  rcases pushes_eq_pushes h with ⟨zs, header_eq, aligned⟩ | ⟨zs, header_eq, aligned⟩
  · exact eq_of_header_eq_append u_labelled codable codable' apart header_eq aligned
  · obtain ⟨tape_eq, op_eq, label_eq⟩ :=
      eq_of_header_eq_append t_labelled codable' codable apart' header_eq aligned
    exact ⟨tape_eq.symm, op_eq.symm, label_eq.symm⟩

/-! ## One act -/

/-- From its end, a tape shows the number in a trailer, and then what stands in front of it. -/
theorem pushes_trailer_inj {t u : Tape} {xs ys : Bytes} {count count' : Nat}
    (codable : Codable count) (codable' : Codable count')
    (h : t.pushes (xs ++ trailer count) = u.pushes (ys ++ trailer count')) :
    count = count' ∧ t.pushes xs = u.pushes ys := by
  have count_eq : count = count' := by
    rcases pushes_eq_pushes h with ⟨zs, ends, -⟩ | ⟨zs, ends, -⟩
    · rw [← List.append_assoc] at ends
      exact (append_trailer_cancel codable codable' ends).1
    · rw [← List.append_assoc] at ends
      exact (append_trailer_cancel codable' codable ends).1.symm
  subst count_eq
  rw [pushes_append, pushes_append] at h
  exact ⟨rfl, (pushes_inj_of_length rfl h).1⟩

/-- The zeros that a derive leaves between two permutations tell how many bytes it read. -/
theorem turn_pushes_zeros_inj {t u : Tape} {count count' : Nat}
    (h : (t.turn.pushes (Bytes.zeros count)).turn = (u.turn.pushes (Bytes.zeros count')).turn) :
    t = u ∧ count = count' := by
  rcases pushes_eq_pushes (turn_inj h) with ⟨zs, zeros_eq, aligned⟩ | ⟨zs, zeros_eq, aligned⟩
  all_goals
    obtain rfl := eq_nil_of_pushes_eq_turn aligned
    have length_eq := congrArg List.length zeros_eq
    simp only [List.nil_append, Bytes.length_zeros] at length_eq
  · exact ⟨turn_inj aligned, length_eq⟩
  · exact ⟨(turn_inj aligned).symm, length_eq.symm⟩

/-- A mix ends with a byte of its trailer, and a derive with a permutation. -/
theorem enact_mix_ne_derive (t u : Tape) (label label' : String) (input : Bytes) (count : Nat) :
    t.enact (.mix label input) ≠ u.enact (.derive label' count) := by
  intro h
  have trailer_nil := eq_nil_of_pushes_eq_turn h
  have trailer_pos := length_trailer_pos input.length
  rw [trailer_nil] at trailer_pos
  exact Nat.lt_irrefl 0 trailer_pos

/-- Acts that lead to the same tape are the same, from the same tape, unless they differ in their
labels only and the header of one runs on past the start of the other. -/
theorem enact_inj {t u : Tape} {x y : Act} (t_labelled : t.Labelled) (u_labelled : u.Labelled)
    (codable : x.Codable) (codable' : y.Codable)
    (apart : ∀ label, y = x.relabel label → ¬ Overruns u x.header y.header)
    (apart' : ∀ label, x = y.relabel label → ¬ Overruns t y.header x.header)
    (h : t.enact x = u.enact y) : t = u ∧ x = y := by
  cases x with
  | mix label input =>
    cases y with
    | mix label' input' =>
      rw [enact, enact, ← pushes_append, ← pushes_append] at h
      obtain ⟨length_eq, body_eq⟩ := pushes_trailer_inj codable.count codable'.count h
      obtain ⟨header_eq, rfl⟩ := pushes_inj_of_length length_eq body_eq
      obtain ⟨rfl, -, rfl⟩ := announce_inj t_labelled u_labelled codable.label codable'.label
        (apart label' rfl) (apart' label rfl) header_eq
      exact ⟨rfl, rfl⟩
    | derive label' count => exact absurd h (enact_mix_ne_derive _ _ _ _ _ _)
  | derive label count =>
    cases y with
    | mix label' input' => exact absurd h.symm (enact_mix_ne_derive _ _ _ _ _ _)
    | derive label' count' =>
      obtain ⟨body_eq, rfl⟩ := turn_pushes_zeros_inj h
      obtain ⟨header_eq, -⟩ := pushes_inj_of_length rfl body_eq
      obtain ⟨rfl, -, rfl⟩ := announce_inj t_labelled u_labelled codable.label codable'.label
        (apart label' rfl) (apart' label rfl) header_eq
      exact ⟨rfl, rfl⟩

/-! ## Lists of acts -/

/-- An announcement and what is written behind it make a tape longer. -/
theorem size_lt_announce_pushes (t : Tape) (op : Opcode) (label : String) (body : Bytes) :
    t.size < ((t.announce op label).pushes body).size := by
  have marked := t.size_lt_startFrame
  have written := t.startFrame.size_le_pushes (header op label ++ body)
  rw [announce, ← pushes_append]
  omega

/-- Every act makes a tape longer. -/
theorem size_lt_enact (t : Tape) (act : Act) : t.size < (t.enact act).size := by
  cases act with
  | mix label input =>
    rw [enact, ← pushes_append]
    exact t.size_lt_announce_pushes _ _ _
  | derive label count =>
    have opened := t.size_lt_announce_pushes .derive label (trailer count)
    have turned := size_turn ((t.announce .derive label).pushes (trailer count))
    have drawn := size_le_pushes ((t.announce .derive label).pushes (trailer count)).turn
      (Bytes.zeros count)
    rw [enact, size_turn]
    omega

/-- Acts make no tape shorter than that of a new transcript. -/
theorem size_opening_le (domain : String) (acts : List Act) :
    (opening domain).size ≤ (ofActs domain acts).size := by
  induction acts using List.reverseRecOn with
  | nil => exact Nat.le_refl _
  | append_singleton before act ih =>
    have longer := (ofActs domain before).size_lt_enact act
    rw [ofActs_concat]
    omega

/-- A tape with an act on it is not that of a new transcript. -/
theorem opening_ne_concat (domain : String) (acts : List Act) (act : Act) :
    ofActs domain [] ≠ ofActs domain (acts ++ [act]) := by
  intro h
  have start := size_opening_le domain acts
  have longer := (ofActs domain acts).size_lt_enact act
  rw [← ofActs_concat, ← h] at longer
  exact Nat.lt_irrefl _ (Nat.lt_of_lt_of_le longer start)

/-- One list has a header that runs on past a start of the other. Before these two acts, which
differ in their labels only, the lists may be anything, and behind them they go on with the same
acts. -/
def Blurs (domain : String) (a b : List Act) : Prop :=
  ∃ before before' after x label, a = before ++ x :: after ∧
    b = before' ++ x.relabel label :: after ∧
    Overruns (ofActs domain before') x.header (x.relabel label).header

/-- Lists that blur still do so when both go on with one more act. -/
theorem Blurs.concat {domain : String} {a b : List Act} (h : Blurs domain a b) (act : Act) :
    Blurs domain (a ++ [act]) (b ++ [act]) := by
  obtain ⟨before, before', after, x, label, rfl, rfl, overruns⟩ := h
  refine ⟨before, before', after ++ [act], x, label, ?_, ?_, overruns⟩
  · simp
  · simp

/-- Lists that end in different acts are not blurred if the header of the first one's last act fits
into a window. -/
theorem not_blurs_concat {domain : String} {a b : List Act} {x y : Act} (different : x ≠ y)
    (short : x.header.length ≤ window) : ¬ Blurs domain (a ++ [x]) (b ++ [y]) := by
  rintro ⟨before, before', after, long, label, a_eq, b_eq, overruns⟩
  rcases List.eq_nil_or_concat' after with rfl | ⟨after, last, rfl⟩
  · obtain ⟨-, rfl⟩ := List.append_singleton_inj.mp a_eq
    exact absurd overruns.window_lt (Nat.not_lt.mpr short)
  · rw [← List.cons_append, ← List.append_assoc] at a_eq b_eq
    obtain ⟨-, x_eq⟩ := List.append_singleton_inj.mp a_eq
    obtain ⟨-, y_eq⟩ := List.append_singleton_inj.mp b_eq
    exact different (x_eq.trans y_eq.symm)

/-- The tape determines the acts, unless one list blurs the other. -/
theorem eq_of_ofActs_eq {domain : String} {a b : List Act}
    (a_codable : ∀ act ∈ a, act.Codable) (b_codable : ∀ act ∈ b, act.Codable)
    (apart : ¬ Blurs domain a b) (apart' : ¬ Blurs domain b a)
    (h : ofActs domain a = ofActs domain b) : a = b := by
  -- both lists are taken apart from the end, where the tape shows the last act
  induction a using List.reverseRecOn generalizing b with
  | nil =>
    rcases List.eq_nil_or_concat' b with rfl | ⟨b, y, rfl⟩
    · rfl
    · exact absurd h (opening_ne_concat _ _ _)
  | append_singleton a x ih =>
    rcases List.eq_nil_or_concat' b with rfl | ⟨b, y, rfl⟩
    · exact absurd h.symm (opening_ne_concat _ _ _)
    · rw [ofActs_concat, ofActs_concat] at h
      have a_codable' : ∀ act ∈ a, act.Codable := by
        intro act mem
        exact a_codable act (List.mem_append_left _ mem)
      have b_codable' : ∀ act ∈ b, act.Codable := by
        intro act mem
        exact b_codable act (List.mem_append_left _ mem)
      have last_apart : ∀ label, y = x.relabel label →
          ¬ Overruns (ofActs domain b) x.header y.header := by
        rintro label rfl overruns
        exact apart ⟨a, b, [], x, label, rfl, rfl, overruns⟩
      have last_apart' : ∀ label, x = y.relabel label →
          ¬ Overruns (ofActs domain a) y.header x.header := by
        rintro label rfl overruns
        exact apart' ⟨b, a, [], y, label, rfl, rfl, overruns⟩
      obtain ⟨tape_eq, rfl⟩ := enact_inj (labelled_ofActs domain a_codable')
        (labelled_ofActs domain b_codable') (a_codable x (by simp)) (b_codable y (by simp))
        last_apart last_apart' h
      rw [ih a_codable' b_codable' (fun blurs => apart (blurs.concat x))
        (fun blurs => apart' (blurs.concat x)) tape_eq]

end SpongeTranscript.Tape
