import Mathlib.Data.Set.Function
import SpongeTranscript.Proofs.Pool
import SpongeTranscript.Proofs.Stream.Endpoint
import SpongeTranscript.Proofs.Transcript.Opening

set_option autoImplicit false

/-!
# Snapshots are exact

Storing narrows both pointers to a byte, and reading refuses pointers that are out of range. Neither
shows on a duplex that a program can come to hold: whatever calls, operations, streams and snapshots
it comes from, it is valid (`Reachable.valid`), so its pointers lie within the window. The converse
holds too, because a valid duplex can be read from its own snapshot. So the duplexes within reach
are those that snapshots stand for, one for each (`snapshots_are_exact`).
-/

namespace SpongeTranscript

variable {P : Permutation}

/-! ## Duplexes within reach -/

/-- Opens a body of either kind. -/
def Transcript.openBody (t : Transcript P) (label : String) : BodyKind → Body P
  | .mix => t.openMix label
  | .crypt direction => t.openCrypt label direction

namespace Duplex

/-- The duplexes that a program can come to hold, each transcript by its duplex. -/
inductive Reachable : Duplex P → Prop where
  | begin {d : Duplex P} (origin : Pool.Origin) (begun : origin.begin P = some d) : Reachable d
  | step {d : Duplex P} (s : Pool.Step) (before : Reachable d) : Reachable (s.on d).1
  | made {d e : Duplex P} (s : Pool.Step) (before : Reachable d) (new : e ∈ (s.on d).2) :
      Reachable e
  | sealBuffer {d : Duplex P} (label : String) (buffer : Bytes) {out : Bytes} {t : Transcript P}
      (before : Reachable d) (sealed : Transcript.sealBuffer ⟨d⟩ label buffer = .ok (out, t)) :
      Reachable t.duplex
  | openBuffer {d : Duplex P} (label : String) (buffer : Bytes) (before : Reachable d) :
      Reachable (Transcript.openBuffer ⟨d⟩ label buffer).transcript.duplex
  | write {d : Duplex P} {σ : Type} [Sink σ] (label : String) (kind : BodyKind) (sink : σ)
      (calls : List WriteCall) (ending : Ending) (before : Reachable d) :
      Reachable (ending.settle
        (((Transcript.openBody ⟨d⟩ label kind).writer sink).session calls ending).last.body).duplex
  | read {d : Duplex P} {σ : Type} [Source σ] (label : String) (kind : BodyKind) (source : σ)
      (calls : List ReadCall) (ending : Ending) (before : Reachable d) :
      Reachable (ending.settle
        (((Transcript.openBody ⟨d⟩ label kind).reader source).session calls
          ending).last.body).duplex

/-- Opening a body keeps a duplex valid. -/
theorem valid_openBody {t : Transcript P} (h : t.duplex.Valid) (label : String)
    (kind : BodyKind) : (t.openBody label kind).transcript.duplex.Valid := by
  cases kind with
  | mix => exact valid_exchange (valid_startFrame h) .absorb _
  | crypt direction => exact valid_permute _

/-- Feeding a body and closing it keeps a duplex valid. -/
theorem valid_close_feed {b : Body P} (h : b.transcript.duplex.Valid) (input : Bytes) :
    (b.feed input).2.close.duplex.Valid := by
  have fed : (b.feed input).2.transcript.duplex.Valid := valid_exchange h b.kind.exchange input
  exact valid_exchange fed .absorb _

/-- What can be reached is valid. -/
theorem Reachable.valid {d : Duplex P} (h : d.Reachable) : d.Valid := by
  induction h with
  | begin origin begun => exact Pool.valid_begin origin _ (Option.mem_toList.mpr begun)
  | step s _ ih => exact (Pool.valid_on ih s).1
  | made s _ new ih => exact (Pool.valid_on ih s).2 _ new
  | sealBuffer label buffer _ sealed ih =>
    unfold Transcript.sealBuffer at sealed
    split at sealed
    · cases sealed
    · obtain ⟨-, rfl⟩ := Prod.mk.inj (Except.ok.inj sealed)
      exact valid_permute _
  | openBuffer label buffer _ ih =>
    unfold Transcript.openBuffer
    split
    · exact ih
    · dsimp only
      split <;> exact valid_permute _
  | write label kind sink calls ending _ ih =>
    have opened := valid_openBody ih label kind
    rw [Ending.settle_eq_close, Writer.last_body_eq opened.position_lt]
    exact valid_close_feed opened _
  | read label kind source calls ending _ ih =>
    have opened := valid_openBody ih label kind
    rw [Ending.settle_eq_close, Reader.last_body_eq opened.position_lt]
    exact valid_close_feed opened _

end Duplex

/-! ## Snapshots -/

/-- The byte strings that are the snapshot of something: a position within the window, a frame that
does not start behind it, and the 200 bytes of a state. -/
def IsSnapshot (bytes : Bytes) : Prop :=
  ∃ length_eq : bytes.length = 202, bytes[0] < 166 ∧ bytes[1] ≤ bytes[0]

/-- The first two bytes of a snapshot are the pointers, and the state follows. -/
theorem isSnapshot_cons {position frame : UInt8} {rest : Bytes} :
    IsSnapshot (position :: frame :: rest) ↔
      rest.length = width ∧ position.toNat < window ∧ frame.toNat ≤ position.toNat := by
  have length_iff : (position :: frame :: rest).length = 202 ↔ rest.length = width := by simp
  have window_eq : (166 : UInt8).toNat = window := rfl
  simp only [IsSnapshot, length_iff, exists_prop, List.getElem_cons_zero, List.getElem_cons_succ,
    UInt8.lt_iff_toNat_lt, UInt8.le_iff_toNat_le, window_eq]

namespace Duplex

/-- The position of a valid duplex fits into a byte. -/
theorem position_lt_of_valid {d : Duplex P} (h : d.Valid) : d.position < 256 :=
  Nat.lt_trans h.position_lt (by decide)

/-- A valid duplex is stored as a snapshot. -/
theorem isSnapshot_toBytes {d : Duplex P} (h : d.Valid) : IsSnapshot d.toBytes := by
  rw [toBytes, isSnapshot_cons, Bytes.toNat_toUInt8_of_lt (position_lt_of_valid h),
    Bytes.toNat_toUInt8_of_lt (frame_lt_of_valid h)]
  exact ⟨by simp, h.position_lt, h.frame_le⟩

/-- What reading accepts, and what it makes of it. -/
theorem ofBytes_cons {position frame : UInt8} {rest : Bytes} {state : State}
    (sized : Bytes.sized? width rest = some state) (position_lt : position.toNat < window)
    (frame_le : frame.toNat ≤ position.toNat) :
    ofBytes (P := P) (position :: frame :: rest) =
      .ok { state, position := position.toNat, frame := frame.toNat } := by
  have in_range : ¬ (window ≤ position.toNat ∨ window ≤ frame.toNat ∨ position < frame) := by
    rw [UInt8.lt_iff_toNat_lt]
    omega
  simp only [ofBytes, sized, if_neg in_range]

/-- A valid duplex comes back from its bytes. -/
theorem ofBytes_toBytes {d : Duplex P} (h : d.Valid) : ofBytes d.toBytes = .ok d := by
  obtain ⟨-, position_lt, frame_le⟩ := isSnapshot_cons.mp (isSnapshot_toBytes h)
  rw [toBytes, ofBytes_cons (Bytes.sized?_toList d.state) position_lt frame_le,
    Bytes.toNat_toUInt8_of_lt (position_lt_of_valid h),
    Bytes.toNat_toUInt8_of_lt (frame_lt_of_valid h)]

/-- Bytes that are accepted are stored again as they were. -/
theorem toBytes_of_ofBytes {bytes : Bytes} {d : Duplex P} (accepted : ofBytes bytes = .ok d) :
    d.toBytes = bytes := by
  unfold ofBytes at accepted
  split at accepted
  · split at accepted
    · cases accepted
    · rename_i sized
      split at accepted
      · cases accepted
      · cases accepted
        simp [toBytes, Bytes.sized?_eq_some_iff.mp sized]
  · cases accepted

/-- Bytes are accepted exactly as what a valid duplex is stored as. -/
theorem ofBytes_eq_ok_iff {bytes : Bytes} {d : Duplex P} :
    ofBytes bytes = .ok d ↔ d.Valid ∧ d.toBytes = bytes := by
  constructor
  · intro accepted
    exact ⟨valid_of_ofBytes accepted, toBytes_of_ofBytes accepted⟩
  · rintro ⟨valid, rfl⟩
    exact ofBytes_toBytes valid

/-- Every snapshot is accepted. -/
theorem exists_ofBytes {bytes : Bytes} (h : IsSnapshot bytes) :
    ∃ d : Duplex P, ofBytes bytes = .ok d := by
  obtain ⟨position, frame, rest, rfl⟩ :
      ∃ position frame rest, bytes = position :: frame :: rest := by
    obtain ⟨length_eq, -⟩ := h
    match bytes, length_eq with
    | position :: frame :: rest, _ => exact ⟨position, frame, rest, rfl⟩
  obtain ⟨length_eq, position_lt, frame_le⟩ := isSnapshot_cons.mp h
  cases sized : Bytes.sized? width rest with
  | none => exact absurd length_eq (Bytes.sized?_eq_none_iff.mp sized)
  | some state => exact ⟨_, ofBytes_cons sized position_lt frame_le⟩

/-- There is one reason to refuse a snapshot. -/
theorem eq_invalidState_of_ofBytes {bytes : Bytes} {refused : Error}
    (h : ofBytes (P := P) bytes = .error refused) : refused = .invalidState := by
  unfold ofBytes at h
  split at h
  · split at h
    · cases h
      rfl
    · split at h
      · cases h
        rfl
      · cases h
  · cases h
    rfl

/-- Every valid duplex can be reached, by restoring what it is stored as. -/
theorem reachable_iff_valid {d : Duplex P} : d.Reachable ↔ d.Valid := by
  constructor
  · exact Reachable.valid
  · intro valid
    apply Reachable.begin (.restore d.toBytes)
    rw [Pool.Origin.begin, ofBytes_toBytes valid]
    rfl

/-- Small numbers with the same word are the same. -/
theorem eq_of_toUInt64_eq {a b : Nat} (a_lt : a < 256) (b_lt : b < 256)
    (same : a.toUInt64 = b.toUInt64) : a = b :=
  calc a
    _ = a.toUInt64.toNat := (UInt64.toNat_ofNat_of_lt' (Nat.lt_trans a_lt (by decide))).symm
    _ = b.toUInt64.toNat := congrArg UInt64.toNat same
    _ = b := UInt64.toNat_ofNat_of_lt' (Nat.lt_trans b_lt (by decide))

/-- Valid duplexes agree only if they are the same: their pointers fit into words. -/
theorem beq_iff_of_valid {d e : Duplex P} (h : d.Valid) (h' : e.Valid) :
    (d == e) = true ↔ d = e := by
  constructor
  · intro same
    change d.agrees e = true at same
    simp only [agrees, Bool.and_eq_true, beq_iff_eq] at same
    obtain ⟨⟨state_eq, position_eq⟩, frame_eq⟩ := same
    have positions := eq_of_toUInt64_eq (position_lt_of_valid h) (position_lt_of_valid h')
      position_eq
    have frames := eq_of_toUInt64_eq (frame_lt_of_valid h) (frame_lt_of_valid h') frame_eq
    cases d
    cases e
    rw [mk.injEq]
    exact ⟨state_eq, positions, frames⟩
  · rintro rfl
    show d.agrees d = true
    simp [agrees]

end Duplex

/-! ## Storing and reading are inverse -/

/-- A way to store values and to read them again. -/
structure Format (α : Type) where
  toBytes : α → Bytes
  ofBytes : Bytes → Except Error α

namespace Format

variable {α : Type} [BEq α]

/-- The values within reach and the snapshots stand for each other. -/
structure Exact (f : Format α) (reachable : α → Prop) : Prop where
  restores : ∀ a, reachable a → f.ofBytes (f.toBytes a) = .ok a
  accepts_iff : ∀ bytes, (∃ a, f.ofBytes bytes = .ok a) ↔ IsSnapshot bytes
  returns : ∀ bytes a, f.ofBytes bytes = .ok a → reachable a ∧ f.toBytes a = bytes
  refuses : ∀ bytes, ¬ IsSnapshot bytes → f.ofBytes bytes = .error .invalidState
  beq_iff : ∀ a b, reachable a → reachable b → ((a == b) = true ↔ f.toBytes a = f.toBytes b)
  bijOn : Set.BijOn f.toBytes {a | reachable a} {bytes | IsSnapshot bytes}

/-- A format is exact if it reads just what it writes, stores snapshots and accepts them all,
refuses the rest as invalid, and compares what it holds. -/
theorem exact_of_reads {f : Format α} {reachable : α → Prop}
    (reads : ∀ bytes a, f.ofBytes bytes = .ok a ↔ reachable a ∧ f.toBytes a = bytes)
    (stored : ∀ a, reachable a → IsSnapshot (f.toBytes a))
    (accepted : ∀ bytes, IsSnapshot bytes → ∃ a, f.ofBytes bytes = .ok a)
    (refused : ∀ bytes error, f.ofBytes bytes = .error error → error = .invalidState)
    (agree : ∀ a b, reachable a → reachable b → ((a == b) = true ↔ a = b)) :
    f.Exact reachable := by
  have restores (a : α) (h : reachable a) : f.ofBytes (f.toBytes a) = .ok a :=
    (reads (f.toBytes a) a).mpr ⟨h, rfl⟩
  have injective {a b : α} (h : reachable a) (h' : reachable b)
      (same : f.toBytes a = f.toBytes b) : a = b := by
    apply Except.ok.inj (ε := Error)
    rw [← restores a h, same, restores b h']
  have is_snapshot {bytes : Bytes} {a : α} (read : f.ofBytes bytes = .ok a) :
      IsSnapshot bytes := by
    obtain ⟨h, rfl⟩ := (reads bytes a).mp read
    exact stored a h
  constructor
  case restores => exact restores
  case accepts_iff =>
    intro bytes
    constructor
    · rintro ⟨a, read⟩
      exact is_snapshot read
    · exact accepted bytes
  case returns =>
    intro bytes a read
    exact (reads bytes a).mp read
  case refuses =>
    intro bytes no_snapshot
    cases read : f.ofBytes bytes with
    | ok a => exact absurd (is_snapshot read) no_snapshot
    | error error => rw [refused bytes error read]
  case beq_iff =>
    intro a b h h'
    rw [agree a b h h']
    constructor
    · rintro rfl
      rfl
    · exact injective h h'
  case bijOn =>
    refine ⟨stored, fun a h b h' same => injective h h' same, ?_⟩
    intro bytes is_one
    obtain ⟨a, read⟩ := accepted bytes is_one
    obtain ⟨h, same⟩ := (reads bytes a).mp read
    exact ⟨a, h, same⟩

end Format

namespace Duplex

/-- The format in which a duplex is stored. -/
def format (P : Permutation) : Format (Duplex P) where
  toBytes := toBytes
  ofBytes := ofBytes

/-- The format of a duplex is exact. -/
theorem exact_format (P : Permutation) : (format P).Exact Valid := by
  apply Format.exact_of_reads
  · intro bytes d
    exact ofBytes_eq_ok_iff
  · intro d valid
    exact isSnapshot_toBytes valid
  · intro bytes is_one
    exact exists_ofBytes is_one
  · intro bytes refused
    exact eq_invalidState_of_ofBytes
  · intro d e valid valid'
    exact beq_iff_of_valid valid valid'

end Duplex

namespace Transcript

/-- The format in which a transcript is stored. -/
def format (P : Permutation) : Format (Transcript P) where
  toBytes := toBytes
  ofBytes := ofBytes

/-- Bytes are accepted for a transcript exactly as they are for its duplex. -/
theorem ofBytes_eq_ok_iff {bytes : Bytes} {t : Transcript P} :
    ofBytes bytes = .ok t ↔ Duplex.ofBytes bytes = .ok t.duplex := by
  unfold ofBytes
  cases Duplex.ofBytes (P := P) bytes with
  | ok d =>
    constructor
    · intro same
      rw [← Except.ok.inj same]
    · intro same
      rw [Except.ok.inj same]
      rfl
  | error refused => simp [Except.map]

/-- Bytes are refused for a transcript exactly as they are for its duplex. -/
theorem ofBytes_eq_error_iff {bytes : Bytes} {refused : Error} :
    ofBytes (P := P) bytes = .error refused ↔ Duplex.ofBytes (P := P) bytes = .error refused := by
  unfold ofBytes
  cases Duplex.ofBytes (P := P) bytes <;> simp [Except.map]

/-- The format of a transcript is exact. -/
theorem exact_format (P : Permutation) : (format P).Exact fun t => t.duplex.Valid := by
  apply Format.exact_of_reads
  · intro bytes t
    exact ofBytes_eq_ok_iff.trans Duplex.ofBytes_eq_ok_iff
  · intro t valid
    exact Duplex.isSnapshot_toBytes valid
  · intro bytes is_one
    obtain ⟨d, read⟩ := Duplex.exists_ofBytes (P := P) is_one
    exact ⟨⟨d⟩, ofBytes_eq_ok_iff.mpr read⟩
  · intro bytes refused read
    exact Duplex.eq_invalidState_of_ofBytes (ofBytes_eq_error_iff.mp read)
  · rintro ⟨d⟩ ⟨e⟩ valid valid'
    rw [mk.injEq]
    exact Duplex.beq_iff_of_valid valid valid'

end Transcript

/-- A duplex is within reach exactly if it is valid. Whatever is within reach can be stored and read
again as the same value, so nothing that is done later can tell it from the original. A byte string
is read exactly if it is a snapshot, and storing gives it back; any other one, of whatever length,
is refused for the same reason. Two values agree exactly if they are stored as the same bytes. All
of this holds of transcripts as of duplexes. -/
theorem snapshots_are_exact (P : Permutation) :
    (∀ d : Duplex P, d.Reachable ↔ d.position < window ∧ d.frame ≤ d.position) ∧
      (Duplex.format P).Exact Duplex.Reachable ∧
      (Transcript.format P).Exact fun t => t.duplex.Reachable := by
  have within : (Duplex.Reachable : Duplex P → Prop) = Duplex.Valid := by
    funext d
    exact propext Duplex.reachable_iff_valid
  rw [within]
  refine ⟨?_, Duplex.exact_format P, Transcript.exact_format P⟩
  intro d
  constructor
  · rintro ⟨position_lt, frame_le⟩
    exact ⟨position_lt, frame_le⟩
  · rintro ⟨position_lt, frame_le⟩
    exact ⟨position_lt, frame_le⟩

end SpongeTranscript
