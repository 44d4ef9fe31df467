import Mathlib.Algebra.Ring.Nat
import Mathlib.Data.List.Basic
import Mathlib.Data.List.Induction
import SpongeTranscript.Proofs.Transcript.Header
import SpongeTranscript.Proofs.Transcript.Parts

set_option autoImplicit false

/-!
# What is absorbed binds the inputs

Here a run of duplex calls is looked at through the bytes that it absorbs, the marks of frames
included. Where the labels of a run of mixes are fixed, these bytes tell its inputs
(`inputs_eq_of_absorbed_eq`). They have to be read from the back: the last trailer tells how long
the last input is, in front of it stands a header that is known, and in front of that the mark of
the frame. The mark depends on the position and so on all earlier inputs, but it is always one
byte.

Keyed sessions, message tags and hashes are such runs behind a fixed beginning, so what they absorb
before their last operation tells the key, the nonce, the associated data and the message.
-/

namespace SpongeTranscript

variable {P : Permutation}

namespace Duplex

/-- What a call absorbs: its input, or the mark of a new frame. The other calls absorb nothing. -/
def absorbedBy (d : Duplex P) : Call → Bytes
  | .absorb input => input
  | .startFrame => [d.frame.toUInt8]
  | .squeeze _ | .encrypt _ | .decrypt _ | .permute | .ratchet | .wipe => []

/-- Everything that a run absorbs, in order. -/
def absorbed (d : Duplex P) : List Call → Bytes
  | [] => []
  | c :: rest => d.absorbedBy c ++ (d.call c).2.absorbed rest

/-- Two runs absorb what the first absorbs and then what the second does. -/
theorem absorbed_append (d : Duplex P) (a b : List Call) :
    d.absorbed (a ++ b) = d.absorbed a ++ (d.run a).2.absorbed b := by
  induction a generalizing d with
  | nil => rfl
  | cons c rest ih =>
    rw [List.cons_append, absorbed, absorbed, ih, List.append_assoc]
    rfl

/-- Pieces are absorbed as one string. -/
theorem absorbed_pieces (d : Duplex P) (pieces : List Bytes) :
    d.absorbed (pieces.map .absorb) = pieces.flatten := by
  induction pieces generalizing d with
  | nil => rfl
  | cons piece rest ih =>
    rw [List.map_cons, absorbed, ih]
    rfl

end Duplex

namespace Transcript

/-- Everything that operations absorb, in order. -/
def absorbed (t : Transcript P) (calls : List Call) : Bytes :=
  t.duplex.absorbed (calls.flatMap Call.parts)

/-- One mix after the other, each with its label. -/
def mixes (labels : List String) (inputs : List Bytes) : List Call :=
  List.zipWith .mix labels inputs

/-! ## One mix -/

/-- A mix absorbs the mark of its frame, its header, its input and its trailer. -/
theorem absorbed_mix (d : Duplex P) (label : String) (input : Bytes) :
    d.absorbed (Call.mix label input).parts =
      [d.frame.toUInt8] ++ header .mix label ++ input ++ trailer input.length := by
  simp [Call.parts, announceParts, Duplex.absorbed, Duplex.absorbedBy]

/-- An input in one piece makes the parts of a single mix. -/
theorem piecewiseParts_singleton (label : String) {input : Bytes} (few : input.length < 2 ^ 64) :
    piecewiseParts label [input] = (Call.mix label input).parts := by
  have count_eq : input.length.toUInt64.toNat = input.length := UInt64.toNat_ofNat_of_lt' few
  simp [piecewiseParts, Call.parts, count_eq]

/-- It makes no difference to what is absorbed whether an input comes at once or in pieces. -/
theorem absorbed_piecewise (d : Duplex P) (label : String) {pieces : List Bytes}
    (few : pieces.flatten.length < 2 ^ 64) :
    d.absorbed (piecewiseParts label pieces) =
      d.absorbed (Call.mix label pieces.flatten).parts := by
  have count_eq : pieces.flatten.length.toUInt64.toNat = pieces.flatten.length :=
    UInt64.toNat_ofNat_of_lt' few
  rw [piecewiseParts, Duplex.absorbed_append, Duplex.absorbed_append, Duplex.absorbed_pieces,
    count_eq, absorbed_mix]
  simp [announceParts, Duplex.absorbed, Duplex.absorbedBy]

/-- The end of a string that a mix under a known label has absorbed tells the input, and where the
mix began. -/
theorem mix_cancel {before before' : Bytes} {mark mark' : UInt8} {label : String}
    {input input' : Bytes} (codable : Codable input.length) (codable' : Codable input'.length)
    (h : before ++ ([mark] ++ header .mix label ++ input ++ trailer input.length) =
      before' ++ ([mark'] ++ header .mix label ++ input' ++ trailer input'.length)) :
    before = before' ∧ input = input' := by
  rw [← List.append_assoc, ← List.append_assoc before'] at h
  obtain ⟨length_eq, body_eq⟩ := append_trailer_cancel codable codable' h
  rw [← List.append_assoc, ← List.append_assoc before'] at body_eq
  obtain ⟨header_eq, input_eq⟩ := List.append_inj' body_eq length_eq
  rw [← List.append_assoc, ← List.append_assoc before'] at header_eq
  obtain ⟨mark_eq, -⟩ := List.append_inj' header_eq rfl
  obtain ⟨before_eq, -⟩ := List.append_inj' mark_eq rfl
  exact ⟨before_eq, input_eq⟩

/-! ## A run of mixes -/

/-- The last label goes with the last input. -/
theorem mixes_concat {labels : List String} {inputs : List Bytes}
    (same : inputs.length = labels.length) (label : String) (input : Bytes) :
    mixes (labels ++ [label]) (inputs ++ [input]) =
      mixes labels inputs ++ [.mix label input] := by
  rw [mixes, List.zipWith_append same.symm]
  rfl

/-- The last mix stands behind the others, with a mark, its header, its input and its trailer. -/
theorem absorbed_mixes_concat (d : Duplex P) {labels : List String} {inputs : List Bytes}
    (same : inputs.length = labels.length) (label : String) (input : Bytes) :
    ∃ mark, d.absorbed ((mixes (labels ++ [label]) (inputs ++ [input])).flatMap Call.parts) =
      d.absorbed ((mixes labels inputs).flatMap Call.parts) ++
        ([mark] ++ header .mix label ++ input ++ trailer input.length) := by
  refine ⟨(d.run ((mixes labels inputs).flatMap Call.parts)).2.frame.toUInt8, ?_⟩
  rw [mixes_concat same, List.flatMap_append, Duplex.absorbed_append, List.flatMap_singleton,
    absorbed_mix]

/-- Under the same labels, what a run of mixes absorbs tells its inputs. -/
theorem inputs_eq_of_absorbed_eq (d : Duplex P) {labels : List String} {x y : List Bytes}
    (x_length : x.length = labels.length) (y_length : y.length = labels.length)
    (x_codable : ∀ input ∈ x, Codable input.length)
    (y_codable : ∀ input ∈ y, Codable input.length)
    (h : d.absorbed ((mixes labels x).flatMap Call.parts) =
      d.absorbed ((mixes labels y).flatMap Call.parts)) : x = y := by
  -- the last input is read off first, since only the end of the string is known
  induction labels using List.reverseRecOn generalizing x y with
  | nil =>
    rw [List.eq_nil_of_length_eq_zero x_length, List.eq_nil_of_length_eq_zero y_length]
  | append_singleton labels label ih =>
    rw [List.length_append, List.length_singleton] at x_length y_length
    obtain ⟨x, u, rfl⟩ := (List.eq_nil_or_concat' x).resolve_left
      (List.length_pos_iff.mp (by omega))
    obtain ⟨y, v, rfl⟩ := (List.eq_nil_or_concat' y).resolve_left
      (List.length_pos_iff.mp (by omega))
    rw [List.length_append, List.length_singleton] at x_length y_length
    have x_length := Nat.succ.inj x_length
    have y_length := Nat.succ.inj y_length
    obtain ⟨mark, x_absorbed⟩ := absorbed_mixes_concat d x_length label u
    obtain ⟨mark', y_absorbed⟩ := absorbed_mixes_concat d y_length label v
    rw [x_absorbed, y_absorbed] at h
    obtain ⟨before_eq, last_eq⟩ :=
      mix_cancel (x_codable u (by simp)) (y_codable v (by simp)) h
    have earlier_eq := ih x_length y_length
      (fun input mem => x_codable input (List.mem_append_left _ mem))
      (fun input mem => y_codable input (List.mem_append_left _ mem)) before_eq
    rw [earlier_eq, last_eq]

/-- The same holds behind a fixed beginning. -/
theorem inputs_eq_of_absorbed_begin_eq (d : Duplex P) (begin : List Duplex.Call)
    {labels : List String} {x y : List Bytes}
    (x_length : x.length = labels.length) (y_length : y.length = labels.length)
    (x_codable : ∀ input ∈ x, Codable input.length)
    (y_codable : ∀ input ∈ y, Codable input.length)
    (h : d.absorbed (begin ++ (mixes labels x).flatMap Call.parts) =
      d.absorbed (begin ++ (mixes labels y).flatMap Call.parts)) : x = y := by
  rw [Duplex.absorbed_append, Duplex.absorbed_append] at h
  exact inputs_eq_of_absorbed_eq _ x_length y_length x_codable y_codable
    (List.append_cancel_left h)

end Transcript

/-! ## Schemes before their last operation -/

open Transcript

/-- Every length that fits into a word has a code. -/
theorem codable_of_lt {count : Nat} (few : count < 2 ^ 64) : Codable count :=
  LengthCode.bitLength_lt_valueBound few

namespace SealingKey

/-- The duplex calls of a message up to the point where it is sealed or opened. -/
def parts (key : Vector UInt8 keyLength) (nonce ad : Bytes) : List Duplex.Call :=
  initParts domain ++
    (mixes ["key", "nonce", "ad"] [key.toList, nonce, ad]).flatMap Call.parts

/-- The key of a message comes from running its parts on a fresh duplex. -/
theorem forMessage_eq_run_parts (P : Permutation) (key : Vector UInt8 keyLength)
    (nonce ad : Bytes) :
    ((ofBytes P key).forMessage nonce ad).duplex =
      ((Duplex.fresh : Duplex P).run (parts key nonce ad)).2 := rfl

/-- What is absorbed for a message shows the key, the nonce and the data. -/
theorem eq_of_absorbed_eq (d : Duplex P) {key key' : Vector UInt8 keyLength}
    {nonce nonce' ad ad' : Bytes}
    (codable : ∀ input ∈ [nonce, nonce', ad, ad'], Codable input.length)
    (h : d.absorbed (parts key nonce ad) = d.absorbed (parts key' nonce' ad')) :
    (key, nonce, ad) = (key', nonce', ad') := by
  have key_codable : Codable keyLength := by decide
  simp only [List.forall_mem_cons] at codable
  obtain ⟨nonce_codable, nonce_codable', ad_codable, ad_codable', -⟩ := codable
  have inputs_eq := inputs_eq_of_absorbed_begin_eq d _ rfl rfl
    (by simp [key_codable, nonce_codable, ad_codable])
    (by simp [key_codable, nonce_codable', ad_codable']) h
  simp only [List.cons.injEq, and_true] at inputs_eq
  obtain ⟨key_eq, nonce_eq, ad_eq⟩ := inputs_eq
  rw [Vector.toList_inj.mp key_eq, nonce_eq, ad_eq]

end SealingKey

namespace MessageTag

/-- The duplex calls of a message that comes in pieces, up to the point where its tag is derived. -/
def parts (key : Bytes) (pieces : List Bytes) : List Duplex.Call :=
  initParts domain ++ (Call.mix "key" key).parts ++ piecewiseParts "message" pieces

/-- A tag comes from running its parts on a fresh duplex. -/
theorem close_eq_run_parts (P : Permutation) (key : Bytes) (pieces : List Bytes) :
    (pieces.foldl update (start P key)).body.close.duplex =
      ((Duplex.fresh : Duplex P).run (parts key pieces)).2 := by
  have fed : (pieces.foldl update (start P key)).body = (start P key).body.feedAll pieces :=
    (List.foldl_hom MessageTag.body fun _ _ => rfl).symm
  rw [fed, parts, Duplex.run_append]
  exact Body.close_feedAll_openMix _ "message" pieces

/-- A tag absorbs what two mixes of its key and of its whole message would. -/
theorem absorbed_parts (d : Duplex P) (key : Bytes) {pieces : List Bytes}
    (few : pieces.flatten.length < 2 ^ 64) :
    d.absorbed (parts key pieces) =
      d.absorbed (initParts domain ++
        (mixes ["key", "message"] [key, pieces.flatten]).flatMap Call.parts) := by
  rw [parts, Duplex.absorbed_append, absorbed_piecewise _ _ few, ← Duplex.absorbed_append,
    List.append_assoc]
  rfl

/-- What is absorbed for a tag shows the key and the message. -/
theorem eq_of_absorbed_eq (d : Duplex P) {key key' : Bytes} {pieces pieces' : List Bytes}
    (key_codable : Codable key.length) (key_codable' : Codable key'.length)
    (few : pieces.flatten.length < 2 ^ 64) (few' : pieces'.flatten.length < 2 ^ 64)
    (h : d.absorbed (parts key pieces) = d.absorbed (parts key' pieces')) :
    (key, pieces.flatten) = (key', pieces'.flatten) := by
  rw [absorbed_parts d key few, absorbed_parts d key' few'] at h
  have codable := codable_of_lt few
  have codable' := codable_of_lt few'
  have inputs_eq := inputs_eq_of_absorbed_begin_eq d _ rfl rfl
    (List.forall_mem_cons.mpr ⟨key_codable, List.forall_mem_singleton.mpr codable⟩)
    (List.forall_mem_cons.mpr ⟨key_codable', List.forall_mem_singleton.mpr codable'⟩) h
  simp only [List.cons.injEq, and_true] at inputs_eq
  rw [inputs_eq.1, inputs_eq.2]

end MessageTag

namespace MessageHash

/-- The duplex calls of a message that comes in pieces, up to the point where its digest is
derived. -/
def parts (pieces : List Bytes) : List Duplex.Call :=
  initParts domain ++ piecewiseParts "message" pieces

/-- A hash comes from running its parts on a fresh duplex. -/
theorem close_eq_run_parts (P : Permutation) (pieces : List Bytes) :
    (pieces.foldl update (start P)).body.close.duplex =
      ((Duplex.fresh : Duplex P).run (parts pieces)).2 := by
  have fed : (pieces.foldl update (start P)).body = (start P).body.feedAll pieces :=
    (List.foldl_hom MessageHash.body fun _ _ => rfl).symm
  rw [fed, parts, Duplex.run_append]
  exact Body.close_feedAll_openMix _ "message" pieces

/-- A message that is hashed in one call is a single piece. -/
theorem mix_eq_run_parts (P : Permutation) {message : Bytes} (few : message.length < 2 ^ 64) :
    ((Transcript.init P domain).mix "message" message).duplex =
      ((Duplex.fresh : Duplex P).run (parts [message])).2 := by
  rw [parts, piecewiseParts_singleton "message" few]
  rfl

/-- A hash absorbs what one mix of its whole message would. -/
theorem absorbed_parts (d : Duplex P) {pieces : List Bytes}
    (few : pieces.flatten.length < 2 ^ 64) :
    d.absorbed (parts pieces) =
      d.absorbed (initParts domain ++
        (mixes ["message"] [pieces.flatten]).flatMap Call.parts) := by
  rw [parts, Duplex.absorbed_append, absorbed_piecewise _ _ few, ← Duplex.absorbed_append]
  rfl

/-- What is absorbed for a hash shows the message. -/
theorem eq_of_absorbed_eq (d : Duplex P) {pieces pieces' : List Bytes}
    (few : pieces.flatten.length < 2 ^ 64) (few' : pieces'.flatten.length < 2 ^ 64)
    (h : d.absorbed (parts pieces) = d.absorbed (parts pieces')) :
    pieces.flatten = pieces'.flatten := by
  rw [absorbed_parts d few, absorbed_parts d few'] at h
  have inputs_eq := inputs_eq_of_absorbed_begin_eq d _ rfl rfl
    (List.forall_mem_singleton.mpr (codable_of_lt few))
    (List.forall_mem_singleton.mpr (codable_of_lt few')) h
  exact (List.cons.inj inputs_eq).1

end MessageHash

/-! ## The inputs of mixes and of schemes -/

/-- Different inputs that are mixed under the same labels, from the same state, absorb different
bytes. So do two sealing keys with their nonces and associated data, two keys of message tags with
their messages, and two hashed messages, all before their last operation and however the messages
are cut into pieces. Each time these are the bytes of the duplex calls that lead to the transcript
in question. -/
theorem absorbed_binds_inputs (P : Permutation) :
    let fresh : Duplex P := Duplex.fresh
    (∀ (t : Transcript P) (labels : List String) (x y : List Bytes),
      x.length = labels.length → y.length = labels.length →
      (∀ input ∈ x ++ y, Codable input.length) → x ≠ y →
      t.absorbed (mixes labels x) ≠ t.absorbed (mixes labels y)) ∧
    (∀ (t : Transcript P) (calls : List Call),
      (t.run calls).2.duplex = (t.duplex.run (calls.flatMap Call.parts)).2) ∧
    (∀ (key key' : Vector UInt8 keyLength) (nonce nonce' ad ad' : Bytes),
      (∀ input ∈ [nonce, nonce', ad, ad'], Codable input.length) →
      (key, nonce, ad) ≠ (key', nonce', ad') →
      fresh.absorbed (SealingKey.parts key nonce ad) ≠
        fresh.absorbed (SealingKey.parts key' nonce' ad')) ∧
    (∀ (key : Vector UInt8 keyLength) (nonce ad : Bytes),
      ((SealingKey.ofBytes P key).forMessage nonce ad).duplex =
        (fresh.run (SealingKey.parts key nonce ad)).2) ∧
    (∀ (key key' : Bytes) (pieces pieces' : List Bytes),
      Codable key.length → Codable key'.length →
      pieces.flatten.length < 2 ^ 64 → pieces'.flatten.length < 2 ^ 64 →
      (key, pieces.flatten) ≠ (key', pieces'.flatten) →
      fresh.absorbed (MessageTag.parts key pieces) ≠
        fresh.absorbed (MessageTag.parts key' pieces')) ∧
    (∀ (key : Bytes) (pieces : List Bytes),
      (pieces.foldl MessageTag.update (MessageTag.start P key)).body.close.duplex =
        (fresh.run (MessageTag.parts key pieces)).2) ∧
    (∀ pieces pieces' : List Bytes,
      pieces.flatten.length < 2 ^ 64 → pieces'.flatten.length < 2 ^ 64 →
      pieces.flatten ≠ pieces'.flatten →
      fresh.absorbed (MessageHash.parts pieces) ≠ fresh.absorbed (MessageHash.parts pieces')) ∧
    (∀ pieces : List Bytes,
      (pieces.foldl MessageHash.update (MessageHash.start P)).body.close.duplex =
        (fresh.run (MessageHash.parts pieces)).2) ∧
    (∀ message : Bytes, message.length < 2 ^ 64 →
      ((Transcript.init P MessageHash.domain).mix "message" message).duplex =
        (fresh.run (MessageHash.parts [message])).2) := by
  intro fresh
  refine ⟨?_, run_eq_run_parts, ?_, SealingKey.forMessage_eq_run_parts P, ?_,
    MessageTag.close_eq_run_parts P, ?_, MessageHash.close_eq_run_parts P,
    fun _ few => MessageHash.mix_eq_run_parts P few⟩
  · intro t labels x y x_length y_length codable different same
    exact different (inputs_eq_of_absorbed_eq t.duplex x_length y_length
      (fun input mem => codable input (List.mem_append_left _ mem))
      (fun input mem => codable input (List.mem_append_right _ mem)) same)
  · intro key key' nonce nonce' ad ad' codable different same
    apply different
    exact SealingKey.eq_of_absorbed_eq fresh codable same
  · intro key key' pieces pieces' key_codable key_codable' few few' different same
    apply different
    exact MessageTag.eq_of_absorbed_eq fresh key_codable key_codable' few few' same
  · intro pieces pieces' few few' different same
    apply different
    exact MessageHash.eq_of_absorbed_eq fresh few few' same

/-- Bytes that are moved from one input to the next one are absorbed at another place, and the codes
of both lengths change. -/
theorem absorbed_binds_inputs_moved :
    let P : Permutation := { name := "identity", apply := id }
    let fresh : Duplex P := Duplex.fresh
    let t := Transcript.init P "com.example.kat"
    let key : Vector UInt8 keyLength := Vector.replicate keyLength 7
    t.absorbed (mixes ["nonce", "ad"] [[1], [2, 3]]) ≠
        t.absorbed (mixes ["nonce", "ad"] [[1, 2], [3]]) ∧
      fresh.absorbed (SealingKey.parts key [1] [2, 3]) ≠
        fresh.absorbed (SealingKey.parts key [1, 2] [3]) ∧
      fresh.absorbed (MessageTag.parts [1] [[2], [3]]) ≠
        fresh.absorbed (MessageTag.parts [1, 2] [[3]]) ∧
      fresh.absorbed (MessageHash.parts [[1], [2]]) ≠
        fresh.absorbed (MessageHash.parts [[1, 2, 0]]) ∧
      ((Transcript.init P MessageHash.domain).mix "message" [1, 2]).duplex =
        (fresh.run (MessageHash.parts [[1, 2]])).2 := by
  intro P fresh t key
  obtain ⟨mixes, -, sealing, -, tagging, -, hashing, -, at_once⟩ := absorbed_binds_inputs P
  refine ⟨?_, ?_, ?_, ?_, ?_⟩
  · exact mixes t ["nonce", "ad"] _ _ rfl rfl (by decide) (by decide)
  · exact sealing key key [1] [1, 2] [2, 3] [3] (by decide) (by simp)
  · exact tagging [1] [1, 2] _ _ (by decide) (by decide) (by decide) (by decide) (by decide)
  · exact hashing _ _ (by decide) (by decide) (by decide)
  · exact at_once [1, 2] (by decide)

end SpongeTranscript
