import SpongeTranscript.Proofs.Transcript.Binding

set_option autoImplicit false

/-!
# One operation is read back from its bytes

The label of an operation is found from the front and its body from the back: the code at the front
tells where the label ends, and the code at the end tells where the body begins. So the bytes of one
operation tell its opcode, its label and its body (`framed_injective`), even though each length is
written next to bytes that may look like a length. What two mixes absorb from one state is therefore
different as soon as their labels or their inputs are, and children of a fork that have different
variants absorb different bytes.
-/

namespace SpongeTranscript.Transcript

open LengthCode

variable {P : Permutation}

/-- The bytes of one operation: its opcode, the label behind the code of its length in bits, and the
body before the code of its own. -/
def framed (op : Opcode) (label : String) (body : Bytes) : Bytes :=
  [op.byte] ++ left (8 * (Bytes.ofText label).length) ++ Bytes.ofText label ++
    body ++ right (8 * body.length)

/-- The bytes of an operation are its header, its body and its trailer. -/
theorem framed_eq (op : Opcode) (label : String) (body : Bytes) :
    framed op label body = header op label ++ (body ++ trailer body.length) := by
  simp [framed, header, trailer, bitLength]

/-- The bytes of an operation show its opcode, its label and its body. -/
theorem framed_injective {op op' : Opcode} {label label' : String} {body body' : Bytes}
    (label_codable : Codable (Bytes.ofText label).length)
    (label_codable' : Codable (Bytes.ofText label').length)
    (codable : Codable body.length) (codable' : Codable body'.length)
    (h : framed op label body = framed op' label' body') :
    op = op' ∧ label = label' ∧ body = body' := by
  rw [framed_eq, framed_eq] at h
  obtain ⟨op_eq, label_eq, rest_eq⟩ := header_append_cancel label_codable label_codable' h
  exact ⟨op_eq, label_eq, (append_trailer_cancel codable codable' rest_eq).2⟩

/-- A mix absorbs the mark of its frame and then the bytes of the operation. -/
theorem absorbed_eq_framed (t : Transcript P) (label : String) (input : Bytes) :
    t.absorbed [.mix label input] = t.duplex.frame.toUInt8 :: framed .mix label input := by
  rw [absorbed, List.flatMap_singleton, absorbed_mix, framed_eq]
  simp

/-- Under one label no length of the label has to be read, since both headers are the same. -/
theorem input_eq_of_absorbed_eq {t : Transcript P} {label : String} {input input' : Bytes}
    (codable : Codable input.length) (codable' : Codable input'.length)
    (h : t.absorbed [.mix label input] = t.absorbed [.mix label input']) : input = input' := by
  rw [absorbed_eq_framed, absorbed_eq_framed, List.cons.injEq, framed_eq, framed_eq] at h
  have rest_eq := List.append_cancel_left h.2
  exact (append_trailer_cancel codable codable' rest_eq).2

/-- Each child of a fork is the transcript after one mix. -/
theorem fork_getElem? (t : Transcript P) (label : String) {variants : List Bytes} {i : Nat}
    {variant : Bytes} (found : variants[i]? = some variant) :
    (t.fork label variants)[i]? = some (t.run [.mix label variant]).2 := by
  rw [fork, List.getElem?_map, found]
  rfl

/-- The bytes of an operation determine its opcode, label and body. Hence mixes that differ in their
label or their input absorb different bytes from one state, and so do the children of a fork that
have different variants, each child being the transcript after the mix of its variant. -/
theorem operation_bytes_determine (P : Permutation) :
    (∀ (op op' : Opcode) (label label' : String) (body body' : Bytes),
      Codable (Bytes.ofText label).length → Codable (Bytes.ofText label').length →
      Codable body.length → Codable body'.length →
      framed op label body = framed op' label' body' →
      op = op' ∧ label = label' ∧ body = body') ∧
    (∀ (t : Transcript P) (label label' : String) (input input' : Bytes),
      Codable (Bytes.ofText label).length → Codable (Bytes.ofText label').length →
      Codable input.length → Codable input'.length → (label, input) ≠ (label', input') →
      t.absorbed [.mix label input] ≠ t.absorbed [.mix label' input']) ∧
    (∀ (t : Transcript P) (label : String) (input : Bytes),
      t.absorbed [.mix label input] = t.duplex.frame.toUInt8 :: framed .mix label input) ∧
    (∀ (t : Transcript P) (label : String) (variants : List Bytes) (i j : Nat) (v w : Bytes),
      variants[i]? = some v → variants[j]? = some w →
      Codable v.length → Codable w.length → v ≠ w →
      (t.fork label variants)[i]? = some (t.run [.mix label v]).2 ∧
      (t.fork label variants)[j]? = some (t.run [.mix label w]).2 ∧
      t.absorbed [.mix label v] ≠ t.absorbed [.mix label w]) := by
  refine ⟨?_, ?_, absorbed_eq_framed, ?_⟩
  · intro op op' label label' body body' label_codable label_codable' codable codable' h
    exact framed_injective label_codable label_codable' codable codable' h
  · intro t label label' input input' label_codable label_codable' codable codable' different same
    rw [absorbed_eq_framed, absorbed_eq_framed, List.cons.injEq] at same
    obtain ⟨-, label_eq, input_eq⟩ :=
      framed_injective label_codable label_codable' codable codable' same.2
    exact different (by rw [label_eq, input_eq])
  · intro t label variants i j v w found found' codable codable' different
    refine ⟨fork_getElem? t label found, fork_getElem? t label found', ?_⟩
    intro same
    exact different (input_eq_of_absorbed_eq codable codable' same)

/-- A byte is moved from the label to the body, and from one variant to the next. -/
theorem operation_bytes_determine_moved :
    let P : Permutation := { name := "identity", apply := id }
    let t := init P "com.example.kat"
    framed .mix "ab" [99] ≠ framed .mix "a" [98, 99] ∧
      t.absorbed [.mix "ab" [99]] ≠ t.absorbed [.mix "a" [98, 99]] ∧
      (t.fork "id" [[1, 0], [1]])[0]? = some (t.run [.mix "id" [1, 0]]).2 ∧
      t.absorbed [.mix "id" [1, 0]] ≠ t.absorbed [.mix "id" [1]] := by
  intro P t
  obtain ⟨framed_eq, mixes, -, forks⟩ := operation_bytes_determine P
  have codable : Codable (Bytes.ofText "ab").length ∧ Codable (Bytes.ofText "a").length ∧
      Codable [99].length ∧ Codable [98, 99].length := by decide
  obtain ⟨ab, a, one, two⟩ := codable
  obtain ⟨child, -, apart⟩ :=
    forks t "id" [[1, 0], [1]] 0 1 [1, 0] [1] rfl rfl two one (by decide)
  refine ⟨?_, mixes t "ab" "a" [99] [98, 99] ab a one two (by decide), child, apart⟩
  intro same
  have label_eq := (framed_eq .mix .mix "ab" "a" [99] [98, 99] ab a one two same).2.1
  exact absurd label_eq (by decide)

end SpongeTranscript.Transcript
