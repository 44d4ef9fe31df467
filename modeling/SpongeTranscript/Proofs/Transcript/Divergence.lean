import SpongeTranscript.Proofs.Duplex.Divergence
import SpongeTranscript.Proofs.Transcript.Header
import SpongeTranscript.Proofs.Transcript.Parts

set_option autoImplicit false

/-!
# Transcripts that differ stay different

Every operation that neither decrypts nor erases is made of calls that lose nothing, so under an
injective permutation two transcripts that differ in their states go on to differ.

Operations are told apart in the same way. Their headers differ in the first byte, which goes to one
place of the rate, and from there on both headers are the same calls. So the keys of an encryption,
a mask and a seal are different, wherever in the window the opcode falls and however many windows
the label takes (`diverged_stay_apart`).
-/

namespace SpongeTranscript

variable {P : Permutation}

namespace Duplex

/-- Different bytes that are absorbed at one place tell the duplexes apart. -/
theorem diverged_absorb_byte (injective : Function.Injective P.apply) {d : Duplex P}
    (room : d.position < window) {a b : UInt8} (different : a ≠ b) :
    (d.absorb [a]).Diverged (d.absorb [b]) := by
  have in_width : d.position < width := Nat.lt_trans room (by decide)
  let added (c : UInt8) : Duplex P :=
    { d with state := d.state.setByte d.position (d.state.byte d.position ^^^ c) }
  have state_ne : (added a).state ≠ (added b).state := by
    intro same
    have byte_eq := congrArg (fun state => State.byte state d.position) same
    simp [added, State.byte_setByte, in_width, different] at byte_eq
  have apart : (added a).Diverged (added b) := ⟨rfl, rfl, state_ne⟩
  rw [absorb, absorb, exchange_eq_steps room, exchange_eq_steps room]
  exact diverged_advance injective apart 1

end Duplex

namespace Transcript

/-- The operation neither decrypts nor erases. -/
def Call.Lossless : Call → Prop
  | .mix _ _ | .derive _ _ | .encrypt _ _ | .mask _ _ | .sealMessage _ _ => True
  | .decrypt _ _ | .unmask _ _ | .openMessage _ _ | .ratchet _ => False

instance : DecidablePred Call.Lossless
  | .mix _ _ | .derive _ _ | .encrypt _ _ | .mask _ _ | .sealMessage _ _ => .isTrue trivial
  | .decrypt _ _ | .unmask _ _ | .openMessage _ _ | .ratchet _ => .isFalse id

/-- All parts of a lossless call are lossless. -/
theorem lossless_parts {c : Call} (lossless : c.Lossless) : ∀ part ∈ c.parts, part.Lossless := by
  cases c with
  | mix _ _ | derive _ _ | encrypt _ _ | mask _ _ | sealMessage _ _ =>
    simp [Call.parts, underKeyParts, announceParts, drawParts, Duplex.Call.Lossless]
  | decrypt _ _ | unmask _ _ | openMessage _ _ | ratchet _ => exact lossless.elim

/-- Lossless operations keep diverged transcripts apart. -/
theorem diverged_run (injective : Function.Injective P.apply) {t u : Transcript P}
    (h : t.duplex.Diverged u.duplex) {calls : List Call} (lossless : ∀ c ∈ calls, c.Lossless) :
    (t.run calls).2.duplex.Diverged (u.run calls).2.duplex := by
  rw [run_eq_run_parts, run_eq_run_parts]
  apply Duplex.diverged_run injective h
  intro part mem
  obtain ⟨c, c_mem, part_mem⟩ := List.mem_flatMap.mp mem
  exact lossless_parts (lossless c c_mem) part part_mem

/-! ## Opcodes -/

/-- The transcript on which the text of a keyed operation is exchanged. -/
def keyed (t : Transcript P) (op : Opcode) (label : String) : Transcript P :=
  (t.announce op label).permute

/-- Announcements of different operations make diverged transcripts of one. -/
theorem diverged_announce (injective : Function.Injective P.apply) {t : Transcript P}
    (room : t.duplex.position < window) {op op' : Opcode} (different : op ≠ op')
    (label : String) :
    (t.announce op label).duplex.Diverged (t.announce op' label).duplex := by
  have marked : t.duplex.startFrame.position < window := Duplex.position_exchange_lt room _ _
  have byte_ne : op.byte ≠ op'.byte := fun same => different (Opcode.byte_injective same)
  have first := Duplex.diverged_absorb_byte injective marked byte_ne
  have announced (op : Opcode) : (t.announce op label).duplex =
      (t.duplex.startFrame.absorb [op.byte]).absorb (header op label).tail :=
    Duplex.absorb_append marked [op.byte] _
  rw [announced op, announced op']
  exact Duplex.diverged_exchange injective first Exchange.lossless_absorb _

/-- They are still apart behind the permutation that makes the key. -/
theorem diverged_keyed (injective : Function.Injective P.apply) {t : Transcript P}
    (room : t.duplex.position < window) {op op' : Opcode} (different : op ≠ op')
    (label : String) : (t.keyed op label).duplex.Diverged (t.keyed op' label).duplex :=
  Duplex.diverged_permute injective (diverged_announce injective room different label)

/-- Exchanges a text and closes it with its trailer. -/
def exchangeClosed (t : Transcript P) (e : Exchange) (text : Bytes) : Bytes × Transcript P :=
  ((t.exchange e text).1, (t.exchange e text).2.finish text.length)

/-- If the permutation is injective, duplexes whose pointers agree and whose states do not are kept
apart by all calls that neither decrypt nor erase, and so are transcripts by all such operations.
The transcripts on which encryption, masking and sealing exchange their text differ too. -/
theorem diverged_stay_apart (injective : Function.Injective P.apply) :
    (∀ (d e : Duplex P) (calls : List Duplex.Call), (∀ c ∈ calls, c.Lossless) →
      d.Diverged e → (d.run calls).2.Diverged (e.run calls).2) ∧
    (∀ (t u : Transcript P) (calls : List Call), (∀ c ∈ calls, c.Lossless) →
      t.duplex.Diverged u.duplex → (t.run calls).2.duplex.Diverged (u.run calls).2.duplex) ∧
    (∀ (t : Transcript P) (label : String) (op op' : Opcode), t.duplex.position < window →
      op ≠ op' → (t.keyed op label).duplex.Diverged (t.keyed op' label).duplex) ∧
    (∀ (t : Transcript P) (label : String) (text : Bytes),
      t.encrypt label text = (t.keyed .crypt label).exchangeClosed .encrypt text ∧
      t.mask label text = (t.keyed .mask label).exchangeClosed .encrypt text ∧
      t.sealMessage label text =
        let (ciphertext, u) := (t.keyed .authCrypt label).exchangeClosed .encrypt text
        let (tag, u) := u.draw (Bytes.zeros tagLength)
        (ciphertext ++ tag, u)) := by
  refine ⟨?_, ?_, ?_, fun _ _ _ => ⟨rfl, rfl, rfl⟩⟩
  · intro d e calls lossless apart
    exact Duplex.diverged_run injective apart lossless
  · intro t u calls lossless apart
    exact diverged_run injective apart lossless
  · intro t label op op' room different
    exact diverged_keyed injective room different label

/-- One byte of the capacity differs, and the frame of every operation begins two bytes before the
end of the window, so the opcode is the byte that fills it. -/
theorem diverged_stay_apart_over_seam :
    let P : Permutation := { name := "reversal", apply := Vector.reverse }
    let d : Duplex P := { state := State.zero, position := 164, frame := 3 }
    let e : Duplex P := { d with state := State.zero.setByte 199 1 }
    let calls : List Duplex.Call :=
      [.encrypt [1, 2, 3], .squeeze 170, .startFrame, .absorb [4], .permute]
    let operations : List Call :=
      [.mix "key" [5], .derive "id" 3, .encrypt "text" [6], .mask "text" [7], .sealMessage "" []]
    d.Diverged e ∧ (d.run calls).2.Diverged (e.run calls).2 ∧
      (run ⟨d⟩ operations).2.duplex.Diverged (run ⟨e⟩ operations).2.duplex ∧
      d.position < window ∧
      [Opcode.crypt, .mask, .authCrypt].Pairwise fun op op' =>
        (keyed ⟨d⟩ op "text").duplex.state ≠ (keyed ⟨d⟩ op' "text").duplex.state := by
  intro P d e calls operations
  have injective : Function.Injective P.apply := fun _ _ same => Vector.reverse_inj.mp same
  have apart : d.Diverged e := ⟨rfl, rfl, by decide +kernel⟩
  have room : d.position < window := by decide
  obtain ⟨duplexes, transcripts, opcodes, -⟩ := diverged_stay_apart injective
  have different : [Opcode.crypt, .mask, .authCrypt].Pairwise (· ≠ ·) := by decide
  refine ⟨apart, duplexes d e calls (by decide) apart,
    transcripts ⟨d⟩ ⟨e⟩ operations (by decide) apart, room, different.imp ?_⟩
  intro op op' ne
  exact (opcodes ⟨d⟩ "text" op op' room ne).state_ne

end Transcript

end SpongeTranscript
