import Mathlib.Logic.Function.Basic
import SpongeTranscript.Proofs.Duplex.Stepwise

set_option autoImplicit false

/-!
# Duplexes that differ stay different

What a call does to one byte of the rate can be undone for absorb, squeeze and encrypt, as long as
the buffer is known: each of them adds something to the byte. Decryption puts the ciphertext in its
place instead, so two different rates become the same one.

A permutation that is injective therefore keeps two duplexes apart whose pointers agree and whose
states do not. The same calls move their pointers in the same way, so they permute at the same
moments, and `diverged_run` carries the difference through a whole run.
-/

namespace SpongeTranscript

variable {P : Permutation}

/-! ## One byte -/

namespace State

/-- To change one byte without loss is to change the state without loss. -/
theorem setByte_injective {f : UInt8 → UInt8} (injective : Function.Injective f) (offset : Nat) :
    Function.Injective fun state : State => state.setByte offset (f (state.byte offset)) := by
  intro a b h
  apply ext_byte
  intro i inside
  have byte_eq := congrArg (fun state => byte state i) h
  simp only [byte_setByte] at byte_eq
  by_cases here : i = offset
  · subst here
    simp only [inside, and_self, ↓reduceIte] at byte_eq
    exact injective byte_eq
  · simpa [here] using byte_eq

/-- Adding a byte loses nothing. -/
theorem xor_right_injective (mask : UInt8) : Function.Injective (· ^^^ mask) := by
  intro a b h
  simpa using h

/-- Adding a byte to one byte of a state loses nothing. -/
theorem xorByte_injective (offset : Nat) (mask : UInt8) :
    Function.Injective fun state : State => state.xorByte offset mask :=
  setByte_injective (xor_right_injective mask) offset

end State

namespace Exchange

/-- Whatever the byte of the buffer is, the new byte of the rate tells the old one. -/
def Lossless (e : Exchange) : Prop :=
  ∀ b, Function.Injective (e.rateByte · b)

/-- Absorbing leaves a rate byte that still shows the old one. -/
theorem lossless_absorb : absorb.Lossless := State.xor_right_injective

/-- Squeezing leaves the rate byte as it is. -/
theorem lossless_squeeze : squeeze.Lossless := fun _ _ _ h => h

/-- Encrypting leaves a rate byte that still shows the old one. -/
theorem lossless_encrypt : encrypt.Lossless := State.xor_right_injective

/-- A lossless exchange maps different states to different states. -/
theorem overlay_injective {e : Exchange} (lossless : e.Lossless) (offset : Nat) (stretch : Bytes) :
    Function.Injective fun state => (e.overlay state offset stretch).2 := by
  induction stretch generalizing offset with
  | nil => exact fun _ _ h => h
  | cons b rest ih => exact (ih (offset + 1)).comp (State.setByte_injective (lossless b) offset)

end Exchange

/-! ## Two duplexes -/

namespace Duplex

/-- The pointers agree and the states do not. -/
structure Diverged (d e : Duplex P) : Prop where
  position_eq : d.position = e.position
  frame_eq : d.frame = e.frame
  state_ne : d.state ≠ e.state

/-- Padding at the same pointers loses nothing. -/
theorem padded_injective (position frame : Nat) :
    Function.Injective fun state => padded (⟨state, position, frame⟩ : Duplex P) := by
  intro a b h
  apply State.xorByte_injective position frame.toUInt8
  apply State.xorByte_injective (position + 1) 0x01
  exact State.xorByte_injective (rate - 1) 0x80 h

section

variable {d e : Duplex P} (injective : Function.Injective P.apply) (h : d.Diverged e)
include h

/-- A change without loss keeps diverged duplexes apart, at any position that they share. -/
theorem diverged_edit {f : State → State} (edit : Function.Injective f) (position : Nat) :
    Diverged (P := P) ⟨f d.state, position, d.frame⟩ ⟨f e.state, position, e.frame⟩ :=
  ⟨rfl, h.frame_eq, edit.ne h.state_ne⟩

include injective

/-- A permutation that is injective keeps diverged duplexes apart. -/
theorem diverged_permute : d.permute.Diverged e.permute := by
  obtain ⟨state, position, frame⟩ := d
  obtain ⟨state', _, _⟩ := e
  obtain ⟨rfl, rfl, state_ne⟩ := h
  exact ⟨rfl, rfl, injective.ne ((padded_injective _ _).ne state_ne)⟩

/-- Moving on by the same number of bytes keeps diverged duplexes apart. -/
theorem diverged_advance (count : Nat) : (d.advance count).Diverged (e.advance count) := by
  have moved := diverged_edit h Function.injective_id (d.position + count)
  unfold advance
  rw [← h.position_eq]
  dsimp only
  split
  · exact diverged_permute injective moved
  · exact moved

variable {x : Exchange} (lossless : x.Lossless)
include lossless

/-- A lossless exchange of one stretch keeps diverged duplexes apart. -/
theorem diverged_exchangeStretch (stretch : Bytes) :
    (d.exchangeStretch x stretch).2.Diverged (e.exchangeStretch x stretch).2 := by
  have overlaid := diverged_edit h (x.overlay_injective lossless d.position stretch) d.position
  have advanced := diverged_advance injective overlaid stretch.length
  unfold exchangeStretch
  rw [← h.position_eq]
  exact advanced

/-- So does the exchange of several stretches. -/
theorem diverged_exchangeStretches (pieces : List Bytes) :
    (exchangeStretches x d pieces).2.Diverged (exchangeStretches x e pieces).2 := by
  induction pieces generalizing d e with
  | nil => exact h
  | cons stretch rest ih => exact ih (diverged_exchangeStretch injective h lossless stretch)

/-- So does the exchange of a buffer of any length. -/
theorem diverged_exchange (buffer : Bytes) :
    (d.exchange x buffer).2.Diverged (e.exchange x buffer).2 := by
  -- the cuts depend on the position only, so both duplexes exchange the same stretches
  have room_eq : d.room = e.room := by
    rw [room, room, h.position_eq]
  rw [exchange, exchange, room_eq]
  exact diverged_exchangeStretches injective h lossless _

end

/-! ## Runs of calls -/

/-- What a call leaves tells the state before it, once its argument and the pointers are known. -/
def Call.Lossless : Call → Prop
  | .absorb _ | .squeeze _ | .encrypt _ | .permute | .startFrame => True
  | .decrypt _ | .ratchet | .wipe => False

instance : DecidablePred Call.Lossless
  | .absorb _ | .squeeze _ | .encrypt _ | .permute | .startFrame => .isTrue trivial
  | .decrypt _ | .ratchet | .wipe => .isFalse id

section

variable {d e : Duplex P} (injective : Function.Injective P.apply) (h : d.Diverged e)
include injective h

/-- The start of a frame keeps diverged duplexes apart. -/
theorem diverged_startFrame : d.startFrame.Diverged e.startFrame := by
  have marked := diverged_exchange injective h Exchange.lossless_absorb [d.frame.toUInt8]
  unfold startFrame absorb
  rw [← h.frame_eq]
  exact ⟨marked.position_eq, marked.position_eq, marked.state_ne⟩

/-- Every lossless call keeps diverged duplexes apart. -/
theorem diverged_call {c : Call} (lossless : c.Lossless) : (d.call c).2.Diverged (e.call c).2 := by
  cases c with
  | absorb input => exact diverged_exchange injective h Exchange.lossless_absorb input
  | squeeze count =>
    exact diverged_exchange injective h Exchange.lossless_squeeze (Bytes.zeros count)
  | encrypt plaintext => exact diverged_exchange injective h Exchange.lossless_encrypt plaintext
  | permute => exact diverged_permute injective h
  | startFrame => exact diverged_startFrame injective h
  | decrypt _ | ratchet | wipe => exact lossless.elim

/-- So does every run of lossless calls. -/
theorem diverged_run {calls : List Call} (lossless : ∀ c ∈ calls, c.Lossless) :
    (d.run calls).2.Diverged (e.run calls).2 := by
  induction calls generalizing d e with
  | nil => exact h
  | cons c rest ih =>
    obtain ⟨first, later⟩ := List.forall_mem_cons.mp lossless
    exact ih (diverged_call injective h first) later

end

end Duplex

end SpongeTranscript
