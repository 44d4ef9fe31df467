import SpongeTranscript.Proofs.Duplex.Logged
import SpongeTranscript.Proofs.Tape.Playback

set_option autoImplicit false

/-!
# The padding loses nothing

A permutation is handed the state with the frame and the padding added to it. Where they go depends
on how far the window is filled: behind a full window the frame takes the first reserved byte, and
both padding bits share the second one. Still, over one state, the block tells how many bytes the
window has taken in, which ones, and where the frame starts (`padding_injective`), whether the
window was full or a call asked for the permutation before that.
-/

namespace SpongeTranscript

variable {P : Permutation}

namespace State

/-- The state with bytes XORed into its start. -/
def added (state : State) (bytes : Bytes) : State :=
  Vector.ofFn fun i => state.byte i.val ^^^ bytes[i.val]?.getD 0

/-- Bytes are added to a state one for one, and nothing is added behind them. -/
theorem byte_added (state : State) (bytes : Bytes) {i : Nat} (inside : i < width) :
    (state.added bytes).byte i = state.byte i ^^^ bytes[i]?.getD 0 := by
  rw [byte_eq_getElem _ inside, added, Vector.getElem_ofFn]

/-- To absorb at the start of a state is to add the bytes to it. -/
theorem overlay_absorb_eq_added (state : State) {bytes : Bytes} (fits : bytes.length ≤ width) :
    (Exchange.absorb.overlay state 0 bytes).2 = state.added bytes := by
  apply ext_byte
  intro i inside
  rw [byte_added _ _ inside, Page.byte_overlay_absorb _ _ _ (by omega), if_pos (Nat.zero_le i),
    Nat.sub_zero]

end State

namespace Duplex

/-- The duplex whose window has taken in these bytes over a state, with a frame that starts at one
of them or behind the last. -/
def filled (P : Permutation) (state : State) (bytes : Bytes) (frame : Nat) : Duplex P where
  state := state.added bytes
  position := bytes.length
  frame := frame

/-- The window is part of the state. -/
theorem window_le_width : window ≤ width := by decide

/-- A window that is filled is a page over the state. -/
theorem filled_eq_load (page : Page) (state : State) :
    filled P state page.bytes page.frame = page.load P state := by
  unfold filled Page.load
  rw [State.overlay_absorb_eq_added _ (Nat.le_trans page.fits window_le_width)]

/-- What is absorbed behind bytes makes one string with them. -/
theorem overlaid_filled (state : State) {a b : Bytes} (frame : Nat)
    (fits : (a ++ b).length ≤ window) :
    (filled P state a frame).overlaid .absorb b = filled P state (a ++ b) frame := by
  have fits_width : (a ++ b).length ≤ width := Nat.le_trans fits window_le_width
  have a_fits : a.length ≤ width := by
    rw [List.length_append] at fits_width
    omega
  unfold overlaid filled
  dsimp only
  rw [← State.overlay_absorb_eq_added state fits_width, Tape.overlay_append,
    State.overlay_absorb_eq_added state a_fits, Nat.zero_add, List.length_append]

/-- Over one state, padding tells all fillings of the window apart. -/
theorem padded_filled_eq_iff {state : State} {a b : Bytes} {f g : Nat} (a_fits : a.length ≤ window)
    (b_fits : b.length ≤ window) (f_le : f ≤ a.length) (g_le : g ≤ b.length) :
    (filled P state a f).padded = (filled P state b g).padded ↔ a = b ∧ f = g := by
  let page : Page := ⟨a, f, a_fits, f_le⟩
  let page' : Page := ⟨b, g, b_fits, g_le⟩
  have blocks_eq_iff : page.sealed state = page'.sealed state ↔ page = page' :=
    Page.sealed_eq_sealed_iff
  rw [← Page.padded_load (P := P), ← Page.padded_load (P := P), ← filled_eq_load,
    ← filled_eq_load, Page.ext_iff] at blocks_eq_iff
  exact blocks_eq_iff

/-- Bytes that fill the window up bring about one permutation, that of the full window. -/
theorem callLogged_absorb_of_full {state : State} {a b : Bytes} (frame : Nat)
    (open_window : a.length < window) (full : a.length + b.length = window) :
    (filled P state a frame).callLogged (.absorb b) =
      { permuted := [filled P state (a ++ b) frame]
        result := ([], (filled P state (a ++ b) frame).permute) } := by
  have fits : (a ++ b).length ≤ window := by
    rw [List.length_append]
    omega
  have exchanged := exchangeLogged_of_full (d := filled P state a frame) .absorb [] open_window full
  rw [List.append_nil, overlaid_filled state frame fits, exchangeLogged_nil] at exchanged
  apply Logged.ext
  · rw [permuted_callLogged_absorb, exchanged]
  · rw [result_callLogged open_window, call, absorb, ← result_exchangeLogged open_window, exchanged]

/-- Over one state, the blocks that are handed to the permutation are the same exactly if the bytes
in the window and the start of the frame are. This includes full windows. A block is handed over
when the permutation is called, and when the bytes that a call absorbs fill the window. -/
theorem padding_injective (P : Permutation) (state : State) :
    (∀ (a b : Bytes) (f g : Nat), a.length ≤ window → f ≤ a.length →
      b.length ≤ window → g ≤ b.length →
      ((filled P state a f).padded = (filled P state b g).padded ↔ a = b ∧ f = g)) ∧
    (∀ (a : Bytes) (f : Nat), (filled P state a f).callLogged .permute =
      { permuted := [filled P state a f]
        result := ([], ⟨P.apply (filled P state a f).padded, 0, 0⟩) }) ∧
    (∀ (a b : Bytes) (f : Nat), a.length < window → a.length + b.length = window →
      (filled P state a f).callLogged (.absorb b) =
        { permuted := [filled P state (a ++ b) f]
          result := ([], ⟨P.apply (filled P state (a ++ b) f).padded, 0, 0⟩) }) := by
  refine ⟨?_, fun _ _ => rfl, ?_⟩
  · intro a b f g a_fits f_le b_fits g_le
    exact padded_filled_eq_iff a_fits b_fits f_le g_le
  · intro a b f open_window full
    exact callLogged_absorb_of_full f open_window full

/-- One byte before the end of the window, the first padding bit stands where the full window has
the start of its frame. The blocks differ in the last reserved byte. -/
theorem padding_injective_at_end :
    let P : Permutation := { name := "identity", apply := id }
    let a := Bytes.zeros 165
    let b := Bytes.zeros 160
    let c := Bytes.zeros 6
    (filled P State.zero a 0).padded ≠ (filled P State.zero (b ++ c) 1).padded ∧
      ((filled P State.zero b 1).callLogged (.absorb c)).permuted =
        [filled P State.zero (b ++ c) 1] := by
  intro P a b c
  have a_length : a.length = 165 := Bytes.length_zeros 165
  have b_length : b.length = 160 := Bytes.length_zeros 160
  have c_length : c.length = 6 := Bytes.length_zeros 6
  have full_length : b.length + c.length = window := by
    rw [b_length, c_length]
    rfl
  have whole_length : (b ++ c).length = window := by
    rw [List.length_append, full_length]
  have a_fits : a.length ≤ window := by
    rw [a_length]
    decide
  obtain ⟨blocks, -, full⟩ := padding_injective P State.zero
  constructor
  · intro same
    have frame_eq := ((blocks a (b ++ c) 0 1 a_fits (Nat.zero_le _) (Nat.le_of_eq whole_length)
      (by rw [whole_length]; decide)).mp same).2
    exact absurd frame_eq (by decide)
  · exact congrArg Logged.permuted (full b c 1 (by rw [b_length]; decide) full_length)

end Duplex

end SpongeTranscript
