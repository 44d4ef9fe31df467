import SpongeTranscript.Proofs.Duplex.Stepwise

set_option autoImplicit false

/-!
# Observed calls

The calls of a duplex are total: a difference of numbers stops at zero, a byte outside the state
reads as zero, and a number loses what does not fit into a byte. So nothing would show if a call
relied on one of these. And the permutation is a function that leaves no trace, so the result of a
call does not tell how often it was applied, or to what.

The machine here does the same work for an observer. It names a condition in front of each place
where a call could rely on totality, asks anew for the room in each round of its loop, and hands
over each duplex that is to be permuted. What becomes of this is left to the observer: one may stop
at a condition that does not hold, and another may keep what it is handed.

No observer changes what is returned (`returns_call`, `returns_run`), as long as it is lawful and
the window is not full, and for an observer that stops at conditions also the frame has to be in
range.
-/

namespace SpongeTranscript

/-- What a duplex must not do. -/
inductive Breach where
  /-- Asking for the room of a window with the position behind its end. -/
  | negativeRoom
  /-- Moving the position behind the end of the window. -/
  | beyondWindow
  /-- Reading or writing a byte that does not belong to the rate. -/
  | outsideRate
  /-- Writing a pointer into a byte that is too small for it. -/
  | wideByte
  /-- Going round a loop without taking a byte. -/
  | emptyStretch
  deriving DecidableEq, Repr

/-! ## Observers -/

/-- Computations in which a condition can be demanded. -/
class Guard (m : Type → Type) extends Monad m where
  /-- Demands a condition, and names the breach if it does not hold. -/
  ensure (breach : Breach) (condition : Prop) [Decidable condition] : m Unit

/-- Computations that are shown each duplex to be permuted. -/
class Observer (P : Permutation) (m : Type → Type) extends Guard m where
  /-- Applies the permutation to the padded state of a duplex. -/
  apply (d : Duplex P) : m State

/-- A guard that goes on with the right value where all conditions hold. -/
class LawfulGuard (m : Type → Type) [Guard m] where
  /-- Whether a condition that does not hold ends the computation. -/
  strict : Prop
  /-- The computation ends with this value. -/
  Returns {α : Type} (x : m α) (a : α) : Prop
  returns_pure {α : Type} (a : α) : Returns (pure a) a
  returns_bind {α β : Type} {x : m α} {f : α → m β} {a : α} {b : β} :
    Returns x a → Returns (f a) b → Returns (x >>= f) b
  returns_ensure (breach : Breach) {condition : Prop} [Decidable condition] :
    (strict → condition) → Returns (Guard.ensure breach condition) ()

/-- An observer that applies the permutation to the padded state, if the padding fits in. -/
class LawfulObserver (P : Permutation) (m : Type → Type) [Observer P m] extends LawfulGuard m where
  returns_apply (d : Duplex P) :
    (strict → d.position ≤ window ∧ d.frame < 256) →
      Returns (Observer.apply d) (P.apply d.padded)

open Guard LawfulGuard LawfulObserver

/-! ## Access to the rate -/

section Access

variable {m : Type → Type} [Guard m]

namespace State

/-- Reads a byte of the rate. -/
def readRate (state : State) (offset : Nat) : m UInt8 := do
  ensure .outsideRate (offset < rate)
  return state.byte offset

/-- Stores a byte of the rate. -/
def writeRate (state : State) (offset : Nat) (value : UInt8) : m State := do
  ensure .outsideRate (offset < rate)
  return state.setByte offset value

/-- XORs a mask into a byte of the rate. -/
def xorRate (state : State) (offset : Nat) (mask : UInt8) : m State := do
  let r ← state.readRate offset
  state.writeRate offset (r ^^^ mask)

/-- Zeroes the first bytes of the rate. -/
def clearRate (state : State) (count : Nat) : m State := do
  ensure .outsideRate (count ≤ rate)
  return state.clear count

end State

/-- A pointer as one byte. -/
def pointerByte (pointer : Nat) : m UInt8 := do
  ensure .wideByte (pointer < 256)
  return pointer.toUInt8

/-- Exchanges a stretch with bytes of the rate. -/
def Exchange.overlayObserved (e : Exchange) : State → Nat → Bytes → m (Bytes × State)
  | state, _, [] => return ([], state)
  | state, offset, b :: rest => do
    let r ← state.readRate offset
    let state ← state.writeRate offset (e.rateByte r b)
    let (done, state) ← e.overlayObserved state (offset + 1) rest
    return (e.bufferByte r b :: done, state)

/-- The state as it is handed to the permutation. -/
def Duplex.paddedObserved {P : Permutation} (d : Duplex P) : m State := do
  let mark ← pointerByte d.frame
  let state ← d.state.xorRate d.position mark
  let state ← state.xorRate (d.position + 1) 0x01
  state.xorRate (rate - 1) 0x80

variable [LawfulGuard m]

namespace State

/-- A read inside the rate returns the byte. -/
theorem returns_readRate (state : State) {offset : Nat} (inside : strict m → offset < rate) :
    Returns (state.readRate offset : m UInt8) (state.byte offset) :=
  returns_bind (returns_ensure .outsideRate inside) (returns_pure _)

/-- A write inside the rate stores the byte. -/
theorem returns_writeRate (state : State) {offset : Nat} (inside : strict m → offset < rate)
    (value : UInt8) :
    Returns (state.writeRate offset value : m State) (state.setByte offset value) :=
  returns_bind (returns_ensure .outsideRate inside) (returns_pure _)

/-- A mask inside the rate is XORed in. -/
theorem returns_xorRate (state : State) {offset : Nat} (inside : strict m → offset < rate)
    (mask : UInt8) : Returns (state.xorRate offset mask : m State) (state.xorByte offset mask) :=
  returns_bind (returns_readRate state inside) (returns_writeRate state inside _)

/-- A count that the rate has is zeroed. -/
theorem returns_clearRate (state : State) {count : Nat} (inside : strict m → count ≤ rate) :
    Returns (state.clearRate count : m State) (state.clear count) :=
  returns_bind (returns_ensure .outsideRate inside) (returns_pure _)

end State

/-- A small pointer is its byte. -/
theorem returns_pointerByte {pointer : Nat} (narrow : strict m → pointer < 256) :
    Returns (pointerByte pointer : m UInt8) pointer.toUInt8 :=
  returns_bind (returns_ensure .wideByte narrow) (returns_pure _)

/-- A stretch that ends inside the rate is exchanged. -/
theorem Exchange.returns_overlay (e : Exchange) (state : State) {offset : Nat} {stretch : Bytes}
    (inside : strict m → offset + stretch.length ≤ rate) :
    Returns (e.overlayObserved state offset stretch : m (Bytes × State))
      (e.overlay state offset stretch) := by
  induction stretch generalizing state offset with
  | nil => exact returns_pure _
  | cons b rest ih =>
    have here : strict m → offset < rate := by
      intro demanded
      have fits := inside demanded
      rw [List.length_cons] at fits
      omega
    have behind : strict m → offset + 1 + rest.length ≤ rate := by
      intro demanded
      have fits := inside demanded
      rw [List.length_cons] at fits
      omega
    apply returns_bind (State.returns_readRate state here)
    apply returns_bind (State.returns_writeRate state here _)
    exact returns_bind (ih _ behind) (returns_pure _)

/-- Behind a full window there are still the two bytes that the padding needs. -/
theorem Duplex.returns_padded {P : Permutation} {d : Duplex P}
    (fits : strict m → d.position ≤ window ∧ d.frame < 256) :
    Returns (d.paddedObserved : m State) d.padded := by
  have window_add_two : window + 2 = rate := rfl
  have inside : strict m → d.position < rate := by
    intro demanded
    have position_le := (fits demanded).1
    omega
  have inside' : strict m → d.position + 1 < rate := by
    intro demanded
    have position_le := (fits demanded).1
    omega
  apply returns_bind (returns_pointerByte fun demanded => (fits demanded).2)
  apply returns_bind (State.returns_xorRate _ inside _)
  apply returns_bind (State.returns_xorRate _ inside' _)
  exact State.returns_xorRate _ (fun _ => (by decide : rate - 1 < rate)) _

end Access

namespace Duplex

variable {P : Permutation} {m : Type → Type} [Observer P m]

/-! ## The machine -/

/-- The room of the window. -/
def roomObserved (d : Duplex P) : m Nat := do
  ensure .negativeRoom (d.position ≤ window)
  return d.room

/-- The window may be full for a moment, but the position never goes behind its end. -/
def moveTo (d : Duplex P) (position : Nat) : m (Duplex P) := do
  ensure .beyondWindow (position ≤ window)
  return { d with position }

/-- Permutes the padded state and resets both pointers. -/
def permuteObserved (d : Duplex P) : m (Duplex P) := do
  let state ← Observer.apply d
  return { state, position := 0, frame := 0 }

/-- Moves the position on, and permutes if this fills the window. -/
def advanceObserved (d : Duplex P) (count : Nat) : m (Duplex P) := do
  let moved ← d.moveTo (d.position + count)
  if moved.position = window then moved.permuteObserved else return moved

/-- Exchanges a stretch that fits into the window. -/
def exchangeStretchObserved (d : Duplex P) (e : Exchange) (stretch : Bytes) :
    m (Bytes × Duplex P) := do
  let (done, state) ← e.overlayObserved d.state d.position stretch
  let d ← advanceObserved { d with state } stretch.length
  return (done, d)

/-- Takes stretches from the buffer until it is empty. -/
def exchangeObserved (e : Exchange) (d : Duplex P) (buffer : Bytes) : m (Bytes × Duplex P) :=
  if buffer = [] then
    return ([], d)
  else do
    let room ← d.roomObserved
    let count := min room buffer.length
    ensure .emptyStretch (count ≠ 0)
    if count = 0 then
      -- only an observer that lets an empty stretch pass comes here
      return (buffer, d)
    else
      let (done, d) ← d.exchangeStretchObserved e (buffer.take count)
      let (more, d) ← exchangeObserved e d (buffer.drop count)
      return (done ++ more, d)
termination_by buffer.length
decreasing_by
  rw [List.length_drop]
  omega

/-- Starts a frame. -/
def startFrameObserved (d : Duplex P) : m (Duplex P) := do
  let mark ← pointerByte d.frame
  let (_, marked) ← exchangeObserved .absorb d [mark]
  return { marked with frame := marked.position }

/-- Permutes pending bytes. -/
def permutePendingObserved (d : Duplex P) : m (Duplex P) :=
  if d.position > 0 then d.permuteObserved else return d

/-- Erases as many bytes as the capacity has. -/
def ratchetObserved (d : Duplex P) : m (Duplex P) := do
  let mixed ← d.permutePendingObserved
  let state ← mixed.state.clearRate capacity
  moveTo { mixed with state } capacity

/-- Carries out one call. -/
def callObserved (d : Duplex P) : Call → m (Bytes × Duplex P)
  | .absorb input => do
    let (_, d) ← d.exchangeObserved .absorb input
    return ([], d)
  | .squeeze count => d.exchangeObserved .squeeze (Bytes.zeros count)
  | .encrypt plaintext => d.exchangeObserved .encrypt plaintext
  | .decrypt ciphertext => d.exchangeObserved .decrypt ciphertext
  | .permute => do
    let d ← d.permuteObserved
    return ([], d)
  | .startFrame => do
    let d ← d.startFrameObserved
    return ([], d)
  | .ratchet => do
    let d ← d.ratchetObserved
    return ([], d)
  | .wipe => return ([], d.wipe)

/-- Carries out calls one after the other. -/
def runObserved (d : Duplex P) : List Call → m (List Bytes × Duplex P)
  | [] => return ([], d)
  | c :: rest => do
    let (out, d) ← d.callObserved c
    let (outs, d) ← d.runObserved rest
    return (out :: outs, d)

/-! ## The machine returns what the calls return -/

variable [LawfulObserver P m]

/-- A permutation is carried out as soon as the padding fits in. -/
theorem returns_permute {d : Duplex P} (fits : strict m → d.position ≤ window ∧ d.frame < 256) :
    Returns (d.permuteObserved : m (Duplex P)) d.permute :=
  returns_bind (returns_apply d fits) (returns_pure _)

/-- The room of a position that is not behind the window is returned. -/
theorem returns_room (d : Duplex P) (inside : strict m → d.position ≤ window) :
    Returns (d.roomObserved : m Nat) d.room :=
  returns_bind (returns_ensure .negativeRoom inside) (returns_pure _)

/-- A move inside the window is made. -/
theorem returns_moveTo (d : Duplex P) {position : Nat} (fits : strict m → position ≤ window) :
    Returns (d.moveTo position : m (Duplex P)) { d with position } :=
  returns_bind (returns_ensure .beyondWindow fits) (returns_pure _)

/-- An advance that ends in the window or fills it is made. -/
theorem returns_advance {d : Duplex P} {count : Nat} (fits : d.position + count ≤ window)
    (narrow : strict m → d.frame < 256) :
    Returns (d.advanceObserved count : m (Duplex P)) (d.advance count) := by
  apply returns_bind (d.returns_moveTo fun _ => fits)
  by_cases full : d.position + count = window
  · rw [advance_to_window full, if_pos full]
    exact returns_permute fun demanded => ⟨fits, narrow demanded⟩
  · rw [advance_of_room (Nat.lt_of_le_of_ne fits full), if_neg full]
    exact returns_pure _

/-- A stretch that fits into the window is exchanged. -/
theorem returns_exchangeStretch {d : Duplex P} (e : Exchange) {stretch : Bytes}
    (fits : d.position + stretch.length ≤ window) (narrow : strict m → d.frame < 256) :
    Returns (d.exchangeStretchObserved e stretch : m (Bytes × Duplex P))
      (d.exchangeStretch e stretch) := by
  have inside : d.position + stretch.length ≤ rate := Nat.le_trans fits (by decide)
  apply returns_bind (e.returns_overlay d.state fun _ => inside)
  exact returns_bind (returns_advance fits narrow) (returns_pure _)

/-- The loop takes a byte in every round, and does what the exchange does. -/
theorem returns_exchange (e : Exchange) {d : Duplex P} (room : d.position < window)
    (valid : strict m → d.Valid) (buffer : Bytes) :
    Returns (exchangeObserved e d buffer : m (Bytes × Duplex P)) (d.exchange e buffer) := by
  induction length_eq : buffer.length using Nat.strongRecOn generalizing d buffer with
  | ind size ih =>
    rw [exchangeObserved, exchange_eq_steps room]
    cases buffer with
    | nil => exact returns_pure _
    | cons b rest =>
      have room_def : d.room = window - d.position := rfl
      rw [if_neg (List.cons_ne_nil b rest)]
      apply returns_bind (d.returns_room fun _ => Nat.le_of_lt room)
      dsimp only
      generalize count_eq : min d.room (b :: rest).length = count
      rw [List.length_cons] at length_eq count_eq
      have some_taken : count ≠ 0 := by omega
      have fits : d.position + ((b :: rest).take count).length ≤ window := by
        rw [List.length_take]
        omega
      -- the exchange cuts its buffer first, so the rounds are compared with it byte by byte
      have first : d.exchangeStretch e ((b :: rest).take count) =
          d.steps e ((b :: rest).take count) := by
        obtain ⟨more, rfl⟩ : ∃ more, count = more + 1 := ⟨count - 1, by omega⟩
        exact exchangeStretch_eq_steps d e b _ fits
      have shorter : ((b :: rest).drop count).length < size := by
        rw [List.length_drop, List.length_cons]
        omega
      have still_room := position_steps_lt room e ((b :: rest).take count)
      have still_valid : strict m → (d.steps e ((b :: rest).take count)).2.Valid :=
        fun demanded => valid_steps (valid demanded) e _
      apply returns_bind (returns_ensure .emptyStretch fun _ => some_taken)
      rw [if_neg some_taken]
      apply returns_bind
        (returns_exchangeStretch e fits fun demanded => frame_lt_of_valid (valid demanded))
      rw [first]
      have later := ih _ shorter still_room still_valid _ rfl
      rw [exchange_eq_steps still_room] at later
      apply returns_bind later
      have whole := d.steps_append e ((b :: rest).take count) ((b :: rest).drop count)
      rw [List.take_append_drop] at whole
      rw [whole]
      exact returns_pure _

/-- A frame is started. -/
theorem returns_startFrame {d : Duplex P} (room : d.position < window)
    (valid : strict m → d.Valid) :
    Returns (d.startFrameObserved : m (Duplex P)) d.startFrame := by
  apply returns_bind (returns_pointerByte fun demanded => frame_lt_of_valid (valid demanded))
  exact returns_bind (returns_exchange .absorb room valid _) (returns_pure _)

/-- Pending bytes are permuted. -/
theorem returns_permutePending {d : Duplex P} (valid : strict m → d.Valid) :
    Returns (d.permutePendingObserved : m (Duplex P))
      (if d.position > 0 then d.permute else d) := by
  unfold permutePendingObserved
  split
  · apply returns_permute
    intro demanded
    exact ⟨Nat.le_of_lt (valid demanded).position_lt, frame_lt_of_valid (valid demanded)⟩
  · exact returns_pure d

/-- The start of the rate is erased. -/
theorem returns_ratchet {d : Duplex P} (valid : strict m → d.Valid) :
    Returns (d.ratchetObserved : m (Duplex P)) d.ratchet := by
  apply returns_bind (returns_permutePending valid)
  apply returns_bind (State.returns_clearRate _ fun _ => (by decide : capacity ≤ rate))
  exact returns_moveTo _ fun _ => (by decide : capacity ≤ window)

/-- A call returns the same with an observer as without one. -/
theorem returns_call {d : Duplex P} (room : d.position < window) (valid : strict m → d.Valid)
    (c : Call) : Returns (d.callObserved c : m (Bytes × Duplex P)) (d.call c) := by
  cases c with
  | absorb input =>
    exact returns_bind (returns_exchange .absorb room valid input) (returns_pure _)
  | squeeze count => exact returns_exchange .squeeze room valid (Bytes.zeros count)
  | encrypt plaintext => exact returns_exchange .encrypt room valid plaintext
  | decrypt ciphertext => exact returns_exchange .decrypt room valid ciphertext
  | permute =>
    refine returns_bind (returns_permute ?_) (returns_pure _)
    intro demanded
    exact ⟨Nat.le_of_lt room, frame_lt_of_valid (valid demanded)⟩
  | startFrame => exact returns_bind (returns_startFrame room valid) (returns_pure _)
  | ratchet => exact returns_bind (returns_ratchet valid) (returns_pure _)
  | wipe => exact returns_pure _

/-- So does a run of calls. -/
theorem returns_run {d : Duplex P} (room : d.position < window) (valid : strict m → d.Valid)
    (calls : List Call) :
    Returns (d.runObserved calls : m (List Bytes × Duplex P)) (d.run calls) := by
  induction calls generalizing d with
  | nil => exact returns_pure _
  | cons c rest ih =>
    have later := ih (position_call_lt room c) fun demanded => valid_call (valid demanded) c
    apply returns_bind (returns_call room valid c)
    exact returns_bind later (returns_pure _)

end Duplex

end SpongeTranscript
