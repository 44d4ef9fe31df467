import SpongeTranscript.Duplex.Exchange

set_option autoImplicit false

/-!
# The duplex

A duplex is a state with two pointers into its rate: the position of the next byte and the start of
the current frame. The rate is the first 168 bytes; its first 166 form the window that data goes
through, and the last two are kept for the frame marker and the padding. The other 32 bytes are the
capacity, which only the permutation reads or writes.

A call cuts its buffer where the window fills, exchanges each stretch with the rate and permutes
whenever a stretch ends the window. So the window is never full between calls, and where a buffer
is cut into calls makes no difference.
-/

namespace SpongeTranscript

/-- Size of the part of the state that only the permutation touches, in bytes. -/
abbrev capacity : Nat := 32

/-- Size of the rest of the state, in bytes. -/
abbrev rate : Nat := width - capacity

/-- Number of rate bytes open to data before the state has to be permuted. -/
abbrev window : Nat := rate - 2

/-- A sponge in duplex mode over the permutation `P`. -/
structure Duplex (P : Permutation) where
  /-- The bytes of the sponge. -/
  state : State
  /-- The offset of the next rate byte. -/
  position : Nat
  /-- The offset at which the current frame starts, zero if it began before the last permutation. -/
  frame : Nat
  deriving DecidableEq

namespace Duplex

variable {P : Permutation}

/-- The window is not full, and the frame does not start behind the position. -/
structure Valid (d : Duplex P) : Prop where
  position_lt : d.position < window
  frame_le : d.frame ≤ d.position

/-- The duplex with an all-zero state. -/
def fresh : Duplex P where
  state := State.zero
  position := 0
  frame := 0

/-- The state as it is handed to the permutation: the start of the frame is added at the position,
the first padding bit behind it and the last padding bit at the end of the rate. -/
def padded (d : Duplex P) : State :=
  ((d.state.xorByte d.position d.frame.toUInt8).xorByte (d.position + 1) 0x01).xorByte
    (rate - 1) 0x80

/-- Pads the rate, permutes the state and resets both pointers. -/
def permute (d : Duplex P) : Duplex P where
  state := P.apply d.padded
  position := 0
  frame := 0

/-- Moves the position on by `count` bytes, and permutes if this fills the window. -/
def advance (d : Duplex P) (count : Nat) : Duplex P :=
  let moved := { d with position := d.position + count }
  if moved.position = window then moved.permute else moved

/-- Number of bytes that still fit into the window. -/
def room (d : Duplex P) : Nat :=
  window - d.position

/-- Cuts a buffer into a first stretch of at most `room` bytes and further ones of a full window. -/
def stretches (room : Nat) (buffer : Bytes) : List Bytes :=
  if buffer = [] then [] else buffer.take room :: stretches window (buffer.drop room)
termination_by buffer.length + (if room = 0 then 1 else 0)
decreasing_by
  have nonempty : 0 < buffer.length := List.length_pos_iff.mpr (by assumption)
  simp only [List.length_drop, ↓reduceIte]
  split <;> omega

/-- Exchanges a stretch that fits into the window. -/
def exchangeStretch (d : Duplex P) (e : Exchange) (stretch : Bytes) : Bytes × Duplex P :=
  let (done, state) := e.overlay d.state d.position stretch
  (done, { d with state }.advance stretch.length)

/-- Exchanges stretches one after the other. -/
def exchangeStretches (e : Exchange) : Duplex P → List Bytes → Bytes × Duplex P
  | d, [] => ([], d)
  | d, stretch :: rest =>
    let (done, d) := d.exchangeStretch e stretch
    let (more, d) := exchangeStretches e d rest
    (done ++ more, d)

/-- Exchanges a whole buffer, and returns what it has become. -/
def exchange (d : Duplex P) (e : Exchange) (buffer : Bytes) : Bytes × Duplex P :=
  exchangeStretches e d (stretches d.room buffer)

/-- Adds the input to the rate. -/
def absorb (d : Duplex P) (input : Bytes) : Duplex P :=
  (d.exchange .absorb input).2

/-- Copies `count` bytes out of the rate. -/
def squeeze (d : Duplex P) (count : Nat) : Bytes × Duplex P :=
  d.exchange .squeeze (Bytes.zeros count)

/-- Encrypts a plaintext, leaving the ciphertext in the rate. -/
def encrypt (d : Duplex P) (plaintext : Bytes) : Bytes × Duplex P :=
  d.exchange .encrypt plaintext

/-- Decrypts a ciphertext, leaving the ciphertext in the rate. -/
def decrypt (d : Duplex P) (ciphertext : Bytes) : Bytes × Duplex P :=
  d.exchange .decrypt ciphertext

/-- Starts a frame: absorbs the start of the previous one and notes the position behind it. -/
def startFrame (d : Duplex P) : Duplex P :=
  let marked := d.absorb [d.frame.toUInt8]
  { marked with frame := marked.position }

/-- Erases as many bytes as the capacity has. Pending bytes are permuted first; then the start of
the rate is zeroed and skipped. -/
def ratchet (d : Duplex P) : Duplex P :=
  let mixed := if d.position > 0 then d.permute else d
  { mixed with state := mixed.state.clear capacity, position := capacity }

/-- Forgets everything. -/
def wipe (_ : Duplex P) : Duplex P :=
  fresh

/-- Whether two duplexes agree. The pointers are compared as 64-bit words. -/
def agrees (d e : Duplex P) : Bool :=
  d.state == e.state && d.position.toUInt64 == e.position.toUInt64 &&
    d.frame.toUInt64 == e.frame.toUInt64

instance : BEq (Duplex P) :=
  ⟨agrees⟩

/-- Shows the permutation and the pointers, and never the state. -/
def describe (d : Duplex P) : String :=
  s!"Duplex \x7b permutation: {P.name}, position: {d.position}, frame: {d.frame}, .. \x7d"

/-- The stretches are the buffer, cut and nothing else. -/
@[simp] theorem flatten_stretches (room : Nat) (buffer : Bytes) :
    (stretches room buffer).flatten = buffer := by
  fun_induction stretches room buffer with
  | case1 => rfl
  | case2 room buffer _ ih => simp [ih]

/-- A stretch gives as many bytes as it takes. -/
@[simp] theorem length_exchangeStretch (d : Duplex P) (e : Exchange) (stretch : Bytes) :
    (d.exchangeStretch e stretch).1.length = stretch.length := by
  simp [exchangeStretch]

/-- Stretches give as many bytes as they take, together. -/
theorem length_exchangeStretches (d : Duplex P) (e : Exchange) (pieces : List Bytes) :
    (exchangeStretches e d pieces).1.length = pieces.flatten.length := by
  induction pieces generalizing d with
  | nil => rfl
  | cons stretch rest ih => simp [exchangeStretches, ih]

/-- An exchange keeps the length of the buffer. -/
@[simp] theorem length_exchange (d : Duplex P) (e : Exchange) (buffer : Bytes) :
    (d.exchange e buffer).1.length = buffer.length := by
  rw [exchange, length_exchangeStretches, flatten_stretches]

/-- A fresh duplex is valid. -/
theorem valid_fresh : (fresh : Duplex P).Valid where
  position_lt := (by decide : 0 < window)
  frame_le := Nat.le_refl 0

/-- Both pointers are back at the start after a permutation, whatever they were before. -/
theorem valid_permute (d : Duplex P) : d.permute.Valid where
  position_lt := (by decide : 0 < window)
  frame_le := Nat.le_refl 0

end Duplex

end SpongeTranscript
