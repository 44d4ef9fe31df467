import SpongeTranscript.State

set_option autoImplicit false

/-!
# Exchanges between a buffer and the rate

Each duplex call walks along a buffer and along the rate of the state in step. The four calls
differ only in what one byte of the rate `r` and one byte of the buffer `b` become.

| exchange | new rate byte | new buffer byte |
|----------|---------------|-----------------|
| absorb   | `r ^^^ b`     | `b`             |
| squeeze  | `r`           | `r`             |
| encrypt  | `r ^^^ b`     | `r ^^^ b`       |
| decrypt  | `b`           | `r ^^^ b`       |
-/

namespace SpongeTranscript

/-- What one duplex call does to the rate and to its buffer. -/
inductive Exchange where
  /-- The buffer is added to the rate. -/
  | absorb
  /-- The rate is copied over the buffer. -/
  | squeeze
  /-- The buffer is XORed with the rate, and the rate is overwritten with the result. -/
  | encrypt
  /-- The buffer is XORed with the rate, and the rate is overwritten with the former buffer. -/
  | decrypt
  deriving DecidableEq, Repr

namespace Exchange

/-- The rate byte after the exchange. -/
def rateByte : Exchange → (r b : UInt8) → UInt8
  | .absorb, r, b => r ^^^ b
  | .squeeze, r, _ => r
  | .encrypt, r, b => r ^^^ b
  | .decrypt, _, b => b

/-- The buffer byte after the exchange. -/
def bufferByte : Exchange → (r b : UInt8) → UInt8
  | .absorb, _, b => b
  | .squeeze, r, _ => r
  | .encrypt, r, b => r ^^^ b
  | .decrypt, r, b => r ^^^ b

/-- Exchanges a stretch of a buffer with the bytes of the state that start at `offset`. -/
def overlay (e : Exchange) : State → Nat → Bytes → Bytes × State
  | state, _, [] => ([], state)
  | state, offset, b :: rest =>
    let r := state.byte offset
    let (done, state) := e.overlay (state.setByte offset (e.rateByte r b)) (offset + 1) rest
    (e.bufferByte r b :: done, state)

/-- Nothing is exchanged for nothing. -/
@[simp] theorem overlay_nil (e : Exchange) (state : State) (offset : Nat) :
    e.overlay state offset [] = ([], state) := rfl

/-- An exchange keeps the length of the buffer. -/
@[simp] theorem length_overlay (e : Exchange) (state : State) (offset : Nat) (stretch : Bytes) :
    (e.overlay state offset stretch).1.length = stretch.length := by
  induction stretch generalizing state offset with
  | nil => rfl
  | cons b rest ih => simp [overlay, ih]

end Exchange

end SpongeTranscript
