import SpongeTranscript.State

set_option autoImplicit false

/-!
# The Keccak-p[1600] permutations

The state is read as a 5 × 5 sheet of 64-bit lanes, lane `(x, y)` being the little-endian word at
byte `8 * (x + 5 * y)`. A round is the composition of the five steps theta, rho, pi, chi and iota;
rho and pi are done together. The full permutation runs all 24 rounds and the reduced one the last
twelve of them.
-/

namespace SpongeTranscript.Keccak

/-- The 25 lanes of the state, lane `(x, y)` at index `x + 5 * y`. -/
abbrev Lanes := Vector UInt64 25

/-- The lane with coordinates `x` and `y`. -/
def lane (a : Lanes) (x y : Fin 5) : UInt64 :=
  a[x.val + 5 * y.val]

/-- The sheet whose lane at `(x, y)` is `f x y`. -/
def tabulate (f : Fin 5 → Fin 5 → UInt64) : Lanes :=
  Vector.ofFn fun i => f ⟨i.val % 5, by omega⟩ ⟨i.val / 5, by omega⟩

/-- Rotation of a lane towards its high end. -/
def rotate (word : UInt64) (count : UInt64) : UInt64 :=
  (word <<< count) ||| (word >>> (64 - count))

/-- The rotation that rho gives to each lane. -/
def rhoOffsets : Lanes :=
  #v[0, 1, 62, 28, 27,
    36, 44, 6, 55, 20,
    3, 10, 43, 25, 39,
    41, 45, 15, 21, 8,
    18, 2, 61, 56, 14]

/-- The words that iota adds, round by round. -/
def roundConstants : List UInt64 :=
  [0x0000000000000001, 0x0000000000008082, 0x800000000000808A, 0x8000000080008000,
    0x000000000000808B, 0x0000000080000001, 0x8000000080008081, 0x8000000000008009,
    0x000000000000008A, 0x0000000000000088, 0x0000000080008009, 0x000000008000000A,
    0x000000008000808B, 0x800000000000008B, 0x8000000000008089, 0x8000000000008003,
    0x8000000000008002, 0x8000000000000080, 0x000000000000800A, 0x800000008000000A,
    0x8000000080008081, 0x8000000000008080, 0x0000000080000001, 0x8000000080008008]

/-- Adds to each lane the parities of the two neighbouring columns. -/
def theta (a : Lanes) : Lanes :=
  let parity : Vector UInt64 5 := Vector.ofFn fun x =>
    lane a x 0 ^^^ lane a x 1 ^^^ lane a x 2 ^^^ lane a x 3 ^^^ lane a x 4
  let effect : Vector UInt64 5 := Vector.ofFn fun x =>
    parity[x + 4] ^^^ rotate parity[x + 1] 1
  tabulate fun x y => lane a x y ^^^ effect[x]

/-- Rotates each lane and moves it: lane `(x, y)` arrives from `(x + 3 * y, x)`. -/
def rhoPi (a : Lanes) : Lanes :=
  tabulate fun x y => rotate (lane a (x + 3 * y) x) (lane rhoOffsets (x + 3 * y) x)

/-- Combines each lane with the next two of its row. -/
def chi (a : Lanes) : Lanes :=
  tabulate fun x y => lane a x y ^^^ (~~~(lane a (x + 1) y) &&& lane a (x + 2) y)

/-- Adds the round constant to the lane at the origin. -/
def iota (constant : UInt64) (a : Lanes) : Lanes :=
  a.set 0 (a[0] ^^^ constant)

/-- One round. -/
def round (a : Lanes) (constant : UInt64) : Lanes :=
  iota constant (chi (rhoPi (theta a)))

/-- Reads the lanes of a state. -/
def lanesOf (state : State) : Lanes :=
  Vector.ofFn fun i =>
    (List.range 8).foldr (fun j word => (word <<< 8) ||| (state.byte (8 * i + j)).toUInt64) 0

/-- Writes lanes back as a state. -/
def stateOf (a : Lanes) : State :=
  Vector.ofFn fun i =>
    have inside : i.val / 8 < 25 := Nat.div_lt_of_lt_mul i.isLt
    (a[i.val / 8] >>> (8 * (i.val % 8)).toUInt64).toUInt8

/-- Runs the rounds that have the given constants. -/
def run (constants : List UInt64) (state : State) : State :=
  stateOf (constants.foldl round (lanesOf state))

/-- Keccak-f[1600]: all 24 rounds. -/
def full : Permutation where
  name := "KeccakF1600"
  apply := run roundConstants

/-- Keccak-p[1600, 12]: the last twelve rounds. -/
def reduced : Permutation where
  name := "Keccak12"
  apply := run (roundConstants.drop 12)

end SpongeTranscript.Keccak
