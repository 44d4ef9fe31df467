import SpongeTranscript.Duplex.Call

set_option autoImplicit false

/-!
# Exchanges byte by byte

The calls of a duplex work on whole stretches of the window. Here is the machine that they speed up:
it exchanges one byte, moves on by one, and permutes when this fills the window. As long as the
window is not full beforehand, a call and the machine do the same (`exchange_eq_steps`), and so it
makes no difference where a buffer is cut into calls (`exchange_append`). `calls_are_bytewise` says
both of the four calls by name.
-/

namespace SpongeTranscript.Duplex

variable {P : Permutation}

/-- Exchanges one byte with the rate byte at the position, and moves on by one. -/
def step (d : Duplex P) (e : Exchange) (b : UInt8) : UInt8 × Duplex P :=
  let r := d.state.byte d.position
  (e.bufferByte r b, { d with state := d.state.setByte d.position (e.rateByte r b) }.advance 1)

/-- Exchanges the bytes of a buffer one by one. -/
def steps (d : Duplex P) (e : Exchange) : Bytes → Bytes × Duplex P
  | [] => ([], d)
  | b :: rest =>
    let (done, d) := d.step e b
    let (more, d) := d.steps e rest
    (done :: more, d)

/-! ## One step -/

/-- Short of the end of the window, moving on only moves the position. -/
theorem advance_of_room {d : Duplex P} {count : Nat} (room : d.position + count < window) :
    d.advance count = { d with position := d.position + count } := by
  rw [advance, if_neg (by simp only; omega)]

/-- At the end of the window, moving on permutes. -/
theorem advance_to_window {d : Duplex P} {count : Nat} (full : d.position + count = window) :
    d.advance count = { d with position := d.position + count }.permute := by
  rw [advance, if_pos full]

/-- Short of the end of the window, a step exchanges one byte of the rate and moves on. -/
theorem step_of_room {d : Duplex P} (e : Exchange) (b : UInt8) (room : d.position + 1 < window) :
    (d.step e b).2 =
      { d with
        state := d.state.setByte d.position (e.rateByte (d.state.byte d.position) b)
        position := d.position + 1 } := by
  unfold step
  dsimp only
  rw [advance_of_room]
  exact room

/-- The step that fills the window exchanges its byte and permutes. -/
theorem step_to_window {d : Duplex P} (e : Exchange) (b : UInt8)
    (full : d.position + 1 = window) :
    (d.step e b).2 =
      { d with
        state := d.state.setByte d.position (e.rateByte (d.state.byte d.position) b)
        position := d.position + 1 }.permute := by
  unfold step
  dsimp only
  rw [advance_to_window]
  exact full

/-- A step keeps a duplex valid. -/
theorem valid_step {d : Duplex P} (h : d.Valid) (e : Exchange) (b : UInt8) :
    (d.step e b).2.Valid := by
  have position_lt := h.position_lt
  have frame_le := h.frame_le
  by_cases full : d.position + 1 = window
  · rw [step_to_window e b full]
    exact valid_permute _
  · have room : d.position + 1 < window := by omega
    rw [step_of_room e b room]
    exact ⟨room, by simp only; omega⟩

/-- A step never leaves the window full. -/
theorem position_step_lt {d : Duplex P} (h : d.position < window) (e : Exchange) (b : UInt8) :
    (d.step e b).2.position < window := by
  by_cases full : d.position + 1 = window
  · rw [step_to_window e b full]
    exact (valid_permute _).position_lt
  · have room : d.position + 1 < window := by omega
    rw [step_of_room e b room]
    exact room

/-! ## Many steps -/

/-- No bytes take no step. -/
@[simp] theorem steps_nil (d : Duplex P) (e : Exchange) : d.steps e [] = ([], d) := rfl

/-- The first byte takes a step, and the others are exchanged behind it. -/
theorem steps_cons (d : Duplex P) (e : Exchange) (b : UInt8) (rest : Bytes) :
    d.steps e (b :: rest) =
      ((d.step e b).1 :: ((d.step e b).2.steps e rest).1, ((d.step e b).2.steps e rest).2) := rfl

/-- Bytewise exchange does not know where a buffer was cut. -/
theorem steps_append (d : Duplex P) (e : Exchange) (a b : Bytes) :
    d.steps e (a ++ b) =
      ((d.steps e a).1 ++ ((d.steps e a).2.steps e b).1, ((d.steps e a).2.steps e b).2) := by
  induction a generalizing d with
  | nil => rfl
  | cons x rest ih => simp only [List.cons_append, steps_cons, ih]

/-- Bytewise exchange gives as many bytes as it takes. -/
@[simp] theorem length_steps (d : Duplex P) (e : Exchange) (buffer : Bytes) :
    (d.steps e buffer).1.length = buffer.length := by
  induction buffer generalizing d with
  | nil => rfl
  | cons b rest ih => simp [steps_cons, ih]

/-- Steps never leave the window full. -/
theorem position_steps_lt {d : Duplex P} (h : d.position < window) (e : Exchange)
    (buffer : Bytes) : (d.steps e buffer).2.position < window := by
  induction buffer generalizing d with
  | nil => exact h
  | cons b rest ih => exact ih (position_step_lt h e b)

/-- Steps keep a duplex valid. -/
theorem valid_steps {d : Duplex P} (h : d.Valid) (e : Exchange) (buffer : Bytes) :
    (d.steps e buffer).2.Valid := by
  induction buffer generalizing d with
  | nil => exact h
  | cons b rest ih => exact ih (valid_step h e b)

/-! ## Calls are many steps -/

/-- A stretch that fits into the window is exchanged as its bytes are, one by one. -/
theorem exchangeStretch_eq_steps (d : Duplex P) (e : Exchange) (b : UInt8) (rest : Bytes)
    (fits : d.position + (b :: rest).length ≤ window) :
    d.exchangeStretch e (b :: rest) = d.steps e (b :: rest) := by
  induction rest generalizing d b with
  | nil => rfl
  | cons c rest ih =>
    simp only [List.length_cons] at fits
    have room : d.position + 1 < window := by omega
    have next := ih (d.step e b).2 c (by
      rw [step_of_room e b room]
      simp only [List.length_cons]
      omega)
    rw [steps_cons, ← next, step_of_room e b room]
    unfold exchangeStretch step
    simp only [Exchange.overlay, List.length_cons]
    -- both sides advance the same overlaid state to the same position
    have same : d.position + 1 + (rest.length + 1) = d.position + (rest.length + 1 + 1) := by
      omega
    simp only [advance, same]

/-- A stretch that ends with the window leaves the position at the start. -/
theorem position_exchangeStretch_full {d : Duplex P} (e : Exchange) (stretch : Bytes)
    (full : d.position + stretch.length = window) :
    (d.exchangeStretch e stretch).2.position = 0 := by
  unfold exchangeStretch
  dsimp only
  rw [advance_to_window]
  · rfl
  · exact full

/-- The stretches that a buffer is cut into are exchanged as its bytes are, one by one. -/
theorem exchangeStretches_eq_steps (room : Nat) (buffer : Bytes) (d : Duplex P) (e : Exchange)
    (h : d.position < window) (room_eq : buffer ≠ [] → d.room = room) :
    exchangeStretches e d (stretches room buffer) = d.steps e buffer := by
  -- along the cuts, the room of the next stretch is always that of the duplex
  fun_induction stretches room buffer generalizing d with
  | case1 => rfl
  | case2 room buffer nonempty ih =>
    have room_eq := room_eq nonempty
    have room_def : d.room = window - d.position := rfl
    have first : d.exchangeStretch e (buffer.take room) = d.steps e (buffer.take room) := by
      cases take_eq : buffer.take room with
      | nil =>
        have := congrArg List.length take_eq
        have := List.length_pos_iff.mpr nonempty
        simp only [List.length_take, List.length_nil] at *
        omega
      | cons b rest =>
        apply exchangeStretch_eq_steps
        rw [← take_eq, List.length_take]
        omega
    have position_lt : (d.exchangeStretch e (buffer.take room)).2.position < window := by
      rw [first]
      exact position_steps_lt h e _
    have rest := ih (d.exchangeStretch e (buffer.take room)).2 position_lt (by
      intro more
      have more_pos := List.length_pos_iff.mpr more
      rw [List.length_drop] at more_pos
      have full : d.position + (buffer.take room).length = window := by
        rw [List.length_take]
        omega
      rw [Duplex.room, position_exchangeStretch_full e _ full]
      rfl)
    simp only [exchangeStretches]
    rw [rest, first]
    conv =>
      rhs
      rw [← List.take_append_drop room buffer, steps_append]

/-- A call is its buffer exchanged byte by byte. -/
theorem exchange_eq_steps {d : Duplex P} (h : d.position < window) (e : Exchange)
    (buffer : Bytes) : d.exchange e buffer = d.steps e buffer :=
  exchangeStretches_eq_steps d.room buffer d e h fun _ => rfl

/-- An exchange keeps a duplex valid. -/
theorem valid_exchange {d : Duplex P} (h : d.Valid) (e : Exchange) (buffer : Bytes) :
    (d.exchange e buffer).2.Valid := by
  rw [exchange_eq_steps h.position_lt]
  exact valid_steps h e buffer

/-- An exchange never leaves the window full. -/
theorem position_exchange_lt {d : Duplex P} (h : d.position < window) (e : Exchange)
    (buffer : Bytes) : (d.exchange e buffer).2.position < window := by
  rw [exchange_eq_steps h]
  exact position_steps_lt h e buffer

/-- Where a buffer is cut into calls makes no difference. -/
theorem exchange_append {d : Duplex P} (h : d.position < window) (e : Exchange) (a b : Bytes) :
    d.exchange e (a ++ b) =
      ((d.exchange e a).1 ++ ((d.exchange e a).2.exchange e b).1,
        ((d.exchange e a).2.exchange e b).2) := by
  rw [exchange_eq_steps (position_exchange_lt h e a), exchange_eq_steps h, exchange_eq_steps h]
  exact steps_append d e a b

/-- Two inputs are absorbed as one. -/
theorem absorb_append {d : Duplex P} (h : d.position < window) (a b : Bytes) :
    d.absorb (a ++ b) = (d.absorb a).absorb b := by
  unfold absorb
  rw [exchange_append h]

/-! ## Valid duplexes -/

/-- The pointers of a valid duplex fit into a byte. -/
theorem frame_lt_of_valid {d : Duplex P} (h : d.Valid) : d.frame < 256 := by
  have position_lt := h.position_lt
  have frame_le := h.frame_le
  have byte_bound : window < 256 := by decide
  omega

/-- The start of a frame leaves a valid duplex. -/
theorem valid_startFrame {d : Duplex P} (h : d.Valid) : d.startFrame.Valid where
  position_lt := (valid_exchange h .absorb [d.frame.toUInt8]).position_lt
  frame_le := Nat.le_refl _

/-- A ratchet leaves a valid duplex. -/
theorem valid_ratchet {d : Duplex P} (h : d.Valid) : d.ratchet.Valid where
  position_lt := (by decide : capacity < window)
  frame_le := by
    have frame_le := h.frame_le
    unfold ratchet
    dsimp only
    split
    · exact Nat.zero_le capacity
    · omega

/-- Every call leaves a valid duplex. -/
theorem valid_call {d : Duplex P} (h : d.Valid) (c : Call) : (d.call c).2.Valid := by
  cases c with
  | absorb input => exact valid_exchange h .absorb input
  | squeeze count => exact valid_exchange h .squeeze (Bytes.zeros count)
  | encrypt plaintext => exact valid_exchange h .encrypt plaintext
  | decrypt ciphertext => exact valid_exchange h .decrypt ciphertext
  | permute => exact valid_permute d
  | startFrame => exact valid_startFrame h
  | ratchet => exact valid_ratchet h
  | wipe => exact valid_fresh

/-- Every run leaves a valid duplex. -/
theorem valid_run {d : Duplex P} (h : d.Valid) (calls : List Call) : (d.run calls).2.Valid := by
  induction calls generalizing d with
  | nil => exact h
  | cons c rest ih => exact ih (valid_call h c)

/-- No call leaves the window full, wherever the frame starts. -/
theorem position_call_lt {d : Duplex P} (room : d.position < window) (c : Call) :
    (d.call c).2.position < window := by
  cases c with
  | absorb input => exact position_exchange_lt room .absorb input
  | squeeze count => exact position_exchange_lt room .squeeze (Bytes.zeros count)
  | encrypt plaintext => exact position_exchange_lt room .encrypt plaintext
  | decrypt ciphertext => exact position_exchange_lt room .decrypt ciphertext
  | permute => exact (valid_permute d).position_lt
  | startFrame => exact position_exchange_lt room .absorb [d.frame.toUInt8]
  | ratchet => exact (by decide : capacity < window)
  | wipe => exact valid_fresh.position_lt

/-! ## The four calls -/

/-- An absorb leaves its buffer as it was. -/
theorem steps_absorb_fst (d : Duplex P) (buffer : Bytes) : (d.steps .absorb buffer).1 = buffer := by
  induction buffer generalizing d with
  | nil => rfl
  | cons b rest ih => exact congrArg (b :: ·) (ih (d.step .absorb b).2)

/-- Absorbing gives the bytes back as they are. -/
theorem exchange_absorb_fst {d : Duplex P} (room : d.position < window) (buffer : Bytes) :
    (d.exchange .absorb buffer).1 = buffer := by
  rw [exchange_eq_steps room, steps_absorb_fst]

/-- The answer of one call followed by that of another one on the duplex that the first one left. -/
def andThen (first : Bytes × Duplex P) (next : Duplex P → Bytes × Duplex P) : Bytes × Duplex P :=
  (first.1 ++ (next first.2).1, (next first.2).2)

/-- A squeeze does not depend on what was in its buffer. -/
theorem steps_squeeze_congr (d : Duplex P) {a b : Bytes} (same : a.length = b.length) :
    d.steps .squeeze a = d.steps .squeeze b := by
  induction a generalizing b d with
  | nil =>
    rw [List.eq_nil_of_length_eq_zero same.symm]
  | cons x rest ih =>
    obtain ⟨y, tail, rfl⟩ := List.exists_cons_of_length_eq_add_one same.symm
    have tail_eq : rest.length = tail.length := Nat.succ.inj same
    have first : d.step .squeeze x = d.step .squeeze y := rfl
    rw [steps_cons, steps_cons, first, ih _ tail_eq]

/-- What a squeeze finds in its buffer makes no difference. -/
theorem exchange_squeeze_congr {d : Duplex P} (room : d.position < window) {a b : Bytes}
    (same : a.length = b.length) : d.exchange .squeeze a = d.exchange .squeeze b := by
  rw [exchange_eq_steps room, exchange_eq_steps room, steps_squeeze_congr d same]

/-- To squeeze into a buffer is to read its bytes off the rate, one by one. -/
theorem squeeze_eq_steps {d : Duplex P} (room : d.position < window) (buffer : Bytes) :
    d.squeeze buffer.length = d.steps .squeeze buffer := by
  have same : (Bytes.zeros buffer.length).length = buffer.length := Bytes.length_zeros _
  rw [squeeze, exchange_eq_steps room, steps_squeeze_congr d same]

/-- Two outputs are squeezed as one. -/
theorem squeeze_add {d : Duplex P} (room : d.position < window) (m n : Nat) :
    d.squeeze (m + n) = andThen (d.squeeze m) (·.squeeze n) := by
  have zeros_add : Bytes.zeros (m + n) = Bytes.zeros m ++ Bytes.zeros n := by
    rw [Bytes.zeros, Bytes.zeros, Bytes.zeros, List.replicate_append_replicate]
  unfold squeeze
  rw [zeros_add]
  exact exchange_append room .squeeze _ _

/-- Absorbing, squeezing, encrypting and decrypting a buffer `a` each do what the machine does byte
by byte, and a call on `a` followed by one on `b` is one call on both. A squeeze overwrites its
buffer, so there only the length of the buffer counts. -/
theorem calls_are_bytewise {d : Duplex P} (room : d.position < window) (a b : Bytes) :
    (d.absorb a = (d.steps .absorb a).2 ∧
      d.absorb (a ++ b) = (d.absorb a).absorb b) ∧
    (d.squeeze a.length = d.steps .squeeze a ∧
      d.squeeze (a.length + b.length) = andThen (d.squeeze a.length) (·.squeeze b.length)) ∧
    (d.encrypt a = d.steps .encrypt a ∧
      d.encrypt (a ++ b) = andThen (d.encrypt a) (·.encrypt b)) ∧
    (d.decrypt a = d.steps .decrypt a ∧
      d.decrypt (a ++ b) = andThen (d.decrypt a) (·.decrypt b)) := by
  refine ⟨⟨?_, ?_⟩, ⟨?_, ?_⟩, ⟨?_, ?_⟩, ⟨?_, ?_⟩⟩
  · exact congrArg Prod.snd (exchange_eq_steps room .absorb a)
  · unfold absorb
    rw [exchange_append room]
  · exact squeeze_eq_steps room a
  · exact squeeze_add room a.length b.length
  · exact exchange_eq_steps room .encrypt a
  · exact exchange_append room .encrypt a b
  · exact exchange_eq_steps room .decrypt a
  · exact exchange_append room .decrypt a b

/-- Two bytes from the end of the window, a call on five bytes crosses a permutation that notes the
frame, whether it is made at once, in two parts or byte by byte. -/
theorem calls_are_bytewise_over_seam :
    let d : Duplex { name := "identity", apply := id } :=
      { state := State.zero, position := 164, frame := 3 }
    d.position < window ∧
      d.encrypt [1, 2, 3, 4, 5] = d.steps .encrypt [1, 2, 3, 4, 5] ∧
      d.encrypt ([1, 2] ++ [3, 4, 5]) = andThen (d.encrypt [1, 2]) (·.encrypt [3, 4, 5]) := by
  intro d
  have room : d.position < window := by decide
  have whole := calls_are_bytewise room [1, 2, 3, 4, 5] []
  have parts := calls_are_bytewise room [1, 2] [3, 4, 5]
  exact ⟨room, whole.2.2.1.1, parts.2.2.1.2⟩

end SpongeTranscript.Duplex
