import SpongeTranscript.Proofs.Duplex.Stepwise

set_option autoImplicit false

/-!
# Exchanges that undo each other

Encryption leaves the ciphertext in the rate, and so does decryption, though one side knows it as
the sum of rate and plaintext and the other as the byte that it received. One exchange undoes
another if it gives back the buffer and leaves the same rate, byte by byte; then it does so for
whole buffers, across every permutation between (`exchange_undone`). Encryption and decryption undo
each other in both orders.

Where the two sides cut the text into calls makes no difference. A text that was encrypted piece by
piece is decrypted by other pieces of the ciphertext, and the other way round
(`recut_calls_undo`).

A squeeze is the opposite case: nothing of the buffer goes into what it leaves.
-/

namespace SpongeTranscript

namespace Exchange

/-- Applied to what `e` made of a byte, `back` returns the byte and leaves the same rate byte. -/
def Undoes (back e : Exchange) : Prop :=
  ∀ r b, back.bufferByte r (e.bufferByte r b) = b ∧
    back.rateByte r (e.bufferByte r b) = e.rateByte r b

/-- A byte that is added twice is gone. -/
theorem xor_xor_cancel (r b : UInt8) : r ^^^ (r ^^^ b) = b := by
  rw [← UInt8.xor_assoc, UInt8.xor_self, UInt8.zero_xor]

/-- Decryption gives the plaintext back and leaves the same rate byte. -/
theorem decrypt_undoes_encrypt : decrypt.Undoes encrypt := by
  intro r b
  exact ⟨xor_xor_cancel r b, rfl⟩

/-- Encryption gives the ciphertext back and leaves the same rate byte. -/
theorem encrypt_undoes_decrypt : encrypt.Undoes decrypt := by
  intro r b
  exact ⟨xor_xor_cancel r b, xor_xor_cancel r b⟩

end Exchange

namespace Duplex

variable {P : Permutation}

/-- One byte is given back, and the duplex moves on in the same way. -/
theorem step_undone {back e : Exchange} (h : back.Undoes e) (d : Duplex P) (b : UInt8) :
    d.step back (d.step e b).1 = (b, (d.step e b).2) := by
  obtain ⟨buffer_eq, rate_eq⟩ := h (d.state.byte d.position) b
  unfold step
  dsimp only
  rw [buffer_eq, rate_eq]

/-- So are the bytes of a buffer, one by one. -/
theorem steps_undone {back e : Exchange} (h : back.Undoes e) (d : Duplex P) (buffer : Bytes) :
    d.steps back (d.steps e buffer).1 = (buffer, (d.steps e buffer).2) := by
  induction buffer generalizing d with
  | nil => rfl
  | cons b rest ih =>
    rw [steps_cons, steps_cons, step_undone h]
    dsimp only
    rw [ih]

/-- Exchanging what came out of an exchange gives the buffer back, and leaves the same duplex. -/
theorem exchange_undone {back e : Exchange} (h : back.Undoes e) {d : Duplex P}
    (room : d.position < window) (buffer : Bytes) :
    d.exchange back (d.exchange e buffer).1 = (buffer, (d.exchange e buffer).2) := by
  rw [exchange_eq_steps room, exchange_eq_steps room, steps_undone h]

/-! ## Texts in pieces -/

/-- Calls of one kind exchange their pieces as one call exchanges all of them. -/
theorem run_pieces {kind : Bytes → Call} {e : Exchange}
    (exchanges : ∀ (d : Duplex P) (piece : Bytes), d.call (kind piece) = d.exchange e piece)
    {d : Duplex P} (room : d.position < window) (pieces : List Bytes) :
    (d.run (pieces.map kind)).1.flatten = (d.exchange e pieces.flatten).1 ∧
      (d.run (pieces.map kind)).2 = (d.exchange e pieces.flatten).2 := by
  induction pieces generalizing d with
  | nil =>
    rw [List.flatten_nil, exchange_eq_steps room]
    exact ⟨rfl, rfl⟩
  | cons piece rest ih =>
    have first := exchanges d piece
    obtain ⟨out_eq, left_eq⟩ := ih (position_exchange_lt room e piece)
    rw [List.map_cons, List.flatten_cons, exchange_append room, run, first]
    dsimp only
    rw [List.flatten_cons, out_eq, left_eq]
    exact ⟨rfl, rfl⟩

/-- Pieces are given back whatever cuts are made on the way back. -/
theorem pieces_undone {kind backKind : Bytes → Call} {e back : Exchange}
    (exchanges : ∀ (d : Duplex P) (piece : Bytes), d.call (kind piece) = d.exchange e piece)
    (exchanges_back : ∀ (d : Duplex P) (piece : Bytes),
      d.call (backKind piece) = d.exchange back piece)
    (undoes : back.Undoes e) {d : Duplex P} (room : d.position < window) {pieces recut : List Bytes}
    (same : recut.flatten = (d.run (pieces.map kind)).1.flatten) :
    (d.run (recut.map backKind)).1.flatten = pieces.flatten ∧
      (d.run (recut.map backKind)).2 = (d.run (pieces.map kind)).2 := by
  obtain ⟨out_eq, left_eq⟩ := run_pieces exchanges room pieces
  obtain ⟨back_out_eq, back_left_eq⟩ := run_pieces exchanges_back room recut
  rw [back_out_eq, back_left_eq, same, out_eq, left_eq, exchange_undone undoes room]
  exact ⟨rfl, rfl⟩

/-- However a text is cut into calls that encrypt it, and however the ciphertext is then cut into
calls that decrypt it, the text comes back and the same duplex is left. The same holds if decryption
comes first. -/
theorem recut_calls_undo {d : Duplex P} (room : d.position < window) (pieces recut : List Bytes) :
    (recut.flatten = (d.run (pieces.map .encrypt)).1.flatten →
      (d.run (recut.map .decrypt)).1.flatten = pieces.flatten ∧
        (d.run (recut.map .decrypt)).2 = (d.run (pieces.map .encrypt)).2) ∧
    (recut.flatten = (d.run (pieces.map .decrypt)).1.flatten →
      (d.run (recut.map .encrypt)).1.flatten = pieces.flatten ∧
        (d.run (recut.map .encrypt)).2 = (d.run (pieces.map .decrypt)).2) := by
  have encrypts (d : Duplex P) (piece : Bytes) : d.call (.encrypt piece) = d.encrypt piece := rfl
  have decrypts (d : Duplex P) (piece : Bytes) : d.call (.decrypt piece) = d.decrypt piece := rfl
  constructor
  · intro same
    exact pieces_undone encrypts decrypts Exchange.decrypt_undoes_encrypt room same
  · intro same
    exact pieces_undone decrypts encrypts Exchange.encrypt_undoes_decrypt room same

/-- One side reaches the end of the window inside its second call, the other one inside its
first. -/
theorem recut_calls_undo_over_seam :
    let P : Permutation := { name := "successor", apply := Vector.map (· + 1) }
    let d : Duplex P := { state := State.zero, position := 164, frame := 3 }
    let text : List Bytes := [[1], [2, 3, 4, 5]]
    let other : List Bytes := [[1, 2, 2], [], [5, 4]]
    d.position < window ∧
      other.flatten = (d.run (text.map .encrypt)).1.flatten ∧
      (d.run (other.map .decrypt)).1.flatten = text.flatten ∧
      (d.run (other.map .decrypt)).2 = (d.run (text.map .encrypt)).2 ∧
      text.flatten = (d.run (other.map .decrypt)).1.flatten ∧
      (d.run (text.map .encrypt)).1.flatten = other.flatten := by
  intro P d text other
  have room : d.position < window := by decide
  have encrypted : other.flatten = (d.run (text.map .encrypt)).1.flatten := by decide +kernel
  obtain ⟨decrypted, same_duplex⟩ := (recut_calls_undo room text other).1 encrypted
  have encrypted_again := (recut_calls_undo room other text).2 decrypted.symm
  exact ⟨room, encrypted, decrypted, same_duplex, decrypted.symm, encrypted_again.1⟩

end Duplex

end SpongeTranscript
