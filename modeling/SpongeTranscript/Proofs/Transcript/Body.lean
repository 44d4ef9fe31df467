import Mathlib.Algebra.Ring.Nat
import SpongeTranscript.Transcript.Body
import SpongeTranscript.Proofs.Transcript.Duality

set_option autoImplicit false

/-!
# Bodies in pieces

Feeding a body piece by piece is feeding it the pieces put together (`feed_append`), and what a
piece becomes does not depend on what comes behind it (`feed_take`). So a body that is opened, fed
and closed is the operation in one call (`Body.Opens`), as long as the count of its bytes does not
wrap.
-/

namespace SpongeTranscript

variable {P : Permutation}

/-- Two buffers are exchanged as one. -/
theorem Transcript.exchange_append {t : Transcript P} (room : t.duplex.position < window)
    (e : Exchange) (a c : Bytes) :
    t.exchange e (a ++ c) =
      ((t.exchange e a).1 ++ ((t.exchange e a).2.exchange e c).1,
        ((t.exchange e a).2.exchange e c).2) := by
  unfold exchange
  dsimp only
  rw [Duplex.exchange_append room]

namespace Body

/-- A body that has room keeps room. -/
theorem position_feed_lt {b : Body P} (room : b.transcript.duplex.position < window)
    (piece : Bytes) : (b.feed piece).2.transcript.duplex.position < window :=
  Duplex.position_exchange_lt room b.kind.exchange piece

/-- Feeding nothing changes nothing. -/
theorem feed_nil {b : Body P} (room : b.transcript.duplex.position < window) :
    b.feed [] = ([], b) := by
  unfold feed Transcript.exchange
  dsimp only
  rw [Duplex.exchange_eq_steps room]
  simp

/-- Where a body is cut into pieces makes no difference. -/
theorem feed_append {b : Body P} (room : b.transcript.duplex.position < window) (a c : Bytes) :
    b.feed (a ++ c) =
      ((b.feed a).1 ++ ((b.feed a).2.feed c).1, ((b.feed a).2.feed c).2) := by
  have count_eq : b.count + (a ++ c).length.toUInt64 =
      b.count + a.length.toUInt64 + c.length.toUInt64 := by
    rw [List.length_append, UInt64.add_assoc]
    congr 1
    exact UInt64.ofNat_add a.length c.length
  unfold feed
  dsimp only
  rw [Transcript.exchange_append room, count_eq]

/-- What the first bytes of a piece become does not depend on the others. -/
theorem feed_take {b : Body P} (room : b.transcript.duplex.position < window) (piece : Bytes)
    (count : Nat) : (b.feed (piece.take count)).1 = (b.feed piece).1.take count := by
  have whole := congrArg Prod.fst (feed_append room (piece.take count) (piece.drop count))
  rw [List.take_append_drop] at whole
  rw [whole]
  by_cases inside : count ≤ piece.length
  · have length_eq : (b.feed (piece.take count)).1.length = count := by
      rw [length_feed, List.length_take]
      omega
    exact (List.take_left' length_eq).symm
  · have nothing : piece.drop count = [] := List.drop_of_length_le (by omega)
    have short : (b.feed (piece.take count)).1.length ≤ count := by
      rw [length_feed]
      exact List.length_take_le count piece
    rw [nothing, feed_nil (position_feed_lt room _), List.append_nil,
      List.take_of_length_le short]

end Body

/-! ## Opened, fed and closed -/

/-- Encrypts or decrypts in one call. -/
def Transcript.crypt (t : Transcript P) (label : String) (direction : Direction) (text : Bytes) :
    Bytes × Transcript P :=
  match direction with
  | .encrypt => t.encrypt label text
  | .decrypt => t.decrypt label text

/-- An encryption or a decryption is an exchange under the key. -/
theorem Transcript.crypt_eq (t : Transcript P) (label : String) (direction : Direction)
    (text : Bytes) :
    t.crypt label direction text =
      t.exchangeUnderKey .crypt label (BodyKind.crypt direction).exchange text := by
  cases direction <;> rfl

/-- A body that nothing has been fed to counts what it is fed. -/
theorem Body.count_feed_of_zero {b : Body P} (zero : b.count = 0) {text : Bytes}
    (few : text.length < 2 ^ 64) : (b.feed text).2.count.toNat = text.length := by
  have count_eq : (b.feed text).2.count = b.count + text.length.toUInt64 := rfl
  rw [count_eq, zero, UInt64.zero_add]
  exact UInt64.toNat_ofNat_of_lt' few

/-- A body that encrypts or decrypts starts behind a permutation, so it has room. -/
theorem room_openCrypt (t : Transcript P) (label : String) (direction : Direction) :
    (t.openCrypt label direction).transcript.duplex.position < window :=
  t.announce .crypt label |>.position_permute_lt

/-- Fed with the whole text, the body gives what one call returns. -/
theorem feed_openCrypt (t : Transcript P) (label : String) (direction : Direction)
    (text : Bytes) :
    ((t.openCrypt label direction).feed text).1 = (t.crypt label direction text).1 := by
  rw [Transcript.crypt_eq]
  rfl

/-- Fed with a text whose length is a word, the body has counted it. -/
theorem count_feed_openCrypt (t : Transcript P) (label : String) (direction : Direction)
    {text : Bytes} (few : text.length < 2 ^ 64) :
    ((t.openCrypt label direction).feed text).2.count.toNat = text.length :=
  Body.count_feed_of_zero rfl few

/-- A body that is opened, fed and closed is the encryption or decryption in one call. -/
theorem close_feed_openCrypt (t : Transcript P) (label : String) (direction : Direction)
    {text : Bytes} (few : text.length < 2 ^ 64) :
    ((t.openCrypt label direction).feed text).2.close = (t.crypt label direction text).2 := by
  unfold Body.close
  rw [count_feed_openCrypt t label direction few, Transcript.crypt_eq]
  rfl

/-- An announcement never leaves the window full. -/
theorem Transcript.position_announce_lt {t : Transcript P} (room : t.duplex.position < window)
    (op : Opcode) (label : String) : (t.announce op label).duplex.position < window := by
  have marked := Duplex.position_exchange_lt room .absorb [t.duplex.frame.toUInt8]
  have started : t.duplex.startFrame.position < window := marked
  exact Duplex.position_exchange_lt started .absorb (header op label)

/-- Pieces of a mix stay as they are. -/
theorem Body.feed_mix_fst {b : Body P} (mix : b.kind = .mix)
    (room : b.transcript.duplex.position < window) (piece : Bytes) :
    (b.feed piece).1 = piece := by
  unfold feed
  rw [mix]
  exact Duplex.exchange_absorb_fst room piece

/-- A body that is opened, fed and closed is the mix in one call. -/
theorem close_feed_openMix (t : Transcript P) (label : String) {input : Bytes}
    (few : input.length < 2 ^ 64) :
    ((t.openMix label).feed input).2.close = t.mix label input := by
  have zero : (t.openMix label).count = 0 := rfl
  unfold Body.close
  rw [Body.count_feed_of_zero zero few]
  rfl

/-- A body opens an operation: fed with a text it returns what the operation does, and closed after
that it leaves the transcript that the operation leaves. -/
structure Body.Opens (b : Body P) (operation : Bytes → Bytes × Transcript P) : Prop where
  room : b.transcript.duplex.position < window
  count_eq_zero : b.count = 0
  feed_eq : ∀ text, (b.feed text).1 = (operation text).1
  close_eq : ∀ text, text.length < 2 ^ 64 → (b.feed text).2.close = (operation text).2

namespace Body.Opens

variable {b fed : Body P} {operation : Bytes → Bytes × Transcript P} {text : Bytes}

/-- A body that was fed a text whose length is a word has counted it. -/
theorem count_of_fed (opens : b.Opens operation) (few : text.length < 2 ^ 64)
    (fed_eq : fed = (b.feed text).2) : fed.count.toNat = text.length := by
  rw [fed_eq]
  exact count_feed_of_zero opens.count_eq_zero few

end Body.Opens

/-- A mix that is opened where there is room is completed as one call. -/
theorem opens_openMix {t : Transcript P} (room : t.duplex.position < window) (label : String) :
    (t.openMix label).Opens fun input => (input, t.mix label input) where
  room := t.position_announce_lt room .mix label
  count_eq_zero := rfl
  feed_eq text := Body.feed_mix_fst rfl (t.position_announce_lt room .mix label) text
  close_eq _ few := close_feed_openMix t label few

/-- An encryption or decryption that is opened is completed as one call. -/
theorem opens_openCrypt (t : Transcript P) (label : String) (direction : Direction) :
    (t.openCrypt label direction).Opens (t.crypt label direction) where
  room := room_openCrypt t label direction
  count_eq_zero := rfl
  feed_eq := feed_openCrypt t label direction
  close_eq _ few := close_feed_openCrypt t label direction few

end SpongeTranscript
