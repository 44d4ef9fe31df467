import SpongeTranscript.Proofs.Stream.Delivery
import SpongeTranscript.Proofs.Stream.Passage

set_option autoImplicit false

/-!
# Excerpts and the whole

A sink bounds the retries that it asks for, and a source runs dry. A behaviour without such a bound
is followed in excerpts of it, and a call that returns on the whole has seen finitely many answers.

So it is enough to look at excerpts. As long as answers are left over, a longer excerpt behaves as a
shorter one (`view_extend`), and so does the whole where it is itself a sink or a source
(`view_state`). A session that leaves answers over has the same log and the same transcript on every
longer excerpt and on the whole, and leaves the same adapter (`Writer.session_extend`,
`Writer.session_state`, and likewise for readers).
-/

namespace SpongeTranscript

universe u v

variable {P : Permutation} {σ τ : Type u}

/-- What a view shows of a session. -/
def Session.map {ρ : Type v} {α β : Type u} (view : α → β) (x : Session ρ α P) : Session ρ β P where
  log := x.log.map fun entry => (entry.1, view entry.2)
  last := view x.last
  transcript := x.transcript

/-! ## Sinks -/

section Sinks

variable {next : σ → (offer : Bytes) → Except Fault { n : Nat // n ≤ offer.length } × σ}
  {pass : σ → Except Fault Unit × σ}

/-- A write does not add to the writes that are left. -/
theorem SinkExcerpt.left_write_le (s : SinkExcerpt next pass) (offer : Bytes) :
    (s.write offer).2.left ≤ s.left := by
  obtain ⟨state, left⟩ := s
  cases left with
  | zero => exact Nat.le_refl 0
  | succ left => exact Nat.le_succ left

/-- As long as writes are left over, it makes no difference how many. -/
theorem SinkExcerpt.view_extend (more : Nat) :
    Sink.View (fun s : SinkExcerpt next pass => s.extend more) fun s => 0 < s.left where
  write_eq s offer some_left := by
    obtain ⟨state, left⟩ := s
    cases left with
    | zero => exact absurd some_left (Nat.lt_irrefl 0)
    | succ left =>
      have longer : left + 1 + more = left + more + 1 := by omega
      change SinkExcerpt.write ⟨state, left + 1 + more⟩ offer = _
      rw [longer]
      rfl
  flush_eq _ _ := rfl
  write_within s offer some_left := Nat.lt_of_lt_of_le some_left (s.left_write_le offer)
  flush_within _ some_left := some_left

/-- As long as writes are left over, an excerpt of a sink behaves as the sink. -/
theorem SinkExcerpt.view_state [Sink σ] :
    Sink.View (SinkExcerpt.state : SinkExcerpt (σ := σ) Sink.write Sink.flush → σ)
      fun s => 0 < s.left where
  write_eq s offer some_left := by
    obtain ⟨state, left⟩ := s
    cases left with
    | zero => exact absurd some_left (Nat.lt_irrefl 0)
    | succ left => rfl
  flush_eq _ _ := rfl
  write_within s offer some_left := Nat.lt_of_lt_of_le some_left (s.left_write_le offer)
  flush_within _ some_left := some_left

namespace Writer

/-- A session in front of a sink is the session in front of what a view shows of it. -/
theorem session_mapSink [Sink σ] [Sink τ] {view : τ → σ} {within : τ → Prop}
    (h : Sink.View view within) {w : Writer P τ} {calls : List WriteCall} {ending : Ending}
    (ends : within (w.session calls ending).last.sink) :
    (w.mapSink view).session calls ending = (w.session calls ending).map (mapSink view) := by
  have same : runCalls WriteCall.on ending.stopsAt (mapSink view w) calls = _ :=
    (view_mapSink h).runCalls_eq ends
  unfold session
  rw [same]
  rfl

/-- A session that leaves writes over is the same in front of a longer excerpt. -/
theorem session_extend {w : Writer P (SinkExcerpt next pass)} {calls : List WriteCall}
    {ending : Ending} (some_left : 0 < (w.session calls ending).last.sink.left) (more : Nat) :
    (w.mapSink fun s => s.extend more).session calls ending =
      (w.session calls ending).map (mapSink fun s => s.extend more) :=
  session_mapSink (SinkExcerpt.view_extend more) some_left

/-- A session that leaves writes over is the same in front of the whole sink. -/
theorem session_state [Sink σ] {w : Writer P (SinkExcerpt (σ := σ) Sink.write Sink.flush)}
    {calls : List WriteCall} {ending : Ending}
    (some_left : 0 < (w.session calls ending).last.sink.left) :
    (w.mapSink SinkExcerpt.state).session calls ending =
      (w.session calls ending).map (mapSink SinkExcerpt.state) :=
  session_mapSink SinkExcerpt.view_state some_left

end Writer

end Sinks

/-! ## Sources -/

section Sources

variable {next : σ → (room : Nat) → Except Fault { piece : Bytes // piece.length ≤ room } × σ}

/-- A read does not add to the reads that are left. -/
theorem Excerpt.left_read_le (s : Excerpt next) (room : Nat) : (s.read room).2.left ≤ s.left := by
  obtain ⟨state, left⟩ := s
  cases left with
  | zero => exact Nat.le_refl 0
  | succ left => exact Nat.le_succ left

/-- As long as reads are left over, it makes no difference how many. -/
theorem Excerpt.view_extend (more : Nat) :
    Source.View (fun s : Excerpt next => s.extend more) fun s => 0 < s.left where
  read_eq s room some_left := by
    obtain ⟨state, left⟩ := s
    cases left with
    | zero => exact absurd some_left (Nat.lt_irrefl 0)
    | succ left =>
      have longer : left + 1 + more = left + more + 1 := by omega
      change Excerpt.read ⟨state, left + 1 + more⟩ room = _
      rw [longer]
      rfl
  read_within s room some_left := Nat.lt_of_lt_of_le some_left (s.left_read_le room)

/-- As long as reads are left over, an excerpt of a source behaves as the source. -/
theorem Excerpt.view_state [Source σ] :
    Source.View (Excerpt.state : Excerpt (σ := σ) Source.read → σ) fun s => 0 < s.left where
  read_eq s room some_left := by
    obtain ⟨state, left⟩ := s
    cases left with
    | zero => exact absurd some_left (Nat.lt_irrefl 0)
    | succ left => rfl
  read_within s room some_left := Nat.lt_of_lt_of_le some_left (s.left_read_le room)

namespace Reader

/-- A session behind a source is the session behind what a view shows of it. -/
theorem session_mapSource [Source σ] [Source τ] {view : τ → σ} {within : τ → Prop}
    (h : Source.View view within) {r : Reader P τ} {calls : List ReadCall} {ending : Ending}
    (ends : within (r.session calls ending).last.source) :
    (r.mapSource view).session calls ending = (r.session calls ending).map (mapSource view) := by
  have same : runCalls ReadCall.on (fun answer => ending.stopsAt answer.outcome)
      (mapSource view r) calls = _ :=
    (view_mapSource h).runCalls_eq ends
  unfold session
  rw [same]
  rfl

/-- A session that leaves reads over is the same behind a longer excerpt. -/
theorem session_extend {r : Reader P (Excerpt next)} {calls : List ReadCall} {ending : Ending}
    (some_left : 0 < (r.session calls ending).last.source.left) (more : Nat) :
    (r.mapSource fun s => s.extend more).session calls ending =
      (r.session calls ending).map (mapSource fun s => s.extend more) :=
  session_mapSource (Excerpt.view_extend more) some_left

/-- A session that leaves reads over is the same behind the whole source. -/
theorem session_state [Source σ] {r : Reader P (Excerpt (σ := σ) Source.read)}
    {calls : List ReadCall} {ending : Ending}
    (some_left : 0 < (r.session calls ending).last.source.left) :
    (r.mapSource Excerpt.state).session calls ending =
      (r.session calls ending).map (mapSource Excerpt.state) :=
  session_mapSource Excerpt.view_state some_left

end Reader

end Sources

end SpongeTranscript
