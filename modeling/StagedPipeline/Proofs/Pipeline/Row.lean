import StagedPipeline.Proofs.Stage.TransformTraces
import StagedPipeline.Pipeline

/-!
# The invariant of a row

In a row every conduit lies between two parties. `Station.Sound` walks along the row and
says of each conduit that it fits what its writer and its reader have done, and of each
task at which point of the evaluation it is. A step of one party changes the conduits on
both of its sides, each of them in a way that fits the party on the other side whatever
that party has done, so nothing else in the row has to be looked at.
-/
namespace StagedPipeline

/-- The log of the station behind. -/
abbrev shifted (logs : Nat → List Event) : Nat → List Event := fun i => logs (i + 1)

namespace Station

variable {σ : Type}

/-- The task at a position makes a move between the conduits on both sides of it. -/
inductive Moved : Nat → Conduit → List (Station σ) → Conduit → List (Station σ) → List Event →
    Prop where
  | here {c c' s s' out out' row events} (move : s.Move c out s' c' out' events) :
      Moved 0 c (.working s out :: row) c' (.working s' out' :: row) events
  | passing {i c c' x row row' events} (behind : Moved i c row c' row' events) :
      Moved (i + 1) c (.passing x :: row) c' (.passing x :: row') events
  | unconnected {i c c' x row row' events} (behind : Moved i c row c' row' events) :
      Moved (i + 1) c (.unconnected x :: row) c' (.unconnected x :: row') events
  | working {i c s out out' row row' events} (behind : Moved i out row out' row' events) :
      Moved (i + 1) c (.working s out :: row) c (.working s out' :: row') events

theorem moved_of_advance {i : Nat} {c c' : Conduit} {row row' : List (Station σ)}
    {events : List Event} (ha : Station.advance? i c row = some (c', row', events)) :
    Moved i c row c' row' events := by
  induction row generalizing i c c' row' with
  | nil => simp [Station.advance?] at ha
  | cons x row ih =>
    cases i with
    | zero =>
      cases x with
      | working s out =>
        simp only [Station.advance?, Option.map_eq_some_iff, Prod.exists, Prod.mk.injEq] at ha
        obtain ⟨s', c₁, out', events₁, ha, rfl, rfl, rfl⟩ := ha
        exact .here (TransformStage.move_of_advance ha)
      | _ => simp [Station.advance?] at ha
    | succ i =>
      cases x <;>
      · simp only [Station.advance?, Option.map_eq_some_iff, Prod.exists, Prod.mk.injEq] at ha
        obtain ⟨c₁, row₁, events₁, ha, rfl, rfl, rfl⟩ := ha
        constructor
        exact ih ha

/-- The task at a position leaves a poll whose time is over. -/
inductive Expired : Nat → Conduit → List (Station σ) → List (Station σ) → Prop where
  | here {c s s' out row} (expire : s.expire? c = some s') :
      Expired 0 c (.working s out :: row) (.working s' out :: row)
  | passing {i c x row row'} (behind : Expired i c row row') :
      Expired (i + 1) c (.passing x :: row) (.passing x :: row')
  | unconnected {i c x row row'} (behind : Expired i c row row') :
      Expired (i + 1) c (.unconnected x :: row) (.unconnected x :: row')
  | working {i c s out row row'} (behind : Expired i out row row') :
      Expired (i + 1) c (.working s out :: row) (.working s out :: row')

theorem expired_of_expire {i : Nat} {c : Conduit} {row row' : List (Station σ)}
    (he : Station.expire? i c row = some row') : Expired i c row row' := by
  induction row generalizing i c row' with
  | nil => simp [Station.expire?] at he
  | cons x row ih =>
    cases i with
    | zero =>
      cases x with
      | working s out =>
        obtain ⟨s', he', rfl⟩ := Option.map_eq_some_iff.mp he
        exact .here he'
      | _ => simp [Station.expire?] at he
    | succ i =>
      cases x <;>
      · obtain ⟨row₁, he', rfl⟩ := Option.map_eq_some_iff.mp he
        constructor
        exact ih he'

/-- A row behind a conduit whose writer has done `w`, with the planned stages, the logs of
the stations and what the reader at the end of the row has done. There are `k` working
stations in front of it. -/
inductive Sound (cap : Nat) (r : ReaderSide) : Nat → WriterSide → Conduit → List (Station σ) →
    List (Pull.Stage σ) → (Nat → List Event) → Prop where
  | terminal {k w c logs} (links : c.Links w r) (room : c.errors.capacity.toNat = cap + 2 * k)
      (silent : ∀ i, logs i = []) : Sound cap r k w c [] [] logs
  | passing {k w c logs finalization row x₀ plan} (bare : x₀.handler = none)
      (silent : logs 0 = []) (rest : Sound cap r k w c row plan (shifted logs)) :
      Sound cap r k w c (.passing finalization :: row) (x₀ :: plan) logs
  | working {k w c logs s out row x₀ plan} (links : c.Links w (s.readerSide (logs 0)))
      (room : c.errors.capacity.toNat = cap + 2 * k)
      (traces : ∃ ps qs held x, s.Traces x₀ (logs 0) ps qs held x)
      (rest : Sound cap r (k + 1) (s.writerSide (logs 0)) out row plan (shifted logs)) :
      Sound cap r k w c (.working s out :: row) (x₀ :: plan) logs

variable {cap k i : Nat} {r r' : ReaderSide} {w w' : WriterSide} {c c' : Conduit}
  {row row' : List (Station σ)} {plan : List (Pull.Stage σ)} {logs logs' : Nat → List Event}
  {events : List Event}

/-- The conduit in front of a row has a reader, who is known from the row. -/
theorem sound_front (hs : Sound cap r k w c row plan logs) :
    c.errors.capacity.toNat = cap + 2 * k ∧ ∃ r', c.Links w r' := by
  induction hs with
  | terminal links room _ => exact ⟨room, _, links⟩
  | passing _ _ _ ih => exact ih
  | working links room _ _ _ => exact ⟨room, _, links⟩

theorem sound_writerStep (hs : Sound cap r k w c row plan logs) (hw : c.WriterStep w c' w') :
    Sound cap r k w' c' row plan logs := by
  have hc := Conduit.capacity_writerStep hw
  induction hs with
  | terminal links room silent =>
    exact .terminal (Conduit.links_writerStep links hw) (hc ▸ room) silent
  | passing bare silent _ ih => exact .passing bare silent (ih hw hc)
  | working links room traces rest _ =>
    exact .working (Conduit.links_writerStep links hw) (hc ▸ room) traces rest

/-- The error channel behind a task is closed if the task has closed it. -/
theorem errors_closed {s : TransformStage σ} {log : List Event} {out : Conduit}
    (hs : Sound cap r k (s.writerSide log) out row plan logs) :
    out.errors.queue.closed = s.phase.hasClosedErrors := by
  obtain ⟨_, r', links⟩ := sound_front hs
  exact links.errorsClosed

/-- A move of the task at a position, whose log it makes longer. -/
theorem sound_moved (hs : Sound cap r k w c row plan logs) (hm : Moved i c row c' row' events)
    (hi : logs' i = logs i ++ events) (ho : ∀ j, j ≠ i → logs' j = logs j) :
    Sound cap r k w c' row' plan logs' := by
  -- The stations in front of the task keep their logs and their conduits. Behind it there is
  -- one step of the writer of the next conduit, which fits whatever the reader there has done.
  induction hm generalizing k w plan logs logs' with
  | @here c c' s s' out out' row events move =>
    cases hs with
    | working links room traces rest =>
      obtain ⟨ps, qs, held, x, ht⟩ := traces
      have closed := errors_closed rest
      have hr := TransformStage.readerStep_move ht move
      have hw : out.WriterStep (s.writerSide (logs 0)) out' (s'.writerSide (logs 0 ++ events)) :=
        TransformStage.writerStep_move move closed
      have tail : shifted logs' = shifted logs := funext fun j => ho (j + 1) (by simp)
      rw [← hi] at hr hw
      refine .working (Conduit.links_readerStep links hr)
        ((congrArg UInt64.toNat (Conduit.capacity_readerStep hr)).trans room) ?_ ?_
      · rw [hi]
        exact TransformStage.traces_move ht move closed
      · rw [tail]
        exact sound_writerStep rest hw
  | passing behind ih =>
    cases hs with
    | passing bare silent rest =>
      refine .passing bare ((ho 0 (by simp)).trans silent) ?_
      exact ih rest hi fun j hj => ho (j + 1) (by omega)
  | unconnected behind ih => cases hs
  | working behind ih =>
    cases hs with
    | working links room traces rest =>
      have head := ho 0 (by simp)
      refine .working (head ▸ links) room (head ▸ traces) ?_
      rw [head]
      exact ih rest hi fun j hj => ho (j + 1) (by omega)

theorem sound_expired (hs : Sound cap r k w c row plan logs) (he : Expired i c row row') :
    Sound cap r k w c row' plan logs := by
  induction he generalizing k w plan logs with
  | here expire =>
    cases hs with
    | working links room traces rest =>
      obtain ⟨ps, qs, held, x, ht⟩ := traces
      obtain ⟨ht', hr, hw⟩ := TransformStage.traces_expire ht expire
      exact .working (hr ▸ links) room ⟨ps, qs, held, x, ht'⟩ (hw ▸ rest)
  | passing behind ih =>
    cases hs with
    | passing bare silent rest => exact .passing bare silent (ih rest)
  | unconnected behind ih => cases hs
  | working behind ih =>
    cases hs with
    | working links room traces rest => exact .working links room traces (ih rest)

/-- A section of the reader at the end of the row, which may be any step of a reader there. -/
theorem sound_terminal {β : Type} {b : β} {f : Conduit → Option (Conduit × β)}
    (hs : Sound cap r k w c row plan logs) (hf : atTerminal? f c row = some (c', row', b)) :
    ∃ end', f (terminal c row) = some (end', b) ∧
      ∀ r', (terminal c row).ReaderStep r end' r' → Sound cap r' k w c' row' plan logs := by
  induction hs generalizing c' row' with
  | terminal links room silent =>
    simp only [atTerminal?, Option.map_eq_some_iff, Prod.exists, Prod.mk.injEq] at hf
    obtain ⟨c₁, b₁, hf, rfl, rfl, rfl⟩ := hf
    refine ⟨c₁, hf, fun r' hr => .terminal (Conduit.links_readerStep links hr) ?_ silent⟩
    exact (congrArg UInt64.toNat (Conduit.capacity_readerStep hr)).trans room
  | passing bare silent rest ih =>
    simp only [atTerminal?, Option.map_eq_some_iff, Prod.exists, Prod.mk.injEq] at hf
    obtain ⟨c₁, row₁, b₁, hf, rfl, rfl, rfl⟩ := hf
    obtain ⟨end', he, hr⟩ := ih hf
    exact ⟨end', he, fun r' step => .passing bare silent (hr r' step)⟩
  | working links room traces rest ih =>
    simp only [atTerminal?, Option.map_eq_some_iff, Prod.exists, Prod.mk.injEq] at hf
    obtain ⟨out', row₁, b₁, hf, rfl, rfl, rfl⟩ := hf
    obtain ⟨end', he, hr⟩ := ih hf
    exact ⟨end', he, fun r' step => .working links room traces (hr r' step)⟩

theorem sound_release (hs : Sound cap r k w c row plan logs) (i : Nat) :
    Sound cap r k w c (release i c row).1 plan logs := by
  induction hs generalizing i with
  | terminal links room silent => cases i <;> exact .terminal links room silent
  | passing bare silent rest ih =>
    cases i with
    | zero => exact .passing bare silent rest
    | succ i => exact .passing bare silent (ih i)
  | working links room traces rest ih =>
    cases i with
    | zero =>
      obtain ⟨ps, qs, held, x, ht⟩ := traces
      exact .working links room ⟨ps, qs, held, x, by cases ht; constructor <;> assumption⟩ rest
    | succ i => exact .working links room traces (ih i)

/-- A release leaves events of no other kind than lines and the call of a finalizer. -/
theorem collect_release {β : Type} {f : Event → Option β} [Event.Skips f] (i : Nat) (c : Conduit)
    (row : List (Station σ)) : Event.collect f (release i c row).2 = [] := by
  induction row generalizing i c with
  | nil => cases i <;> rfl
  | cons s row ih =>
    cases i with
    | zero => cases s <;> exact Finalization.collect_run _ _
    | succ i => cases s <;> exact ih i _

/-! ## A row that was just set up -/

theorem create_capacity {capacity : UInt64} {interval : Int} {c : Conduit}
    (h : Conduit.create capacity interval = .ok c) :
    capacity ≠ 0 ∧ c.errors.capacity = capacity := by
  unfold Conduit.create Reports.create at h
  split at h
  · cases h
  · rename_i hc
    cases h
    exact ⟨by simpa using hc, rfl⟩

theorem create_ok {capacity : UInt64} (hc : capacity ≠ 0) (interval : Int) :
    ∃ c, Conduit.create capacity interval = .ok c := by
  simp [Conduit.create, Reports.create, hc, Except.map]

/-- The output for an input has room for two more errors, unless their number overflows. -/
theorem outputFor_room (hl : c.errors.capacity.toNat + 2 < UInt64.size) :
    ∃ out, TransformStage.outputFor c = .ok out ∧ out.Links {} {} ∧
      out.errors.capacity.toNat = c.errors.capacity.toNat + 2 := by
  have sum : (c.errors.capacity + TransformStage.extraCapacity).toNat =
      c.errors.capacity.toNat + 2 := by
    rw [UInt64.toNat_add]
    exact Nat.mod_eq_of_lt hl
  have pos : c.errors.capacity + TransformStage.extraCapacity ≠ 0 := by
    intro h
    rw [h] at sum
    simp at sum
  obtain ⟨out, ho⟩ := create_ok pos c.errors.interval
  exact ⟨out, ho, Conduit.links_fresh ho, by rw [(create_capacity ho).2, sum]⟩

theorem sound_connect (stages : List (Pipeline.Stage σ)) (links : c.Links {} {})
    (room : c.errors.capacity.toNat = cap + 2 * k)
    (bound : cap + 2 * (k + stages.length) < UInt64.size) :
    ∃ row, Pipeline.connect c stages = (row, none) ∧ row.length = stages.length ∧
      Sound cap {} k {} c row (stages.map Pull.Stage.ofPlan) (fun _ => []) := by
  induction stages generalizing c k with
  | nil => exact ⟨[], rfl, rfl, .terminal links room fun _ => rfl⟩
  | cons s stages ih =>
    rw [List.length_cons] at bound
    cases hh : s.handler with
    | none =>
      -- its input is the output as well, so the room does not grow
      obtain ⟨row, hrow, length, hs⟩ := ih links room (by omega)
      refine ⟨.passing { finalizer := s.finalizer } :: row, ?_, ?_, ?_⟩
      · simp only [Pipeline.connect, hh, hrow]
      · rw [List.length_cons, List.length_cons, length]
      · exact .passing hh rfl hs
    | some h =>
      obtain ⟨out, hout, links', room'⟩ := outputFor_room (c := c) (by omega)
      obtain ⟨row, hrow, length, hs⟩ := ih (k := k + 1) links' (by omega) (by omega)
      let fresh : TransformStage σ :=
        { handler := h, memory := s.memory, finalization := { finalizer := s.finalizer } }
      refine ⟨.working fresh.launch out :: row, ?_, ?_, ?_⟩
      · simp only [Pipeline.connect, hh, hout, hrow, fresh]
      · rw [List.length_cons, List.length_cons, length]
      · refine .working links room ⟨[], [], none, Pull.Stage.ofPlan s, ?_⟩ hs
        exact TransformStage.traces_launch fresh rfl hh rfl rfl rfl rfl rfl

end Station
end StagedPipeline
