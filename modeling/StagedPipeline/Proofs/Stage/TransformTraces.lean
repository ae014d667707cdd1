import StagedPipeline.Proofs.Stage.Logs
import StagedPipeline.Proofs.Stage.TransformMoves
import StagedPipeline.Proofs.Pull.Settling
import Mathlib.Data.List.ReduceOption

/-!
# The traces of a transform stage

A task is known by where it stands and by its log. Both together say what it has done at
its two conduits, and at which point of the evaluation by pulling its stage is: which
packs it was given, what its handler has left of them, and which of these packs is still
in its hands or was written to nobody.
-/
namespace StagedPipeline.TransformStage

variable {σ : Type}

namespace Phase

/-- Whether the task may still take packs. -/
@[simp] def consumes : Phase → Bool
  | .idle | .starting | .reading | .handling _ _ | .offering _ | .awaiting _ _ => true
  | _ => false

/-- The pack that was taken and not yet given to the handler. -/
@[simp] def inHand : Phase → Option Pack
  | .handling body context => some ⟨some body, context⟩
  | _ => none

/-- The pack that the handler has left and that has not found its reader. -/
@[simp] def onOffer : Phase → Option Pack
  | .offering p => some p
  | .awaiting p _ => some p
  | _ => none

/-- The write that has not ended, with its ticket. -/
@[simp] def pending : Phase → Option (Option Pack × Nat)
  | .awaiting p t => some (some p, t)
  | _ => none

/-- The error that the task is about to put, now or after the sections that lead to it. -/
@[simp] def owed : Phase → Option Error
  | .reporting e => some (Pull.reported faultError e)
  | .abandoning what => some (faultError what)
  | .faulting what => some (faultError what)
  | .reportingFault what => some (faultError what)
  | .relaying e => some e
  | _ => none

/-- Whether the task is bound to report a fault. -/
@[simp] def faultDue : Phase → Bool
  | .reporting e => e.isNull
  | .abandoning _ => true
  | .faulting _ => true
  | _ => false

/-- Whether the task has reported a fault, where its place alone tells. -/
@[simp] def faulted? : Phase → Option Bool
  | .reportingFault _ => some true
  | .releasing | .polling | .confirming | .relaying _ | .completing | .closingErrors
  | .closingData | .finalizing | .finishing | .finished => none
  | _ => some false

@[simp] def hasDrained : Phase → Bool
  | .completing | .closingErrors | .closingData | .finalizing | .finishing | .finished => true
  | _ => false

@[simp] def hasClosedErrors : Phase → Bool
  | .closingData | .finalizing | .finishing | .finished => true
  | _ => false

@[simp] def hasClosedData : Phase → Bool
  | .finalizing | .finishing | .finished => true
  | _ => false

/-- All that the traces of a task depend on in its place. -/
def view (phase : Phase) :
    Bool × Option Pack × Option Pack × Option Error × Bool × Option Bool :=
  (phase.consumes, phase.inHand, phase.onOffer, phase.owed, phase.faultDue, phase.faulted?)

/-- Whether the task has closed the data channel of its input, where its place alone tells. -/
@[simp] def released? : Phase → Option Bool
  | .releasing => none
  | .faulting _ | .reportingFault _ | .polling | .confirming | .relaying _ | .completing
  | .closingErrors | .closingData | .finalizing | .finishing | .finished => some true
  | _ => some false

end Phase

/-- Whether the task has closed the data channel of its input. On the way to the closing
that every task does at the end, one that has reported a fault has closed it before. -/
def hasReleased (s : TransformStage σ) : Bool := s.phase.released?.getD s.faulted

/-- What the task has done at its input. -/
def readerSide (s : TransformStage σ) (log : List Event) : ReaderSide where
  taken := Event.collect Event.received? log
  polled := Event.collect Event.polled? log
  shut := s.hasReleased
  ended := !s.phase.consumes && !Event.anyStops log
  drained := s.phase.hasDrained

/-- What the task has done at its output. -/
def writerSide (s : TransformStage σ) (log : List Event) : WriterSide where
  sent := Event.collect Event.sent? log
  pending := s.phase.pending
  lost := Event.collect Event.lost? log
  put := Event.collect Event.accepted? log
  errorsClosed := s.phase.hasClosedErrors
  dataClosed := s.phase.hasClosedData

/-- The point of the evaluation at which a task stands that has this log: its stage was
`x₀` and is `x`, was given the packs `ps` and has left the packs `qs`, and the pack `held`
after them, which has found no reader. -/
structure Traces (x₀ : Pull.Stage σ) (s : TransformStage σ) (log : List Event)
    (ps qs : List Pack) (held : Option Pack) (x : Pull.Stage σ) : Prop where
  handler : x₀.handler = some s.handler
  holds : x₀.Holds s.handler ps qs held x
  memory : x.memory = s.memory
  received : (Event.collect Event.received? log).reduceOption = ps ++ s.phase.inHand.toList
  handed : Event.collect Event.handed? log = x.handled
  sent : Event.collect Event.sent? log = qs.map some
  /-- While the task may take packs, nothing has gone wrong yet. -/
  going : s.phase.consumes = true →
    held = s.phase.onOffer ∧ Event.collect Event.lost? log = [] ∧ Event.anyStops log = false ∧
      Event.collect Event.polled? log = [] ∧ x.ended = false ∧ x.report = none
  /-- Afterwards, what it holds is what it has lost, and it has stopped on its own account
  if it has lost something or has an error of its own. -/
  stopped : s.phase.consumes = false →
    Event.collect Event.lost? log = held.toList.map some ∧
      Event.anyStops log = (held.isSome || x.report.isSome)
  ended : x.ended = x.report.isSome
  failures : (Event.collect Event.failure? log).length = x.report.toList.length
  /-- It puts its own error first and then those of its input. -/
  put : Event.collect Event.accepted? log ++ s.phase.owed.toList =
    x.report.toList ++ Event.collect Event.polled? log
  faulted : x.faulted = (s.faulted || s.phase.faultDue)
  faulted? : ∀ b, s.phase.faulted? = some b → s.faulted = b
  kept : Event.collect Event.dropped? log = []
  started : s.phase ≠ .idle
  closed : s.phase = .finished → s.lifecycle = .closed

variable {s s' : TransformStage σ} {inp inp' out out' : Conduit} {events log : List Event}
  {x₀ x : Pull.Stage σ} {ps qs : List Pack} {held : Option Pack} {h : Handler σ}

/-! ## What a call of the handler comes to -/

theorem take_bare {p : Pack} (hp : p.body = none) : x.take h p = (x, none) := by
  rw [Pull.Stage.take, hp]

theorem take_success {body : ByteStream} {context : Context}
    (hv : (h x.memory context body).verdict = .success) :
    x.take h ⟨some body, context⟩ =
      ({ x with
          memory := (h x.memory context body).memory
          handled := x.handled ++ [⟨some body, context⟩] }, leftBy (h x.memory context body)) := by
  simp only [Pull.Stage.take, hv, leftBy]

theorem take_failure {body : ByteStream} {context : Context} {e : Error}
    (hv : (h x.memory context body).verdict = .failure e) :
    x.take h ⟨some body, context⟩ =
      ({ x with
          memory := (h x.memory context body).memory
          handled := x.handled ++ [⟨some body, context⟩]
          ended := true
          report := some (Pull.reported faultError e)
          faulted := e.isNull }, none) := by
  simp only [Pull.Stage.take, hv]

theorem take_fault {body : ByteStream} {context : Context} {f : Fault}
    (hv : (h x.memory context body).verdict = .fault f) :
    x.take h ⟨some body, context⟩ =
      ({ x with
          memory := (h x.memory context body).memory
          handled := x.handled ++ [⟨some body, context⟩]
          ended := true
          report := some (faultError f.describe)
          faulted := true }, none) := by
  simp only [Pull.Stage.take, hv]

/-! ## Every move keeps the traces -/

/-- A task that is launched has no trace yet. -/
theorem traces_launch (s : TransformStage σ) (hf : s.faulted = false)
    (hx : x₀.handler = some s.handler) (hm : x₀.memory = s.memory) (hh : x₀.handled = [])
    (he : x₀.ended = false) (hr : x₀.report = none) (hxf : x₀.faulted = false) :
    s.launch.Traces x₀ [] [] [] none x₀ where
  handler := hx
  holds := .nothing .nil
  memory := hm
  received := rfl
  handed := hh.symm
  sent := rfl
  going _ := ⟨rfl, rfl, rfl, rfl, he, hr⟩
  stopped hc := by simp [launch] at hc
  ended := by simp [he, hr]
  failures := by rw [hr]; rfl
  put := by simp [launch, hr]
  faulted := by simp [launch, hxf, hf]
  faulted? b hb := by simpa [launch, hf] using hb
  kept := rfl
  started hc := by simp [launch] at hc
  closed hc := by simp [launch] at hc

/-- A move that nothing in the traces depends on. -/
theorem traces_quiet (ht : s.Traces x₀ log ps qs held x) (silent : Event.Silent events)
    (hh : s'.handler = s.handler) (hm : s'.memory = s.memory) (hf : s'.faulted = s.faulted)
    (hv : s'.phase.view = s.phase.view) (hi : s'.phase ≠ .idle)
    (hc : s'.phase = .finished → s'.lifecycle = .closed) :
    s'.Traces x₀ (log ++ events) ps qs held x := by
  -- the place of the task enters the traces only by its view, and the log by what is not silent
  simp only [Phase.view, Prod.mk.injEq] at hv
  obtain ⟨consumes, inHand, onOffer, owed, faultDue, faulted?⟩ := hv
  have stops := Event.anyStops_append_silent log silent
  constructor <;> try simp only [hh, hm, hf, consumes, inHand, onOffer, owed, faultDue, faulted?,
    stops, Event.collect_append_silent log silent]
  · exact ht.handler
  · exact ht.holds
  · exact ht.memory
  · exact ht.received
  · exact ht.handed
  · exact ht.sent
  · exact ht.going
  · exact ht.stopped
  · exact ht.ended
  · exact ht.failures
  · exact ht.put
  · exact ht.faulted
  · exact ht.faulted?
  · exact ht.kept
  · exact hi
  · exact hc

/-- A task that may still take packs has no errors and has not lost anything. -/
theorem traces_going (ht : s.Traces x₀ log ps qs held x) (hc : s.phase.consumes = true) :
    held = s.phase.onOffer ∧ Event.collect Event.lost? log = [] ∧ Event.anyStops log = false ∧
      Event.collect Event.polled? log = [] ∧ Event.collect Event.accepted? log = [] ∧
      x.ended = false ∧ x.report = none ∧ x.faulted = false ∧ s.faulted = false := by
  obtain ⟨held, lost, stops, polled, goes, report⟩ := ht.going hc
  obtain ⟨owed, due, free⟩ : s.phase.owed = none ∧ s.phase.faultDue = false ∧
      s.phase.faulted? = some false := by
    cases hp : s.phase <;> simp_all
  have free := ht.faulted? false free
  have put := ht.put
  have faulted := ht.faulted
  rw [owed, report, polled] at put
  rw [due, free] at faulted
  exact ⟨held, lost, stops, polled, by simpa using put, goes, report, faulted, free⟩

/-- The end of the input. -/
theorem traces_meetEnd (ht : s.Traces x₀ log ps qs held x) (at' : s.phase = .reading) :
    { s with phase := .releasing }.Traces x₀ log ps qs held x := by
  obtain ⟨rfl, lost, stops, polled, put, goes, report, faulted, free⟩ :=
    traces_going ht (by rw [at']; rfl)
  have received := ht.received
  rw [at'] at received
  exact
    { ht with
      received
      put := by simp [put, report, polled]
      going := by simp
      stopped := by simp [at', lost, stops, report]
      faulted := by simp [faulted, free]
      faulted? := by simp
      started := by simp
      closed := by simp }

/-- A pack that is taken for the handler. -/
theorem traces_receive {body : ByteStream} {context : Context}
    (ht : s.Traces x₀ log ps qs held x) (at' : s.phase = .reading) :
    { s with phase := .handling body context }.Traces x₀
      (log ++ [Event.received (some ⟨some body, context⟩)]) ps qs held x := by
  obtain ⟨rfl, lost, stops, polled, put, goes, report, faulted, free⟩ :=
    traces_going ht (by rw [at']; rfl)
  have received := ht.received
  rw [at'] at received
  constructor
  case holds => simpa [at'] using ht.holds
  all_goals simp [List.reduceOption_append, at', ht.handler, ht.memory, received, ht.handed,
    ht.sent, lost, stops, polled, put, goes, report, ht.failures, faulted, free, ht.kept]

/-- A place without a body, which the handler does not see. -/
theorem traces_skip {place : Option Pack} (ht : s.Traces x₀ log ps qs held x)
    (at' : s.phase = .reading) (bare : place.bind Pack.body = none)
    (silent : Event.Silent events) :
    s.Traces x₀ (log ++ Event.received place :: events) (ps ++ place.toList) qs held x := by
  obtain ⟨rfl, lost, stops, polled, put, goes, report, faulted, free⟩ :=
    traces_going ht (by rw [at']; rfl)
  have received := ht.received
  rw [at'] at received
  have holds : x₀.Holds s.handler (ps ++ place.toList) qs none x := by
    have holds := ht.holds
    rw [at'] at holds
    cases place with
    | none => simpa using holds
    | some p =>
      have same : x.take s.handler p = (x, none) := take_bare bare
      have taken := Pull.stage_holds_take (p := p) holds goes (by rw [same])
      rwa [same] at taken
  constructor
  case holds => simpa [at'] using holds
  all_goals cases place <;> simp [List.reduceOption_append, Event.collect_silent silent,
    Event.anyStops_silent silent, at', ht.handler, ht.memory, received, ht.handed, ht.sent, lost,
    stops, polled, put, goes, report, ht.failures, faulted, free, ht.kept]

/-- A call of the handler that has succeeded. -/
theorem traces_succeed {body : ByteStream} {context : Context}
    (ht : s.Traces x₀ log ps qs held x) (at' : s.phase = .handling body context)
    (verdict : (s.handler s.memory context body).verdict = .success)
    (silent : Event.Silent events) :
    (s.afterSuccess (s.handler s.memory context body).memory
        (leftBy (s.handler s.memory context body))).Traces x₀
      (log ++ Event.handled ⟨some body, context⟩ .success :: events)
      (ps ++ [⟨some body, context⟩]) qs (leftBy (s.handler s.memory context body))
      (x.take s.handler ⟨some body, context⟩).1 := by
  obtain ⟨rfl, lost, stops, polled, put, goes, report, faulted, free⟩ :=
    traces_going ht (by rw [at']; rfl)
  have holds := ht.holds
  have received := ht.received
  rw [at'] at holds received
  rw [← ht.memory] at verdict ⊢
  have take := take_success verdict
  have after : x₀.Holds s.handler (ps ++ [⟨some body, context⟩]) qs
      (leftBy (s.handler x.memory context body)) (x.take s.handler ⟨some body, context⟩).1 := by
    cases hq : leftBy (s.handler x.memory context body) with
    | none => exact Pull.stage_holds_take holds goes ((congrArg Prod.snd take).trans hq)
    | some q => exact Pull.stage_holds_left holds goes ((congrArg Prod.snd take).trans hq)
  constructor
  case holds => exact after
  all_goals cases hq : leftBy (s.handler x.memory context body) <;>
    simp [afterSuccess, hq, take, Event.collect_silent silent, Event.anyStops_silent silent,
      ht.handler, received, ht.handed, ht.sent, lost, stops, polled, put, goes, report,
      ht.failures, faulted, free, ht.kept]

/-- A call of the handler that has not succeeded, after which the stage has an error to put. -/
theorem traces_failed {body : ByteStream} {context : Context} {v : Handler.Verdict} {e : Error}
    {due : Bool} (ht : s.Traces x₀ log ps qs held x) (at' : s.phase = .handling body context)
    (take : x.take s.handler ⟨some body, context⟩ =
      ({ x with
          memory := (s.handler x.memory context body).memory
          handled := x.handled ++ [⟨some body, context⟩]
          ended := true
          report := some e
          faulted := due }, none))
    (bad : v ≠ .success) (silent : Event.Silent events) (hh : s'.handler = s.handler)
    (hm : s'.memory = (s.handler s.memory context body).memory) (hf : s'.faulted = s.faulted)
    (hv : s'.phase.view = (false, none, none, some e, due, some false)) :
    s'.Traces x₀ (log ++ Event.handled ⟨some body, context⟩ v :: events)
      (ps ++ [⟨some body, context⟩]) qs none (x.take s.handler ⟨some body, context⟩).1 := by
  obtain ⟨rfl, lost, stops, polled, put, goes, report, faulted, free⟩ :=
    traces_going ht (by rw [at']; rfl)
  have holds := ht.holds
  have received := ht.received
  rw [at'] at holds received
  have after := Pull.stage_holds_take holds goes (congrArg Prod.snd take)
  have fails : Event.failure? (.handled ⟨some body, context⟩ v) = some v := by
    cases v <;> first | rfl | exact absurd rfl bad
  have stop : Event.stops (.handled ⟨some body, context⟩ v) = true := by
    cases v <;> first | rfl | exact absurd rfl bad
  have idle : s'.phase ≠ .idle := by
    rintro hp
    simp [hp, Phase.view] at hv
  have going : s'.phase ≠ .finished := by
    rintro hp
    simp [hp, Phase.view] at hv
  simp only [Phase.view, Prod.mk.injEq] at hv
  obtain ⟨consumes, inHand, _, owed, faultDue, faulted?⟩ := hv
  constructor
  case holds => rw [hh]; exact after
  case started => exact idle
  case closed => exact fun h => absurd h going
  all_goals try simp only [consumes, inHand, owed, faultDue, faulted?, Event.collect_append,
    Event.anyStops_append, Event.collect_cons, Event.anyStops_cons, fails, stop,
    Event.collect_silent silent, Event.anyStops_silent silent, take]
  all_goals simp [hh, hm, hf, ht.handler, ht.memory, received, ht.handed, ht.sent, lost, stops,
    polled, put, report, ht.failures, free, ht.kept]

/-- A write that has found its reader. -/
theorem traces_settle {p : Pack} {t : Nat} (ht : s.Traces x₀ log ps qs held x)
    (at' : s.phase = .awaiting p t) :
    { s with phase := .reading }.Traces x₀ (log ++ [Event.wrote (some p) true]) ps (qs ++ [p])
      none x := by
  obtain ⟨rfl, lost, stops, polled, put, goes, report, faulted, free⟩ :=
    traces_going ht (by rw [at']; rfl)
  have holds := ht.holds
  have received := ht.received
  rw [at'] at holds received
  constructor
  case holds => exact Pull.stage_holds_sent holds
  all_goals simp [ht.handler, ht.memory, received, ht.handed, ht.sent, lost, stops, polled, put,
    goes, report, ht.failures, faulted, free, ht.kept]

/-- A write that has found the channel closed. -/
theorem traces_lose {p : Pack} (ht : s.Traces x₀ log ps qs held x)
    (hv : s.phase.view = (true, none, some p, none, false, some false))
    (silent : Event.Silent events) :
    { s with phase := .releasing }.Traces x₀ (log ++ Event.wrote (some p) false :: events) ps qs
      held x := by
  simp only [Phase.view, Prod.mk.injEq] at hv
  obtain ⟨consumes, inHand, onOffer, _⟩ := hv
  obtain ⟨hheld, lost, stops, polled, put, goes, report, faulted, free⟩ := traces_going ht consumes
  have received := ht.received
  rw [inHand] at received
  rw [onOffer] at hheld
  constructor
  case holds => exact ht.holds
  all_goals simp [hheld, Event.collect_silent silent, Event.anyStops_silent silent, ht.handler,
    ht.memory, received, ht.handed, ht.sent, lost, stops, polled, put, goes, report, ht.failures,
    faulted, free, ht.kept]

/-- A putting that has ended, of an error of the stage or of its input. -/
theorem traces_put {e : Error} {phase : Phase} {faulted? : Option Bool}
    (ht : s.Traces x₀ log ps qs held x)
    (hv : s.phase.view = (false, none, none, some e, false, faulted?))
    (hp : phase = .releasing ∨ phase = .polling) :
    { s with phase }.Traces x₀ (log ++ Event.putting e .accepted) ps qs held x := by
  simp only [Phase.view, Prod.mk.injEq] at hv
  obtain ⟨consumes, inHand, _, owed, due, _⟩ := hv
  obtain ⟨lost, stops⟩ := ht.stopped consumes
  have received := ht.received
  have put := ht.put
  have faulted := ht.faulted
  rw [inHand] at received
  rw [owed] at put
  rw [due] at faulted
  rcases hp with rfl | rfl <;> constructor
  case inl.holds | inr.holds => exact ht.holds
  case inl.put | inr.put => simpa using put
  all_goals simp [ht.handler, ht.memory, received, ht.handed, ht.sent, lost, stops, ht.ended,
    ht.failures, faulted, ht.kept]

/-- An error that is taken from the input. -/
theorem traces_poll {e : Error} (ht : s.Traces x₀ log ps qs held x) (at' : s.phase = .polling) :
    { s with phase := .relaying e }.Traces x₀ (log ++ [Event.polled e]) ps qs held x := by
  obtain ⟨lost, stops⟩ := ht.stopped (by rw [at']; rfl)
  have received := ht.received
  have put := ht.put
  have faulted := ht.faulted
  rw [at'] at received put faulted
  constructor
  case holds => exact ht.holds
  case put =>
    simp only [Phase.owed, Option.toList_none, List.append_nil] at put
    simp [put]
  all_goals simp [ht.handler, ht.memory, received, ht.handed, ht.sent, lost, stops, ht.ended,
    ht.failures, faulted, ht.kept]

/-- The announcement of a fault. -/
theorem traces_concede {what : Bytes} (ht : s.Traces x₀ log ps qs held x)
    (at' : s.phase = .faulting what) (silent : Event.Silent events) :
    { s with phase := .reportingFault what, lifecycle := .faulted, faulted := true }.Traces x₀
      (log ++ events) ps qs held x := by
  obtain ⟨lost, stops⟩ := ht.stopped (by rw [at']; rfl)
  have received := ht.received
  have put := ht.put
  have faulted := ht.faulted
  rw [at'] at received put faulted
  constructor
  case holds => exact ht.holds
  case put => simpa [Event.collect_silent silent] using put
  all_goals simp [Event.collect_silent silent, Event.anyStops_silent silent, ht.handler, ht.memory,
    received, ht.handed, ht.sent, lost, stops, ht.ended, ht.failures, faulted, ht.kept]

/-- Every move leads to a point of the evaluation. -/
theorem traces_move (ht : s.Traces x₀ log ps qs held x) (hm : s.Move inp out s' inp' out' events)
    (ho : out.errors.queue.closed = s.phase.hasClosedErrors) :
    ∃ ps' qs' held' x', s'.Traces x₀ (log ++ events) ps' qs' held' x' := by
  have nothing : s'.Traces x₀ log ps qs held x → s'.Traces x₀ (log ++ []) ps qs held x := by
    rw [List.append_nil]
    exact id
  cases hm with
  | meetEnd at' done => exact ⟨_, _, _, _, nothing (traces_meetEnd ht at')⟩
  | receive at' done => exact ⟨_, _, _, _, traces_receive ht at'⟩
  | skip at' done bare => exact ⟨_, _, _, _, traces_skip ht at' bare (Event.silent_saying _)⟩
  | fault at' verdict =>
    rw [← ht.memory] at verdict
    exact ⟨_, _, _, _, traces_failed ht at' (take_fault verdict) (by simp)
      (Event.silent_saying _) rfl rfl rfl rfl⟩
  | fail at' verdict =>
    rw [← ht.memory] at verdict
    exact ⟨_, _, _, _, traces_failed ht at' (take_failure verdict) (by simp)
      (Event.silent_append (Event.silent_saying _) (Event.silent_saying _)) rfl rfl rfl rfl⟩
  | succeed at' verdict =>
    exact ⟨_, _, _, _, traces_succeed ht at' verdict (Event.silent_saying _)⟩
  | settle at' done => exact ⟨_, _, _, _, traces_settle ht at'⟩
  | refuse at' done | lose at' done =>
    exact ⟨_, _, _, _, traces_lose ht (by rw [at']; rfl) (Event.silent_saying _)⟩
  | report at' null done =>
    -- nobody has closed the errors before the task does, so the putting is accepted
    obtain rfl := Reports.accepted_of_forward (by simpa [at'] using ho) done
    rename_i e errors
    have owes : s.phase.view = (false, none, none, some e, false, some false) := by
      rw [at']
      simp [Phase.view, Pull.reported, null]
    exact ⟨_, _, _, _, traces_put ht owes (.inl rfl)⟩
  | reportFault at' done =>
    obtain rfl := Reports.accepted_of_forward (by simpa [at'] using ho) done
    exact ⟨_, _, _, _, traces_put ht (by rw [at']; rfl) (.inl rfl)⟩
  | relay at' done =>
    obtain rfl := Reports.accepted_of_forward (by simpa [at'] using ho) done
    exact ⟨_, _, _, _, traces_put ht (by rw [at']; rfl) (.inr rfl)⟩
  | poll at' done => exact ⟨_, _, _, _, traces_poll ht at'⟩
  | concede at' => exact ⟨_, _, _, _, traces_concede ht at' (Event.silent_saying _)⟩
  | reject at' null =>
    have same : (Phase.abandoning Reports.nullFault.describe).view = s.phase.view := by
      rw [at']
      simp [Phase.view, Pull.reported, null]
    exact ⟨_, _, _, _, traces_quiet ht (Event.silent_rejected _ _) rfl rfl rfl same (by simp)
      (by simp)⟩
  | start at' =>
    exact ⟨_, _, _, _, traces_quiet ht (Event.silent_saying _) rfl rfl rfl (by rw [at']; rfl)
      (by simp) (by simp)⟩
  | finish at' =>
    exact ⟨_, _, _, _, traces_quiet ht (Event.silent_saying _) rfl rfl rfl (by rw [at']; rfl)
      (by simp) fun _ => rfl⟩
  | finalize at' =>
    exact ⟨_, _, _, _, traces_quiet ht (Finalization.silent_run _ _) rfl rfl rfl (by rw [at']; rfl)
      (by simp) (by simp)⟩
  | place at' done | abandon at' | release at' | pollEnd at' done | confirm at' done
  | retry at' more | complete at' | closeErrors at' | closeData at' =>
    exact ⟨_, _, _, _, traces_quiet ht Event.silent_nil rfl rfl rfl (by rw [at']; rfl)
      (by simp) (by simp)⟩

/-! ## Every move is a step of a reader and a step of a writer -/

theorem readerStep_move (ht : s.Traces x₀ log ps qs held x)
    (hm : s.Move inp out s' inp' out' events) :
    inp.ReaderStep (s.readerSide log) inp' (s'.readerSide (log ++ events)) := by
  have free := ht.faulted?
  have going := ht.going
  clear ht
  have same : s'.readerSide (log ++ events) = s.readerSide log →
      inp.ReaderStep (s.readerSide log) inp (s'.readerSide (log ++ events)) :=
    fun he => he ▸ .idle
  cases hm with
  | meetEnd at' done =>
    have he : { s with phase := Phase.releasing }.readerSide (log ++ []) =
        { s.readerSide log with ended := true } := by
      simp_all [readerSide, hasReleased]
    rw [he]
    exact .meetEnd (by simp [readerSide, hasReleased, at']) done
  | receive at' done =>
    have hs := Conduit.ReaderStep.take (r := s.readerSide log) done
    simpa [readerSide, hasReleased, at'] using hs
  | skip at' done bare =>
    have hs := Conduit.ReaderStep.take (r := s.readerSide log) done
    simpa [readerSide, hasReleased, at'] using hs
  | succeed at' verdict =>
    refine same ?_
    clear same
    cases hq : leftBy (s.handler s.memory _ _) <;>
      simp_all [readerSide, hasReleased, afterSuccess]
  | abandon at' =>
    have hs := Conduit.ReaderStep.shut (c := inp) (r := s.readerSide log)
    simpa [readerSide, hasReleased, at'] using hs
  | release at' =>
    have hs := Conduit.ReaderStep.shut (c := inp) (r := s.readerSide log)
    simpa [readerSide, hasReleased, at'] using hs
  | poll at' done =>
    have hs := Conduit.ReaderStep.poll (r := s.readerSide log) done
    simpa [readerSide, hasReleased, at'] using hs
  | pollEnd at' done =>
    obtain ⟨_, _, rfl⟩ := Reports.receive_end done
    exact same (by simp [readerSide, hasReleased, at'])
  | confirm at' done =>
    have hs := Conduit.ReaderStep.drained (r := s.readerSide log) done
    simpa [readerSide, hasReleased, at'] using hs
  | _ =>
    refine same ?_
    clear same
    simp_all [readerSide, hasReleased, afterFault, afterFailure]

theorem writerStep_move (hm : s.Move inp out s' inp' out' events)
    (ho : out.errors.queue.closed = s.phase.hasClosedErrors) :
    out.WriterStep (s.writerSide log) out' (s'.writerSide (log ++ events)) := by
  have same : s'.writerSide (log ++ events) = s.writerSide log →
      out.WriterStep (s.writerSide log) out (s'.writerSide (log ++ events)) :=
    fun he => he ▸ .idle
  cases hm with
  | succeed at' verdict =>
    refine same ?_
    cases hq : leftBy (s.handler s.memory _ _) <;> simp [writerSide, afterSuccess, at']
  | refuse at' done =>
    have hs := Conduit.WriterStep.refuse (w := s.writerSide log) (by simp [writerSide, at'])
      (by simp [writerSide, at']) done
    simpa [writerSide, at'] using hs
  | place at' done =>
    have hs := Conduit.WriterStep.place (w := s.writerSide log) (by simp [writerSide, at']) done
    simpa [writerSide, at'] using hs
  | settle at' done =>
    have waits : (s.writerSide log).pending = some (some _, _) := congrArg Phase.pending at'
    have hs := Conduit.WriterStep.settle waits done
    simpa [writerSide, at'] using hs
  | lose at' done =>
    have waits : (s.writerSide log).pending = some (some _, _) := congrArg Phase.pending at'
    have hs := Conduit.WriterStep.lose waits (by simp [writerSide, at']) done
    simpa [writerSide, at'] using hs
  | report at' null done | reportFault at' done | relay at' done =>
    obtain rfl := Reports.accepted_of_forward (by simpa [at'] using ho) done
    have hs := Conduit.WriterStep.put (w := s.writerSide log) (by simp [writerSide, at']) done
    simpa [writerSide, at'] using hs
  | closeErrors at' =>
    have hs := Conduit.WriterStep.closeErrors (c := out) (w := s.writerSide log)
    simpa [writerSide, at'] using hs
  | closeData at' =>
    have hs := Conduit.WriterStep.closeData (c := out) (w := s.writerSide log)
    simpa [writerSide, at'] using hs
  | _ => exact same (by simp_all [writerSide, afterFault, afterFailure])

/-- A poll whose time is over leaves everything as it was, but for the place of the task. -/
theorem expire_confirming (he : s.expire? inp = some s') :
    s.phase = .polling ∧ inp.errors.canExpire = true ∧ s' = { s with phase := .confirming } := by
  unfold expire? at he
  split at he
  · rename_i hp
    split at he
    · rename_i hc
      exact ⟨hp, hc, (Option.some.inj he).symm⟩
    · cases he
  · cases he

theorem traces_expire (ht : s.Traces x₀ log ps qs held x) (he : s.expire? inp = some s') :
    s'.Traces x₀ log ps qs held x ∧ s'.readerSide log = s.readerSide log ∧
      s'.writerSide log = s.writerSide log := by
  obtain ⟨hp, _, rfl⟩ := expire_confirming he
  have quiet : { s with phase := .confirming }.Traces x₀ (log ++ []) ps qs held x :=
    traces_quiet ht Event.silent_nil rfl rfl rfl (by rw [hp]; rfl) (by simp) (by simp)
  rw [List.append_nil] at quiet
  refine ⟨quiet, ?_, ?_⟩
  · simp [readerSide, hasReleased, hp]
  · simp [writerSide, hp]

end StagedPipeline.TransformStage
