import StagedPipeline.Proofs.Stage.Conduct
import StagedPipeline.Proofs.Pipeline.Schedule

/-!
# What a drain without errors means

A drain hands every pack to the application and returns the errors. If it returns none,
the producer has come to its end, nothing was lost on the way and no handler has failed;
and if all of this is so, it returns none. Each direction follows the row once: a reader
who was told of no error and has found the end of the data makes its writer one who was
told of no error either.
-/
namespace StagedPipeline

variable {π σ : Type}

namespace Pull

variable {h : Handler σ} {x₀ x : Stage σ} {ps qs : List Pack}

/-- A stage that has not ended has replayed the packs with a body that it was given. -/
theorem takes_replay (ht : x₀.Takes h ps qs x) (hx : x.ended = false) (hh : x₀.handled = []) :
    x.handled = Pack.bodied ps ∧ h.replay x₀.memory x.handled = (x.memory, qs) := by
  induction ht with
  | nil => exact ⟨hh, by rw [hh]; rfl⟩
  | @take ps qs x p before goes ih =>
    obtain ⟨handled, replayed⟩ := ih goes
    obtain ⟨body, context⟩ := p
    cases body with
    | none =>
      rw [TransformStage.take_bare rfl] at hx ⊢
      refine ⟨?_, by simpa using replayed⟩
      rw [handled]
      simp [Pack.bodied]
    | some body =>
      cases hv : (h x.memory context body).verdict with
      | failure e =>
        rw [TransformStage.take_failure hv] at hx
        cases hx
      | fault f =>
        rw [TransformStage.take_fault hv] at hx
        cases hx
      | success =>
        rw [TransformStage.take_success hv]
        refine ⟨?_, ?_⟩
        · show x.handled ++ _ = _
          rw [handled]
          simp [Pack.bodied]
        · show h.replay x₀.memory (x.handled ++ _) = _
          rw [Handler.replay_snoc, replayed]

/-- What a handler remembers depends on the packs with a body that it was given, and on
nothing else. -/
theorem takes_memory (ht : x₀.Takes h ps qs x) (hh : x₀.handled = []) :
    x.memory = (h.replay x₀.memory x.handled).1 := by
  induction ht with
  | nil => rw [hh]; rfl
  | @take ps qs x p before goes ih =>
    obtain ⟨body, context⟩ := p
    cases body with
    | none => rwa [TransformStage.take_bare rfl]
    | some body =>
      have given : (x.take h ⟨some body, context⟩).1.memory = (h x.memory context body).memory ∧
          (x.take h ⟨some body, context⟩).1.handled = x.handled ++ [⟨some body, context⟩] := by
        simp only [Stage.take]
        split <;> exact ⟨rfl, rfl⟩
      rw [given.1, given.2, Handler.replay_snoc, ← ih]

theorem holds_memory {held : Option Pack} (ht : x₀.Holds h ps qs held x) (hh : x₀.handled = []) :
    x.memory = (h.replay x₀.memory x.handled).1 := by
  cases ht with
  | nothing taken => exact takes_memory taken hh
  | pack before goes left => exact takes_memory (before.take _ goes) hh

end Pull

namespace Pipeline

/-- Whether the packs were handed on along planned stages. `handed` tells which packs each
handler was given and `items` which ones the reader got. Each handler was given exactly the
packs with a body that came to it, in order, and what it has left of them came to the next one. -/
def HandsOn (items : List Pack) : List (Stage σ) → (handed : Nat → List Pack) → List Pack → Prop
  | [], _, packs => Pack.bodied items = Pack.bodied packs
  | s :: stages, handed, packs =>
    match s.handler with
    | none => HandsOn items stages (fun i => handed (i + 1)) packs
    | some h =>
      handed 0 = Pack.bodied packs ∧
        HandsOn items stages (fun i => handed (i + 1)) (h.replay s.memory (handed 0)).2

end Pipeline

namespace Station

variable {cap k : Nat} {r : ReaderSide} {w : WriterSide} {c : Conduit} {row : List (Station σ)}
  {plan : List (Pull.Stage σ)} {logs : Nat → List Event}

/-- A writer who has come to its end, has lost nothing and has put no error. -/
structure Clean (w : WriterSide) : Prop where
  data : w.dataClosed = true
  errors : w.errorsClosed = true
  lost : w.lost = []
  put : w.put = []

/-- A reader who has found the end of everything and was told of no error. -/
structure Heard (r : ReaderSide) : Prop where
  data : r.ended = true
  errors : r.drained = true
  polled : r.polled = []

theorem clean_of_heard (hl : c.Links w r) (hr : Heard r) : Clean w where
  data := (hl.ended hr.data).1
  errors := (hl.drained hr.errors).1
  lost := (hl.ended hr.data).2
  put := (Conduit.links_drained hl hr.errors).symm.trans hr.polled

end Station

/-- A task that has come to a clean end was told of no error and has found the end of its
input, no call of its handler has failed, and it has written all that its handler has left. -/
theorem TransformStage.heard_of_clean {s : TransformStage σ} {log : List Event}
    {x₀ x : Pull.Stage σ} {ps qs : List Pack} {held : Option Pack}
    (ht : s.Traces x₀ log ps qs held x) (hc : Station.Clean (s.writerSide log)) :
    Station.Heard (s.readerSide log) ∧ x.report = none ∧ held = none ∧
      (Event.collect Event.received? log).reduceOption = ps ∧ s.phase.pending = none := by
  obtain ⟨data, errors, lost, put⟩ := hc
  have past : s.phase.hasClosedData = true := data
  obtain ⟨consumes, owed, drained, inHand, pending⟩ : s.phase.consumes = false ∧
      s.phase.owed = none ∧ s.phase.hasDrained = true ∧ s.phase.inHand = none ∧
      s.phase.pending = none := by
    cases hp : s.phase <;> simp_all
  obtain ⟨lost', stops⟩ := ht.stopped consumes
  have silent : x.report.toList ++ Event.collect Event.polled? log = [] := by
    have h := ht.put
    have none' : Event.collect Event.accepted? log = [] := put
    rw [none', owed] at h
    exact h.symm
  obtain ⟨report, polled⟩ := List.append_eq_nil_iff.mp silent
  have held' : held = none := by
    have h : held.toList.map some = [] := lost'.symm.trans lost
    simpa using h
  have report' : x.report = none := by simpa using report
  refine ⟨⟨?_, drained, polled⟩, report', held', ?_, pending⟩
  · rw [held', report'] at stops
    show (!s.phase.consumes && !Event.anyStops log) = true
    rw [consumes, stops]
    rfl
  · rw [ht.received, inHand]
    simp

namespace Station

variable {cap k : Nat} {r : ReaderSide} {w : WriterSide} {c : Conduit} {row : List (Station σ)}
  {stages : List (Pipeline.Stage σ)} {plan : List (Pull.Stage σ)} {logs : Nat → List Event}

/-- Where the reader at the end of a row was told of no error, so was everybody in it. -/
theorem handsOn_of_heard (hs : Sound cap r k w c row plan logs)
    (hp : plan = stages.map Pull.Stage.ofPlan) (hr : Heard r) :
    Clean w ∧ (∀ i, Event.collect Event.failure? (logs i) = []) ∧
      (w.pending = none → ∀ packs : List Pack, w.sent = packs.map some →
        Pipeline.HandsOn r.taken.reduceOption stages
          (fun i => Event.collect Event.handed? (logs i)) packs) := by
  -- `Heard` is known of the reader at the end only, and goes up the row from there
  induction hs generalizing stages with
  | terminal links room silent =>
    obtain rfl : stages = [] := by simpa using hp.symm
    refine ⟨clean_of_heard links hr, fun i => by rw [silent]; rfl, fun pending packs sent => ?_⟩
    rw [Conduit.links_settled links pending, sent]
    simp [Pipeline.HandsOn, List.reduceOption]
  | passing bare silent rest ih =>
    obtain _ | ⟨s, stages⟩ := stages
    · cases hp
    obtain ⟨rfl, hp'⟩ := List.cons.inj hp
    obtain ⟨clean, failures, hands⟩ := ih hp'
    refine ⟨clean, fun i => ?_, fun pending packs sent => ?_⟩
    · cases i with
      | zero => rw [silent]; rfl
      | succ i => exact failures i
    · have none' : s.handler = none := bare
      rw [Pipeline.HandsOn, none']
      exact hands pending packs sent
  | @working k w c logs s' out row x₀ plan links room traces rest ih =>
    obtain _ | ⟨s, stages⟩ := stages
    · cases hp
    obtain ⟨rfl, hp'⟩ := List.cons.inj hp
    obtain ⟨clean, failures, hands⟩ := ih hp'
    obtain ⟨ps, qs, held, x, ht⟩ := traces
    obtain ⟨heard, report, rfl, received, pending'⟩ := TransformStage.heard_of_clean ht clean
    refine ⟨clean_of_heard links heard, fun i => ?_, fun pending packs sent => ?_⟩
    · cases i with
      | zero =>
        have h := ht.failures
        rw [report] at h
        exact List.length_eq_zero_iff.mp h
      | succ i => exact failures i
    · have goes : x.ended = false := by rw [ht.ended, report]; rfl
      have taken : packs = ps := by
        have h : Event.collect Event.received? (logs 0) = packs.map some :=
          (Conduit.links_settled links pending).trans sent
        rw [h] at received
        simpa [List.reduceOption] using received
      have some' : s.handler = some s'.handler := ht.handler
      have replayed : x.handled = Pack.bodied ps ∧
          s'.handler.replay s.memory x.handled = (x.memory, qs) := by
        cases ht.holds with
        | nothing takes => exact Pull.takes_replay takes goes rfl
      rw [Pipeline.HandsOn, some']
      refine ⟨?_, ?_⟩
      · rw [ht.handed, replayed.1, taken]
      · rw [ht.handed, replayed.2]
        exact hands pending' qs ht.sent

/-- The task of a planned handler remembers what the handler has made of the packs that it was
handed. -/
theorem memory_of_sound (hs : Sound cap r k w c row plan logs) {i : Nat} {x₀ : Pull.Stage σ}
    {h : Handler σ} (hx : plan[i]? = some x₀) (handles : x₀.handler = some h)
    (hh : x₀.handled = []) :
    ∃ s out, row[i]? = some (.working s out) ∧
      s.memory = (h.replay x₀.memory (Event.collect Event.handed? (logs i))).1 := by
  induction hs generalizing i with
  | terminal => cases hx
  | passing bare _ _ ih =>
    cases i with
    | zero =>
      obtain rfl := by simpa using hx
      rw [bare] at handles
      cases handles
    | succ i => exact ih hx
  | @working k w c logs s out row x₀' plan links room traces rest ih =>
    cases i with
    | succ i => exact ih hx
    | zero =>
      obtain rfl := by simpa using hx
      obtain ⟨ps, qs, held, x, ht⟩ := traces
      obtain rfl : h = s.handler := Option.some.inj (handles.symm.trans ht.handler)
      refine ⟨s, out, rfl, ?_⟩
      rw [ht.handed, ← ht.memory]
      exact Pull.holds_memory ht.holds hh

/-- Where no call of a handler has failed and the writer in front has put no error, the reader
at the end of the row is told of none. -/
theorem polled_of_failures (hs : Sound cap r k w c row plan logs) (hw : w.put = [])
    (hf : ∀ i, Event.collect Event.failure? (logs i) = []) : r.polled = [] := by
  -- down the row: a task that is told of no error and has none puts none
  induction hs with
  | terminal links room silent =>
    have h := links.errors
    rw [hw] at h
    exact (List.append_eq_nil_iff.mp h.symm).1
  | passing bare silent rest ih => exact ih hw fun i => hf (i + 1)
  | @working k w c logs s out row x₀ plan links room traces rest ih =>
    obtain ⟨ps, qs, held, x, ht⟩ := traces
    have polled : Event.collect Event.polled? (logs 0) = [] := by
      have h := links.errors
      rw [hw] at h
      exact (List.append_eq_nil_iff.mp h.symm).1
    have report : x.report.toList = [] := by
      have h := ht.failures
      rw [hf 0] at h
      exact List.length_eq_zero_iff.mp h.symm
    have put := ht.put
    rw [report, polled] at put
    exact ih (List.append_eq_nil_iff.mp put).1 fun i => hf (i + 1)

end Station

/-- No call of a handler has failed if all of them have succeeded. -/
theorem Event.failures_eq_nil_iff (log : List Event) :
    collect failure? log = [] ↔ ∀ v ∈ collect verdict? log, v = .success := by
  induction log with
  | nil => simp
  | cons e log ih =>
    rw [collect_cons, collect_cons, List.append_eq_nil_iff, List.forall_mem_append, ih]
    refine and_congr_left fun _ => ?_
    cases e with
    | handled p v => cases v <;> simp
    | _ => simp

namespace System

variable {p : Pipeline π σ} {s₀ t : System (SourceStage π) σ} {fault : Option Fault}
  {acts : List Action}

/-- The answers that the source has got from its producer, in order. -/
def answers (t : System (SourceStage π) σ) : List Production :=
  Event.collect Event.answer? (t.eventsOf .supplier)

/-- Whether the producer has ended by saying that there is no more. -/
def ProducerEnded (t : System (SourceStage π) σ) : Prop :=
  ∃ before last, t.answers = before ++ [.yielded last false] ∧
    ∀ a ∈ before, ∃ q, a = .yielded q true

/-- The packs that were handed to the handler at a position, in order. -/
def handed (t : System (SourceStage π) σ) (i : Nat) : List Pack :=
  Event.collect Event.handed? (t.eventsOf (.stage i))

/-- How the calls of the handler at a position have ended. -/
def verdicts (t : System (SourceStage π) σ) (i : Nat) : List Handler.Verdict :=
  Event.collect Event.verdict? (t.eventsOf (.stage i))

theorem goesOn_yielded {a : Production} (h : a.goesOn = true) : ∃ q, a = .yielded q true := by
  cases a with
  | yielded q more => exact ⟨q, by rw [show more = true from h]⟩
  | failed e => cases h
  | threw f => cases h

theorem producerEnded_iff {ps : List Pack} {held : Option Pack}
    {w : Pull.Source π} (ht : t.supplier.Traces p.line.source (t.eventsOf .supplier) ps held w) :
    t.ProducerEnded ↔ w.ended = true ∧ w.report = none := by
  have answers : Production.Answers t.answers w.ended w.report.isSome := ht.answers
  constructor
  · rintro ⟨before, last, heq, _⟩
    rw [heq] at answers
    generalize hl : before ++ [.yielded last false] = as at answers
    generalize he : w.ended = ended at answers
    generalize hf : w.report.isSome = failed at answers
    cases answers with
    | going all =>
      have h := all (.yielded last false) (hl ▸ by simp)
      cases h
    | last all q => exact ⟨rfl, by simpa using hf⟩
    | @failed as a all bad =>
      obtain ⟨_, rfl⟩ : before = as ∧ .yielded last false = a := by simpa using List.append_inj' hl rfl
      cases bad
  · rintro ⟨ended, report⟩
    rw [ended, report] at answers
    generalize hl : t.answers = as at answers
    cases answers with
    | @last as all q => exact ⟨as, q, hl, fun a ha => goesOn_yielded (all a ha)⟩

/-- An empty drain means clean and exhaustive completion, and conversely. -/
theorem drained_eq_nil_iff (hp : p.Planned) (fits : p.Fits) (hs : p.start = .ok (s₀, fault))
    (hr : (s₀.plan [.drain 0]).run? acts = some t) (hdone : t.application.agenda = []) :
    t.application.drained = [] ↔
      t.ProducerEnded ∧
      Pipeline.HandsOn t.received.reduceOption p.stages t.handed
        (t.answers.filterMap Production.pack?) ∧
      ∀ i, ∀ v ∈ t.verdicts i, v = .success := by
  have reads : Reads p none [] t := reads_run hp fits hs (by simp) hr
  obtain ⟨r, ⟨⟨ps, held, w, source⟩, row, taken⟩, stands, _⟩ := reads
  obtain ⟨drained, all, read⟩ := Application.stands_done stands hdone
  -- a drain reads without a limit, so it stops nowhere but at the end of the data
  have found : r.ended = true := by
    by_contra h
    have h := read.stopped (by simpa using h)
    cases h
  have failures : (∀ i, ∀ v ∈ t.verdicts i, v = .success) ↔
      ∀ i, Event.collect Event.failure? (t.eventsOf (.stage i)) = [] :=
    forall_congr' fun i => (Event.failures_eq_nil_iff _).symm
  rw [drained, producerEnded_iff source, failures]
  constructor
  · intro none'
    obtain ⟨clean, calls, hands⟩ := Station.handsOn_of_heard row rfl ⟨found, all, none'⟩
    obtain ⟨data, errors, lost, put⟩ := clean
    have past : t.supplier.phase.hasClosedData = true := data
    obtain ⟨produces, owed, pending⟩ : t.supplier.phase.produces = false ∧
        t.supplier.phase.owed = none ∧ t.supplier.phase.pending = none := by
      cases h : t.supplier.phase <;> simp_all
    obtain ⟨lost', last⟩ := source.stopped produces
    obtain rfl : held = none := by
      have h : held.toList.map some = [] := lost'.symm.trans lost
      simpa using h
    have report : w.report = none := by
      have h := source.put
      have none'' : Event.collect Event.accepted? (t.eventsOf .supplier) = [] := put
      rw [none'', owed] at h
      simpa using h.symm
    refine ⟨⟨last rfl, report⟩, ?_, calls⟩
    have packs : t.answers.filterMap Production.pack? = ps :=
      source.packs.trans (List.append_nil ps)
    rw [packs, ← taken]
    exact hands pending ps source.sent
  · rintro ⟨⟨_, report⟩, _, calls⟩
    have put : Event.collect Event.accepted? (t.eventsOf .supplier) = [] := by
      have h := source.put
      rw [report] at h
      exact (List.append_eq_nil_iff.mp h).1
    exact Station.polled_of_failures row put calls

/-- A drain of the small pipeline that comes to nothing, with a handler that passes bodies on. -/
theorem drained_eq_nil_iff_sample : ∃ t, ((sample .passOn).plan [.drain 0]).run? (turns
      [(3, .supplier), (2, .stage 0), (5, .supplier), (2, .stage 0), (1, .application),
        (10, .stage 0), (3, .application)]) = some t ∧
    t.application.drained = [] ∧ t.ProducerEnded ∧
    Pipeline.HandsOn t.received.reduceOption (Pipeline.sample .passOn).stages t.handed
      (t.answers.filterMap Production.pack?) ∧
    ∀ i, ∀ v ∈ t.verdicts i, v = .success := by
  have clean : (((sample .passOn).plan [.drain 0]).run? (turns
      [(3, .supplier), (2, .stage 0), (5, .supplier), (2, .stage 0), (1, .application),
        (10, .stage 0), (3, .application)])).any
        (fun t => t.application.agenda.isEmpty && t.application.drained.isEmpty) = true := by
    decide +kernel
  obtain ⟨t, hr, ht⟩ := (Option.any_eq_true _ _).mp clean
  obtain ⟨done, drained⟩ := Bool.and_eq_true_iff.mp ht
  have drained := List.isEmpty_iff.mp drained
  have whole := (drained_eq_nil_iff (Pipeline.planned_sample .passOn) (by decide)
    (start_sample .passOn) hr (List.isEmpty_iff.mp done)).mp drained
  exact ⟨t, hr, drained, whole⟩

end System
end StagedPipeline
