import StagedPipeline.Stage.Lifetime
import StagedPipeline.Proofs.Stage.Delivery
import StagedPipeline.Proofs.Stage.Neighbours
import StagedPipeline.Stage.Bench

/-!
# How a stage lives

What is known of a task that was just launched carries over to a stage that is started later, after
its neighbours have begun: as long as it was not started, all is as if it had been and had not
moved yet. So a stage goes through its life, reports its faults and closes its channels in the one
way that is meant for it, and a source does so too.
-/
namespace StagedPipeline

/-! ## What the steps of the neighbours leave alone -/

namespace Neighbours

variable {σ : Type} {t u : Neighbours σ} {a : Act}

/-- Whether an act is one of the task. -/
def Act.isOwn : Act → Bool
  | .work | .expire => true
  | _ => false

/-- What the neighbours do depends neither on the stage nor on its log. -/
theorem step_around (ha : a.isOwn = false) (hu : t.step? a = some u) :
    u.stage = t.stage ∧ u.log = t.log ∧
      ∀ stage, ({ t with stage } : Neighbours σ).step? a = some { u with stage } := by
  cases a with
  | work | expire => cases ha
  | offer p =>
    simp only [step?, Option.ite_none_left_eq_some, Option.map_eq_some_iff, Prod.exists] at hu
    obtain ⟨free, r, data, done, rfl⟩ := hu
    cases r <;> simp [step?, free, done]
  | settle =>
    simp only [step?, Option.bind_eq_some_iff, Prod.exists, Option.map_eq_some_iff] at hu
    obtain ⟨p, ticket, waits, taken, data, done, rfl⟩ := hu
    simp [step?, waits, done]
  | put e =>
    simp only [step?, Option.map_eq_some_iff, Prod.exists] at hu
    obtain ⟨how, errors, done, rfl⟩ := hu
    simp [step?, done]
  | take =>
    simp only [step?, Option.map_eq_some_iff, Prod.exists] at hu
    obtain ⟨item, data, done, rfl⟩ := hu
    simp [step?, done]
  | check =>
    simp only [step?, Option.map_eq_some_iff, Prod.exists] at hu
    obtain ⟨e, errors, done, rfl⟩ := hu
    simp [step?, done]
  | closeErrors | closeData | shut =>
    obtain rfl := Option.some.inj hu
    simp [step?]

/-- What an act does to the stage and its log: nothing, if it is one of the neighbours, and else a
section of the task or the end of a poll. -/
theorem step_task (hu : t.step? a = some u) :
    (u.stage = t.stage ∧ u.log = t.log) ∨
    (∃ events, t.stage.Move t.inlet t.outlet u.stage u.inlet u.outlet events ∧
      u.log = t.log ++ events) ∨
    (t.stage.phase = .polling ∧ u.stage = { t.stage with phase := .confirming } ∧
      u.log = t.log) := by
  cases own : a.isOwn with
  | false =>
    obtain ⟨stage, log, _⟩ := step_around own hu
    exact .inl ⟨stage, log⟩
  | true =>
    cases a with
    | work =>
      simp only [step?, Option.map_eq_some_iff, Prod.exists] at hu
      obtain ⟨stage, inlet, outlet, events, ha, rfl⟩ := hu
      exact .inr (.inl ⟨events, TransformStage.move_of_advance ha, rfl⟩)
    | expire =>
      obtain ⟨stage, he, rfl⟩ := Option.map_eq_some_iff.mp hu
      obtain ⟨at', _, rfl⟩ := TransformStage.expire_confirming he
      exact .inr (.inr ⟨at', rfl, rfl⟩)
    | _ => cases own

/-- What the sections of the task keep of the stage and its log, every act keeps. -/
theorem task_invariant {P : TransformStage σ → List Event → Prop}
    (moves : ∀ {s s' inp inp' out out' log events}, P s log →
      TransformStage.Move s inp out s' inp' out' events → P s' (log ++ events))
    (expires : ∀ {s log}, P s log → P { s with phase := .confirming } log)
    (ht : P t.stage t.log) (hu : t.step? a = some u) : P u.stage u.log := by
  rcases step_task hu with ⟨stage, log⟩ | ⟨events, move, log⟩ | ⟨_, stage, log⟩ <;> rw [log]
  · rwa [stage]
  · exact moves ht move
  · exact stage ▸ expires ht

/-- A task that was just launched has done nothing. -/
theorem start_fresh {h : Handler σ} {memory : σ} {finalizer : Option Finalizer} {capacity : UInt64}
    {interval : Int} (hs : start h memory finalizer capacity interval = .ok t) :
    t.stage = TransformStage.launch
        { handler := h, memory, finalization := { finalizer } } ∧ t.log = [] := by
  simp only [start, bind, Except.bind, pure, Except.pure] at hs
  split at hs
  · cases hs
  · split at hs
    · cases hs
    · obtain rfl := Except.ok.inj hs
      exact ⟨rfl, rfl⟩

/-- They open no data channel, and close the one behind only by an act that says so. -/
theorem closed_around (ha : a.isOwn = false) (hu : t.step? a = some u) :
    (t.inlet.data.closed = true → u.inlet.data.closed = true) ∧
      u.outlet.data.closed = (t.outlet.data.closed || decide (a = .shut)) := by
  cases a with
  | work | expire => cases ha
  | offer p =>
    simp only [step?, Option.ite_none_left_eq_some, Option.map_eq_some_iff, Prod.exists] at hu
    obtain ⟨_, r, data, done, rfl⟩ := hu
    have same := Handoff.offer_closed done
    cases r <;> simp [same]
  | settle =>
    simp only [step?, Option.bind_eq_some_iff, Prod.exists, Option.map_eq_some_iff] at hu
    obtain ⟨p, ticket, _, taken, data, done, rfl⟩ := hu
    simp [(Handoff.settle_counts done).2.2]
  | put e =>
    simp only [step?, Option.map_eq_some_iff, Prod.exists] at hu
    obtain ⟨_, _, _, rfl⟩ := hu
    simp
  | take =>
    simp only [step?, Option.map_eq_some_iff, Prod.exists] at hu
    obtain ⟨_, data, done, rfl⟩ := hu
    simp [Handoff.take_closed done]
  | check =>
    simp only [step?, Option.map_eq_some_iff, Prod.exists] at hu
    obtain ⟨_, _, _, rfl⟩ := hu
    simp
  | closeErrors | closeData | shut =>
    obtain rfl := Option.some.inj hu
    simp [Conduit.closeErrors, Conduit.closeData, Handoff.close]

end Neighbours

/-! ## What a section does to the channels and to the finalizer -/

namespace TransformStage

variable {σ : Type} {s s' : TransformStage σ} {inp inp' out out' : Conduit} {events : List Event}

/-- A section closes the data channel of the output, or leaves it as it was. -/
theorem closed_move (hm : s.Move inp out s' inp' out' events) :
    (s'.phase.hasClosedData = s.phase.hasClosedData ∧ out'.data.closed = out.data.closed) ∨
      (s'.phase.hasClosedData = true ∧ out'.data.closed = true) := by
  cases hm with
  | succeed at' verdict =>
    refine .inl ⟨?_, rfl⟩
    simp only [at', afterSuccess]
    split <;> rfl
  | refuse at' done | place at' done => simp [at', Handoff.offer_closed done]
  | settle at' done | lose at' done => simp [(Handoff.settle_counts done).2.2, at']
  | closeData at' => exact .inr ⟨rfl, rfl⟩
  | closeErrors at' => exact .inl ⟨by simp [at'], rfl⟩
  | _ => simp [afterFault, afterFailure, *]

/-- A task that has passed on to the errors of its input has closed the data there. -/
theorem released_move (h : s.phase.released? = some true → inp.data.closed = true)
    (hm : s.Move inp out s' inp' out' events) :
    s'.phase.released? = some true → inp'.data.closed = true := by
  cases hm with
  | succeed at' verdict =>
    simp only [afterSuccess]
    split <;> simp
  | receive at' done | skip at' done bare => simp_all
  | abandon at' | release at' => exact fun _ => rfl
  | meetEnd at' done =>
    obtain ⟨closed, rfl⟩ := Handoff.take_end done
    exact fun _ => closed
  | _ => simp_all [afterFault, afterFailure]

/-- Whether the finalizer has had its turn. -/
@[simp] def Phase.finalized : Phase → Bool
  | .finishing | .finished => true
  | _ => false

end TransformStage

namespace Event

theorem sightings_saying (es : List Log.Entry) : collect sighting? (saying es) = [] :=
  List.filterMap_eq_nil_iff.mpr fun e he => by
    obtain ⟨_, _, rfl⟩ := List.mem_map.mp he
    rfl

theorem sightings_putting (e : Error) (how : Reports.Putting) :
    collect sighting? (putting e how) = [] := sightings_saying (how.entries e)

end Event

namespace Finalization

theorem sightings_run (x : Finalization) (sight : Sighting) (hd : x.done = false) :
    (Event.collect Event.sighting? (x.run sight).2).length = (x.run sight).1.calls := by
  cases hf : x.finalizer with
  | none => simp [run, hd, hf, calls]
  | some f => simp [run, hd, hf, calls, Event.sighting?, Event.sightings_saying]

end Finalization

namespace TransformStage

variable {σ : Type} {s s' : TransformStage σ} {inp inp' out out' : Conduit}
  {log events : List Event}

/-- How a stage with a finalizer, or none, stands to it: it has been called if its turn has come. -/
structure Finalizes (finalizer : Option Finalizer) (s : TransformStage σ) (log : List Event) :
    Prop where
  finalizer : s.finalization.finalizer = finalizer
  turn : s.finalization.done = s.phase.finalized
  calls : (Event.collect Event.sighting? log).length = s.finalization.calls

theorem finalizes_move {finalizer : Option Finalizer} (h : Finalizes finalizer s log)
    (hm : s.Move inp out s' inp' out' events) : Finalizes finalizer s' (log ++ events) := by
  have quiet : ∀ {s' : TransformStage σ}, s'.finalization = s.finalization →
      s'.phase.finalized = s.phase.finalized → Event.collect Event.sighting? events = [] →
      Finalizes finalizer s' (log ++ events) := by
    intro s' same place none'
    refine ⟨by rw [same, h.finalizer], by rw [same, place, h.turn], ?_⟩
    rw [Event.collect_append, none', List.append_nil, same, h.calls]
  cases hm with
  | finalize at' =>
    have due : s.finalization.done = false := by
      rw [h.turn, at']
      rfl
    have before : (Event.collect Event.sighting? log).length = 0 := by
      rw [h.calls]
      simp [Finalization.calls, due]
    refine ⟨?_, ?_, ?_⟩
    · simpa [Finalization.run, due] using h.finalizer
    · simp [Finalization.run, due]
    · rw [Event.collect_append, List.length_append, before, Nat.zero_add]
      exact Finalization.sightings_run s.finalization _ due
  | succeed at' verdict =>
    refine quiet rfl ?_ (by simp [Event.sighting?, Event.sightings_saying])
    simp only [at', afterSuccess]
    split <;> rfl
  | _ =>
    exact quiet rfl (by simp [afterFault, afterFailure, *])
      (by simp [Event.sighting?, Event.sightings_saying, Event.sightings_putting])

end TransformStage

/-! ## A stage with a handler and its neighbours -/

namespace Lifetime

variable {σ : Type} {h : Handler σ} {memory : σ} {finalizer : Option Finalizer} {capacity : UInt64}
  {interval : Int} {s₀ t u : Lifetime σ}

/-- The scene as it would be had the stage been started before anything else. -/
def launched (t : Lifetime σ) : Neighbours σ :=
  { t.scene with
    stage := if t.scene.stage.lifecycle = .notStarted then t.scene.stage.launch else t.scene.stage }

theorem launched_started (started : t.scene.stage.lifecycle ≠ .notStarted) :
    t.launched = t.scene := by
  rw [launched, if_neg started]

structure Sound (h : Handler σ) (memory : σ) (finalizer : Option Finalizer) (t : Lifetime σ) :
    Prop where
  task : t.launched.Sound h memory
  life : ∃ l : Life, l.Fits t.scene.stage.phase.era t.scene.stage.lifecycle t.scene.stage.faulted
    t.faults.length
  faults : ∀ f ∈ t.faults, (∃ what, f.1 = TransformStage.faultError what) ∧
    f ∈ Event.collect Event.delivery? t.scene.log
  starts : Life.Starts TransformStage.restartFault t.scene.stage.lifecycle t.starts
  closed : t.scene.outlet.data.closed = (t.scene.stage.phase.hasClosedData || t.shut)
  released : t.scene.stage.phase.released? = some true → t.scene.inlet.data.closed = true
  finalizes : t.scene.stage.Finalizes finalizer t.scene.log

theorem sound_create (hs : create h memory finalizer capacity interval = .ok s₀) :
    Sound h memory finalizer s₀ := by
  simp only [create, bind, Except.bind, pure, Except.pure] at hs
  split at hs
  · cases hs
  · rename_i inlet hi
    split at hs
    · cases hs
    · rename_i outlet ho
      obtain rfl := Except.ok.inj hs
      let stage : TransformStage σ := { handler := h, memory, finalization := { finalizer } }
      have started : Neighbours.start h memory finalizer capacity interval =
          .ok { stage := stage.launch, inlet, outlet } := by
        simp only [Neighbours.start, hi, ho, bind, Except.bind, pure, Except.pure, stage]
      exact
        { task := Neighbours.sound_start started
          life := ⟨.waiting, rfl, rfl, rfl, rfl⟩
          faults := by simp
          starts := .inl ⟨rfl, rfl⟩
          closed := (Conduit.links_fresh ho).closed
          released := by simp
          finalizes := ⟨rfl, rfl, rfl⟩ }

theorem sound_start (ht : Sound h memory finalizer t) (hu : t.step? .start = some u) :
    Sound h memory finalizer u := by
  obtain ⟨l, fits⟩ := ht.life
  rcases TransformStage.start_cases fits with ⟨fresh, idle, started, l', _, fits'⟩ | ⟨busy, thrown⟩
  · rw [step?, started] at hu
    obtain rfl := Option.some.inj hu
    have task := ht.task
    rw [launched, if_pos fresh] at task
    obtain ⟨finalizer, turn, calls⟩ := ht.finalizes
    exact
      { task
        life := ⟨l', fits'⟩
        faults := ht.faults
        starts := Life.starts_launch (fresh ▸ ht.starts)
        closed := by simpa [TransformStage.launch, idle] using ht.closed
        released := by simp [TransformStage.launch]
        finalizes := ⟨finalizer, by simpa [TransformStage.launch, idle] using turn, calls⟩ }
  · rw [step?, thrown] at hu
    obtain rfl := Option.some.inj hu
    exact { ht with starts := Life.starts_again ht.starts busy }

/-- A section of the task belongs to one that was started. -/
theorem started_of_own {a : Neighbours.Act} {scene : Neighbours σ} (ht : Sound h memory finalizer t)
    (ha : a.isOwn = true) (hu : t.scene.step? a = some scene) :
    t.scene.stage.lifecycle ≠ .notStarted := by
  intro fresh
  obtain ⟨l, fits⟩ := ht.life
  have idle := TransformStage.idle_of_era (Life.fits_notStarted (fresh ▸ fits)).1
  cases a with
  | work => simp [Neighbours.step?, TransformStage.advance?, idle] at hu
  | expire => simp [Neighbours.step?, TransformStage.expire?, idle] at hu
  | _ => cases ha

/-- The life of a stage goes on by a step when its task moves, which was started before. -/
theorem life_work (ht : Sound h memory finalizer t) (hu : t.step? (.next .work) = some u) :
    ∃ l l' : Life, l.Step l' ∧
      l.Fits t.scene.stage.phase.era t.scene.stage.lifecycle t.scene.stage.faulted
        t.faults.length ∧
      l'.Fits u.scene.stage.phase.era u.scene.stage.lifecycle u.scene.stage.faulted
        u.faults.length ∧
      t.scene.stage.lifecycle ≠ .notStarted := by
  obtain ⟨scene, hn, rfl⟩ := Option.map_eq_some_iff.mp hu
  have started := started_of_own ht rfl hn
  simp only [Neighbours.step?, Option.map_eq_some_iff, Prod.exists] at hn
  obtain ⟨stage, inlet, outlet, events, ha, rfl⟩ := hn
  obtain ⟨l, fits⟩ := ht.life
  obtain ⟨l', step, fits'⟩ := TransformStage.life_move fits (TransformStage.move_of_advance ha)
  refine ⟨l, l', step, fits, ?_, started⟩
  rw [List.drop_left, List.length_append]
  exact fits'

theorem sound_work (ht : Sound h memory finalizer t) (hu : t.step? (.next .work) = some u) :
    Sound h memory finalizer u := by
  obtain ⟨l, l', step, fits, fits', started⟩ := life_work ht hu
  have started' : u.scene.stage.lifecycle ≠ .notStarted := by
    rw [fits'.lifecycle]
    exact Life.step_started step (fits.lifecycle ▸ started)
  obtain ⟨scene, hn, rfl⟩ := Option.map_eq_some_iff.mp hu
  have task := ht.task
  rw [launched_started started] at task
  have task' := Neighbours.sound_step task hn
  simp only [Neighbours.step?, Option.map_eq_some_iff, Prod.exists] at hn
  obtain ⟨stage, inlet, outlet, events, ha, rfl⟩ := hn
  have move := TransformStage.move_of_advance ha
  obtain ⟨_, _, faults, starts, closed, released, finalizes⟩ := ht
  refine ⟨?_, ⟨l', fits'⟩, ?_, ?_, ?_, TransformStage.released_move released move,
    TransformStage.finalizes_move finalizes move⟩
  · rw [launched_started started']
    exact task'
  · intro f hf
    rw [List.drop_left] at hf
    rw [Event.collect_append]
    rcases List.mem_append.mp hf with hf | hf
    · exact (faults f hf).imp_right (List.mem_append_left _)
    · exact (TransformStage.reported_fault move hf).imp_right (List.mem_append_right _)
  · exact fits'.lifecycle ▸ Life.starts_step (fits.lifecycle ▸ starts) step (fits.lifecycle ▸ started)
  · simp only [reduceCtorEq, decide_false, Bool.or_false]
    rcases TransformStage.closed_move move with ⟨same, same'⟩ | ⟨here, here'⟩
    · rw [same', same, closed]
    · rw [here', here, Bool.true_or]

theorem sound_expire (ht : Sound h memory finalizer t) (hu : t.step? (.next .expire) = some u) :
    Sound h memory finalizer u := by
  obtain ⟨scene, hn, rfl⟩ := Option.map_eq_some_iff.mp hu
  have started := started_of_own ht rfl hn
  have task := ht.task
  rw [launched_started started] at task
  have task' := Neighbours.sound_step task hn
  obtain ⟨stage, he, rfl⟩ := Option.map_eq_some_iff.mp hn
  obtain ⟨at', _, rfl⟩ := TransformStage.expire_confirming he
  obtain ⟨_, ⟨l, fits⟩, faults, starts, closed, released, finalizer, turn, calls⟩ := ht
  simp only [List.drop_length, reduceCtorEq, decide_false, Bool.or_false]
  rw [at'] at closed released turn
  refine ⟨?_, ⟨l, ?_⟩, ?_, starts, closed, released, ⟨finalizer, turn, calls⟩⟩
  · rwa [launched_started]
    exact started
  · simpa [TransformStage.reported, at'] using TransformStage.life_expire fits at'
  · simpa [TransformStage.reported, at'] using faults

theorem sound_around {a : Neighbours.Act} (ht : Sound h memory finalizer t)
    (ha : a.isOwn = false) (hu : t.step? (.next a) = some u) : Sound h memory finalizer u := by
  obtain ⟨⟨stage, inlet, outlet, pending, log, upstream, downstream⟩, hn, rfl⟩ :=
    Option.map_eq_some_iff.mp hu
  obtain ⟨rfl, rfl, anyStage⟩ := Neighbours.step_around ha hn
  obtain ⟨front, back⟩ := Neighbours.closed_around ha hn
  obtain ⟨task, life, faults, starts, closed, released, finalizes⟩ := ht
  have none' : t.scene.stage.reported (t.scene.log.drop t.scene.log.length) = [] := by
    simp [TransformStage.reported]
  simp only [none', List.append_nil]
  -- the step does not look at the stage, so the scene with a launched one takes it as well
  refine ⟨Neighbours.sound_step task (anyStage _), life, faults, starts, ?_,
    fun past => front (released past), finalizes⟩
  rw [back, closed, Bool.or_assoc]

theorem sound_step {a : Act} (ht : Sound h memory finalizer t) (hu : t.step? a = some u) :
    Sound h memory finalizer u := by
  cases a with
  | start => exact sound_start ht hu
  | next a =>
    cases own : a.isOwn with
    | false => exact sound_around ht own hu
    | true =>
      cases a with
      | work => exact sound_work ht hu
      | expire => exact sound_expire ht hu
      | _ => cases own

theorem sound_run {acts : List Act} (ht : Sound h memory finalizer t)
    (hr : t.run? acts = some u) : Sound h memory finalizer u := by
  induction acts generalizing t with
  | nil => exact Option.some.inj hr ▸ ht
  | cons a acts ih =>
    obtain ⟨t', ht', hr⟩ := Option.bind_eq_some_iff.mp hr
    exact ih (sound_step ht ht') hr

/-- Every act leaves the life of the stage as it is, or is a step of it. -/
theorem moves_step {a : Act} (ht : Sound h memory finalizer t) (hu : t.step? a = some u) :
    (u.scene.stage.lifecycle = t.scene.stage.lifecycle ∨
      t.scene.stage.lifecycle.Next u.scene.stage.lifecycle) ∧
    (t.scene.stage.faulted = true → u.scene.stage.faulted = true) := by
  cases a with
  | start =>
    obtain ⟨l, fits⟩ := ht.life
    rcases TransformStage.start_cases fits with ⟨_, _, started, l', step, fits'⟩ | ⟨_, thrown⟩
    · rw [step?, started] at hu
      obtain rfl := Option.some.inj hu
      exact Life.fits_step step fits fits'
    · rw [step?, thrown] at hu
      obtain rfl := Option.some.inj hu
      exact ⟨.inl rfl, id⟩
  | next a =>
    by_cases works : a = .work
    · subst works
      obtain ⟨l, l', step, fits, fits', _⟩ := life_work ht hu
      exact Life.fits_step step fits fits'
    · obtain ⟨scene, hn, rfl⟩ := Option.map_eq_some_iff.mp hu
      cases own : a.isOwn with
      | false =>
        rw [(Neighbours.step_around own hn).1]
        exact ⟨.inl rfl, id⟩
      | true =>
        cases a with
        | work => exact absurd rfl works
        | expire =>
          obtain ⟨stage, he, rfl⟩ := Option.map_eq_some_iff.mp hn
          obtain ⟨_, _, rfl⟩ := TransformStage.expire_confirming he
          exact ⟨.inl rfl, id⟩
        | _ => cases own

/-- What is true of the errors once the task has closed the data behind. -/
theorem errors_closed (ht : Sound h memory finalizer t)
    (past : t.scene.stage.phase.hasClosedData = true) :
    t.scene.outlet.errors.queue.closed = true ∧ t.scene.inlet.errors.isDrained = true ∧
    Event.collect Event.accepted? t.scene.log =
      Event.collect TransformStage.ownError? t.scene.log ++
        Event.collect Event.accepted? t.scene.upstream ∧
    Event.collect Event.polled? t.scene.downstream ++ t.scene.outlet.errors.queue.queue =
      Event.collect Event.accepted? t.scene.log := by
  have started : t.scene.stage.lifecycle ≠ .notStarted := by
    intro fresh
    obtain ⟨l, fits⟩ := ht.life
    have idle := TransformStage.idle_of_era (Life.fits_notStarted (fresh ▸ fits)).1
    rw [idle] at past
    cases past
  have task := ht.task
  rw [launched_started started] at task
  -- the task has found the errors in front closed and empty before it closed its own
  have drained : t.scene.stage.phase.hasDrained = true := by
    cases hp : t.scene.stage.phase <;> simp_all
  have sealed : t.scene.stage.phase.hasClosedErrors = true := by
    cases hp : t.scene.stage.phase <;> simp_all
  obtain ⟨r, links, _, polled⟩ := task.back
  refine ⟨links.errorsClosed.trans sealed, task.front.drained drained,
    (Neighbours.put_prefix task).2 drained, ?_⟩
  rw [← polled]
  exact links.errors.symm

/-- What an observer can rely on at a stage with a handler. -/
structure WellLived (finalizer : Option Finalizer) (t : Lifetime σ) : Prop where
  moves : ∀ a u, t.step? a = some u →
    (u.scene.stage.lifecycle = t.scene.stage.lifecycle ∨
      t.scene.stage.lifecycle.Next u.scene.stage.lifecycle) ∧
    (t.scene.stage.faulted = true → u.scene.stage.faulted = true)
  starts : Life.Starts TransformStage.restartFault t.scene.stage.lifecycle t.starts
  launches : t.starts = [] → t.step? .start = some
    { t with scene := { t.scene with stage := t.scene.stage.launch }, starts := [none] }
  restarts : t.starts ≠ [] →
    t.step? .start = some { t with starts := t.starts ++ [some TransformStage.restartFault] }
  /-- The task closes the errors before the data. -/
  sealed : t.scene.stage.phase.hasClosedData = true → t.scene.outlet.errors.queue.closed = true
  /-- If nobody else has closed the data, all errors are there once it is closed. -/
  complete : t.shut = false → t.scene.outlet.data.closed = true →
    t.scene.outlet.errors.queue.closed = true ∧
    Event.collect Event.polled? t.scene.downstream ++ t.scene.outlet.errors.queue.queue =
      Event.collect TransformStage.ownError? t.scene.log ++
        Event.collect Event.accepted? t.scene.upstream
  closed : t.scene.stage.lifecycle = .closed →
    (t.scene.outlet.errors.queue.closed = true ∧ t.scene.outlet.data.closed = true) ∧
    (t.scene.inlet.data.closed = true ∧ t.scene.inlet.errors.isDrained = true ∧
      Event.collect Event.accepted? t.scene.log =
        Event.collect TransformStage.ownError? t.scene.log ++
          Event.collect Event.accepted? t.scene.upstream) ∧
    (Event.collect Event.sighting? t.scene.log).length = if finalizer.isSome then 1 else 0
  faults : t.scene.stage.lifecycle = .closed →
    (t.scene.stage.faulted = true ↔
      ∃ what, t.faults = [(TransformStage.faultError what, .accepted)]) ∧
    (t.scene.stage.faulted = false ↔ t.faults = [])
  finalized : (Event.collect Event.sighting? t.scene.log).length ≤ 1

theorem wellLived_of_sound (ht : Sound h memory finalizer t) : WellLived finalizer t := by
  obtain ⟨l, fits⟩ := ht.life
  have ended : t.scene.stage.lifecycle = .closed → t.scene.stage.phase = .finished := fun closed =>
    TransformStage.finished_of_closed (closed ▸ fits)
  have calls := ht.finalizes.calls
  rw [Finalization.calls, ht.finalizes.finalizer, ht.finalizes.turn] at calls
  constructor
  case moves => exact fun a u hu => moves_step ht hu
  case starts => exact ht.starts
  case launches =>
    intro none'
    rcases TransformStage.start_cases fits with ⟨_, _, started, _⟩ | ⟨started, _⟩
    · rw [step?, started, none', List.nil_append]
    · exact absurd ((Life.starts_eq_nil_iff ht.starts).mp none') started
  case restarts =>
    intro made
    have started := mt (Life.starts_eq_nil_iff ht.starts).mpr made
    rcases TransformStage.start_cases fits with ⟨fresh, _⟩ | ⟨_, thrown⟩
    · exact absurd fresh started
    · rw [step?, thrown]
  case sealed => exact fun past => (errors_closed ht past).1
  case complete =>
    intro alone closed
    have past : t.scene.stage.phase.hasClosedData = true := by
      rwa [ht.closed, alone, Bool.or_false] at closed
    obtain ⟨sealed, _, put, polled⟩ := errors_closed ht past
    exact ⟨sealed, polled.trans put⟩
  case closed =>
    intro closed
    have at' := ended closed
    obtain ⟨sealed, drained, put, _⟩ := errors_closed ht (by rw [at']; rfl)
    refine ⟨⟨sealed, ?_⟩, ⟨ht.released (by rw [at']; rfl), drained, put⟩, ?_⟩
    · rw [ht.closed, at']
      rfl
    · rw [calls, at']
      rfl
  case faults =>
    intro closed
    obtain ⟨_, _, _, _, traces⟩ := ht.task.traces
    have kept := traces.kept
    rw [ended closed, closed] at fits
    refine Life.faults_closed fits fun f hf => ?_
    obtain ⟨⟨what, is⟩, put⟩ := ht.faults f hf
    exact ⟨what, Prod.ext is (Event.accepted_of_delivery put kept)⟩
  case finalized =>
    rw [calls]
    split <;> omega

end Lifetime

/-! ## A source and its reader -/

namespace Delivery

variable {π : Type} {t u : Delivery π}

theorem moves_step {a : Act} (ht : Sound t) (hu : t.step? a = some u) :
    (u.stage.lifecycle = t.stage.lifecycle ∨ t.stage.lifecycle.Next u.stage.lifecycle) ∧
      (t.stage.faulted = true → u.stage.faulted = true) := by
  cases happens_of_step hu with
  | launch fresh =>
    obtain ⟨l, fits⟩ := ht.life
    obtain ⟨_, l', step, fits'⟩ := Life.fits_notStarted (fresh ▸ fits)
    exact Life.fits_step step fits fits'
  | work move =>
    obtain ⟨l, l', step, fits, fits', _⟩ := life_work ht move
    exact Life.fits_step step fits fits'
  | _ => exact ⟨.inl rfl, id⟩

/-- What is true of the errors once the task has closed the data, if it alone closes them. -/
theorem errors_closed (ht : Sound t) (alone : t.errorsShut = false)
    (past : t.stage.phase.hasClosedData = true) :
    t.outlet.errors.queue.closed = true ∧
      Event.collect Event.polled? t.downstream ++ t.outlet.errors.queue.queue =
        Event.collect SourceStage.ownError? t.log := by
  have sealed : t.stage.phase.hasClosedErrors = true := by
    cases hp : t.stage.phase <;> simp_all
  have nothing : t.stage.phase.owed = none := by
    cases hp : t.stage.phase <;> simp_all
  have put := ht.conduct.put
  rw [nothing, Option.toList_none, List.append_nil] at put
  refine ⟨by rw [ht.errorsClosed, sealed, Bool.true_or], ?_⟩
  rw [← ht.errors, ← put]
  exact Event.accepted_eq_attempted (ht.kept alone)

/-- What an observer can rely on at a source. -/
structure WellLived (t : Delivery π) : Prop where
  moves : ∀ a u, t.step? a = some u →
    (u.stage.lifecycle = t.stage.lifecycle ∨ t.stage.lifecycle.Next u.stage.lifecycle) ∧
      (t.stage.faulted = true → u.stage.faulted = true)
  starts : Life.Starts SourceStage.restartFault t.stage.lifecycle t.starts
  launches : t.starts = [] →
    t.step? .start = some { t with stage := t.stage.launch, starts := [none] }
  restarts : t.starts ≠ [] →
    t.step? .start = some { t with starts := t.starts ++ [some SourceStage.restartFault] }
  /-- The task closes the errors before the data. -/
  sealed : t.stage.phase.hasClosedData = true → t.outlet.errors.queue.closed = true
  /-- If nobody else has closed the data, all errors are there once it is closed. -/
  complete : t.shut = false → t.outlet.data.closed = true →
    t.outlet.errors.queue.closed = true ∧
      Event.collect Event.polled? t.downstream ++ t.outlet.errors.queue.queue =
        Event.collect SourceStage.ownError? t.log
  closed : t.stage.lifecycle = .closed →
    t.outlet.errors.queue.closed = true ∧ t.outlet.data.closed = true
  faults : t.stage.lifecycle = .closed →
    (t.stage.faulted = true ↔ ∃ what, t.faults = [(SourceStage.faultError what, .accepted)]) ∧
    (t.stage.faulted = false ↔ t.faults = [])

theorem wellLived_of_sound (ht : Sound t) (alone : t.errorsShut = false) : WellLived t := by
  obtain ⟨l, fits⟩ := ht.life
  have ended : t.stage.lifecycle = .closed → t.stage.phase = .finished := fun closed =>
    SourceStage.finished_of_closed (closed ▸ fits)
  constructor
  case moves => exact fun a u hu => moves_step ht hu
  case starts => exact ht.starts
  case launches =>
    intro none'
    rcases SourceStage.start_cases fits with ⟨_, _, started, _⟩ | ⟨started, _⟩
    · rw [step?, started, none', List.nil_append]
    · exact absurd ((Life.starts_eq_nil_iff ht.starts).mp none') started
  case restarts =>
    intro made
    have started := mt (Life.starts_eq_nil_iff ht.starts).mpr made
    rcases SourceStage.start_cases fits with ⟨fresh, _⟩ | ⟨_, thrown⟩
    · exact absurd fresh started
    · rw [step?, thrown]
  case sealed => exact fun past => (errors_closed ht alone past).1
  case complete =>
    intro free closed
    rw [ht.closed, free, Bool.or_false] at closed
    exact errors_closed ht alone closed
  case closed =>
    intro closed
    have at' := ended closed
    refine ⟨(errors_closed ht alone (by rw [at']; rfl)).1, ?_⟩
    rw [ht.closed, at']
    rfl
  case faults =>
    intro closed
    rw [ended closed, closed] at fits
    refine Life.faults_closed fits fun f hf => ?_
    obtain ⟨⟨what, is⟩, put⟩ := ht.faults f hf
    exact ⟨what, Prod.ext is (Event.accepted_of_delivery put (ht.kept alone))⟩

end Delivery

/-- Both kinds of stages are well-lived after every run among others who do what they like, as long
as only the stage closes the errors behind it. A stage with a handler that has no input, or for
which no output can be made, is not started at all. -/
theorem stage_lifetimes {π σ : Type} :
    (∀ (producer : Option (Producer π × π)) capacity interval s₀ acts (t : Delivery π),
      Delivery.create producer capacity interval = .ok s₀ → s₀.run? acts = some t →
        t.errorsShut = false → t.WellLived) ∧
    (∀ (handler : Handler σ) memory finalizer capacity interval s₀ acts (t : Lifetime σ),
      Lifetime.create handler memory finalizer capacity interval = .ok s₀ →
        s₀.run? acts = some t → t.WellLived finalizer) ∧
    (∀ (b : Bench σ) handler, b.stage.handler = some handler →
      (b.system = none → b.start.map Bench.lifecycle = .ok .notStarted) ∧
      (∀ s finalization f, b.system = some s → s.row = [.unconnected finalization] →
        TransformStage.outputFor s.inlet = .error f → b.start = .error f)) := by
  refine ⟨?source, ?handled, fun b handler hh => ⟨fun none' => ?noInput, ?noOutput⟩⟩
  case source =>
    intro producer capacity interval s₀ acts t hs hr alone
    exact Delivery.wellLived_of_sound (Delivery.sound_run (Delivery.sound_create hs) hr) alone
  case handled =>
    intro handler memory finalizer capacity interval s₀ acts t hs hr
    exact Lifetime.wellLived_of_sound (Lifetime.sound_run (Lifetime.sound_create hs) hr)
  case noInput =>
    simp [Bench.start, Bench.build, Bench.lifecycle, Bench.stage?, none', bind, Except.bind, pure,
      Except.pure, Except.map]
  case noOutput =>
    intro s finalization f hb row made
    simp [Bench.start, Bench.build, hb, hh, row, made, bind, Except.bind]

/-- A source whose data is closed early and that is started again while it waits, and a stage whose
handler throws at the second pack and that is started again at its end: both report one fault. -/
theorem stage_lifetimes_faltering :
    (∃ s₀ t : Delivery Nat, Delivery.create (some (Delivery.faltering, 0)) 1 10 = .ok s₀ ∧
      s₀.run? ([.start, .work, .work, .work, .take, .closeData, .start] ++
        List.replicate 9 .work) = some t ∧ t.starts = [none, some SourceStage.restartFault] ∧
      (t.outlet.errors.queue.closed = true ∧ t.outlet.data.closed = true) ∧
      ∃ what, t.faults = [(SourceStage.faultError what, .accepted)]) ∧
    (∃ s₀ t : Lifetime Bool,
      Lifetime.create Neighbours.passOnce false (some {}) 1 1 = .ok s₀ ∧
      s₀.run? (.start :: (Neighbours.sampleActs.map .next ++ .start ::
        List.replicate 5 (.next .work))) = some t ∧
      t.starts = [none, some TransformStage.restartFault] ∧
      (Event.collect Event.sighting? t.scene.log).length = 1 ∧
      ∃ what, t.faults = [(TransformStage.faultError what, .accepted)]) ∧
    (Bench.create { handler := some Neighbours.passOnce, memory := false } none).start.map
      Bench.lifecycle = .ok .notStarted := by
  obtain ⟨source, handled, bench⟩ := stage_lifetimes (π := Nat) (σ := Bool)
  refine ⟨?_, ?_, (bench _ _ rfl).1 rfl⟩
  · have runs : (Delivery.create (some (Delivery.faltering, 0)) 1 10).toOption.any (fun s =>
        (s.run? ([.start, .work, .work, .work, .take, .closeData, .start] ++
          List.replicate 9 .work)).any fun t => t.stage.lifecycle == .closed && t.stage.faulted &&
            t.starts == [none, some SourceStage.restartFault] && !t.errorsShut) = true := by
      decide +kernel
    obtain ⟨s₀, hs, runs⟩ := exists_ok_of_any runs
    obtain ⟨t, hr, ht⟩ := (Option.any_eq_true _ _).mp runs
    simp only [Bool.and_eq_true, beq_iff_eq, Bool.not_eq_true'] at ht
    obtain ⟨⟨⟨closed, faulted⟩, starts⟩, alone⟩ := ht
    have lived := source _ _ _ s₀ _ t hs hr alone
    exact ⟨s₀, t, hs, hr, starts, lived.closed closed, (lived.faults closed).1.mp faulted⟩
  · have runs : (Lifetime.create Neighbours.passOnce false (some {}) 1 1).toOption.any (fun s =>
        (s.run? (.start :: (Neighbours.sampleActs.map .next ++ .start ::
          List.replicate 5 (.next .work)))).any fun t => t.scene.stage.lifecycle == .closed &&
            t.scene.stage.faulted &&
            t.starts == [none, some TransformStage.restartFault]) = true := by
      decide +kernel
    obtain ⟨s₀, hs, runs⟩ := exists_ok_of_any runs
    obtain ⟨t, hr, ht⟩ := (Option.any_eq_true _ _).mp runs
    simp only [Bool.and_eq_true, beq_iff_eq] at ht
    obtain ⟨⟨closed, faulted⟩, starts⟩ := ht
    have lived := handled _ _ _ _ _ s₀ _ t hs hr
    obtain ⟨_, _, calls⟩ := lived.closed closed
    exact ⟨s₀, t, hs, hr, starts, calls, (lived.faults closed).1.mp faulted⟩

end StagedPipeline
