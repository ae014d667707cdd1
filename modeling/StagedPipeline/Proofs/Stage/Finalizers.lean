import StagedPipeline.Proofs.Stage.Ownership

/-!
# What a finalizer can do to its stage

A stage whose finalizer is exchanged for another one goes through the same acts and looks the same
at every moment, except for the lines that are written about what a finalizer has thrown. So
nothing that a finalizer throws gets any further.
-/
namespace StagedPipeline

/-- The log without its lines. -/
def Event.deeds (log : List Event) : List Event := log.filter fun e => e.entry?.isNone

namespace Event

variable {log more : List Event}

theorem deeds_append : deeds (log ++ more) = deeds log ++ deeds more := List.filter_append ..

theorem deeds_saying (es : List Log.Entry) : deeds (saying es) = [] := by
  refine List.filter_eq_nil_iff.mpr fun e he => ?_
  obtain ⟨_, _, rfl⟩ := List.mem_map.mp he
  simp [ entry?]

end Event

namespace Finalization

/-- The same turn with another finalizer. -/
def refit (f : Finalizer) (x : Finalization) : Finalization := { x with finalizer := some f }

theorem run_refit {x : Finalization} (hx : x.finalizer.isSome = true) (f : Finalizer)
    (sight : Sighting) :
    ((x.refit f).run sight).1 = (x.run sight).1.refit f ∧
      Event.deeds ((x.refit f).run sight).2 = Event.deeds (x.run sight).2 := by
  obtain ⟨g, hg⟩ := Option.isSome_iff_exists.mp hx
  cases hd : x.done with
  | true => simp [run, refit, hd]
  | false =>
    have called : ∀ es : List Log.Entry,
        Event.deeds (.finalized sight :: Event.saying es) = [.finalized sight] := fun es =>
      congrArg (Event.finalized sight :: ·) (Event.deeds_saying es)
    simp only [run, refit, hd, hg, Bool.false_eq_true, ↓reduceIte, called, and_self]

end Finalization

namespace TransformStage

variable {σ : Type} {s s' : TransformStage σ} {inp inp' out out' : Conduit} {events : List Event}

def refit (f : Finalizer) (s : TransformStage σ) : TransformStage σ :=
  { s with finalization := s.finalization.refit f }

theorem handle_refit (f : Finalizer) (body : ByteStream) (context : Context) :
    (s.refit f).handle body context =
      ((s.handle body context).1.refit f, (s.handle body context).2) := by
  simp only [handle, refit]
  split <;> rfl

/-- Every section but one leaves the finalizer alone. -/
theorem advance_refit_of_ne (f : Finalizer) (other : s.phase ≠ .finalizing) :
    (s.refit f).advance? inp out =
      (s.advance? inp out).map fun (s, inp, out, events) => (s.refit f, inp, out, events) := by
  have same : (s.refit f).phase = s.phase := rfl
  cases hp : s.phase with
  | finalizing => exact absurd hp other
  | idle | finished => simp only [advance?, same, hp, Option.map_none]
  | handling body context => simp only [advance?, same, hp, handle_refit, Option.map_some]
  | reading | offering _ | awaiting _ _ | polling =>
    simp only [advance?, same, hp, Option.map_map]
    congr 1
    funext part
    obtain ⟨item, _⟩ := part
    simp only [Function.comp]
    split <;> rfl
  | reporting _ | reportingFault _ | relaying _ =>
    simp only [advance?, same, hp, Option.map_map]
    rfl
  | _ =>
    simp only [advance?, same, hp, Option.map_some]
    rfl

theorem advance_refit (f : Finalizer) (given : s.finalization.finalizer.isSome = true)
    (ha : s.advance? inp out = some (s', inp', out', events)) :
    ∃ events', (s.refit f).advance? inp out = some (s'.refit f, inp', out', events') ∧
      Event.deeds events' = Event.deeds events := by
  by_cases at' : s.phase = .finalizing
  · simp only [advance?, at', Option.some.injEq, Prod.mk.injEq] at ha
    obtain ⟨rfl, rfl, rfl, rfl⟩ := ha
    obtain ⟨turn, deeds⟩ := Finalization.run_refit given f (out.sighting s.lifecycle)
    refine ⟨((s.refit f).finalization.run (out.sighting s.lifecycle)).2, ?_, deeds⟩
    simp only [advance?, refit, at', turn]
  · exact ⟨events, by rw [advance_refit_of_ne f at', ha]; rfl, rfl⟩

theorem expire_refit (f : Finalizer) (he : s.expire? inp = some s') :
    (s.refit f).expire? inp = some (s'.refit f) := by
  obtain ⟨at', due, rfl⟩ := expire_confirming he
  simp [expire?, refit, at', due]

end TransformStage

namespace Station

variable {σ : Type}

def refit (f : Finalizer) : Station σ → Station σ
  | .passing x => .passing (x.refit f)
  | .unconnected x => .unconnected (x.refit f)
  | .working s out => .working (s.refit f) out

variable (f : Finalizer) (st : Station σ)

@[simp] theorem finalization_refit : (st.refit f).finalization = st.finalization.refit f := by
  cases st <;> rfl

@[simp] theorem lifecycle_refit : (st.refit f).lifecycle = st.lifecycle := by cases st <;> rfl

@[simp] theorem faulted_refit : (st.refit f).faulted = st.faulted := by cases st <;> rfl

@[simp] theorem isResting_refit : (st.refit f).isResting = st.isResting := by cases st <;> rfl

@[simp] theorem sight_refit (inp : Conduit) : (st.refit f).sight inp = st.sight inp := by
  cases st <;> rfl

theorem setFinalization_refit (x : Finalization) :
    (st.refit f).setFinalization (x.refit f) = (st.setFinalization x).refit f := by
  cases st <;> rfl

end Station

namespace OwnedStage

variable {σ : Type} {t u : OwnedStage σ} {log : List Event}

/-- The same stage with another finalizer and another log. -/
def refit (f : Finalizer) (log : List Event) (t : OwnedStage σ) : OwnedStage σ :=
  { t with
    plan := { t.plan with finalizer := some f }
    station := t.station.refit f
    log }

@[simp] theorem input_refit (f : Finalizer) : (t.refit f log).input = t.input := rfl

@[simp] theorem station_refit (f : Finalizer) : (t.refit f log).station = t.station.refit f := rfl

@[simp] theorem demolition_refit (f : Finalizer) :
    (t.refit f log).demolition = t.demolition := rfl

@[simp] theorem log_refit (f : Finalizer) : (t.refit f log).log = log := rfl

@[simp] theorem hasTask_refit (f : Finalizer) : (t.refit f log).hasTask = t.hasTask := by
  simp [hasTask, refit]

@[simp] theorem sight_refit (f : Finalizer) : (t.refit f log).sight = t.sight := by
  cases hi : t.input <;> simp [sight, hi]

theorem create_refit (f : Finalizer) (plan : Pipeline.Stage σ) (input : Option Conduit) :
    (create plan input).refit f [] = create { plan with finalizer := some f } input := by
  obtain ⟨handler, memory, finalizer⟩ := plan
  cases handler <;> rfl

theorem build_refit (f : Finalizer) :
    (t.refit f log).build = t.build.map (refit f log) := by
  obtain ⟨⟨handler, memory, finalizer⟩, input, station, joined, demolition, log'⟩ := t
  cases input with
  | none => rfl
  | some inp =>
    cases handler with
    | none => rfl
    | some handler =>
      cases station with
      | passing x | working s out => rfl
      | unconnected x =>
        simp only [build, refit, Station.refit]
        cases TransformStage.outputFor inp <;> rfl

theorem build_log (hu : t.build = .ok u) : u.log = t.log := by
  unfold build at hu
  split at hu
  · obtain ⟨_, _, rfl⟩ := exists_ok_of_map hu
    rfl
  · exact Except.ok.inj hu ▸ rfl

/-- The log of a stage that is launched depends on nothing but whether it has an input. -/
theorem launch_refit (f : Finalizer) (same : Event.deeds log = Event.deeds t.log) :
    ∃ log', (t.refit f log).launch = t.launch.map (refit f log') ∧
      ∀ u, t.launch = .ok u → Event.deeds log' = Event.deeds u.log := by
  obtain ⟨plan, input, station, joined, demolition, log'⟩ := t
  cases input with
  | none =>
    refine ⟨log ++ Event.saying [TransformStage.noInputEntry], rfl, fun u hu => ?_⟩
    obtain rfl := Except.ok.inj hu
    rw [Event.deeds_append, Event.deeds_append, same]
  | some inp =>
    refine ⟨log, ?_, fun u hu => ?_⟩
    · cases station with
      | passing x | unconnected x => rfl
      | working s out =>
        by_cases fresh : s.lifecycle = .notStarted
        · simp only [launch, refit, Station.refit, TransformStage.start, TransformStage.refit, fresh]
          rfl
        · simp only [launch, refit, Station.refit, TransformStage.start, TransformStage.refit, fresh]
          rfl
    · cases station with
      | passing x | unconnected x => exact Except.ok.inj hu ▸ same
      | working s out =>
        obtain ⟨_, _, rfl⟩ := exists_ok_of_map hu
        exact same

/-- A stage that looks like `t` apart from its finalizer and the lines in its log. -/
def Resembles (f : Finalizer) (t u : OwnedStage σ) : Prop :=
  ∃ log, u = t.refit f log ∧ Event.deeds log = Event.deeds t.log

theorem start_refit (f : Finalizer) (same : Event.deeds log = Event.deeds t.log) :
    Resembles f (t.start.toOption.getD t)
      ((t.refit f log).start.toOption.getD (t.refit f log)) := by
  have keeps : Resembles f t (t.refit f log) := ⟨log, rfl, same⟩
  unfold start
  rw [build_refit]
  cases hb : t.build with
  | error w => exact keeps
  | ok v =>
    have kept : v.log = t.log := build_log hb
    obtain ⟨log', launched, same'⟩ := launch_refit f (kept ▸ same)
    cases hl : v.launch with
    | error w => simpa [Except.bind, Except.map, launched, hl, Except.toOption] using keeps
    | ok u =>
      have started : ((Except.ok v).bind launch).toOption.getD t = u := by
        rw [Except.bind, hl]
        rfl
      rw [started]
      refine ⟨log', ?_, same' u hl⟩
      simp [Except.bind, Except.map, launched, hl, Except.toOption]

theorem release_refit (f : Finalizer) (given : t.station.finalization.finalizer.isSome = true)
    (same : Event.deeds log = Event.deeds t.log) :
    Resembles f t.release (t.refit f log).release := by
  obtain ⟨turn, deeds⟩ := Finalization.run_refit given f t.sight
  refine ⟨log ++ ((t.station.finalization.refit f).run t.sight).2, ?_, ?_⟩
  · simp only [release, sight_refit, station_refit, Station.finalization_refit, log_refit, turn,
      Station.setFinalization_refit]
    rfl
  · rw [release, Event.deeds_append, Event.deeds_append, same, deeds]

theorem demolish_refit {d : Demolition} (f : Finalizer)
    (given : t.station.finalization.finalizer.isSome = true)
    (same : Event.deeds log = Event.deeds t.log) (hu : t.demolish? d = some u) :
    ∃ v, (t.refit f log).demolish? d = some v ∧ Resembles f u v := by
  cases d with
  | closingOutput =>
    obtain rfl := Option.some.inj hu
    refine ⟨_, rfl, log, ?_, same⟩
    cases hst : t.station <;> simp [refit, hst, Station.refit]
  | closingInput =>
    obtain rfl := Option.some.inj hu
    exact ⟨_, rfl, log, rfl, same⟩
  | joining =>
    simp only [demolish?, Option.ite_none_right_eq_some, Option.some.injEq] at hu
    obtain ⟨rests, rfl⟩ := hu
    exact ⟨_, if_pos ((Station.isResting_refit f t.station).trans rests), log, rfl, same⟩
  | releasing =>
    obtain rfl := Option.some.inj hu
    obtain ⟨log', released, same'⟩ := release_refit f given same
    refine ⟨_, rfl, log', ?_, same'⟩
    rw [released]
    rfl
  | complete => cases hu

theorem step_refit {a : Act} (f : Finalizer)
    (given : t.station.finalization.finalizer.isSome = true)
    (same : Event.deeds log = Event.deeds t.log) (hu : t.step? a = some u) :
    ∃ v, (t.refit f log).step? a = some v ∧ Resembles f u v := by
  cases a with
  | build =>
    simp only [step?, Option.ite_none_left_eq_some, Option.some.injEq] at hu
    obtain ⟨free, rfl⟩ := hu
    refine ⟨_, if_neg free, ?_⟩
    rw [build_refit]
    cases hb : t.build with
    | error w => exact ⟨log, rfl, same⟩
    | ok v => exact ⟨log, rfl, same.trans (congrArg _ (build_log hb).symm)⟩
  | start =>
    simp only [step?, Option.ite_none_left_eq_some, Option.some.injEq] at hu
    obtain ⟨free, rfl⟩ := hu
    exact ⟨_, if_neg free, start_refit f same⟩
  | join =>
    simp only [step?, Option.ite_none_left_eq_some] at hu
    obtain ⟨free, hu⟩ := hu
    simp only [step?, demolition_refit, if_neg free, hasTask_refit, station_refit,
      Station.isResting_refit]
    split at hu
    · rename_i task
      simp only [Option.ite_none_right_eq_some, Option.some.injEq] at hu
      obtain ⟨rests, rfl⟩ := hu
      exact ⟨_, (if_pos task).trans (if_pos rests), log, rfl, same⟩
    · rename_i task
      obtain rfl := Option.some.inj hu
      exact ⟨_, if_neg task, log, rfl, same⟩
  | destroy =>
    simp only [step?, Option.ite_none_left_eq_some, Option.some.injEq] at hu
    obtain ⟨free, rfl⟩ := hu
    refine ⟨_, if_neg free, log, ?_, same⟩
    rw [hasTask_refit]
    rfl
  | demolish =>
    obtain ⟨d, at', hu⟩ := Option.bind_eq_some_iff.mp hu
    obtain ⟨v, hv, like⟩ := demolish_refit f given same hu
    exact ⟨v, Option.bind_eq_some_iff.mpr ⟨d, at', hv⟩, like⟩
  | work =>
    simp only [step?] at hu
    split at hu
    · rename_i inp s out hi hst
      simp only [Option.map_eq_some_iff, Prod.exists] at hu
      obtain ⟨s', inp', out', events, ha, rfl⟩ := hu
      rw [hst] at given
      obtain ⟨events', ha', same'⟩ := TransformStage.advance_refit f given ha
      refine ⟨_, ?_, log ++ events', rfl, ?_⟩
      · simp [step?, refit, hi, hst, Station.refit, ha']
      · rw [Event.deeds_append, Event.deeds_append, same, same']
    · cases hu
  | expire =>
    simp only [step?] at hu
    split at hu
    · rename_i inp s out hi hst
      obtain ⟨s', he, rfl⟩ := Option.map_eq_some_iff.mp hu
      refine ⟨_, ?_, log, rfl, same⟩
      simp [step?, refit, hi, hst, Station.refit, TransformStage.expire_refit f he]
    · cases hu
  | front c =>
    simp only [step?, Option.bind_eq_some_iff, Option.ite_none_right_eq_some,
      Option.some.injEq] at hu
    obtain ⟨inp, hi, keeps, rfl⟩ := hu
    exact ⟨_, by simp [step?, refit, hi, keeps], log, rfl, same⟩
  | back c =>
    simp only [step?] at hu
    split at hu
    · rename_i s out hst
      simp only [Option.ite_none_right_eq_some, Option.some.injEq] at hu
      obtain ⟨keeps, rfl⟩ := hu
      exact ⟨_, by simp [step?, refit, hst, Station.refit, keeps], log, rfl, same⟩
    · cases hu

theorem run_refit {finalizer : Option Finalizer} {acts : List Act} (ht : Sound finalizer t)
    (f : Finalizer) (given : finalizer.isSome = true) (same : Event.deeds log = Event.deeds t.log)
    (hr : t.run? acts = some u) : ∃ v, (t.refit f log).run? acts = some v ∧ Resembles f u v := by
  induction acts generalizing t log with
  | nil => exact ⟨_, rfl, log, Option.some.inj hr ▸ rfl, Option.some.inj hr ▸ same⟩
  | cons a acts ih =>
    obtain ⟨t', ht', hr⟩ := Option.bind_eq_some_iff.mp hr
    obtain ⟨_, hv, log', rfl, same'⟩ := step_refit f (ht.finalizer ▸ given) same ht'
    obtain ⟨v, run, like⟩ := ih (sound_step ht ht') same' hr
    exact ⟨v, Option.bind_eq_some_iff.mpr ⟨_, hv, run⟩, like⟩

/-- A destruction that has begun goes on, unless it waits for the task. -/
theorem demolish_isSome {d : Demolition} (at' : t.demolition = some d) (unfinished : d ≠ .complete)
    (free : d = .joining → t.station.isResting = true) : (t.step? .demolish).isSome = true := by
  cases d with
  | joining => simp [step?, at', demolish?, free rfl]
  | complete => exact absurd rfl unfinished
  | closingOutput | closingInput | releasing => simp [step?, at', demolish?]

/-- The finalizer of a stage runs once and not too early, whatever becomes of the stage. It is
never called twice, and once the stage is destroyed it was called. If a task was started, both
channels of the output are closed when the finalizer is called, after it the stage hands over and
passes on nothing, and the stage ends up closed. The destruction waits for the task and for nothing
else. Whatever the finalizer throws, all goes as with any other one, but for the lines that are
written about it. -/
theorem finalizer_once {plan : Pipeline.Stage σ} {input : Option Conduit} {acts : List Act}
    {t : OwnedStage σ} (hr : (create plan input).run? acts = some t) :
    ((Event.collect Event.sighting? t.log).length ≤ 1 ∧
      (t.demolition = some .complete → (Event.collect Event.sighting? t.log).length =
        if plan.finalizer.isSome then 1 else 0) ∧
      ∀ d, t.demolition = some d → d ≠ .complete → (d = .joining → t.station.isResting = true) →
        (t.step? .demolish).isSome = true) ∧
    (t.station.lifecycle ≠ .notStarted →
      (∀ sight ∈ Event.collect Event.sighting? t.log, sight.Sealed) ∧
      Event.NeverAfter Event.finalizes Event.isDeed t.log ∧
      (t.demolition = some .complete → t.station.lifecycle = .closed)) ∧
    (plan.finalizer.isSome = true → ∀ f, ∃ u,
      (create { plan with finalizer := some f } input).run? acts = some u ∧
      u.demolition = t.demolition ∧ u.station.lifecycle = t.station.lifecycle ∧
      u.station.faulted = t.station.faulted ∧ Event.deeds u.log = Event.deeds t.log) := by
  have sound := sound_run (sound_create plan input) hr
  have calls := sound.calls
  refine ⟨⟨?_, fun destroyed => ?_, ?_⟩, fun started => ⟨sound.seen started, sound.order, ?_⟩, ?_⟩
  · rw [calls]
    exact Finalization.calls_le_one _
  · rw [calls, Finalization.calls, sound.turn, sound.finalizer, destroyed]
    simp
  · exact fun d at' unfinished free => demolish_isSome at' unfinished free
  · intro destroyed
    exact closed_of_finished sound (finished_of_resting sound (sound.left _ destroyed rfl) started)
  · intro given f
    rw [← create_refit]
    obtain ⟨_, run, log, rfl, same⟩ := run_refit (sound_create plan input) f given rfl hr
    exact ⟨_, run, rfl, by simp, by simp, same⟩

/-- A stage whose handler passes the first pack on, and whose finalizer throws. -/
def samplePlan : Pipeline.Stage Bool where
  handler := some Neighbours.passOnce
  memory := false
  finalizer := some { thrown := some (.runtimeError "finalizer") }

/-- An input in which a pack waits. -/
def sampleInput : Conduit where
  data := { slot := some (some (.ofBytes [])), offered := 1 }
  errors := { queue := { capacity := 1 }, interval := 1 }

/-- The stage is destroyed while the pack that its handler has left waits to be taken. The errors
in front are closed only when the destruction waits for the task. -/
def sampleActs : List Act :=
  [.start, .work, .work, .work, .work, .destroy, .demolish, .demolish, .work, .work, .expire,
    .work, .front sampleInput.closeData.closeErrors, .work, .work, .work, .work, .work, .work,
    .work, .demolish, .demolish]

/-- The finalizer is called by the task and not once more by the destruction, and what it throws
leaves the stage as it would be with a finalizer that does nothing. -/
theorem finalizer_once_thrown : ∃ t u : OwnedStage Bool,
    (create samplePlan (some sampleInput)).run? sampleActs = some t ∧
    (create { samplePlan with finalizer := some {} } (some sampleInput)).run? sampleActs = some u ∧
    (Event.collect Event.sighting? t.log).length = 1 ∧
    (∀ sight ∈ Event.collect Event.sighting? t.log, sight.Sealed) ∧
    t.station.lifecycle = .closed ∧ u.station.lifecycle = .closed ∧
    Event.deeds u.log = Event.deeds t.log := by
  have runs : ((create samplePlan (some sampleInput)).run? sampleActs).any (fun t =>
      t.demolition == some .complete && t.station.lifecycle != .notStarted) = true := by
    decide +kernel
  obtain ⟨t, hr, ht⟩ := (Option.any_eq_true _ _).mp runs
  simp only [Bool.and_eq_true, beq_iff_eq, bne_iff_ne] at ht
  obtain ⟨destroyed, started⟩ := ht
  obtain ⟨⟨_, once, _⟩, late, contained⟩ := finalizer_once hr
  obtain ⟨seen, _, closed⟩ := late started
  obtain ⟨u, hu, _, lifecycle, _, deeds⟩ := contained rfl {}
  have closed := closed destroyed
  exact ⟨t, u, hr, hu, once destroyed, seen, closed, lifecycle.trans closed, deeds⟩

end OwnedStage
end StagedPipeline
