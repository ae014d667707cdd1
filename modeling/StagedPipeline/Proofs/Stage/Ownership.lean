import StagedPipeline.Stage.Owned
import StagedPipeline.Proofs.Pipeline.Termination
import StagedPipeline.Proofs.Stage.Lifetime

/-!
# What an owner can count on

The finalizer of a stage is called at most once, and once when its owner has destroyed the stage,
whatever he and the parties at both ends of it have done.

The finalizer has two places from which it is called, the end of the task and the destruction of
the stage. The invariant ties its flag to both: it is set when the task has passed the one or the
destruction the other.
-/
namespace StagedPipeline

section

variable {ε α β : Type} {x : Except ε α} {b : β}

theorem exists_ok_of_map {f : α → β} (h : x.map f = .ok b) : ∃ a, x = .ok a ∧ f a = b := by
  cases x with
  | error => cases h
  | ok a => exact ⟨a, rfl, Except.ok.inj h⟩

theorem exists_ok_of_bind {f : α → Except ε β} (h : x.bind f = .ok b) :
    ∃ a, x = .ok a ∧ f a = .ok b := by
  cases x with
  | error => cases h
  | ok a => exact ⟨a, rfl, h⟩

end

/-- Neighbours who write, read and close as they can are among those who keep a conduit. -/
theorem Neighbours.keeps_around {σ : Type} {t u : Neighbours σ} {a : Act} (ha : a.isOwn = false)
    (hu : t.step? a = some u) : t.inlet.Keeps u.inlet ∧ t.outlet.Keeps u.outlet := by
  obtain ⟨front, back⟩ := closed_around ha hu
  suffices errors : (t.inlet.errors.isClosed = true → u.inlet.errors.isClosed = true) ∧
      (t.outlet.errors.isClosed = true → u.outlet.errors.isClosed = true) by
    exact ⟨⟨front, errors.1⟩, fun closed => by rw [back, closed, Bool.true_or], errors.2⟩
  cases a with
  | work | expire => cases ha
  | offer p =>
    simp only [step?, Option.ite_none_left_eq_some, Option.map_eq_some_iff, Prod.exists] at hu
    obtain ⟨_, r, data, _, rfl⟩ := hu
    cases r <;> exact ⟨id, id⟩
  | settle =>
    simp only [step?, Option.bind_eq_some_iff, Prod.exists, Option.map_eq_some_iff] at hu
    obtain ⟨_, _, _, _, _, _, rfl⟩ := hu
    exact ⟨id, id⟩
  | put e =>
    simp only [step?, Option.map_eq_some_iff, Prod.exists] at hu
    obtain ⟨how, errors, done, rfl⟩ := hu
    refine ⟨fun closed => ?_, id⟩
    rcases Reports.put_cases done with ⟨_, entered⟩ | ⟨_, rfl⟩
    · obtain ⟨_, rfl⟩ := Reports.forward_accepted entered
      exact closed
    · exact closed
  | take =>
    simp only [step?, Option.map_eq_some_iff, Prod.exists] at hu
    obtain ⟨_, _, _, rfl⟩ := hu
    exact ⟨id, id⟩
  | check =>
    simp only [step?, Option.map_eq_some_iff, Prod.exists] at hu
    obtain ⟨e, errors, done, rfl⟩ := hu
    refine ⟨id, fun closed => ?_⟩
    cases e with
    | some e =>
      obtain ⟨_, _, rfl⟩ := Reports.receive_error done
      exact closed
    | none =>
      obtain ⟨_, _, rfl⟩ := Reports.receive_end done
      exact closed
  | closeErrors =>
    obtain rfl := Option.some.inj hu
    exact ⟨fun _ => rfl, id⟩
  | closeData | shut =>
    obtain rfl := Option.some.inj hu
    exact ⟨id, id⟩

namespace Station

variable {σ : Type}

/-- Where the task of a station stands. One without a task is as one that was not started. -/
def phase : Station σ → TransformStage.Phase
  | .working s _ => s.phase
  | _ => .idle

theorem release_zero (inp : Conduit) (st : Station σ) (row : List (Station σ)) :
    release 0 inp (st :: row) = (st.setFinalization (st.finalization.run (st.sight inp)).1 :: row,
      (st.finalization.run (st.sight inp)).2) := by
  cases st <;> rfl

end Station

/-- Whether the destruction is still to wait for a task. -/
@[simp] def Demolition.waits : Demolition → Bool
  | .closingOutput | .closingInput | .joining => true
  | .releasing | .complete => false

/-! ## The same stage on a bench or in a pipeline -/

namespace OwnedStage

variable {σ : Type}

/-- The errand by which an application carries out a section of the destruction. -/
def errand? : Demolition → Option Application.Errand
  | .closingOutput => some .shut
  | .closingInput => some (.shutInput 0)
  | .joining => some (.join (.stage 0))
  | .releasing => some (.release 0)
  | .complete => none

/-- The sections of the destruction are the errands by which an application destroys a stage with a
task. -/
theorem demolish_errand {α : Type} [Supplier α] {t : OwnedStage σ} {b : System α σ}
    {s : TransformStage σ} {out : Conduit} {d : Demolition} {e : Application.Errand}
    {rest : List Application.Errand} (input : t.input = some b.inlet)
    (station : t.station = .working s out) (row : b.row = [t.station])
    (agenda : b.application.agenda = e :: rest) (he : errand? d = some e) :
    (b.advanceApplication?.map fun b => (some b.inlet, b.row)) =
      (t.demolish? d).map fun u => (u.input, [u.station]) := by
  rw [station] at row
  cases d with
  | closingOutput =>
    obtain rfl := Option.some.inj he
    simp [System.advanceApplication?, agenda, row, Station.atTerminal?, Application.advance?,
      demolish?, station, input, System.record]
  | closingInput =>
    obtain rfl := Option.some.inj he
    simp [System.advanceApplication?, agenda, row, Station.closeInput, demolish?, station, input]
  | joining =>
    obtain rfl := Option.some.inj he
    simp only [System.advanceApplication?, agenda, System.isResting, row, demolish?, station,
      List.getElem?_cons_zero, Option.map_some, Option.getD_some]
    split <;> simp [input]
  | releasing =>
    obtain rfl := Option.some.inj he
    simp [System.advanceApplication?, agenda, row, demolish?, station, input,
      Station.release_zero, release, sight, System.record]
  | complete => cases he

/-- A stage is given its output on the bench as it is by any owner. -/
theorem build_bench {b : Bench σ} {s : System Feeder σ} {st : Station σ} (system : b.system = some s)
    (row : s.row = [st]) :
    b.build = ({ plan := b.stage, input := some s.inlet, station := st } : OwnedStage σ).build.map
      fun t => { b with system := some { s with row := [t.station] } } := by
  have same : { b with system := some { s with row := [st] } } = b := by
    rw [← row]
    exact congrArg (fun x => { b with system := x }) system.symm
  cases hh : b.stage.handler with
  | none => simp [Bench.build, build, system, hh, Except.map, same]
  | some handler =>
    cases st with
    | passing x | working s out => simp [Bench.build, build, system, row, hh, Except.map, same]
    | unconnected x =>
      simp only [Bench.build, build, system, row, hh, bind, Except.bind, pure, Except.pure]
      cases TransformStage.outputFor s.inlet <;> rfl

end OwnedStage

/-! ## What the finalizer sees, and when -/

/-- Both channels of the output that a finalizer sees are closed. -/
def Sighting.Sealed (sight : Sighting) : Prop :=
  ∃ c : Conduit, sight.output = .conduit c ∧ c.errors.isClosed = true ∧ c.data.closed = true

namespace Event

/-- Whether the event is a call of the finalizer. -/
def finalizes (e : Event) : Bool := e.sighting?.isSome

/-- Whether a stage does something else in the event than to write a line or to call its
finalizer. -/
def isDeed : Event → Bool
  | .said _ | .finalized _ => false
  | _ => true

variable {log : List Event}

theorem quiet_saying (es : List Log.Entry) : ∀ e ∈ saying es, e.isDeed = false := by
  intro e he
  obtain ⟨_, _, rfl⟩ := List.mem_map.mp he
  rfl

/-- As long as no finalizer was called, nothing comes after its call. -/
theorem neverAfter_unseen (h : collect sighting? log = []) : NeverAfter finalizes isDeed log := by
  refine List.pairwise_of_forall_mem_list fun e he e' _ seen => ?_
  obtain ⟨sight, hs⟩ := Option.isSome_iff_exists.mp seen
  exact absurd he (not_mem_of_collect_nil h hs)

end Event

namespace Finalization

variable {x : Finalization} {sight : Sighting}

theorem quiet_run (x : Finalization) (sight : Sighting) :
    ∀ e ∈ (x.run sight).2, e.isDeed = false := by
  unfold run
  split
  · exact List.forall_mem_nil _
  · cases x.finalizer with
    | none => exact List.forall_mem_nil _
    | some f => exact List.forall_mem_cons.mpr ⟨rfl, Event.quiet_saying _⟩

theorem seen_run {sight' : Sighting}
    (h : sight' ∈ Event.collect Event.sighting? (x.run sight).2) : sight' = sight := by
  unfold run at h
  split at h
  · cases h
  · cases hf : x.finalizer with
    | none => simp [hf] at h
    | some f => simpa [hf, Event.sighting?, Event.sightings_saying] using h

theorem run_done (hd : x.done = true) : x.run sight = (x, []) := if_pos hd

theorem run_finalizer : (x.run sight).1.finalizer = x.finalizer := by
  unfold run
  split <;> rfl

theorem done_run : (x.run sight).1.done = true := by
  unfold run
  split
  · assumption
  · rfl

/-- Before its turn, a finalizer was not called. -/
theorem unseen_of_due {log : List Event} (due : x.done = false)
    (calls : (Event.collect Event.sighting? log).length = x.calls) :
    Event.collect Event.sighting? log = [] := by
  apply List.length_eq_zero_iff.mp
  rw [calls, Finalization.calls, due]
  rfl

theorem calls_le_one (x : Finalization) : x.calls ≤ 1 := by
  unfold calls
  split <;> omega

end Finalization

namespace TransformStage

variable {σ : Type} {s s' : TransformStage σ} {inp inp' out out' : Conduit} {events : List Event}

theorem busy_of_move (hm : s.Move inp out s' inp' out' events) :
    s.phase ≠ .idle ∧ s.phase ≠ .finished := by
  cases hm <;> simp [*]

/-- A section that leaves the errors of the output closed has found them so, or has closed them. -/
theorem sealed_move (h : s.phase.hasClosedErrors = true → out.errors.isClosed = true)
    (hm : s.Move inp out s' inp' out' events) :
    s'.phase.hasClosedErrors = true → out'.errors.isClosed = true := by
  cases hm with
  | succeed at' verdict =>
    simp only [afterSuccess]
    split <;> simp
  | skip at' done bare => simp [at']
  | closeErrors at' => exact fun _ => rfl
  | closeData at' => exact fun _ => h (by rw [at']; rfl)
  | _ => simp_all [afterFault, afterFailure]

theorem shut_move (h : s.phase.hasClosedData = true → out.data.closed = true)
    (hm : s.Move inp out s' inp' out' events) :
    s'.phase.hasClosedData = true → out'.data.closed = true := by
  rcases closed_move hm with ⟨same, same'⟩ | ⟨_, here⟩
  · rwa [same, same']
  · exact fun _ => here

/-- The task calls the finalizer at one place only. -/
theorem seen_move {sight : Sighting} (hm : s.Move inp out s' inp' out' events)
    (h : sight ∈ Event.collect Event.sighting? events) :
    s.phase = .finalizing ∧ sight = out.sighting s.lifecycle := by
  cases hm with
  | finalize at' => exact ⟨at', Finalization.seen_run h⟩
  | _ => simp [Event.sighting?, Event.sightings_saying, Event.sightings_putting] at h

/-- From there on it writes lines and does nothing else. -/
theorem quiet_move (at' : s.phase = .finalizing ∨ s.phase = .finishing)
    (hm : s.Move inp out s' inp' out' events) : ∀ e ∈ events, e.isDeed = false := by
  cases hm with
  | finalize _ => exact Finalization.quiet_run _ _
  | finish _ => exact Event.quiet_saying _
  | _ => rcases at' with at' | at' <;> simp_all

theorem order_move {finalizer : Option Finalizer} {log : List Event}
    (order : Event.NeverAfter Event.finalizes Event.isDeed log) (h : s.Finalizes finalizer log)
    (hm : s.Move inp out s' inp' out' events) :
    Event.NeverAfter Event.finalizes Event.isDeed (log ++ events) := by
  by_cases late : s.phase = .finalizing ∨ s.phase = .finishing
  · exact Event.neverAfter_quiet order (quiet_move late hm)
  · obtain ⟨early, unfinished⟩ := not_or.mp late
    have due : s.finalization.done = false := by
      rw [h.turn]
      have unended := (busy_of_move hm).2
      cases hp : s.phase <;> simp_all
    apply Event.neverAfter_unseen
    rw [Event.collect_append, Finalization.unseen_of_due due h.calls, List.nil_append]
    exact List.eq_nil_iff_forall_not_mem.mpr fun _ hs => early (seen_move hm hs).1

/-- What the finalizer sees in the task is an output with both channels closed. -/
theorem sealed_of_seen {sight : Sighting} (hm : s.Move inp out s' inp' out' events)
    (errors : s.phase.hasClosedErrors = true → out.errors.isClosed = true)
    (data : s.phase.hasClosedData = true → out.data.closed = true)
    (h : sight ∈ Event.collect Event.sighting? events) : sight.Sealed := by
  obtain ⟨at', rfl⟩ := seen_move hm h
  rw [at'] at errors data
  exact ⟨out, rfl, errors rfl, data rfl⟩

end TransformStage

namespace Station

variable {σ : Type} {st : Station σ} {x : Finalization}

theorem resting_iff : st.isResting = true ↔ st.phase = .idle ∨ st.phase = .finished := by
  cases st <;> simp [isResting, phase]

@[simp] theorem phase_setFinalization : (st.setFinalization x).phase = st.phase := by
  cases st <;> rfl

@[simp] theorem lifecycle_setFinalization : (st.setFinalization x).lifecycle = st.lifecycle := by
  cases st <;> rfl

@[simp] theorem faulted_setFinalization : (st.setFinalization x).faulted = st.faulted := by
  cases st <;> rfl

@[simp] theorem isResting_setFinalization : (st.setFinalization x).isResting = st.isResting := by
  cases st <;> rfl

@[simp] theorem finalization_setFinalization : (st.setFinalization x).finalization = x := by
  cases st <;> rfl

/-- A working output is closed as far as the task has come. -/
def Sealed : Station σ → Prop
  | .working s out =>
    (s.phase.hasClosedErrors = true → out.errors.isClosed = true) ∧
      (s.phase.hasClosedData = true → out.data.closed = true)
  | _ => True

theorem sealed_setFinalization (h : st.Sealed) : (st.setFinalization x).Sealed := by
  cases st <;> exact h

end Station

namespace OwnedStage

variable {σ : Type} {finalizer : Option Finalizer} {t u : OwnedStage σ}

/-- What is true of a stage with a finalizer, or none, at every moment. -/
structure Sound (finalizer : Option Finalizer) (t : OwnedStage σ) : Prop where
  finalizer : t.station.finalization.finalizer = finalizer
  /-- The flag is set by the task or by the destruction. -/
  turn : t.station.finalization.done =
    (t.station.phase.finalized || decide (t.demolition = some .complete))
  calls : (Event.collect Event.sighting? t.log).length = t.station.finalization.calls
  life : ∃ (l : Life) (n : Nat),
    l.Fits t.station.phase.era t.station.lifecycle t.station.faulted n
  sealed : t.station.Sealed
  joined : t.joined = true → t.station.phase = .finished
  /-- A destruction waits only for a task that was started, and goes on when it rests. -/
  waits : ∀ d, t.demolition = some d → d.waits = true → t.station.lifecycle ≠ .notStarted
  left : ∀ d, t.demolition = some d → d.waits = false → t.station.isResting = true
  seen : t.station.lifecycle ≠ .notStarted →
    ∀ sight ∈ Event.collect Event.sighting? t.log, sight.Sealed
  order : Event.NeverAfter Event.finalizes Event.isDeed t.log

theorem sound_create (plan : Pipeline.Stage σ) (input : Option Conduit) :
    Sound plan.finalizer (create plan input) := by
  unfold create
  cases plan.handler with
  | none | some _ =>
    constructor
    case life => exact ⟨.waiting, 0, rfl, rfl, rfl, rfl⟩
    case order => exact List.Pairwise.nil
    all_goals simp [Station.finalization, Station.phase, Station.Sealed, Finalization.calls]

theorem started_iff (ht : Sound finalizer t) :
    t.station.lifecycle ≠ .notStarted ↔ t.station.phase ≠ .idle := by
  obtain ⟨l, n, fits⟩ := ht.life
  refine not_congr ⟨fun fresh => ?_, fun idle => ?_⟩
  · exact TransformStage.idle_of_era (Life.fits_notStarted (fresh ▸ fits)).1
  · rw [idle] at fits
    obtain ⟨era, lifecycle, _, _⟩ := fits
    rw [lifecycle]
    cases l <;> first | rfl | cases era

theorem closed_of_finished (ht : Sound finalizer t) (ended : t.station.phase = .finished) :
    t.station.lifecycle = .closed := by
  obtain ⟨l, n, era, lifecycle, _, _⟩ := ht.life
  rw [ended] at era
  rw [lifecycle]
  cases l <;> first | rfl | cases era

/-! ## What the owner does -/

/-- A stage that has not begun to be destroyed gets another station with the same task. -/
theorem sound_rebuild {st : Station σ} (ht : Sound finalizer t) (free : t.demolition = none)
    (same : st.finalization = t.station.finalization) (phase : st.phase = t.station.phase)
    (lifecycle : st.lifecycle = t.station.lifecycle) (faulted : st.faulted = t.station.faulted)
    (sealed : st.Sealed) : Sound finalizer { t with station := st } where
  finalizer := by rw [same]; exact ht.finalizer
  turn := by rw [same, phase]; exact ht.turn
  calls := by rw [same]; exact ht.calls
  life := by rw [phase, lifecycle, faulted]; exact ht.life
  sealed
  joined := by rw [phase]; exact ht.joined
  waits := by simp [free]
  left := by simp [free]
  seen := by rw [lifecycle]; exact ht.seen
  order := ht.order

theorem sound_build (ht : Sound finalizer t) (free : t.demolition = none)
    (hu : t.build = .ok u) : Sound finalizer u ∧ u.demolition = none := by
  unfold build at hu
  split at hu
  · rename_i inp handler finalization _ _ hst
    obtain ⟨out, _, rfl⟩ := exists_ok_of_map hu
    refine ⟨sound_rebuild ht free ?_ ?_ ?_ ?_ ?_, free⟩ <;>
      simp [hst, Station.finalization, Station.phase, Station.lifecycle, Station.faulted,
        Station.Sealed]
  · obtain rfl := Except.ok.inj hu
    exact ⟨ht, free⟩

theorem sound_working {s : TransformStage σ} {out : Conduit} (ht : Sound finalizer t)
    (free : t.demolition = none) (hst : t.station = .working s out)
    (fresh : s.lifecycle = .notStarted) :
    Sound finalizer { t with station := .working s.launch out } := by
  obtain ⟨finalizer, turn, calls, ⟨l, n, fits⟩, sealed, joined, waits, left, seen, order⟩ := ht
  rw [hst] at finalizer turn calls fits joined
  rcases TransformStage.start_cases fits with ⟨_, idle, _, l', _, fits'⟩ | ⟨started, _⟩
  · have waiting : s.phase = .idle := idle
    have due : s.finalization.done = false := by
      simpa [Station.finalization, Station.phase, waiting, free] using turn
    have none' := Finalization.unseen_of_due due calls
    exact
      { finalizer
        turn := by simp [Station.finalization, Station.phase, TransformStage.launch, due, free]
        calls
        life := ⟨l', n, fits'⟩
        sealed := by simp [Station.Sealed, TransformStage.launch]
        joined := fun waited => by simpa [Station.phase, waiting] using joined waited
        waits := by simp [free]
        left := by simp [free]
        seen := by simp [none']
        order }
  · exact absurd fresh started

theorem sound_say {events : List Event} (ht : Sound finalizer t)
    (unseen : Event.collect Event.sighting? events = [])
    (quiet : ∀ e ∈ events, e.isDeed = false) :
    Sound finalizer { t with log := t.log ++ events } :=
  { ht with
    calls := by rw [Event.collect_append, unseen, List.append_nil]; exact ht.calls
    seen := by rw [Event.collect_append, unseen, List.append_nil]; exact ht.seen
    order := Event.neverAfter_quiet ht.order quiet }

theorem sound_start (ht : Sound finalizer t) (free : t.demolition = none)
    (hu : t.start = .ok u) : Sound finalizer u := by
  obtain ⟨v, hv, hu⟩ := exists_ok_of_bind hu
  obtain ⟨hv, free⟩ := sound_build ht free hv
  unfold launch at hu
  split at hu
  · obtain rfl := Except.ok.inj hu
    exact sound_say hv (Event.sightings_saying _) (Event.quiet_saying _)
  · rename_i s out _ hst
    obtain ⟨s', started, rfl⟩ := exists_ok_of_map hu
    by_cases fresh : s.lifecycle = .notStarted
    · obtain rfl := Except.ok.inj ((if_pos fresh).symm.trans started)
      exact sound_working hv free hst fresh
    · cases (if_neg fresh).symm.trans started
  · obtain rfl := Except.ok.inj hu
    exact hv

/-- A task that rests and was started is over. -/
theorem finished_of_resting (ht : Sound finalizer t) (rests : t.station.isResting = true)
    (started : t.station.lifecycle ≠ .notStarted) : t.station.phase = .finished :=
  (Station.resting_iff.mp rests).resolve_left ((started_iff ht).mp started)

theorem sound_join (ht : Sound finalizer t) (hu : t.step? .join = some u) :
    Sound finalizer u := by
  simp only [step?] at hu
  split at hu
  · cases hu
  · split at hu
    · rename_i task
      split at hu
      · rename_i rests
        obtain rfl := Option.some.inj hu
        have started : t.station.lifecycle ≠ .notStarted := by simp_all [hasTask]
        have ended := finished_of_resting ht rests started
        exact { ht with joined := fun _ => ended }
      · cases hu
    · obtain rfl := Option.some.inj hu
      exact ht

theorem sound_destroy (ht : Sound finalizer t) (hu : t.step? .destroy = some u) :
    Sound finalizer u := by
  simp only [step?] at hu
  split at hu
  · cases hu
  · rename_i free
    obtain rfl := Option.some.inj hu
    have turn := ht.turn
    rw [Option.not_isSome_iff_eq_none.mp free] at turn
    refine { ht with turn := ?_, waits := ?_, left := ?_ }
    · rw [turn]
      cases t.hasTask <;> rfl
    · intro d hd waits
      cases task : t.hasTask with
      | true => simp_all [hasTask]
      | false =>
        obtain rfl := Option.some.inj hd
        simp [task] at waits
    · intro d hd passed
      cases task : t.hasTask with
      | true =>
        obtain rfl := Option.some.inj hd
        simp [task] at passed
      | false =>
        -- a stage without a task was not started, or its task was joined
        apply Station.resting_iff.mpr
        cases waited : t.joined with
        | true => exact .inr (ht.joined waited)
        | false =>
          refine .inl (Classical.not_not.mp fun busy => ?_)
          have started := (started_iff ht).mpr busy
          simp [hasTask, started, waited] at task

theorem sound_release (ht : Sound finalizer t) (at' : t.demolition = some .releasing) :
    Sound finalizer { t.release with demolition := some .complete } := by
  have rests := ht.left _ at' rfl
  cases turn : t.station.finalization.done with
  | true =>
    have same : t.station.setFinalization t.station.finalization = t.station := by
      cases t.station <;> rfl
    simp only [release, Finalization.run_done turn, List.append_nil, same]
    exact { ht with turn := by simp [turn], waits := by simp, left := fun _ _ _ => rests }
  | false =>
    have due := ht.turn
    rw [turn, at'] at due
    have idle : t.station.phase = .idle := by
      refine (Station.resting_iff.mp rests).resolve_right fun ended => ?_
      simp [ended] at due
    have fresh : t.station.lifecycle = .notStarted :=
      Classical.not_not.mp fun started => (started_iff ht).mp started idle
    have none' := Finalization.unseen_of_due turn ht.calls
    constructor
    case finalizer => simpa [release] using Finalization.run_finalizer.trans ht.finalizer
    case turn => simp [release, Finalization.done_run]
    case calls =>
      simpa [release, none'] using Finalization.sightings_run _ t.sight turn
    case life => simpa [release] using ht.life
    case sealed => exact Station.sealed_setFinalization ht.sealed
    case joined => simpa [release] using ht.joined
    case waits => simp
    case left => exact fun _ _ _ => by simpa [release] using rests
    case seen => simp [release, fresh]
    case order => exact Event.neverAfter_quiet ht.order (Finalization.quiet_run _ _)

theorem sound_demolish (ht : Sound finalizer t) (hu : t.step? .demolish = some u) :
    Sound finalizer u := by
  obtain ⟨d, at', hu⟩ := Option.bind_eq_some_iff.mp hu
  have turn := ht.turn
  rw [at'] at turn
  cases d with
  | closingOutput =>
    obtain rfl := Option.some.inj hu
    have started := ht.waits _ at' rfl
    obtain ⟨finalizer, _, calls, life, sealed, joined, _, _, seen, order⟩ := ht
    cases hst : t.station with
    | passing x | unconnected x =>
      rw [hst] at finalizer turn calls life joined seen started
      exact ⟨finalizer, turn, calls, life, trivial, joined, fun _ _ _ => started, by simp, seen,
        order⟩
    | working s out =>
      rw [hst] at finalizer turn calls life joined seen sealed started
      exact ⟨finalizer, turn, calls, life, ⟨sealed.1, fun _ => rfl⟩, joined, fun _ _ _ => started,
        by simp, seen, order⟩
  | closingInput =>
    obtain rfl := Option.some.inj hu
    have started := ht.waits _ at' rfl
    exact { ht with turn := by simpa using turn, waits := fun _ _ _ => started, left := by simp }
  | joining =>
    simp only [demolish?, Option.ite_none_right_eq_some, Option.some.injEq] at hu
    obtain ⟨rests, rfl⟩ := hu
    have ended := finished_of_resting ht rests (ht.waits _ at' rfl)
    exact { ht with
      turn := by simpa using turn
      joined := fun _ => ended
      waits := by simp
      left := fun _ _ _ => rests }
  | releasing =>
    obtain rfl := Option.some.inj hu
    exact sound_release ht at'
  | complete => cases hu

/-! ## What the task and the others do -/

/-- While a task moves, the stage has been started and its destruction does not go past it. -/
theorem running_of_move {s s' : TransformStage σ} {inp inp' out out' : Conduit}
    {events : List Event} (ht : Sound finalizer t) (hst : t.station = .working s out)
    (hm : s.Move inp out s' inp' out' events) :
    t.station.lifecycle ≠ .notStarted ∧ t.joined = false ∧
      ∀ d, t.demolition = some d → d.waits = true := by
  obtain ⟨busy, unended⟩ := TransformStage.busy_of_move hm
  have busy : t.station.phase ≠ .idle := by rwa [hst]
  have unended : t.station.phase ≠ .finished := by rwa [hst]
  refine ⟨(started_iff ht).mpr busy, Bool.eq_false_iff.mpr (unended ∘ ht.joined), fun d hd => ?_⟩
  cases waits : d.waits with
  | true => rfl
  | false => exact (Station.resting_iff.mp (ht.left d hd waits)).elim busy.elim unended.elim

theorem sound_work (ht : Sound finalizer t) (hu : t.step? .work = some u) :
    Sound finalizer u := by
  simp only [step?] at hu
  split at hu
  · rename_i inp s out _ hst
    simp only [Option.map_eq_some_iff, Prod.exists] at hu
    obtain ⟨s', inp', out', events, ha, rfl⟩ := hu
    have move := TransformStage.move_of_advance ha
    obtain ⟨started, unjoined, waits⟩ := running_of_move ht hst move
    have unreleased : decide (t.demolition = some .complete) = false :=
      decide_eq_false fun hd => by cases waits _ hd
    obtain ⟨kept, turn, calls, ⟨l, n, fits⟩, sealed, _, _, _, seen, order⟩ := ht
    rw [unreleased, Bool.or_false] at turn
    rw [hst] at kept turn calls fits sealed started seen
    have finalizes : s.Finalizes finalizer t.log := ⟨kept, turn, calls⟩
    obtain ⟨kept', turn', calls'⟩ := TransformStage.finalizes_move finalizes move
    obtain ⟨l', step, fits'⟩ := TransformStage.life_move fits move
    have started' : s'.lifecycle ≠ .notStarted := by
      rw [fits'.lifecycle]
      exact Life.step_started step (fits.lifecycle ▸ started)
    constructor
    case finalizer => exact kept'
    case turn => rw [unreleased, Bool.or_false]; exact turn'
    case calls => exact calls'
    case life => exact ⟨l', _, fits'⟩
    case sealed =>
      exact ⟨TransformStage.sealed_move sealed.1 move, TransformStage.shut_move sealed.2 move⟩
    case joined => exact fun waited => by cases unjoined.symm.trans waited
    case waits => exact fun _ _ _ => started'
    case left => exact fun d hd passed => by cases (waits d hd).symm.trans passed
    case seen =>
      intro _ sight hs
      rw [Event.collect_append] at hs
      exact (List.mem_append.mp hs).elim (seen started sight)
        (TransformStage.sealed_of_seen move sealed.1 sealed.2)
    case order => exact TransformStage.order_move order finalizes move
  · cases hu

theorem sound_expire (ht : Sound finalizer t) (hu : t.step? .expire = some u) :
    Sound finalizer u := by
  simp only [step?] at hu
  split at hu
  · rename_i inp s out _ hst
    obtain ⟨s', he, rfl⟩ := Option.map_eq_some_iff.mp hu
    obtain ⟨at', _, rfl⟩ := TransformStage.expire_confirming he
    obtain ⟨kept, turn, calls, ⟨l, n, fits⟩, _, joined, waits, left, seen, order⟩ := ht
    have running : t.station.isResting = false := by simp [hst, Station.isResting, at']
    rw [hst] at kept turn calls fits joined waits seen
    constructor
    case finalizer => exact kept
    case turn => exact turn.trans (by simp [Station.phase, at'])
    case calls => exact calls
    case life => exact ⟨l, n, TransformStage.life_expire fits at'⟩
    case sealed => simp [Station.Sealed]
    case joined => exact fun waited => by cases at'.symm.trans (joined waited)
    case waits => exact waits
    case left => exact fun d hd passed => by cases running.symm.trans (left d hd passed)
    case seen => exact seen
    case order => exact order
  · cases hu

theorem sound_front {c : Conduit} (ht : Sound finalizer t) (hu : t.step? (.front c) = some u) :
    Sound finalizer u := by
  simp only [step?, Option.bind_eq_some_iff, Option.ite_none_right_eq_some, Option.some.injEq]
    at hu
  obtain ⟨_, _, _, rfl⟩ := hu
  exact { ht with }

theorem sound_back {c : Conduit} (ht : Sound finalizer t) (hu : t.step? (.back c) = some u) :
    Sound finalizer u := by
  simp only [step?] at hu
  split at hu
  · rename_i s out hst
    simp only [Option.ite_none_right_eq_some, Option.some.injEq] at hu
    obtain ⟨⟨data, errors⟩, rfl⟩ := hu
    obtain ⟨kept, turn, calls, life, sealed, joined, waits, left, seen, order⟩ := ht
    rw [hst] at kept turn calls life sealed joined waits left seen
    exact ⟨kept, turn, calls, life, ⟨errors ∘ sealed.1, data ∘ sealed.2⟩, joined, waits, left, seen,
      order⟩
  · cases hu

theorem sound_step {a : Act} (ht : Sound finalizer t) (hu : t.step? a = some u) :
    Sound finalizer u := by
  cases a with
  | build =>
    simp only [step?, Option.ite_none_left_eq_some, Option.not_isSome_iff_eq_none,
      Option.some.injEq] at hu
    obtain ⟨free, rfl⟩ := hu
    cases hb : t.build with
    | error f => exact ht
    | ok v => exact (sound_build ht free hb).1
  | start =>
    simp only [step?, Option.ite_none_left_eq_some, Option.not_isSome_iff_eq_none,
      Option.some.injEq] at hu
    obtain ⟨free, rfl⟩ := hu
    cases hs : t.start with
    | error f => exact ht
    | ok v => exact sound_start ht free hs
  | join => exact sound_join ht hu
  | destroy => exact sound_destroy ht hu
  | demolish => exact sound_demolish ht hu
  | work => exact sound_work ht hu
  | expire => exact sound_expire ht hu
  | front c => exact sound_front ht hu
  | back c => exact sound_back ht hu

theorem sound_run {acts : List Act} (ht : Sound finalizer t) (hr : t.run? acts = some u) :
    Sound finalizer u := by
  induction acts generalizing t with
  | nil => exact Option.some.inj hr ▸ ht
  | cons a acts ih =>
    obtain ⟨t', ht', hr⟩ := Option.bind_eq_some_iff.mp hr
    exact ih (sound_step ht ht') hr

end OwnedStage
end StagedPipeline
