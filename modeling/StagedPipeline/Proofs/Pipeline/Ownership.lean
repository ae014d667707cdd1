import StagedPipeline.Pipeline.Owned
import StagedPipeline.Proofs.Pipeline.Abandonment
import StagedPipeline.Proofs.Stage.Ownership

/-!
# Which finalizers of a pipeline are called

A finalizer waits in the plan until the pipeline is started. It comes to a stage of its own only
then, and only a stage makes calls of finalizers. So the finalizers that are called are those of the
stages that were made, each of them once.
-/
namespace StagedPipeline

namespace Finalization

/-- What some events have done to a finalizer: they hold the calls by which it has come further. -/
structure Step (x x' : Finalization) (events : List Event) : Prop where
  finalizer : x'.finalizer = x.finalizer
  done : x.done = true → x'.done = true
  calls : x'.calls = x.calls + (Event.collect Event.sighting? events).length

theorem step_quiet {events : List Event} (x : Finalization)
    (unseen : Event.collect Event.sighting? events = []) : x.Step x events :=
  ⟨rfl, id, by rw [unseen]; rfl⟩

theorem step_run (x : Finalization) (sight : Sighting) :
    x.Step (x.run sight).1 (x.run sight).2 := by
  cases turn : x.done with
  | true =>
    rw [run_done turn]
    exact step_quiet x rfl
  | false =>
    refine ⟨run_finalizer, fun _ => done_run, ?_⟩
    have before : x.calls = 0 := by rw [calls, turn]; rfl
    rw [before, Nat.zero_add]
    exact (sightings_run x sight turn).symm

end Finalization

theorem TransformStage.step_move {σ : Type} {s s' : TransformStage σ}
    {inp inp' out out' : Conduit} {events : List Event} (hm : s.Move inp out s' inp' out' events) :
    s.finalization.Step s'.finalization events := by
  cases hm with
  | finalize at' => exact Finalization.step_run _ _
  | _ =>
    refine Finalization.step_quiet s.finalization ?_
    simp [Event.sighting?, Event.sightings_saying, Event.sightings_putting]

theorem SourceStage.unseen_move {π : Type} {s s' : SourceStage π} {out out' : Conduit}
    {events : List Event} (hm : s.Move out s' out' events) :
    Event.collect Event.sighting? events = [] := by
  cases hm <;> simp [Event.sighting?, Event.sightings_saying, Event.sightings_putting]

theorem Application.unseen_advance {a a' : Application} {c c' : Conduit} {events : List Event}
    (ha : a.advance? c = some (a', c', events)) : Event.collect Event.sighting? events = [] := by
  unfold advance? at ha
  split at ha
  case h_1 | h_2 | h_4 | h_5 =>
    simp only [Option.map_eq_some_iff, Prod.exists, Prod.mk.injEq] at ha
    obtain ⟨item, data, done, rfl, rfl, rfl⟩ := ha
    cases item <;> rfl
  case h_3 | h_6 | h_8 =>
    cases ha
    rfl
  case h_7 | h_9 =>
    simp only [Option.map_eq_some_iff, Prod.exists] at ha
    obtain ⟨item, errors, done, ha⟩ := ha
    cases item <;> cases ha <;> rfl
  case h_10 =>
    split at ha
    · cases ha
      exact Event.sightings_saying _
    · cases ha
      rfl
  case h_11 => cases ha

/-- No station is destroyed before the drain is over. -/
theorem Application.leaving_release {a : Application} {waits : List Errand} {r : ReaderSide}
    {i : Nat} (hs : a.Leaving waits r) (hi : .release i ∈ a.agenda) : .release i ∈ waits := by
  cases hs with
  | shutting agenda | polling agenda _ | confirming agenda _ => simpa [agenda] using hi
  | waiting agenda _ => exact agenda.subset hi

namespace Station

variable {σ : Type} {i : Nat} {c c' : Conduit} {st st' : Station σ} {row row' : List (Station σ)}
  {events : List Event}

/-- Some events have done something to the finalizer at a position, and to no other one. -/
structure Finalized (i : Nat) (row row' : List (Station σ)) (events : List Event) : Prop where
  length : row'.length = row.length
  each : ∀ (j : Nat) (x : Station σ), row[j]? = some x → ∃ x', row'[j]? = some x' ∧
    x.finalization.Step x'.finalization (if j = i then events else [])

theorem finalized_here (step : st.finalization.Step st'.finalization events) :
    Finalized 0 (st :: row) (st' :: row) events where
  length := rfl
  each j x hx := by
    cases j with
    | zero =>
      obtain rfl := Option.some.inj hx
      exact ⟨st', rfl, step⟩
    | succ j => exact ⟨x, hx, Finalization.step_quiet _ rfl⟩

theorem finalized_behind (same : st'.finalization = st.finalization)
    (behind : Finalized i row row' events) :
    Finalized (i + 1) (st :: row) (st' :: row') events where
  length := congrArg (· + 1) behind.length
  each j x hx := by
    cases j with
    | zero =>
      obtain rfl := Option.some.inj hx
      exact ⟨st', rfl, same ▸ Finalization.step_quiet _ rfl⟩
    | succ j => simpa using behind.each j x hx

theorem finalized_same (same : row'.map finalization = row.map finalization) :
    Finalized i row row' [] where
  length := by simpa using congrArg List.length same
  each j x hx := by
    have here := congrArg (·[j]?) same
    simp only [List.getElem?_map, hx, Option.map_some, Option.map_eq_some_iff] at here
    obtain ⟨x', hx', same⟩ := here
    refine ⟨x', hx', ?_⟩
    rw [same, ite_self]
    exact Finalization.step_quiet _ rfl

theorem finalized_moved (hm : Moved i c row c' row' events) : Finalized i row row' events := by
  induction hm with
  | here move => exact finalized_here (TransformStage.step_move move)
  | passing _ ih | unconnected _ ih | working _ ih => exact finalized_behind rfl ih

theorem release_succ (i : Nat) (c : Conduit) (st : Station σ) (row : List (Station σ)) :
    release (i + 1) c (st :: row) =
      (st :: (release i (st.outlet c) row).1, (release i (st.outlet c) row).2) := by
  cases st <;> rfl

theorem finalized_release (i : Nat) (c : Conduit) (row : List (Station σ)) :
    Finalized i row (release i c row).1 (release i c row).2 := by
  induction row generalizing i c with
  | nil => cases i <;> exact finalized_same rfl
  | cons st row ih =>
    cases i with
    | zero =>
      rw [release_zero]
      apply finalized_here
      rw [finalization_setFinalization]
      exact Finalization.step_run _ _
    | succ i =>
      rw [release_succ]
      exact finalized_behind rfl (ih i (st.outlet c))

/-- Where a station is destroyed, the finalizer has had its turn. -/
theorem done_release {x : Station σ} (hx : (release i c row).1[i]? = some x) :
    x.finalization.done = true := by
  induction row generalizing i c with
  | nil => cases i <;> cases hx
  | cons st row ih =>
    cases i with
    | zero =>
      rw [release_zero] at hx
      obtain rfl := Option.some.inj hx
      rw [finalization_setFinalization]
      exact Finalization.done_run
    | succ i =>
      rw [release_succ] at hx
      exact ih hx

theorem moved_lt (hm : Moved i c row c' row' events) : i < row.length := by
  induction hm with
  | here _ => exact Nat.succ_pos _
  | passing _ ih | unconnected _ ih | working _ ih => exact Nat.succ_lt_succ ih

/-- Behind the end of the row there is nothing to be destroyed. -/
theorem release_beyond (i : Nat) (c : Conduit) (row : List (Station σ)) (hi : row.length ≤ i) :
    (release i c row).2 = [] := by
  induction row generalizing i c with
  | nil => cases i <;> rfl
  | cons st row ih =>
    cases i with
    | zero => cases hi
    | succ i =>
      rw [release_succ]
      exact ih i _ (Nat.le_of_succ_le_succ hi)

theorem finalization_expired (he : Expired i c row row') :
    row'.map finalization = row.map finalization := by
  induction he with
  | here expire =>
    obtain ⟨_, _, rfl⟩ := TransformStage.expire_confirming expire
    rfl
  | passing _ ih | unconnected _ ih | working _ ih => rw [List.map_cons, List.map_cons, ih]

theorem finalization_terminal {β : Type} {b : β} {f : Conduit → Option (Conduit × β)}
    (hf : atTerminal? f c row = some (c', row', b)) :
    (∃ d d', f d = some (d', b)) ∧ row'.map finalization = row.map finalization := by
  induction row generalizing c c' row' with
  | nil =>
    simp only [atTerminal?, Option.map_eq_some_iff, Prod.exists, Prod.mk.injEq] at hf
    obtain ⟨d', _, done, _, rfl, rfl⟩ := hf
    exact ⟨⟨c, d', done⟩, rfl⟩
  | cons st row ih =>
    cases st <;>
    · simp only [atTerminal?, Option.map_eq_some_iff, Prod.exists, Prod.mk.injEq] at hf
      obtain ⟨_, _, _, behind, _, rfl, rfl⟩ := hf
      obtain ⟨done, same⟩ := ih behind
      exact ⟨done, congrArg (_ :: ·) same⟩

theorem finalization_closeInput (i : Nat) (c : Conduit) (row : List (Station σ)) :
    (closeInput i c row).2.map finalization = row.map finalization := by
  induction row generalizing i c with
  | nil => cases i <;> rfl
  | cons st row ih =>
    cases i with
    | zero => rfl
    | succ i =>
      cases st <;>
      · rw [List.map_cons, ← ih i]
        rfl

end Station
namespace System

variable {α π σ : Type}

/-- Everything that has happened, in order. -/
def events (s : System α σ) : List Event := s.history.reverse.map Prod.snd

/-- What a step that leaves some events does to the finalizers of the row. -/
structure Finalizes (s : System α σ) (a : Action) (u : System α σ) (events : List Event) :
    Prop where
  history : ∃ q, u.history = (events.map (q, ·)).reverse ++ s.history
  length : u.row.length = s.row.length
  each : ∀ (j : Nat) (x : Station σ), s.row[j]? = some x → ∃ x', u.row[j]? = some x' ∧
    x.finalization.Step x'.finalization (if s.owner? a = some j then events else [])
  owned : (∃ j, s.owner? a = some j ∧ j < s.row.length) ∨
    Event.collect Event.sighting? events = []

variable {s u : System α σ} {a : Action} {events : List Event}

theorem since_finalizes (h : s.Finalizes a u events) : s.since u = events := by
  obtain ⟨q, history⟩ := h.history
  simp [since, history, Function.comp_def]

theorem events_finalizes (h : s.Finalizes a u events) : u.events = s.events ++ events := by
  obtain ⟨q, history⟩ := h.history
  simp [System.events, history, List.map_reverse, Function.comp_def]

/-- A step of which no finalizer knows. -/
theorem finalizes_same {q : Party} (history : u.history = (events.map (q, ·)).reverse ++ s.history)
    (same : u.row.map Station.finalization = s.row.map Station.finalization)
    (nobody : s.owner? a = none) (unseen : Event.collect Event.sighting? events = []) :
    s.Finalizes a u events := by
  obtain ⟨length, each⟩ := Station.finalized_same (i := 0) same
  refine ⟨⟨q, history⟩, length, fun j x hx => ?_, .inr unseen⟩
  simpa [nobody] using each j x hx

theorem finalizes_at {q : Party} {i : Nat}
    (history : u.history = (events.map (q, ·)).reverse ++ s.history)
    (h : Station.Finalized i s.row u.row events) (owner : s.owner? a = some i)
    (owned : i < s.row.length ∨ events = []) : s.Finalizes a u events := by
  refine ⟨⟨q, history⟩, h.length, fun j x hx => ?_, ?_⟩
  · simpa [owner, eq_comm] using h.each j x hx
  · rcases owned with within | rfl
    · exact .inl ⟨i, owner, within⟩
    · exact .inr rfl

theorem owner_of_section {c c' : Conduit} {a' : Application}
    (ha : s.application.advance? c = some (a', c', events)) :
    s.owner? (.advance .application) = none := by
  simp only [owner?]
  split
  · rename_i i rest agenda
    simp [Application.advance?, agenda] at ha
  · rfl

/-- Every step but those of a task and of the application that destroys a station leaves the
finalizers alone, and those two call the finalizer of their own station. -/
theorem finalizes_step {s u : System (SourceStage π) σ} (hu : s.step? a = some u) :
    ∃ events, s.Finalizes a u events := by
  cases a with
  | advance q =>
    cases q with
    | supplier =>
      simp only [step?, System.advance?, Option.map_eq_some_iff, Prod.exists] at hu
      obtain ⟨supplier, inlet, events, ha, rfl⟩ := hu
      have unseen := SourceStage.unseen_move (SourceStage.move_of_advance ha)
      exact ⟨events, finalizes_same rfl rfl rfl unseen⟩
    | stage i =>
      simp only [step?, System.advance?, Option.map_eq_some_iff, Prod.exists] at hu
      obtain ⟨inlet, row, events, ha, rfl⟩ := hu
      have moved := Station.moved_of_advance ha
      exact ⟨events, finalizes_at rfl (Station.finalized_moved moved) rfl
        (.inl (Station.moved_lt moved))⟩
    | application =>
      rcases application_cases hu with ⟨q, rest, agenda, _, rfl⟩ | ⟨i, rest, agenda, rfl⟩ |
        ⟨i, rest, agenda, rfl⟩ | ⟨inlet, row, a', events, hf, rfl⟩
      · exact ⟨[], finalizes_same (q := .application) rfl rfl (by simp [owner?, agenda]) rfl⟩
      · exact ⟨[], finalizes_same (q := .application) rfl
          (Station.finalization_closeInput i s.inlet s.row) (by simp [owner?, agenda]) rfl⟩
      · refine ⟨_, finalizes_at (i := i) rfl (Station.finalized_release i s.inlet s.row)
          (by simp [owner?, agenda]) ?_⟩
        exact (Nat.lt_or_ge i s.row.length).imp_right (Station.release_beyond i s.inlet s.row)
      · obtain ⟨⟨d, d', done⟩, same⟩ := Station.finalization_terminal hf
        have done := Application.section_eq_some.mp done
        exact ⟨events, finalizes_same rfl same (owner_of_section done)
          (Application.unseen_advance done)⟩
  | expire q =>
    cases q with
    | supplier => cases hu
    | application =>
      obtain ⟨_, _, rfl⟩ := Option.map_eq_some_iff.mp hu
      exact ⟨[], finalizes_same (q := .application) rfl rfl rfl rfl⟩
    | stage i =>
      obtain ⟨row, he, rfl⟩ := Option.map_eq_some_iff.mp hu
      have same := Station.finalization_expired (Station.expired_of_expire he)
      exact ⟨[], finalizes_same (q := .stage i) rfl same rfl rfl⟩

/-! ## The end of the pipeline -/

variable {waits : List Application.Errand}

theorem application_task {q : Party} (hq : q ≠ .application) {s u : System (SourceStage π) σ}
    (hu : s.advance? q = some u) : u.application = s.application := by
  cases q with
  | application => exact absurd rfl hq
  | supplier | stage i =>
    simp only [System.advance?, Option.map_eq_some_iff, Prod.exists] at hu
    obtain ⟨_, _, _, _, rfl⟩ := hu
    rfl

theorem application_expire {q : Party} (hq : q ≠ .application) {s u : System (SourceStage π) σ}
    (hu : s.expire? q = some u) : u.application = s.application := by
  cases q with
  | application => exact absurd rfl hq
  | supplier => cases hu
  | stage i =>
    obtain ⟨_, _, rfl⟩ := Option.map_eq_some_iff.mp hu
    rfl

/-- While a pipeline is destroyed, no station is forgotten: it is still to be destroyed, or its
finalizer has had its turn. -/
theorem leaving_finalizes {s u : System (SourceStage π) σ} {r : ReaderSide}
    (closing : Application.Closing waits) (leaves : s.application.Leaving waits r)
    (hu : s.step? a = some u) : (∃ r', u.application.Leaving waits r') ∧
      ∀ j, .release j ∈ s.application.agenda → .release j ∈ u.application.agenda ∨
        ∀ x, u.row[j]? = some x → x.finalization.done = true := by
  have kept : u.application = s.application → (∃ r', u.application.Leaving waits r') ∧
      ∀ j, .release j ∈ s.application.agenda → .release j ∈ u.application.agenda ∨
        ∀ x, u.row[j]? = some x → x.finalization.done = true := by
    intro same
    rw [same]
    exact ⟨⟨r, leaves⟩, fun _ hj => .inl hj⟩
  have ahead : ∀ {a' : Application}, waits <:+ a'.agenda → ∀ j,
      .release j ∈ s.application.agenda → .release j ∈ a'.agenda := fun suffix j hj =>
    suffix.subset (Application.leaving_release leaves hj)
  cases a with
  | advance q =>
    by_cases hq : q = .application
    · subst hq
      rcases application_cases hu with ⟨q, rest, agenda, _, rfl⟩ | ⟨i, rest, agenda, rfl⟩ |
        ⟨i, rest, agenda, rfl⟩ | ⟨inlet, row, a', events, hf, rfl⟩
      · refine ⟨⟨r, Application.leaving_pop leaves agenda (.inl ⟨q, rfl⟩)⟩, fun j hj => .inl ?_⟩
        simpa [agenda] using hj
      · refine absurd ?_ (Application.leaving_keeps leaves closing i)
        rw [agenda]
        exact List.mem_cons_self
      · refine ⟨⟨r, Application.leaving_pop leaves agenda (.inr ⟨i, rfl⟩)⟩, fun j hj => ?_⟩
        by_cases same : j = i
        · exact .inr fun x hx => Station.done_release (same ▸ hx)
        · have later : .release j ∈ rest := by simpa [agenda, same] using hj
          exact .inl later
      · obtain ⟨⟨d, d', done⟩, _⟩ := Station.finalization_terminal hf
        obtain ⟨suffix, r', _, _, leaves'⟩ :=
          Application.leaving_advance leaves closing (Application.section_eq_some.mp done)
        exact ⟨⟨r', leaves'⟩, fun j hj => .inl (ahead suffix j hj)⟩
    · exact kept (application_task hq hu)
  | expire q =>
    by_cases hq : q = .application
    · subst hq
      obtain ⟨a', he, rfl⟩ := Option.map_eq_some_iff.mp hu
      obtain ⟨suffix, leaves'⟩ := Application.leaving_expire leaves closing he
      exact ⟨⟨r, leaves'⟩, fun j hj => .inl (ahead suffix j hj)⟩
    · exact kept (application_expire hq hu)

end System
namespace Pipeline

variable {π σ : Type}

/-- Each station gets the finalizer that was given away with its stage, and where no error channel
is wanting every stage gets a station. -/
theorem connect_finalizers (c : Conduit) (stages : List (Stage σ)) :
    (∀ (j : Nat) (x : Station σ), (connect c stages).1[j]? = some x →
      ∃ s, stages[j]? = some s ∧ x.finalization = { finalizer := s.finalizer }) ∧
    ((connect c stages).2 = none → (connect c stages).1.length = stages.length) := by
  induction stages generalizing c with
  | nil => exact ⟨fun j x hx => by simp [connect] at hx, fun _ => rfl⟩
  | cons s stages ih =>
    cases hh : s.handler with
    | none =>
      obtain ⟨each, whole⟩ := ih c
      simp only [connect, hh]
      refine ⟨fun j x hx => ?_, fun through => congrArg (· + 1) (whole through)⟩
      cases j with
      | zero => exact ⟨s, rfl, Option.some.inj hx ▸ rfl⟩
      | succ j => exact each j x hx
    | some h =>
      cases ho : TransformStage.outputFor c with
      | error f =>
        simp only [connect, hh, ho]
        refine ⟨fun j x hx => ?_, fun through => by cases through⟩
        cases j with
        | zero => exact ⟨s, rfl, Option.some.inj hx ▸ rfl⟩
        | succ j => simp at hx
      | ok out =>
        obtain ⟨each, whole⟩ := ih out
        simp only [connect, hh, ho]
        refine ⟨fun j x hx => ?_, fun through => congrArg (· + 1) (whole through)⟩
        cases j with
        | zero => exact ⟨s, rfl, Option.some.inj hx ▸ rfl⟩
        | succ j => exact each j x hx

theorem start_finalizers {p : Pipeline π σ} {s : System (SourceStage π) σ} {fault : Option Fault}
    (hs : p.start = .ok (s, fault)) :
    (∀ (j : Nat) (x : Station σ), s.row[j]? = some x →
      ∃ stage, p.stages[j]? = some stage ∧ x.finalization = { finalizer := stage.finalizer }) ∧
    (fault = none → s.row.length = p.stages.length) ∧
    Event.collect Event.sighting? s.events = [] := by
  simp only [start, bind, Except.bind, pure, Except.pure] at hs
  split at hs
  · cases hs
  · split at hs
    · cases hs
    · rename_i inlet _
      obtain ⟨each, whole⟩ := connect_finalizers inlet p.stages
      split at hs
      · rename_i f hf
        cases hs
        exact ⟨each, fun through => (by cases through), rfl⟩
      · rename_i hf
        cases hs
        exact ⟨each, fun _ => whole hf, rfl⟩

end Pipeline

namespace OwnedPipeline

variable {π σ : Type}

/-- The owner has begun to destroy the pipeline, and nothing is left to do. -/
def Destroyed (t : OwnedPipeline π σ) : Prop :=
  t.destroying = true ∧ ∀ s, t.system = some s → s.application.agenda = []

/-- The number of stages that were made. -/
def made (t : OwnedPipeline π σ) : Nat := (t.system.map fun s => s.row.length).getD 0

/-- The number of calls of the finalizer of the stage at a position. -/
def callsOf (t : OwnedPipeline π σ) (i : Nat) : Nat := t.calls.countP (·.1 == i)

/-- What is true of a started pipeline at every moment. -/
structure Running (t : OwnedPipeline π σ) (s : System (SourceStage π) σ) : Prop where
  started : t.plan.started = true
  finalizers : ∀ (j : Nat) (x : Station σ), s.row[j]? = some x →
    (t.plan.stages[j]?).map (·.finalizer) = some x.finalization.finalizer
  complete : t.complete = true → s.row.length = t.plan.stages.length
  fits : t.plan.Fits → t.complete = true
  counts : ∀ j, t.callsOf j = ((s.row[j]?).map fun x => x.finalization.calls).getD 0
  all : t.calls.map Prod.snd = Event.collect Event.sighting? s.events
  leaves : t.destroying = true →
    ∃ r, s.application.Leaving (s.joining ++ s.releasing) r
  owed : t.destroying = true → ∀ (j : Nat) (x : Station σ), s.row[j]? = some x →
    .release j ∈ s.application.agenda ∨ x.finalization.done = true

structure Sound (t : OwnedPipeline π σ) : Prop where
  waiting : t.system = none → t.plan.Planned ∧ t.calls = []
  running : ∀ s, t.system = some s → Running t s

variable {t u : OwnedPipeline π σ}

theorem sound_create {p : Pipeline π σ} (hp : p.Planned) : Sound { plan := p } :=
  ⟨fun _ => ⟨hp, rfl⟩, fun _ hs => by cases hs⟩

theorem sound_append {s : Pipeline.Stage σ} (ht : Sound t) (hu : t.step? (.append s) = some u) :
    Sound u := by
  simp only [step?, Option.ite_none_left_eq_some, Option.some.injEq] at hu
  obtain ⟨_, rfl⟩ := hu
  cases made : t.plan.append s with
  | error f => exact ⟨ht.waiting, ht.running⟩
  | ok p =>
    refine ⟨fun none' => ?_, fun s' hs => ?_⟩
    · exact ⟨.append (ht.waiting none').1 made, (ht.waiting none').2⟩
    · -- nothing is added to a pipeline that was started
      have started := (ht.running s' hs).started
      rw [Pipeline.append, started] at made
      cases made

theorem sound_start (ht : Sound t) (hu : t.step? .start = some u) : Sound u := by
  simp only [step?, Option.ite_none_left_eq_some] at hu
  obtain ⟨early, hu⟩ := hu
  cases made : t.plan.start with
  | error f =>
    rw [made] at hu
    exact Option.some.inj hu ▸ ht
  | ok v =>
    obtain ⟨s, fault⟩ := v
    rw [made] at hu
    obtain rfl := Option.some.inj hu
    have fresh : t.system = none := by
      cases hs : t.system with
      | none => rfl
      | some s' =>
        have started := (ht.running s' hs).started
        simp [Pipeline.start, started, bind, Except.bind] at made
    obtain ⟨planned, uncalled⟩ := ht.waiting fresh
    obtain ⟨each, whole, unseen⟩ := Pipeline.start_finalizers made
    refine ⟨fun unmade => (by cases unmade), fun s' hs => ?_⟩
    obtain rfl := Option.some.inj hs
    constructor
    case started => rfl
    case finalizers =>
      intro j x hx
      obtain ⟨stage, hj, made⟩ := each j x hx
      simp [hj, made]
    case complete => exact fun complete => whole (Option.isNone_iff_eq_none.mp complete)
    case fits => exact fun fits => by rw [(System.start_unique planned fits made).1]; rfl
    case counts =>
      intro j
      cases hx : s.row[j]? with
      | none => simp [callsOf, uncalled]
      | some x =>
        obtain ⟨stage, _, made⟩ := each j x hx
        simp [callsOf, uncalled, made, Finalization.calls]
    case all => simp [uncalled, unseen]
    case leaves => exact fun destroying => absurd destroying early
    case owed => exact fun destroying => absurd destroying early

theorem sound_decide {a : Application} (ht : Sound t) (hu : t.step? (.decide a) = some u) :
    Sound u := by
  simp only [step?, Option.ite_none_left_eq_some, Option.map_eq_some_iff] at hu
  obtain ⟨early, s, hs, rfl⟩ := hu
  refine ⟨nofun, fun s' hs' => ?_⟩
  obtain rfl := Option.some.inj hs'
  exact { ht.running s hs with
    leaves := fun destroying => absurd destroying early
    owed := fun destroying => absurd destroying early }

theorem sound_destroy (ht : Sound t) (hu : t.step? .destroy = some u) : Sound u := by
  simp only [step?, Option.ite_none_left_eq_some, Option.some.injEq] at hu
  obtain ⟨early, rfl⟩ := hu
  refine ⟨fun none' => ht.waiting (Option.map_eq_none_iff.mp none'), fun s' hs' => ?_⟩
  obtain ⟨s, hs, rfl⟩ := Option.map_eq_some_iff.mp hs'
  refine { ht.running s hs with leaves := fun _ => ?_, owed := fun _ j x hx => .inl ?_ }
  · cases t.complete with
    | true => exact ⟨{}, .shutting rfl⟩
    | false => exact ⟨{ shut := true }, .waiting (List.suffix_refl _) rfl⟩
  · have within : j < s.row.length := (List.getElem?_eq_some_iff.mp hx).1
    have released : .release j ∈ s.releasing :=
      List.mem_map.mpr ⟨j, List.mem_range.mpr within, rfl⟩
    exact List.mem_append_right _ released

theorem count_callsIn {s u : System (SourceStage π) σ} {a : System.Action} {events : List Event}
    (h : s.Finalizes a u events) (j : Nat) : (s.callsIn a u).countP (·.1 == j) =
      (Event.collect Event.sighting? (if s.owner? a = some j then events else [])).length := by
  unfold System.callsIn
  rw [System.since_finalizes h]
  cases owner : s.owner? a with
  | none => simp
  | some i =>
    by_cases same : i = j
    · simp [same, List.countP_map, Function.comp_def]
    · simp [same, List.countP_map, Function.comp_def]

theorem sound_step_of {a : System.Action} (ht : Sound t) (hu : t.step? (.step a) = some u) :
    Sound u := by
  simp only [step?, Option.bind_eq_some_iff, Option.map_eq_some_iff] at hu
  obtain ⟨s, hs, v, hv, rfl⟩ := hu
  obtain ⟨events, h⟩ := System.finalizes_step hv
  obtain ⟨started, finalizers, complete, fits, counts, all, leaves, owed⟩ := ht.running s hs
  have before : ∀ (j : Nat) (x' : Station σ), v.row[j]? = some x' → ∃ x, s.row[j]? = some x ∧
      x.finalization.Step x'.finalization (if s.owner? a = some j then events else []) := by
    intro j x' hx'
    have within : j < s.row.length := h.length ▸ (List.getElem?_eq_some_iff.mp hx').1
    have hx := List.getElem?_eq_getElem within
    obtain ⟨x'', hx'', step⟩ := h.each j _ hx
    obtain rfl := Option.some.inj (hx''.symm.trans hx')
    exact ⟨_, hx, step⟩
  refine ⟨nofun, fun s' hs' => ?_⟩
  obtain rfl := Option.some.inj hs'
  constructor
  case started => exact started
  case finalizers =>
    intro j x' hx'
    obtain ⟨x, hx, step⟩ := before j x' hx'
    rw [step.finalizer]
    exact finalizers j x hx
  case complete => exact fun whole => h.length.trans (complete whole)
  case fits => exact fits
  case counts =>
    intro j
    have count := counts j
    rw [callsOf] at count ⊢
    rw [List.countP_append, count_callsIn h, count]
    cases hx' : v.row[j]? with
    | some x' =>
      obtain ⟨x, hx, step⟩ := before j x' hx'
      simp [hx, step.calls]
    | none =>
      have beyond : s.row.length ≤ j := h.length ▸ List.getElem?_eq_none_iff.mp hx'
      have unowned : Event.collect Event.sighting?
          (if s.owner? a = some j then events else []) = [] := by
        split
        · rename_i owner
          refine h.owned.resolve_left fun ⟨i, owner', within⟩ => ?_
          obtain rfl := Option.some.inj (owner.symm.trans owner')
          omega
        · rfl
      simp [List.getElem?_eq_none beyond, unowned]
  case all =>
    rw [List.map_append, all, System.events_finalizes h, Event.collect_append, System.callsIn,
      System.since_finalizes h]
    cases owner : s.owner? a with
    | none =>
      have unseen := h.owned.resolve_left fun ⟨i, owner', _⟩ => by simp [owner] at owner'
      simp [unseen]
    | some i => simp [Function.comp_def]
  case leaves =>
    intro destroying
    obtain ⟨r, leaving⟩ := leaves destroying
    have same : v.joining ++ v.releasing = s.joining ++ s.releasing := by
      rw [System.joining, System.releasing, h.length]
      rfl
    rw [same]
    exact (System.leaving_finalizes (System.closing_destroying s) leaving hv).1
  case owed =>
    intro destroying j x' hx'
    obtain ⟨r, leaving⟩ := leaves destroying
    obtain ⟨x, hx, step⟩ := before j x' hx'
    rcases owed destroying j x hx with ahead | done
    · have later := (System.leaving_finalizes (System.closing_destroying s) leaving hv).2 j ahead
      exact later.imp_right fun done => done x' hx'
    · exact .inr (step.done done)

theorem sound_step {a : Act σ} (ht : Sound t) (hu : t.step? a = some u) : Sound u := by
  cases a with
  | append s => exact sound_append ht hu
  | start => exact sound_start ht hu
  | decide a => exact sound_decide ht hu
  | step a => exact sound_step_of ht hu
  | destroy => exact sound_destroy ht hu

theorem sound_run {acts : List (Act σ)} (ht : Sound t) (hr : t.run? acts = some u) : Sound u := by
  induction acts generalizing t with
  | nil => exact Option.some.inj hr ▸ ht
  | cons a acts ih =>
    obtain ⟨t', ht', hr⟩ := Option.bind_eq_some_iff.mp hr
    exact ih (sound_step ht ht') hr

theorem started_iff (ht : Sound t) : t.plan.started = true ↔ t.system.isSome = true := by
  cases hs : t.system with
  | none => simp [(Pipeline.planned_fresh (ht.waiting hs).1).1]
  | some s => simp [(ht.running s hs).started]

theorem callsOf_le_one (ht : Sound t) (i : Nat) : t.callsOf i ≤ 1 := by
  cases hs : t.system with
  | none => simp [callsOf, (ht.waiting hs).2]
  | some s =>
    rw [(ht.running s hs).counts i]
    cases s.row[i]? with
    | none => exact Nat.zero_le 1
    | some x => exact Finalization.calls_le_one _

theorem callsOf_destroyed {i : Nat} {stage : Pipeline.Stage σ} (ht : Sound t) (end' : t.Destroyed)
    (hi : t.plan.stages[i]? = some stage) :
    t.callsOf i = if stage.finalizer.isSome = true ∧ i < t.made then 1 else 0 := by
  obtain ⟨destroying, idle⟩ := end'
  cases hs : t.system with
  | none => simp [callsOf, (ht.waiting hs).2, made, hs]
  | some s =>
    obtain ⟨_, finalizers, _, _, counts, _, _, owed⟩ := ht.running s hs
    have length : t.made = s.row.length := by simp [made, hs]
    rw [counts i, length]
    cases hx : s.row[i]? with
    | none => simp [List.getElem?_eq_none_iff.mp hx]
    | some x =>
      have within := (List.getElem?_eq_some_iff.mp hx).1
      have given : stage.finalizer = x.finalization.finalizer := by
        simpa [hi] using finalizers i x hx
      have done : x.finalization.done = true := by
        refine (owed destroying i x hx).resolve_left fun ahead => ?_
        rw [idle s hs] at ahead
        cases ahead
      simp [Finalization.calls, done, given, within]

/-- The finalizers that are called are those of the stages that were made, and each of them is
called once: at most once at any moment, and once when the pipeline is destroyed. No stage is made
before the pipeline is started, and then all are, unless the capacities of the error channels
overflow. So the finalizers of a pipeline that is never started are never called. -/
theorem finalizers_once_made {producer : Option (Producer π × π)} {capacity : UInt64}
    {interval : Int} {p : Pipeline π σ} {acts : List (Act σ)}
    (hp : Pipeline.create producer capacity interval = .ok p)
    (hr : ({ plan := p } : OwnedPipeline π σ).run? acts = some t) :
    (∀ s, t.system = some s → t.calls.map Prod.snd = Event.collect Event.sighting? s.events) ∧
    (∀ i, t.callsOf i ≤ 1) ∧
    (t.Destroyed → ∀ i stage, t.plan.stages[i]? = some stage →
      t.callsOf i = if stage.finalizer.isSome = true ∧ i < t.made then 1 else 0) ∧
    (t.plan.started = false → t.made = 0) ∧
    (t.plan.started = true → t.plan.Fits → t.made = t.plan.stages.length) := by
  have sound := sound_run (sound_create (.create hp)) hr
  refine ⟨fun s hs => (sound.running s hs).all, callsOf_le_one sound,
    fun end' i stage hi => callsOf_destroyed sound end' hi, fun early => ?_, fun started fits => ?_⟩
  · have none' := mt (started_iff sound).mpr (by simp [early])
    simp [made, Option.not_isSome_iff_eq_none.mp none']
  · obtain ⟨s, hs⟩ := Option.isSome_iff_exists.mp ((started_iff sound).mp started)
    have running := sound.running s hs
    rw [made, hs]
    exact running.complete (running.fits fits)

/-- One pack and no stages yet. -/
def samplePlan : Pipeline Producer.Listing Unit where
  source := (Pipeline.sample .passOn).source
  capacity := 1

theorem created_sample : Pipeline.create
    (some (Producer.Listing.next, { rest := [some (.ofBytes [])] })) 1 Reports.defaultInterval =
      .ok samplePlan := rfl

/-- A stage with a handler and one without, each with a finalizer. -/
def sampleStages : List (Act Unit) :=
  [.append { handler := some .passOn, memory := (), finalizer := some {} },
    .append { handler := none, memory := (), finalizer := some {} }]

/-- The pipeline is destroyed while its pack waits for the task. -/
def sampleActs : List (Act Unit) :=
  sampleStages ++ .start :: (System.turns [(3, .supplier)]).map .step ++ .destroy ::
    (System.turns [(1, .application), (5, .stage 0), (3, .supplier), (4, .stage 0),
      (2, .application), (3, .stage 0), (2, .supplier), (5, .application)]).map .step

theorem finalizers_once_made_sample : ∃ t : OwnedPipeline Producer.Listing Unit,
    ({ plan := samplePlan } : OwnedPipeline Producer.Listing Unit).run? sampleActs = some t ∧
    t.Destroyed ∧ t.made = 2 ∧ t.callsOf 0 = 1 ∧ t.callsOf 1 = 1 := by
  have runs : (({ plan := samplePlan } : OwnedPipeline Producer.Listing Unit).run?
      sampleActs).any (fun t => t.destroying && t.plan.started &&
        t.system.all (·.application.agenda.isEmpty) && decide t.plan.Fits &&
        t.plan.stages.map (·.finalizer.isSome) == [true, true]) = true := by
    decide +kernel
  obtain ⟨t, hr, ht⟩ := (Option.any_eq_true _ _).mp runs
  simp only [Bool.and_eq_true, beq_iff_eq, Option.all_eq_true, List.isEmpty_iff,
    decide_eq_true_eq] at ht
  obtain ⟨⟨⟨⟨destroying, started⟩, idle⟩, fits⟩, given⟩ := ht
  obtain ⟨_, _, once, _, whole⟩ := finalizers_once_made created_sample hr
  have length : t.plan.stages.length = 2 := by simpa using congrArg List.length given
  have two : t.made = 2 := (whole started fits).trans length
  have called : ∀ i, i < 2 → t.callsOf i = 1 := by
    intro i hi
    have within : i < t.plan.stages.length := length ▸ hi
    have stage := List.getElem?_eq_getElem within
    have gives : t.plan.stages[i].finalizer.isSome = true := by
      have all : ∀ b ∈ t.plan.stages.map (·.finalizer.isSome), b = true := by
        rw [given]
        simp
      exact all _ (List.mem_map_of_mem (List.getElem_mem within))
    rw [once ⟨destroying, idle⟩ i _ stage, two, if_pos ⟨gives, hi⟩]
  exact ⟨t, hr, ⟨destroying, idle⟩, two, called 0 (by decide), called 1 (by decide)⟩

/-- A pipeline that is destroyed without having been started has not called the finalizers that it
was given. -/
theorem waiting_finalizers_lost : ∃ t : OwnedPipeline Producer.Listing Unit,
    ({ plan := samplePlan } : OwnedPipeline Producer.Listing Unit).run?
      (sampleStages ++ [.destroy]) = some t ∧
    t.Destroyed ∧ t.plan.stages.map (·.finalizer) = [some {}, some {}] ∧ t.calls = [] :=
  ⟨_, rfl, ⟨rfl, fun _ hs => by cases hs⟩, rfl, rfl⟩

end OwnedPipeline
end StagedPipeline
