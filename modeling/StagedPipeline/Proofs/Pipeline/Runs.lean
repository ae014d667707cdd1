import StagedPipeline.Proofs.Pipeline.Row
import StagedPipeline.Proofs.Pipeline.Reader
import StagedPipeline.Proofs.Stage.SourceTraces

/-!
# Runs of a pipeline

A run is a list of actions that can be carried out one after the other. The invariant of a
running pipeline puts together the traces of its source, the invariant of its row and what
the application has done as a reader. Every action keeps it, so it holds at the end of
every run.
-/
namespace StagedPipeline

namespace Pipeline

variable {π σ : Type}

/-- A pipeline that was built up and not yet started. -/
inductive Planned : Pipeline π σ → Prop where
  | create {producer : Option (Producer π × π)} {capacity : UInt64} {interval : Int}
      {p : Pipeline π σ} (made : create producer capacity interval = .ok p) : Planned p
  | append {p p' : Pipeline π σ} {s : Stage σ} (before : Planned p) (made : p.append s = .ok p') :
      Planned p'

/-- The capacities of all error channels are within 64 bits. -/
def Fits (p : Pipeline π σ) : Prop := p.capacity.toNat + 2 * p.stages.length < UInt64.size

instance (p : Pipeline π σ) : Decidable p.Fits := inferInstanceAs (Decidable (_ < _))

/-- Nothing has happened to a planned pipeline, and its errors have room. -/
theorem planned_fresh {p : Pipeline π σ} (h : Planned p) :
    p.started = false ∧ p.capacity ≠ 0 ∧
      p.source = { producer := p.source.producer, state := p.source.state } := by
  induction h with
  | @create producer capacity interval p made =>
    cases producer with
    | none => cases made
    | some q =>
      obtain ⟨producer, state⟩ := q
      rw [Pipeline.create, SourceStage.create] at made
      by_cases hc : (capacity == 0) = true
      · simp [hc, Except.map] at made
      · simp only [hc, Bool.false_eq_true, ↓reduceIte, Except.map, Except.ok.injEq] at made
        subst made
        exact ⟨rfl, by simpa using hc, rfl⟩
  | @append p p' s before made ih =>
    obtain ⟨started, capacity, source⟩ := ih
    rw [Pipeline.append, started] at made
    cases made
    exact ⟨rfl, capacity, source⟩

end Pipeline

namespace System

variable {α π σ : Type} {p : Pipeline π σ} {r r' : ReaderSide}

/-! ## Histories -/

theorem eventsOf_record (s : System α σ) (q p : Party) (events : List Event) :
    (s.record q events).eventsOf p = s.eventsOf p ++ if q = p then events else [] := by
  have key : ((events.map (q, ·)).filter (·.1 == p)).map Prod.snd =
      if q = p then events else [] := by
    by_cases h : q = p <;> simp [h, List.filter_map, Function.comp_def]
  simp [eventsOf, record, key]

theorem eventsOf_record_self (s : System α σ) (p : Party) (events : List Event) :
    (s.record p events).eventsOf p = s.eventsOf p ++ events := by
  rw [eventsOf_record, if_pos rfl]

theorem eventsOf_record_other (s : System α σ) {q p : Party} (h : q ≠ p) (events : List Event) :
    (s.record q events).eventsOf p = s.eventsOf p := by
  rw [eventsOf_record, if_neg h, List.append_nil]

/-! ## The invariant -/

/-- What is true of a running pipeline whose application has done `r` as a reader. -/
structure Sound (p : Pipeline π σ) (r : ReaderSide) (t : System (SourceStage π) σ) : Prop where
  source : ∃ ps held w, t.supplier.Traces p.line.source (t.eventsOf .supplier) ps held w
  row : Station.Sound p.capacity.toNat r 0 (t.supplier.writerSide (t.eventsOf .supplier)) t.inlet
    t.row (p.stages.map Pull.Stage.ofPlan) fun i => t.eventsOf (.stage i)
  taken : r.taken = t.received

/-- Starting a planned pipeline succeeds, if the capacities do not overflow. -/
theorem start_sound (hp : p.Planned) (fits : p.Fits) :
    ∃ s₀, p.start = .ok (s₀, none) ∧ Sound p {} s₀ ∧ s₀.application = {} ∧
      s₀.row.length = p.stages.length := by
  obtain ⟨started, capacity, source⟩ := Pipeline.planned_fresh hp
  obtain ⟨inlet, hi⟩ := Station.create_ok capacity p.interval
  have links := Conduit.links_fresh hi
  have room : inlet.errors.capacity.toNat = p.capacity.toNat + 2 * 0 := by
    rw [(Station.create_capacity hi).2]
    rfl
  obtain ⟨row, hrow, length, hs⟩ := Station.sound_connect p.stages links room
    (by rw [Nat.zero_add]; exact fits)
  have silent : ∀ q : Party, q ≠ .application → ∀ events,
      (record (α := SourceStage π) { supplier := p.source.launch, inlet, row }
        .application events).eventsOf q = [] :=
    fun q hq events => eventsOf_record_other _ (Ne.symm hq) events
  refine ⟨record { supplier := p.source.launch, inlet, row } .application
    (Event.saying [Pipeline.startedEntry p.size]), ?_, ⟨⟨[], none, p.line.source, ?_⟩, ?_, rfl⟩,
    rfl, length⟩
  · simp [Pipeline.start, started, hi, bind, Except.bind, pure, Except.pure, hrow]
  · rw [silent .supplier (by simp)]
    have sound : p.source.faulted = false := by rw [source]
    exact SourceStage.traces_launch p.source sound
  · rw [silent .supplier (by simp)]
    simp only [silent (.stage _) (by simp)]
    exact hs

/-! ## Every step keeps the invariant -/

variable {t u : System (SourceStage π) σ}

theorem sound_task {q : Party} (hs : Sound p r t) (hq : q ≠ .application)
    (ha : t.advance? q = some u) : Sound p r u ∧ u.application = t.application := by
  obtain ⟨⟨ps, held, w, ht⟩, row, taken⟩ := hs
  cases q with
  | application => exact absurd rfl hq
  | supplier =>
    simp only [System.advance?, Option.map_eq_some_iff, Prod.exists] at ha
    obtain ⟨supplier, inlet, events, ha, rfl⟩ := ha
    have hm := SourceStage.move_of_advance ha
    obtain ⟨_, r₁, links⟩ := Station.sound_front row
    have closed := links.errorsClosed
    refine ⟨⟨?_, ?_, ?_⟩, rfl⟩
    · rw [eventsOf_record_self]
      exact SourceStage.traces_move ht hm closed
    · rw [eventsOf_record_self]
      simp only [eventsOf_record_other (q := .supplier) (p := .stage _) _ (by simp)]
      exact Station.sound_writerStep row (SourceStage.writerStep_move hm closed)
    · rw [System.received, eventsOf_record_other _ (by simp)]
      exact taken
  | stage i =>
    simp only [System.advance?, Option.map_eq_some_iff, Prod.exists] at ha
    obtain ⟨inlet, row', events, ha, rfl⟩ := ha
    refine ⟨⟨⟨ps, held, w, ?_⟩, ?_, ?_⟩, rfl⟩
    · rw [eventsOf_record_other _ (by simp)]
      exact ht
    · rw [eventsOf_record_other _ (by simp)]
      refine Station.sound_moved row (Station.moved_of_advance ha) (eventsOf_record_self _ _ _)
        fun j hj => ?_
      exact eventsOf_record_other _ (by simpa using Ne.symm hj) _
    · rw [System.received, eventsOf_record_other _ (by simp)]
      exact taken

theorem sound_task_expire {q : Party} (hs : Sound p r t) (hq : q ≠ .application)
    (he : t.expire? q = some u) : Sound p r u ∧ u.application = t.application := by
  obtain ⟨source, row, taken⟩ := hs
  cases q with
  | application => exact absurd rfl hq
  | supplier => cases he
  | stage i =>
    obtain ⟨row', he', rfl⟩ := Option.map_eq_some_iff.mp he
    exact ⟨⟨source, Station.sound_expired row (Station.expired_of_expire he'), taken⟩, rfl⟩

theorem sound_application {inlet : Conduit} {row : List (Station σ)} {a : Application}
    {events : List Event} (hs : Sound p r t)
    (hf : Station.atTerminal? t.application.section? t.inlet t.row =
      some (inlet, row, a, events)) :
    ∃ end', t.application.advance? t.terminal = some (a, end', events) ∧
      ∀ r', t.terminal.ReaderStep r end' r' →
        r'.taken = r.taken ++ Event.collect Event.received? events →
        Sound p r' (record { t with inlet, row, application := a } .application events) := by
  obtain ⟨source, row', taken⟩ := hs
  obtain ⟨end', he, hr⟩ := Station.sound_terminal row' hf
  refine ⟨_, Application.section_eq_some.mp he, fun r' step htaken => ⟨?_, ?_, ?_⟩⟩
  · rw [eventsOf_record_other _ (by simp)]
    exact source
  · rw [eventsOf_record_other _ (by simp)]
    simp only [eventsOf_record_other (q := .application) (p := .stage _) _ (by simp)]
    exact hr r' step
  · rw [htaken, taken, System.received, System.received, eventsOf_record_self]
    exact (Event.collect_append _ _).symm

/-- The application destroys a station. -/
theorem sound_release (hs : Sound p r t) (i : Nat) (rest : List Application.Errand) :
    Sound p r (record { t with
        row := (Station.release i t.inlet t.row).1
        application := { t.application with agenda := rest } }
      .application (Station.release i t.inlet t.row).2) := by
  obtain ⟨source, row, taken⟩ := hs
  refine ⟨?_, ?_, ?_⟩
  · rw [eventsOf_record_other _ (by simp)]
    exact source
  · rw [eventsOf_record_other _ (by simp)]
    simp only [eventsOf_record_other (q := .application) (p := .stage _) _ (by simp)]
    exact Station.sound_release row i
  · rw [taken, System.received, System.received, eventsOf_record_self, List.filterMap_append]
    exact (List.append_nil _).symm.trans (congrArg _ (Station.collect_release i _ _).symm)

/-- The application waits for a task, closes an input, destroys a station, or does a section
at the terminal conduit. -/
theorem application_cases {α : Type} [Supplier α] {t u : System α σ}
    (ha : t.advance? .application = some u) :
    (∃ q rest, t.application.agenda = .join q :: rest ∧ t.isResting q = true ∧
      u = { t with application := { t.application with agenda := rest } }) ∨
    (∃ i rest, t.application.agenda = .shutInput i :: rest ∧
      u = { t with
        inlet := (Station.closeInput i t.inlet t.row).1
        row := (Station.closeInput i t.inlet t.row).2
        application := { t.application with agenda := rest } }) ∨
    (∃ i rest, t.application.agenda = .release i :: rest ∧
      u = record { t with
          row := (Station.release i t.inlet t.row).1
          application := { t.application with agenda := rest } }
        .application (Station.release i t.inlet t.row).2) ∨
    (∃ inlet row a events, Station.atTerminal? t.application.section? t.inlet t.row =
        some (inlet, row, a, events) ∧
      u = record { t with inlet, row, application := a } .application events) := by
  simp only [System.advance?, advanceApplication?] at ha
  split at ha
  · rename_i q rest agenda
    split at ha
    · rename_i resting
      exact .inl ⟨q, rest, agenda, resting, (Option.some.inj ha).symm⟩
    · cases ha
  · rename_i i rest agenda
    exact .inr (.inl ⟨i, rest, agenda, (Option.some.inj ha).symm⟩)
  · rename_i i rest agenda
    exact .inr (.inr (.inl ⟨i, rest, agenda, (Option.some.inj ha).symm⟩))
  · simp only [Option.map_eq_some_iff, Prod.exists] at ha
    obtain ⟨inlet, row, a, events, hf, rfl⟩ := ha
    exact .inr (.inr (.inr ⟨inlet, row, a, events, hf, rfl⟩))

/-- A step keeps the invariant together with any relation between the application and what it
has done as a reader that its own sections keep. It is not about to close an inner data channel. -/
theorem sound_step_of {L : Application → ReaderSide → Prop} {a : Action} (hs : Sound p r t)
    (hl : L t.application r) (own : ∀ i rest, t.application.agenda ≠ .shutInput i :: rest)
    (joins : ∀ q rest, t.application.agenda = .join q :: rest →
      L { t.application with agenda := rest } r)
    (releases : ∀ i rest, t.application.agenda = .release i :: rest →
      L { t.application with agenda := rest } r)
    (advances : ∀ a' c' events, t.application.advance? t.terminal = some (a', c', events) →
      ∃ r', t.terminal.ReaderStep r c' r' ∧
        r'.taken = r.taken ++ Event.collect Event.received? events ∧ L a' r')
    (expires : ∀ a', t.application.expire? t.terminal = some a' → L a' r)
    (hu : t.step? a = some u) : ∃ r', Sound p r' u ∧ L u.application r' := by
  cases a with
  | advance q =>
    by_cases hq : q = .application
    · subst hq
      rcases application_cases hu with ⟨q, rest, agenda, _, rfl⟩ | ⟨i, rest, agenda, _⟩ |
        ⟨i, rest, agenda, rfl⟩ | ⟨inlet, row, a', events, hf, rfl⟩
      · obtain ⟨source, row, taken⟩ := hs
        exact ⟨r, ⟨source, row, taken⟩, joins q rest agenda⟩
      · exact absurd agenda (own i rest)
      · exact ⟨r, sound_release hs i rest, releases i rest agenda⟩
      · obtain ⟨end', ha, hr⟩ := sound_application hs hf
        obtain ⟨r', step, htaken, hl'⟩ := advances a' end' events ha
        exact ⟨r', hr r' step htaken, hl'⟩
    · obtain ⟨hs', hu'⟩ := sound_task hs hq hu
      exact ⟨r, hs', hu' ▸ hl⟩
  | expire q =>
    by_cases hq : q = .application
    · subst hq
      obtain ⟨a', ha, rfl⟩ := Option.map_eq_some_iff.mp hu
      obtain ⟨source, row, taken⟩ := hs
      exact ⟨r, ⟨source, row, taken⟩, expires a' ha⟩
    · obtain ⟨hs', hu'⟩ := sound_task_expire hs hq hu
      exact ⟨r, hs', hu' ▸ hl⟩

/-- A step, whatever errands the application is on, as long as it closes no data channel but
the terminal one. -/
theorem sound_step {a : Action} (hs : Sound p r t) (hk : t.application.KeepsToTerminal)
    (hu : t.step? a = some u) : (∃ r', Sound p r' u) ∧ u.application.KeepsToTerminal := by
  have later : ∀ e rest, t.application.agenda = e :: rest → ∀ i, .shutInput i ∉ rest := by
    intro e rest agenda i hi
    refine hk i ?_
    rw [agenda]
    exact List.mem_cons_of_mem _ hi
  have both : ∃ r', Sound p r' u ∧ u.application.KeepsToTerminal := by
    refine sound_step_of (L := fun a _ => a.KeepsToTerminal) hs hk ?_
      (fun q rest => later (.join q) rest) (fun i rest => later (.release i) rest) ?_ ?_ hu
    · intro i rest agenda
      refine hk i ?_
      rw [agenda]
      exact List.mem_cons_self
    · intro a' c' events ha
      obtain ⟨r', step, htaken⟩ := Application.readerStep_advance ha
      obtain ⟨e, rest, agenda, _, leaves⟩ := Application.leaves_advance ha
      exact ⟨r', step, htaken, Application.keepsToTerminal_leaves hk agenda leaves⟩
    · intro a' ha
      obtain ⟨e, rest, agenda, _, leaves⟩ := Application.leaves_expire ha
      exact Application.keepsToTerminal_leaves hk agenda leaves
  obtain ⟨r', hs', hk'⟩ := both
  exact ⟨⟨r', hs'⟩, hk'⟩

/-- A running pipeline whose application is to read so far, to drain the errors and then to
wait for tasks. -/
def Reads (p : Pipeline π σ) (limit : Pull.Limit) (waits : List Application.Errand)
    (t : System (SourceStage π) σ) : Prop :=
  ∃ r, Sound p r t ∧ t.application.Stands limit waits r ∧ ∀ n q, t.application.onItem n q = none

theorem reads_step {limit : Pull.Limit} {waits : List Application.Errand} {a : Action}
    (joins : ∀ e ∈ waits, ∃ q, e = .join q) (ht : Reads p limit waits t)
    (hu : t.step? a = some u) : Reads p limit waits u := by
  obtain ⟨r, hs, stands, silent⟩ := ht
  have first : ∀ e rest, t.application.agenda = e :: rest →
      (∀ i, e ≠ .shutInput i) ∧ ∀ i, e ≠ .release i := by
    intro e rest agenda
    exact Application.stands_errand stands joins (agenda ▸ List.mem_cons_self)
  refine sound_step_of
    (L := fun a r => a.Stands limit waits r ∧ ∀ n q, a.onItem n q = none) hs ⟨stands, silent⟩
    (fun i rest agenda => (first _ rest agenda).1 i rfl) ?_
    (fun i rest agenda => absurd rfl ((first _ rest agenda).2 i)) ?_ ?_ hu
  · intro q rest agenda
    exact ⟨Application.stands_join stands agenda, silent⟩
  · intro a' c' events ha
    obtain ⟨r', step, htaken, stands', same⟩ := Application.stands_advance stands silent joins ha
    exact ⟨r', step, htaken, stands', same ▸ silent⟩
  · intro a' ha
    obtain ⟨stands', same⟩ := Application.stands_expire stands joins ha
    exact ⟨stands', same ▸ silent⟩

/-- When nothing is left to do, it makes no difference whom the application has waited for. -/
theorem reads_done {limit : Pull.Limit} {waits : List Application.Errand}
    (ht : Reads p limit waits t) (done : t.application.agenda = []) : Reads p limit [] t := by
  obtain ⟨r, hs, stands, silent⟩ := ht
  refine ⟨r, hs, ?_, silent⟩
  cases stands with
  | waiting agenda drained all shut read => exact .waiting (by simp [done]) drained all shut read
  | draining _ agenda | taking _ agenda | shutting _ agenda | polling agenda
  | confirming agenda => simp [agenda] at done

/-! ## Runs -/

section

variable {α : Type} [Supplier α] {s t u : System α σ}

/-- What every step keeps holds at the end of every run. -/
theorem run_invariant {P : System α σ → Prop}
    (keeps : ∀ {t a u}, P t → step? t a = some u → P u) {acts : List Action} (hs : P s)
    (hr : s.run? acts = some t) : P t := by
  induction acts generalizing s with
  | nil => exact Option.some.inj hr ▸ hs
  | cons a acts ih =>
    obtain ⟨u, hu, hr⟩ := Option.bind_eq_some_iff.mp hr
    exact ih (keeps hs hu) hr

/-- What a system may come to while its application decides at any time what to do next, as
long as it closes no data channel but the terminal one. -/
inductive Comes (s : System α σ) : System α σ → Prop where
  | here : Comes s s
  | step {t u : System α σ} {a : Action} (before : Comes s t) (done : t.step? a = some u) :
      Comes s u
  | decide {t : System α σ} (before : Comes s t) (a : Application) (own : a.KeepsToTerminal) :
      Comes s { t with application := a }

theorem comes_run {acts : List Action} (hr : s.run? acts = some t) : s.Comes t :=
  run_invariant (P := s.Comes) .step .here hr

end

/-- Every errand is done, and every task is over. -/
def Completed (t : System (SourceStage π) σ) : Prop :=
  t.application.agenda = [] ∧ ∀ q, t.isResting q = true

theorem completed_iff : t.Completed ↔ (t.application.agenda.isEmpty && t.isResting .supplier &&
    t.row.all Station.isResting) = true := by
  simp only [Completed, Bool.and_eq_true, List.isEmpty_iff, List.all_eq_true, and_assoc]
  refine and_congr_right fun _ => ⟨fun rests => ⟨rests .supplier, fun x hx => ?_⟩, ?_⟩
  · obtain ⟨i, hi, rfl⟩ := List.getElem_of_mem hx
    simpa [isResting, hi] using rests (.stage i)
  · rintro ⟨source, stages⟩ q
    cases q with
    | application => rfl
    | supplier => exact source
    | stage i =>
      cases hi : t.row[i]? with
      | none => simp [isResting, hi]
      | some x => simpa [isResting, hi] using stages x (List.mem_of_getElem? hi)

instance : Decidable t.Completed := decidable_of_iff _ completed_iff.symm

variable {s₀ : System (SourceStage π) σ} {fault : Option Fault}

theorem start_unique (hp : p.Planned) (fits : p.Fits)
    (hs : p.start = .ok (s₀, fault)) : fault = none ∧ Sound p {} s₀ ∧ s₀.application = {} ∧
      s₀.row.length = p.stages.length := by
  obtain ⟨s₁, hs₁, sound, idle, length⟩ := start_sound hp fits
  rw [hs] at hs₁
  cases hs₁
  exact ⟨rfl, sound, idle, length⟩

theorem sound_comes (hp : p.Planned) (fits : p.Fits)
    (hs : p.start = .ok (s₀, fault)) (ht : s₀.Comes t) :
    (∃ r, Sound p r t) ∧ t.application.KeepsToTerminal := by
  induction ht with
  | here =>
    obtain ⟨_, sound, idle, _⟩ := start_unique hp fits hs
    exact ⟨⟨_, sound⟩, by rw [idle]; simp [Application.KeepsToTerminal]⟩
  | step before done ih =>
    obtain ⟨⟨r, sound⟩, own⟩ := ih
    exact sound_step sound own done
  | decide before a own ih =>
    obtain ⟨⟨r, source, row, taken⟩, _⟩ := ih
    exact ⟨⟨r, source, row, taken⟩, own⟩

/-- The invariant at the end of every run of an application that reads. -/
theorem reads_run {limit : Pull.Limit} {waits : List Application.Errand} {acts : List Action}
    (hp : p.Planned) (fits : p.Fits)
    (hs : p.start = .ok (s₀, fault)) (joins : ∀ e ∈ waits, ∃ q, e = .join q)
    (hr : (s₀.plan (Application.reading limit ++ waits)).run? acts = some t) :
    Reads p limit waits t := by
  obtain ⟨_, ⟨source, row, taken⟩, idle, _⟩ := start_unique hp fits hs
  have agenda : (s₀.plan (Application.reading limit ++ waits)).application.agenda =
      Application.reading limit ++ waits := by
    simp [plan, Application.plan, idle]
  have silent : ∀ n q, (s₀.plan (Application.reading limit ++ waits)).application.onItem n q =
      none := by
    simp [plan, Application.plan, idle]
  refine run_invariant (P := Reads p limit waits) (reads_step joins) ?_ hr
  -- before the first step, nothing was read and all errands are ahead
  refine ⟨{}, ⟨source, row, taken⟩, ?_, silent⟩
  cases limit with
  | none => exact .draining rfl agenda ⟨rfl, rfl, rfl⟩
  | some d => exact .taking rfl agenda ⟨rfl, rfl, rfl⟩ (Nat.zero_add d)

end System

/-! ## A small pipeline -/

/-- Leaves every body as it is. -/
def Handler.passOn : Handler Unit := fun memory context body =>
  { verdict := .success, memory, context, body := some body }

/-- One pack, which goes through a handler and past a stage without one. -/
def Pipeline.sample (h : Handler Unit) : Pipeline Producer.Listing Unit where
  source := { producer := Producer.Listing.next, state := { rest := [some (.ofBytes [])] } }
  capacity := 1
  stages := [{ handler := some h, memory := () }, { handler := none, memory := () }]

theorem Pipeline.planned_sample (h : Handler Unit) : (sample h).Planned := by
  let producer : Option (Producer Producer.Listing × Producer.Listing) :=
    some (Producer.Listing.next, { rest := [some (.ofBytes [])] })
  let bare : Pipeline Producer.Listing Unit := { source := (sample h).source, capacity := 1 }
  have created : bare.Planned := @Planned.create _ _ producer 1 Reports.defaultInterval bare rfl
  exact .append (.append created rfl) rfl

namespace System

/-- The small pipeline when it has just been started. -/
def sample (h : Handler Unit) : System (SourceStage Producer.Listing) Unit :=
  let stage : TransformStage Unit := { handler := h, memory := () }
  let fresh (capacity : UInt64) : Conduit :=
    { errors := { queue := { capacity }, interval := Reports.defaultInterval } }
  record {
      supplier := (Pipeline.sample h).source.launch
      inlet := fresh 1
      row := [.working stage.launch (fresh 3), .passing {}] }
    .application (Event.saying [Pipeline.startedEntry 3])

theorem start_sample (h : Handler Unit) : (Pipeline.sample h).start = .ok (sample h, none) := rfl

/-- Some sections of one party, then some of another, and so on. -/
def turns (l : List (Nat × Party)) : List Action :=
  l.flatMap fun (n, q) => List.replicate n (.advance q)

end System
end StagedPipeline
