import StagedPipeline.Proofs.Pipeline.Work

/-!
# The end of a drained pipeline

An application that drains a pipeline and then waits for its tasks is never stuck, and every
step that does not only let a poll time out lessens the work that is left. So if the producer
stops, there are finitely many such steps in any run, and a run in which they are not put off
for ever comes to a state in which nothing is left to do. There every task has ended.
-/
namespace StagedPipeline

namespace Station

variable {σ : Type} {cap k i : Nat} {r : ReaderSide} {w : WriterSide} {c c' : Conduit}
  {row row' : List (Station σ)} {plan : List (Pull.Stage σ)} {logs : Nat → List Event}
  {events : List Event}

/-- The finalizer is shown the state of its station when this is destroyed. -/
theorem release_lifecycle {x : Station σ} (hx : row[i]? = some x) :
    ∃ output, (release i c row).2 = (x.finalization.run ⟨x.lifecycle, output⟩).2 := by
  induction row generalizing i c with
  | nil => simp at hx
  | cons y row ih =>
    cases i with
    | zero =>
      obtain rfl : y = x := by simpa using hx
      cases y <;> exact ⟨_, rfl⟩
    | succ i =>
      obtain ⟨output, he⟩ := ih (i := i) (c := y.outlet c) hx
      refine ⟨output, ?_⟩
      cases y <;> exact he

theorem sound_length (hs : Sound cap r k w c row plan logs) : row.length = plan.length := by
  induction hs with
  | terminal => rfl
  | passing _ _ _ ih => simp [ih]
  | working _ _ _ _ ih => simp [ih]

/-- A task that is not running is over, and its stage is closed. -/
theorem sound_resting (hs : Sound cap r k w c row plan logs) {x : Station σ} (hx : x ∈ row)
    (rests : x.isResting = true) :
    x.lifecycle = if x.isWorking then .closed else .notStarted := by
  induction hs with
  | terminal => cases hx
  | passing _ _ _ ih =>
    rcases List.mem_cons.mp hx with rfl | hx
    · rfl
    · exact ih hx
  | working _ _ traces _ ih =>
    rcases List.mem_cons.mp hx with rfl | hx
    · obtain ⟨ps, qs, held, y, ht⟩ := traces
      have begun := ht.started
      simp only [isResting, Bool.or_eq_true, beq_iff_eq] at rests
      exact ht.closed (rests.resolve_left begun)
    · exact ih hx

/-- Whether no task is running at a position. -/
def restsAt (row : List (Station σ)) (j : Nat) : Bool := (row[j]?.map isResting).getD true

theorem restsAt_zero (x : Station σ) (row : List (Station σ)) :
    restsAt (x :: row) 0 = x.isResting := rfl

theorem restsAt_of_moved (hm : Moved i c row c' row' events) : restsAt row i = false := by
  induction hm with
  | here move =>
    rw [restsAt_zero, isResting]
    cases move <;> simp [*]
  | passing behind ih | unconnected behind ih | working behind ih => exact ih

theorem restsAt_of_expired (he : Expired i c row row') : restsAt row i = false := by
  induction he with
  | here expire =>
    obtain ⟨at', _⟩ := TransformStage.expire_confirming expire
    rw [restsAt_zero, isResting, at']
    rfl
  | passing behind ih | unconnected behind ih | working behind ih => exact ih

theorem advance_resting (hi : restsAt row i = true) : Station.advance? i c row = none := by
  cases ha : Station.advance? i c row with
  | none => rfl
  | some next =>
    rw [restsAt_of_moved (moved_of_advance ha)] at hi
    cases hi

theorem expire_resting (hi : restsAt row i = true) : Station.expire? i c row = none := by
  cases he : Station.expire? i c row with
  | none => rfl
  | some next =>
    rw [restsAt_of_expired (expired_of_expire he)] at hi
    cases hi

theorem terminal_none {β : Type} {f : Conduit → Option (Conduit × β)}
    (hf : f (terminal c row) = none) : atTerminal? f c row = none := by
  induction row generalizing c with
  | nil =>
    have hf' : f c = none := hf
    simp [atTerminal?, hf']
  | cons x row ih =>
    have behind := ih (c := x.outlet c) hf
    cases x <;> simpa [atTerminal?, outlet] using behind

/-! Whoever is not running does not start to run, whatever the others do. -/

theorem restsAt_moved (hm : Moved i c row c' row' events) {j : Nat}
    (hj : restsAt row j = true) : restsAt row' j = true := by
  have other : j ≠ i := by
    rintro rfl
    rw [restsAt_of_moved hm] at hj
    cases hj
  induction hm generalizing j with
  | here move =>
    obtain ⟨j, rfl⟩ := Nat.exists_eq_succ_of_ne_zero other
    exact hj
  | passing behind ih | unconnected behind ih | working behind ih =>
    cases j with
    | zero => exact hj
    | succ j => exact ih (j := j) hj (by simpa using other)

theorem restsAt_expired (he : Expired i c row row') {j : Nat} (hj : restsAt row j = true) :
    restsAt row' j = true := by
  have other : j ≠ i := by
    rintro rfl
    rw [restsAt_of_expired he] at hj
    cases hj
  induction he generalizing j with
  | here expire =>
    obtain ⟨j, rfl⟩ := Nat.exists_eq_succ_of_ne_zero other
    exact hj
  | passing behind ih | unconnected behind ih | working behind ih =>
    cases j with
    | zero => exact hj
    | succ j => exact ih (j := j) hj (by simpa using other)

theorem restsAt_terminal {β : Type} {b : β} {f : Conduit → Option (Conduit × β)}
    (hf : atTerminal? f c row = some (c', row', b)) (j : Nat) :
    restsAt row' j = restsAt row j := by
  induction row generalizing c c' row' j with
  | nil =>
    simp only [atTerminal?, Option.map_eq_some_iff, Prod.exists, Prod.mk.injEq] at hf
    obtain ⟨_, _, _, rfl, rfl, rfl⟩ := hf
    rfl
  | cons x row ih =>
    cases x <;>
    · simp only [atTerminal?, Option.map_eq_some_iff, Prod.exists, Prod.mk.injEq] at hf
      obtain ⟨c₁, row₁, b₁, hf, rfl, rfl, rfl⟩ := hf
      cases j with
      | zero => rfl
      | succ j => exact ih hf j

theorem restsAt_closeInput (i : Nat) (c : Conduit) (row : List (Station σ)) (j : Nat) :
    restsAt (closeInput i c row).2 j = restsAt row j := by
  induction row generalizing i c j with
  | nil => cases i <;> rfl
  | cons x row ih =>
    cases i with
    | zero => rfl
    | succ i =>
      cases j with
      | zero => cases x <;> rfl
      | succ j => cases x <;> exact ih i _ j

theorem restsAt_release (i : Nat) (c : Conduit) (row : List (Station σ)) (j : Nat) :
    restsAt (release i c row).1 j = restsAt row j := by
  induction row generalizing i c j with
  | nil => cases i <;> rfl
  | cons x row ih =>
    cases i with
    | zero => cases x <;> cases j <;> rfl
    | succ i =>
      cases j with
      | zero => cases x <;> rfl
      | succ j => cases x <;> exact ih i _ j

end Station

namespace System

variable {π σ : Type} {p : Pipeline π σ} {s₀ t u : System (SourceStage π) σ} {limit : Pull.Limit}
  {waits : List Application.Errand} {a : Action}

/-! ## Waiting for tasks -/

theorem resting_task {q q' : Party} (hq : q ≠ .application) (hu : t.advance? q = some u)
    (rests : t.isResting q' = true) : u.isResting q' = true := by
  cases q with
  | application => exact absurd rfl hq
  | supplier =>
    simp only [System.advance?, Option.map_eq_some_iff, Prod.exists] at hu
    obtain ⟨supplier, inlet, events, ha, rfl⟩ := hu
    cases q' with
    | application => rfl
    | stage j => exact rests
    | supplier =>
      simp only [isResting, Supplier.isResting, Bool.or_eq_true, beq_iff_eq] at rests
      rcases rests with at' | at' <;> simp [Supplier.advance?, SourceStage.advance?, at'] at ha
  | stage i =>
    simp only [System.advance?, Option.map_eq_some_iff, Prod.exists] at hu
    obtain ⟨inlet, row, events, ha, rfl⟩ := hu
    cases q' with
    | application => rfl
    | supplier => exact rests
    | stage j => exact Station.restsAt_moved (j := j) (Station.moved_of_advance ha) rests

/-- Whoever is not running does not start to run. -/
theorem resting_step {q : Party} (hu : t.step? a = some u) (rests : t.isResting q = true) :
    u.isResting q = true := by
  cases a with
  | advance q' =>
    by_cases hq : q' = .application
    · subst hq
      rcases application_cases hu with ⟨_, _, _, _, rfl⟩ | ⟨i, _, _, rfl⟩ | ⟨i, _, _, rfl⟩ |
        ⟨inlet, row, _, _, hf, rfl⟩
      all_goals cases q with
      | application => rfl
      | supplier => exact rests
      | stage j => ?_
      · exact rests
      · exact (Station.restsAt_closeInput i t.inlet t.row j).trans rests
      · exact (Station.restsAt_release i t.inlet t.row j).trans rests
      · exact (Station.restsAt_terminal hf j).trans rests
    · exact resting_task hq hu rests
  | expire q' =>
    cases q' with
    | supplier => cases hu
    | application =>
      obtain ⟨_, _, rfl⟩ := Option.map_eq_some_iff.mp hu
      cases q <;> exact rests
    | stage i =>
      obtain ⟨row, he, rfl⟩ := Option.map_eq_some_iff.mp hu
      cases q with
      | application => rfl
      | supplier => exact rests
      | stage j => exact Station.restsAt_expired (j := j) (Station.expired_of_expire he) rests

/-- Everybody who is to be waited for is still on the agenda, or is over. -/
def Awaits (waits : List Application.Errand) (t : System (SourceStage π) σ) : Prop :=
  ∀ q, .join q ∈ waits → .join q ∈ t.application.agenda ∨ t.isResting q = true

/-- This stays so if the sections at the terminal conduit keep everybody on the agenda. -/
theorem awaits_of_kept {r : ReaderSide} (hs : Sound p r t) (hw : Awaits waits t)
    (hu : t.step? a = some u)
    (kept : ∀ a' c' events, t.application.advance? t.terminal = some (a', c', events) →
      ∀ q, .join q ∈ t.application.agenda → .join q ∈ a'.agenda)
    (kept' : ∀ a', t.application.expire? t.terminal = some a' →
      ∀ q, .join q ∈ t.application.agenda → .join q ∈ a'.agenda) : Awaits waits u := by
  have left : ∀ q, .join q ∈ t.application.agenda →
      .join q ∈ u.application.agenda ∨ t.isResting q = true := by
    intro q hq
    cases a with
    | advance q' =>
      by_cases hq' : q' = .application
      · subst hq'
        rcases application_cases hu with ⟨_, rest, agenda, resting, rfl⟩ | ⟨_, rest, agenda, rfl⟩ |
          ⟨_, rest, agenda, rfl⟩ | ⟨_, _, a', events, hf, rfl⟩
        · rw [agenda, List.mem_cons] at hq
          rcases hq with same | later
          · cases same
            exact .inr resting
          · exact .inl later
        · rw [agenda, List.mem_cons] at hq
          exact .inl (hq.resolve_left (by simp))
        · rw [agenda, List.mem_cons] at hq
          exact .inl (hq.resolve_left (by simp))
        · obtain ⟨end', ha, _⟩ := sound_application hs hf
          exact .inl (kept a' end' events ha q hq)
      · rw [(sound_task hs hq' hu).2]
        exact .inl hq
    | expire q' =>
      by_cases hq' : q' = .application
      · subst hq'
        obtain ⟨a', ha, rfl⟩ := Option.map_eq_some_iff.mp hu
        exact .inl (kept' a' ha q hq)
      · rw [(sound_task_expire hs hq' hu).2]
        exact .inl hq
  intro q hq
  rcases hw q hq with on | rests
  · exact (left q on).imp_right (resting_step hu)
  · exact .inr (resting_step hu rests)

theorem awaits_step (ht : Reads p limit waits t) (hw : Awaits waits t)
    (hu : t.step? a = some u) : Awaits waits u := by
  obtain ⟨r, hs, _, silent⟩ := ht
  refine awaits_of_kept hs hw hu ?_ ?_
  · intro a' c' events ha q hq
    obtain ⟨e, rest, agenda, other, leaves⟩ := Application.leaves_advance ha
    exact Application.join_leaves silent agenda other leaves hq
  · intro a' ha q hq
    obtain ⟨e, rest, agenda, other, leaves⟩ := Application.leaves_expire ha
    exact Application.join_leaves silent agenda other leaves hq

/-- When the application has nothing left to do and every task is over, nobody can move. -/
theorem step_completed (hc : t.Completed) (a : Action) : t.step? a = none := by
  obtain ⟨done, rests⟩ := hc
  cases a with
  | advance q =>
    cases q with
    | application =>
      have still : Station.atTerminal? t.application.section? t.inlet t.row = none := by
        refine Station.terminal_none ?_
        simp [Application.section?, Application.advance?, done]
      show t.advanceApplication? = none
      unfold advanceApplication?
      split
      · rename_i agenda
        simp [done] at agenda
      · rename_i agenda
        simp [done] at agenda
      · rename_i agenda
        simp [done] at agenda
      · exact Option.map_eq_none_iff.mpr still
    | supplier =>
      have rested := rests .supplier
      simp only [isResting, Supplier.isResting, Bool.or_eq_true, beq_iff_eq] at rested
      rcases rested with at' | at' <;>
      simp [step?, System.advance?, Supplier.advance?, SourceStage.advance?, at']
    | stage i =>
      have still : Station.advance? i t.inlet t.row = none :=
        Station.advance_resting (rests (.stage i))
      simp [step?, System.advance?, still]
  | expire q =>
    cases q with
    | application => simp [step?, System.expire?, Application.expire?, done]
    | supplier => rfl
    | stage i =>
      have still : Station.expire? i t.inlet t.row = none :=
        Station.expire_resting (rests (.stage i))
      simp [step?, System.expire?, still]

/-! ## Runs without an end -/

/-- How many steps of a run do not only let a poll time out. -/
def busy : List Action → System (SourceStage π) σ → Nat
  | [], _ => 0
  | a :: acts, t =>
    match t.step? a with
    | some u => (if t.isTimeout a then 0 else 1) + busy acts u
    | none => 0

/-- They are no more than the work that there was to do. -/
theorem busy_le {acts : List Action} {n : Nat} (hw : t.supplier.Within n)
    (hr : t.run? acts = some u) : busy acts t ≤ t.work n := by
  induction acts generalizing t n with
  | nil => exact Nat.zero_le _
  | cons a acts ih =>
    obtain ⟨t', ht', hr⟩ := Option.bind_eq_some_iff.mp hr
    obtain ⟨n', hw', less⟩ := work_step hw ht'
    have rest := ih hw' hr
    simp only [busy, ht']
    omega

/-- A run that goes on for ever, where nothing may happen for a while. -/
structure Path (s : System (SourceStage π) σ) where
  at' : Nat → System (SourceStage π) σ
  act : Nat → Option Action
  start : at' 0 = s
  next : ∀ i, match act i with
    | some a => (at' i).step? a = some (at' (i + 1))
    | none => at' (i + 1) = at' i

/-- Steps that are possible are not put off for ever in favour of polls that time out: if one
is possible, then there comes one. -/
def Path.Fair {s : System (SourceStage π) σ} (h : Path s) : Prop :=
  ∀ i, (∃ a u, (h.at' i).step? a = some u ∧ (h.at' i).isTimeout a = false) →
    ∃ j a, i ≤ j ∧ h.act j = some a ∧ (h.at' j).isTimeout a = false

open Classical in
/-- Some step that does not only let a poll time out, if one is possible. -/
noncomputable def eager? (t : System (SourceStage π) σ) : Option Action :=
  if h : ∃ a u, t.step? a = some u ∧ t.isTimeout a = false then some h.choose else none

theorem eager_step (h : t.eager? = some a) : ∃ u, t.step? a = some u ∧ t.isTimeout a = false := by
  unfold eager? at h
  split at h
  · rename_i possible
    cases h
    exact possible.choose_spec
  · cases h

/-- The state after a number of such steps, or earlier if none is possible any more. -/
noncomputable def eagerly (s : System (SourceStage π) σ) : Nat → System (SourceStage π) σ
  | 0 => s
  | i + 1 => ((eagerly s i).eager?.bind (eagerly s i).step?).getD (eagerly s i)

/-- The path on which such a step is always taken. -/
noncomputable def Path.eager (s : System (SourceStage π) σ) : Path s where
  at' := eagerly s
  act i := (eagerly s i).eager?
  start := rfl
  next i := by
    cases h : (eagerly s i).eager? with
    | none => simp [eagerly, h]
    | some a =>
      obtain ⟨u, hu, _⟩ := eager_step h
      simp [eagerly, h, hu]

theorem Path.fair_eager (s : System (SourceStage π) σ) : (Path.eager s).Fair := by
  intro i possible
  have taken : (eagerly s i).eager? = some possible.choose := dif_pos possible
  obtain ⟨u, _, busy⟩ := eager_step taken
  exact ⟨i, _, Nat.le_refl i, taken, busy⟩

/-- What every step keeps holds all along a path. -/
theorem Path.invariant {s : System (SourceStage π) σ} {P : System (SourceStage π) σ → Prop}
    (h : Path s) (keeps : ∀ {t a u}, P t → step? t a = some u → P u) {i j : Nat} (hij : i ≤ j)
    (hi : P (h.at' i)) : P (h.at' j) := by
  obtain ⟨d, rfl⟩ := Nat.exists_eq_add_of_le hij
  induction d with
  | zero => exact hi
  | succ d ih =>
    have ih := ih (Nat.le_add_right i d)
    have next := h.next (i + d)
    split at next
    · exact keeps ih next
    · exact Eq.mpr (congrArg P next) ih

/-- No more work is left than so much. -/
def WorkWithin (w : Nat) (t : System (SourceStage π) σ) : Prop :=
  ∃ n, t.supplier.Within n ∧ t.work n ≤ w

theorem workWithin_step {w : Nat} (ht : WorkWithin w t) (hu : t.step? a = some u) :
    WorkWithin w u := by
  obtain ⟨n, hw, le⟩ := ht
  obtain ⟨n', hw', less⟩ := work_step hw hu
  exact ⟨n', hw', by omega⟩

/-- A path along which a step is always possible until something is reached, and that is
fair, reaches it. The induction is on the work that is left. -/
theorem Path.reaches {s : System (SourceStage π) σ} {P Q : System (SourceStage π) σ → Prop}
    (h : Path s) (fair : h.Fair) (keeps : ∀ {t a u}, P t → step? t a = some u → P u)
    (goes : ∀ {t}, P t → ¬ Q t → ∃ a u, t.step? a = some u ∧ t.isTimeout a = false)
    {w i : Nat} (hi : P (h.at' i)) (hw : WorkWithin w (h.at' i)) :
    ∃ j, Q (h.at' j) := by
  induction w using Nat.strongRecOn generalizing i with
  | ind w ih =>
    by_cases hq : Q (h.at' i)
    · exact ⟨i, hq⟩
    · -- until the next step that counts the work does not grow, and that step lessens it
      obtain ⟨j, a, hij, act, busy⟩ := fair i (goes hi hq)
      have hj := h.invariant keeps hij hi
      obtain ⟨n, hn, le⟩ := h.invariant workWithin_step hij hw
      have next := h.next j
      rw [act] at next
      obtain ⟨n', hn', less⟩ := work_step hn next
      rw [busy] at less
      have lower : (h.at' (j + 1)).work n' < w := Nat.lt_of_lt_of_le less le
      exact ih _ lower (keeps hj next) ⟨n', hn', Nat.le_refl _⟩

/-! ## The drained pipeline -/

/-- Nothing is left to do for the application, nobody can move any more, and every stage that
has a task is closed. The others have never been started. -/
structure Ended (t : System (SourceStage π) σ) : Prop where
  done : t.application.agenda = []
  still : ∀ a, t.step? a = none
  source : t.supplier.lifecycle = .closed
  stages : ∀ x ∈ t.row, x.lifecycle = if x.isWorking then .closed else .notStarted

/-- A system with an invariant that keeps it going while the application has errands left, and
under which the application leaves it ended: if the producer stops, there are finitely many
steps in any run, and every fair run ends. -/
theorem ends_of_invariant {s : System (SourceStage π) σ} {P : System (SourceStage π) σ → Prop}
    {n : Nat} (keeps : ∀ {t a u}, P t → step? t a = some u → P u)
    (goes : ∀ {t}, P t → t.application.agenda ≠ [] →
      ∃ a u, t.step? a = some u ∧ t.isTimeout a = false)
    (ended : ∀ {t}, P t → t.application.agenda = [] → Ended t)
    (hs : P s) (within : s.supplier.Within n) :
    (∃ limit, ∀ acts t, s.run? acts = some t → busy acts s ≤ limit) ∧
      ∀ h : Path s, h.Fair → ∃ i, ∀ j, i ≤ j → Ended (h.at' j) := by
  refine ⟨⟨s.work n, fun acts t hr => busy_le within hr⟩, fun h fair => ?_⟩
  have first : P (h.at' 0) := h.start.symm ▸ hs
  have left : WorkWithin (s.work n) (h.at' 0) := h.start.symm ▸ ⟨n, within, Nat.le_refl _⟩
  obtain ⟨i, done⟩ :=
    h.reaches (Q := fun t => t.application.agenda = []) fair keeps goes first left
  have there := ended (h.invariant keeps (Nat.zero_le i) first) done
  -- and there it stays, since nobody can move
  refine ⟨i, fun j hij => h.invariant (fun {t a u} ht hu => ?_) hij there⟩
  rw [ht.still a] at hu
  cases hu

/-- Whatever the schedule, a system is not stuck before its application is done, there are
finitely many steps that do not only let a poll time out, and if these are not put off for ever
then it ends. -/
structure Ends (s : System (SourceStage π) σ) : Prop where
  goes : ∀ acts t, s.run? acts = some t → t.application.agenda ≠ [] →
    ∃ a u, t.step? a = some u ∧ t.isTimeout a = false
  bounded : ∃ limit, ∀ acts t, s.run? acts = some t → busy acts s ≤ limit
  fair : ∀ h : Path s, h.Fair → ∃ i, ∀ j, i ≤ j → Ended (h.at' j)

/-- Has its application drain it and then wait for every task. -/
def draining (s₀ : System (SourceStage π) σ) : System (SourceStage π) σ :=
  s₀.plan (.drain 0 :: s₀.joining)

/-- What is true of a pipeline that is drained. -/
structure Draining (p : Pipeline π σ) (waits : List Application.Errand)
    (t : System (SourceStage π) σ) : Prop where
  reads : Reads p none waits t
  awaits : Awaits waits t

theorem ended_of_sound {r : ReaderSide} (hs : Sound p r t) (done : t.application.agenda = [])
    (rests : ∀ q, t.isResting q = true) : Ended t := by
  obtain ⟨⟨ps, held, w, ht⟩, row, _⟩ := hs
  refine ⟨done, step_completed ⟨done, rests⟩, ?_, fun x hx => ?_⟩
  · have rested := rests .supplier
    simp only [isResting, Supplier.isResting, Bool.or_eq_true, beq_iff_eq] at rested
    exact ht.closed (rested.resolve_left ht.started)
  · obtain ⟨i, hi, hx'⟩ := List.getElem_of_mem hx
    refine Station.sound_resting row hx ?_
    simpa [isResting, List.getElem?_eq_getElem hi, hx'] using rests (.stage i)

/-- When the application has waited for everybody, everybody is over. -/
theorem resting_of_awaits {r : ReaderSide} (hs : Sound p r t) (awaits : Awaits waits t)
    (source : .join .supplier ∈ waits) (stages : ∀ i < p.stages.length, .join (.stage i) ∈ waits)
    (done : t.application.agenda = []) (q : Party) : t.isResting q = true := by
  have awaited : ∀ q, .join q ∈ waits → t.isResting q = true := by
    intro q hq
    have left := awaits q hq
    rw [done] at left
    exact left.resolve_left (by simp)
  have length := Station.sound_length hs.row
  rw [List.length_map] at length
  cases q with
  | application => rfl
  | supplier => exact awaited .supplier source
  | stage i =>
    by_cases hi : i < p.stages.length
    · exact awaited (.stage i) (stages i hi)
    · have none' : t.row[i]? = none := List.getElem?_eq_none (by omega)
      simp [isResting, none']

theorem ended_of_draining {joining : List Application.Errand}
    (ht : Draining p joining t) (source : .join .supplier ∈ joining)
    (stages : ∀ i < p.stages.length, .join (.stage i) ∈ joining)
    (done : t.application.agenda = []) : Ended t := by
  obtain ⟨⟨r, hs, _⟩, awaits⟩ := ht
  exact ended_of_sound hs done (resting_of_awaits hs awaits source stages done)

theorem draining_step {joining : List Application.Errand}
    (joins : ∀ e ∈ joining, ∃ q, e = .join q) (ht : Draining p joining t)
    (hu : t.step? a = some u) : Draining p joining u :=
  ⟨reads_step joins ht.reads hu, awaits_step ht.reads ht.awaits hu⟩

theorem joins_joining (s : System (SourceStage π) σ) :
    ∀ e ∈ s.joining, ∃ q, e = .join q := by
  simp [joining]

/-- A pipeline that has just been started and is to be drained. -/
theorem draining_start {fault : Option Fault} (hp : p.Planned) (fits : p.Fits)
    (hs : p.start = .ok (s₀, fault)) :
    Draining p s₀.joining s₀.draining := by
  have here : (s₀.plan (Application.reading none ++ s₀.joining)).run? [] = some s₀.draining := rfl
  refine ⟨reads_run hp fits hs (joins_joining s₀) here, fun q hq => .inl ?_⟩
  obtain ⟨_, _, idle, _⟩ := start_unique hp fits hs
  simpa [draining, plan, Application.plan, idle] using hq

theorem start_supplier {fault : Option Fault} (hs : p.start = .ok (s₀, fault)) :
    s₀.supplier = p.source.launch := by
  simp only [Pipeline.start, bind, Except.bind, pure, Except.pure] at hs
  split at hs
  · cases hs
  · split at hs
    · cases hs
    · split at hs <;> cases hs <;> rfl

theorem within_draining {fault : Option Fault} {n : Nat} (hs : p.start = .ok (s₀, fault))
    (stops : p.source.producer.StopsWithin n p.source.state) :
    s₀.draining.supplier.Within n := fun _ => by
  show s₀.supplier.producer.StopsWithin n s₀.supplier.state
  rw [start_supplier hs]
  exact stops

theorem draining_goes {fault : Option Fault} (hp : p.Planned) (fits : p.Fits)
    (hs : p.start = .ok (s₀, fault)) (hr : s₀.draining.run? acts = some t)
    (left : t.application.agenda ≠ []) : ∃ a u, t.step? a = some u ∧ t.isTimeout a = false := by
  have joins := joins_joining s₀
  have capacity := (Pipeline.planned_fresh hp).2.1
  have ht := run_invariant (draining_step joins) (draining_start hp fits hs) hr
  exact progress capacity joins ht.reads left

/-- A pipeline whose producer stops ends when it is drained. -/
theorem ends_draining {fault : Option Fault} {n : Nat} (hp : p.Planned) (fits : p.Fits)
    (hs : p.start = .ok (s₀, fault)) (stops : p.source.producer.StopsWithin n p.source.state) :
    s₀.draining.Ends := by
  have joins := joins_joining s₀
  have capacity := (Pipeline.planned_fresh hp).2.1
  have length := (start_unique hp fits hs).2.2.2
  obtain ⟨bounded, fair⟩ := ends_of_invariant (draining_step joins)
    (fun ht => progress capacity joins ht.reads)
    (fun ht => ended_of_draining ht (by simp [joining]) (by simp [joining, length]))
    (draining_start hp fits hs) (within_draining hs stops)
  exact ⟨fun acts t hr => draining_goes hp fits hs hr, bounded, fair⟩

/-- A pipeline that is drained and then joined. It is never stuck: until the application has
nothing left to do, some step is possible that does not only let a poll time out. If the
producer stops, the number of such steps is bounded over all runs, and every run in which they
are not put off for ever ends, with every task over. -/
theorem drained_ends {fault : Option Fault} (hp : p.Planned) (fits : p.Fits)
    (hs : p.start = .ok (s₀, fault)) :
    (∀ acts t, s₀.draining.run? acts = some t → t.application.agenda ≠ [] →
      ∃ a u, t.step? a = some u ∧ t.isTimeout a = false) ∧
    ((∃ n, p.source.producer.StopsWithin n p.source.state) →
      (∃ limit, ∀ acts t, s₀.draining.run? acts = some t → busy acts s₀.draining ≤ limit) ∧
      ∀ h : Path s₀.draining, h.Fair → ∃ i, ∀ j, i ≤ j → Ended (h.at' j)) := by
  refine ⟨fun acts t hr => draining_goes hp fits hs hr, fun ⟨n, stops⟩ => ?_⟩
  have ends := ends_draining hp fits hs stops
  exact ⟨ends.bounded, ends.fair⟩

/-- The small pipeline comes to its end if some step is always taken. -/
theorem drained_ends_sample : ∃ h : Path (sample .passOn).draining, h.Fair ∧
    ∃ i, ∀ j, i ≤ j → Ended (h.at' j) := by
  have ends := (drained_ends (Pipeline.planned_sample .passOn) (by decide)
    (start_sample .passOn)).2
  have stops : ∃ n, (Pipeline.sample .passOn).source.producer.StopsWithin n
      (Pipeline.sample .passOn).source.state := ⟨1, trivial⟩
  have fair := Path.fair_eager (sample .passOn).draining
  exact ⟨_, fair, (ends stops).2 _ fair⟩

/-- But not all of its stages are closed then: the one without a handler was never started. -/
theorem passing_not_closed : ∃ t, (sample .passOn).draining.run? (turns
      [(3, .supplier), (2, .stage 0), (5, .supplier), (2, .stage 0), (1, .application),
        (10, .stage 0), (6, .application)]) = some t ∧
    t.application.agenda = [] ∧ (∀ a, t.step? a = none) ∧
    t.row.map Station.lifecycle = [.closed, .notStarted] := by
  have ended : ((sample .passOn).draining.run? (turns
      [(3, .supplier), (2, .stage 0), (5, .supplier), (2, .stage 0), (1, .application),
        (10, .stage 0), (6, .application)])).any
        (fun t => decide t.Completed &&
          t.row.map Station.lifecycle == [.closed, .notStarted]) = true := by
    decide +kernel
  obtain ⟨t, hr, ht⟩ := (Option.any_eq_true _ _).mp ended
  obtain ⟨completed, lives⟩ := Bool.and_eq_true_iff.mp ht
  have completed := of_decide_eq_true completed
  exact ⟨t, hr, completed.1, step_completed completed, eq_of_beq lives⟩

end System
end StagedPipeline
