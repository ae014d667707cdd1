import StagedPipeline.Proofs.Pipeline.Progress

/-!
# The work that is left

Every party and everything that lies in a conduit stands for some work. What a task hands on
weighs less behind it than in front of it, by more than the sections that it takes to hand it
on; so every step lessens the work that is left, unless it only lets a poll time out, and then
it adds none. `j` is always the number of tasks behind.
-/
namespace StagedPipeline

/-- A step that lessens the work keeps to the bound, be it the end of a poll or not. -/
theorem add_step_le {timeout : Bool} {before after : Nat} (less : after + 1 ≤ before) :
    after + (if timeout then 0 else 1) ≤ before := by
  split <;> omega

/-! ## Conduits -/

def Handoff.load {α : Type} (j : Nat) (d : Handoff α) : Nat :=
  if d.slot.isSome then 4 * j + 1 else 0

def Reports.load (j : Nat) (r : Reports) : Nat := (3 * j + 1) * r.queue.queue.length

def Conduit.load (j : Nat) (c : Conduit) : Nat := c.data.load j + c.errors.load j

/-- The work of a reader that is about to ask whether the errors have come to their end. -/
def Reports.confirmWork (base : Nat) (r : Reports) : Nat :=
  if r.queue.queue.isEmpty then if r.queue.closed then base else base + 1 else base + 2

namespace Handoff

variable {α : Type} {j : Nat} {d d' : Handoff α}

theorem load_placed {a : α} {t : Nat} (h : d.offer? a = some (.placed t, d')) :
    d'.load j = d.load j + (4 * j + 1) := by
  unfold offer? at h
  split at h
  · cases h
  · split at h
    · cases h
    · rename_i hs
      cases h
      simp [load, hs]

theorem load_refused {a : α} (h : d.offer? a = some (.refused, d')) : d'.load j = d.load j := by
  rw [(offer_refused h).2]

theorem load_settled {t : Nat} {taken : Bool} (h : d.settle? t = some (taken, d')) :
    d'.load j ≤ d.load j := by
  unfold settle? at h
  split at h
  · cases h
    exact Nat.le_refl _
  · split at h
    · cases h
      simp [load]
    · cases h

theorem load_taken {a : α} (h : d.take? = some (some a, d')) :
    d'.load j + (4 * j + 1) = d.load j := by
  unfold take? at h
  split at h
  · cases h
  · split at h
    · rename_i hs
      cases h
      simp [load, hs]
    · cases h

theorem load_ended (h : d.take? = some (none, d')) : d'.load j = d.load j := by
  rw [(take_end h).2]

end Handoff

namespace Reports

variable {j : Nat} {r r' : Reports} {e : Error}

theorem load_forward {how : Putting} (j base : Nat) (h : r.forward? e = some (how, r')) :
    r'.load j ≤ r.load j + (3 * j + 1) ∧ r'.confirmWork base ≤ r.confirmWork base + 1 := by
  unfold forward? Fifo.send? at h
  split at h
  · cases h
    exact ⟨Nat.le_add_right _ _, Nat.le_add_right _ _⟩
  · split at h
    · cases h
    · rename_i open' _
      cases h
      have closed : r.queue.closed = false := by simpa using open'
      constructor
      · simp [load, Nat.mul_add]
      · cases hq : r.queue.queue <;> simp [confirmWork, closed, hq]

theorem load_received (h : r.receive? = some (some e, r')) :
    r'.load j + (3 * j + 1) = r.load j := by
  obtain ⟨rest, hq, rfl⟩ := receive_error h
  simp [load, hq, Nat.mul_add]

theorem confirmWork_le (base : Nat) (r : Reports) :
    base ≤ r.confirmWork base ∧ r.confirmWork base ≤ base + 2 := by
  unfold confirmWork
  split <;> try split
  all_goals omega

theorem confirmWork_close (base : Nat) (r : Reports) :
    r.close.confirmWork base ≤ r.confirmWork base := by
  simp only [confirmWork, close, Fifo.close]
  split <;> simp
  split <;> omega

theorem confirmWork_drained (base : Nat) (h : r.isDrained = true) : r.confirmWork base = base := by
  obtain ⟨hc, hq⟩ : r.queue.closed = true ∧ r.queue.queue.isEmpty = true := by
    simpa [isDrained, Fifo.isDrained] using h
  simp [confirmWork, hc, hq]

/-- A poll that has found nothing is tried again: because it has timed out, or because there
is something by now. -/
theorem confirmWork_more (base : Nat) (h : r.isDrained = false) :
    r.confirmWork base = if r.isQuiet then base + 1 else base + 2 := by
  simp only [isDrained, Fifo.isDrained] at h
  unfold confirmWork isQuiet
  by_cases hq : r.queue.queue.isEmpty = true
  · have hc : r.queue.closed = false := by simpa [hq] using h
    simp [hq, hc]
  · simp [hq]

theorem confirmWork_empty (base : Nat) (h : r.canExpire = true) : r.confirmWork base ≤ base + 1 := by
  have hq : r.queue.queue.isEmpty = true := h
  simp only [confirmWork, hq, ↓reduceIte]
  split <;> omega

end Reports

/-! ## Tasks -/

/-- The work of a source that calls its producer `n` times more at most. -/
def SourceStage.budget (n j : Nat) : Nat := 3 * j + 9 + n * (4 * j + 4)

def SourceStage.Phase.work (n j : Nat) : SourceStage.Phase → Nat
  | .idle => 0
  | .starting => budget n j + 1
  | .asking => budget n j
  | .offering _ more => (if more then budget n j else 4) + (4 * j + 3)
  | .awaiting _ _ more => (if more then budget n j else 4) + 1
  | .reporting _ => 3 * j + 8
  | .faulting _ => 3 * j + 7
  | .reportingFault _ => 3 * j + 6
  | .completing => 4
  | .closingErrors => 3
  | .closingData => 2
  | .finishing => 1
  | .finished => 0

def TransformStage.Phase.work (j : Nat) (errors : Reports) : TransformStage.Phase → Nat
  | .idle => 0
  | .starting => 3 * j + 16
  | .reading => 3 * j + 15
  | .handling _ _ => 7 * j + 19
  | .offering _ => 7 * j + 18
  | .awaiting _ _ => 3 * j + 16
  | .reporting _ => 3 * j + 14
  | .abandoning _ => 3 * j + 13
  | .faulting _ => 3 * j + 12
  | .reportingFault _ => 3 * j + 11
  | .relaying _ => 3 * j + 10
  | .releasing => 8
  | .polling => 7
  | .confirming => errors.confirmWork 6
  | .completing => 5
  | .closingErrors => 4
  | .closingData => 3
  | .finalizing => 2
  | .finishing => 1
  | .finished => 0

namespace Application

/-- The work of an errand that is not the first. -/
def Errand.work : Errand → Nat
  | .drain _ => 3
  | .poll _ _ => 2
  | .confirm _ _ => 3
  | .check => 2
  | _ => 1

/-- The work of errands of which none is the first. -/
def Errand.total : List Errand → Nat
  | [] => 0
  | e :: rest => e.work + total rest

/-- The work of an agenda at a terminal conduit. -/
def work (agenda : List Errand) (errors : Reports) : Nat :=
  match agenda with
  | .confirm _ _ :: rest => errors.confirmWork 1 + Errand.total rest
  | agenda => Errand.total agenda

theorem work_le (agenda : List Errand) (errors : Reports) :
    work agenda errors ≤ Errand.total agenda := by
  unfold work
  split
  · have h := (Reports.confirmWork_le 1 errors).2
    simp only [Errand.total, Errand.work]
    omega
  · exact Nat.le_refl _

theorem work_cons {e : Errand} (he : ∀ purpose got, e ≠ .confirm purpose got)
    (rest : List Errand) (errors : Reports) :
    work (e :: rest) errors = e.work + Errand.total rest := by
  unfold work
  split
  · rename_i purpose got rest' h
    cases h
    exact absurd rfl (he purpose got)
  · rfl

theorem work_confirm (purpose : Purpose) (got : List Error) (rest : List Errand)
    (errors : Reports) :
    work (.confirm purpose got :: rest) errors =
      errors.confirmWork 1 + Errand.total rest := rfl

theorem work_poll (purpose : Purpose) (got : List Error) (rest : List Errand)
    (errors : Reports) :
    work (.poll purpose got :: rest) errors = 2 + Errand.total rest := rfl

/-- The end of the first errand. -/
theorem work_pop {a : Application} {e : Errand} {rest : List Errand} (hg : a.agenda = e :: rest)
    (he : ∀ purpose got, e ≠ .confirm purpose got) (errors : Reports) :
    work rest errors + 1 ≤ work a.agenda errors := by
  have bound := work_le rest errors
  have positive : 1 ≤ e.work := by cases e <;> simp [Errand.work]
  rw [hg, work_cons he]
  omega

/-- A read takes a pack out of the slot, or comes to the end of what is to be read. -/
theorem work_note {a : Application} {c : Conduit} {item : Option (Option Pack)}
    {data : Handoff (Option Pack)} {next atEnd : List Errand} {w : Nat}
    (done : c.data.take? = some (item, data)) (hn : Errand.total next ≤ w)
    (he : Errand.total atEnd + 1 ≤ w) :
    Conduit.load 0 { c with data } + work (a.note item next atEnd).1.agenda c.errors + 1 ≤
      c.load 0 + w := by
  simp only [Conduit.load]
  cases item with
  | some p =>
    have load := Handoff.load_taken (j := 0) done
    have bound : work (a.note (some p) next atEnd).1.agenda c.errors ≤ w := by
      refine Nat.le_trans (work_le _ _) ?_
      simp only [note]
      split
      · exact Nat.zero_le _
      · exact hn
    omega
  | none =>
    have load := Handoff.load_ended (j := 0) done
    have bound : work (a.note none next atEnd).1.agenda c.errors + 1 ≤ w :=
      Nat.le_trans (Nat.succ_le_succ (work_le _ _)) he
    omega

end Application

/-! ## Rows -/

namespace Station

variable {σ : Type} {agenda agenda' : List Application.Errand} {c c' : Conduit}
  {row row' : List (Station σ)}

/-- The number of tasks in a row. -/
def tasks (row : List (Station σ)) : Nat := row.countP isWorking

/-- The work of a row, with the conduits in it and the application behind it. -/
def work (agenda : List Application.Errand) : Conduit → List (Station σ) → Nat
  | c, [] => c.load 0 + Application.work agenda c.errors
  | c, .passing _ :: row => work agenda c row
  | c, .unconnected _ :: row => work agenda c row
  | c, .working s out :: row =>
    c.load (tasks row + 1) + s.phase.work (tasks row) c.errors + work agenda out row

@[simp] theorem tasks_nil : tasks ([] : List (Station σ)) = 0 := rfl

@[simp] theorem tasks_passing (x : Finalization) : tasks (.passing x :: row) = tasks row := rfl

@[simp] theorem tasks_unconnected (x : Finalization) :
    tasks (.unconnected x :: row) = tasks row := rfl

@[simp] theorem tasks_working (s : TransformStage σ) (out : Conduit) :
    tasks (.working s out :: row) = tasks row + 1 := by
  rw [tasks, List.countP_cons]
  rfl

/-! What the writer in front of a row does to its work: a pack in the slot adds the load of the
slot, and an error adds the load of an error and may bring a reader back to its poll. -/

theorem work_data (agenda : List Application.Errand) (c : Conduit) (row : List (Station σ))
    (data : Handoff (Option Pack)) :
    work agenda { c with data } row + c.data.load (tasks row) =
      work agenda c row + data.load (tasks row) := by
  induction row with
  | nil =>
    simp only [work, Conduit.load, tasks_nil]
    omega
  | cons x row ih =>
    cases x with
    | passing x => exact ih
    | unconnected x => exact ih
    | working s out =>
      simp only [work, Conduit.load, tasks_working]
      omega

theorem work_errors (agenda : List Application.Errand) (row : List (Station σ))
    {errors : Reports} {d : Nat}
    (hl : ∀ j, errors.load j ≤ c.errors.load j + d * (3 * j + 1))
    (hw : ∀ base, errors.confirmWork base ≤ c.errors.confirmWork base + d) :
    work agenda { c with errors } row ≤ work agenda c row + d * (3 * tasks row + 2) := by
  have split : ∀ j, d * (3 * j + 2) = d * (3 * j + 1) + d := fun j => by
    rw [Nat.mul_succ]
  induction row with
  | nil =>
    have load := hl 0
    have app : Application.work agenda errors ≤ Application.work agenda c.errors + d := by
      unfold Application.work
      split
      · have h := hw 1
        omega
      · exact Nat.le_add_right _ _
    simp only [work, Conduit.load, tasks_nil]
    rw [split]
    omega
  | cons x row ih =>
    cases x with
    | passing x => exact ih
    | unconnected x => exact ih
    | working s out =>
      have load := hl (tasks row + 1)
      have confirm := hw 6
      have phase : s.phase.work (tasks row) errors ≤
          s.phase.work (tasks row) c.errors + d := by
        cases s.phase <;> simp only [TransformStage.Phase.work] <;> omega
      simp only [work, Conduit.load, tasks_working]
      rw [split]
      omega

theorem work_put {e : Error} {how : Reports.Putting} {errors : Reports}
    (agenda : List Application.Errand) (row : List (Station σ))
    (h : c.errors.forward? e = some (how, errors)) :
    work agenda { c with errors } row ≤ work agenda c row + (3 * tasks row + 2) := by
  have bound := work_errors (d := 1) agenda row
    (fun j => by rw [Nat.one_mul]; exact (Reports.load_forward j 0 h).1)
    (fun base => (Reports.load_forward 0 base h).2)
  rwa [Nat.one_mul] at bound

theorem work_closeErrors (agenda : List Application.Errand) (c : Conduit)
    (row : List (Station σ)) : work agenda c.closeErrors row ≤ work agenda c row := by
  have bound : work agenda c.closeErrors row ≤ work agenda c row + 0 * (3 * tasks row + 2) :=
    work_errors agenda row (fun j => Nat.le_add_right _ _)
      (fun base => Reports.confirmWork_close base c.errors)
  rwa [Nat.zero_mul] at bound

theorem work_closeData (agenda : List Application.Errand) (c : Conduit)
    (row : List (Station σ)) : work agenda c.closeData row = work agenda c row := by
  have h := work_data agenda c row c.data.close
  have same : c.data.close.load (tasks row) = c.data.load (tasks row) := rfl
  rw [same] at h
  exact Nat.add_right_cancel h

end Station

namespace TransformStage

variable {σ : Type} {s s' : TransformStage σ} {inp inp' out out' : Conduit} {events : List Event}

/-- Every move of a task lessens the work between its input and the end of the row. -/
theorem work_move (hm : s.Move inp out s' inp' out' events) (agenda : List Application.Errand)
    (row : List (Station σ)) :
    Station.work agenda inp' (.working s' out' :: row) +
        (if s.phase == .confirming && inp.errors.isQuiet then 0 else 1) ≤
      Station.work agenda inp (.working s out :: row) := by
  simp only [Station.work, Conduit.load]
  -- only a poll that is tried again may be the end of one that has timed out; all other
  -- sections lessen the work in any case
  cases hm with
  | meetEnd at' done =>
    have load := Handoff.load_ended (j := Station.tasks row + 1) done
    refine add_step_le ?_
    simp only [at', Phase.work]
    omega
  | receive at' done | skip at' done bare =>
    have load := Handoff.load_taken (j := Station.tasks row + 1) done
    refine add_step_le ?_
    simp only [at', Phase.work]
    omega
  | succeed at' verdict =>
    refine add_step_le ?_
    cases hq : leftBy (s.handler s.memory _ _) <;> simp only [at', Phase.work, afterSuccess] <;>
    omega
  | refuse at' done =>
    rename_i p data
    have change := Station.work_data agenda out row data
    have load := Handoff.load_refused (j := Station.tasks row) done
    refine add_step_le ?_
    simp only [at', Phase.work]
    omega
  | place at' done =>
    rename_i p t data
    have change := Station.work_data agenda out row data
    have load := Handoff.load_placed (j := Station.tasks row) done
    refine add_step_le ?_
    simp only [at', Phase.work]
    omega
  | settle at' done | lose at' done =>
    rename_i p t data
    have change := Station.work_data agenda out row data
    have load := Handoff.load_settled (j := Station.tasks row) done
    refine add_step_le ?_
    simp only [at', Phase.work]
    omega
  | report at' null done | reportFault at' done | relay at' done =>
    have change := Station.work_put agenda row done
    refine add_step_le ?_
    simp only [at', Phase.work]
    omega
  | poll at' done =>
    have load := Reports.load_received (j := Station.tasks row + 1) done
    refine add_step_le ?_
    simp only [at', Phase.work]
    omega
  | pollEnd at' done =>
    obtain ⟨closed, empty, rfl⟩ := Reports.receive_end done
    have confirm : inp.errors.confirmWork 6 = 6 := Reports.confirmWork_drained 6 (by
      simp [Reports.isDrained, Fifo.isDrained, closed, empty])
    refine add_step_le ?_
    simp only [at', Phase.work]
    omega
  | confirm at' done =>
    have confirm := Reports.confirmWork_drained 6 done
    refine add_step_le ?_
    simp only [at', Phase.work]
    omega
  | retry at' more =>
    have confirm := Reports.confirmWork_more 6 more
    simp only [at', Phase.work]
    cases hq : inp.errors.isQuiet with
    | false =>
      rw [hq, if_neg Bool.false_ne_true] at confirm
      split <;> omega
    | true =>
      rw [hq, if_pos rfl] at confirm
      rw [if_pos (by rfl)]
      omega
  | closeErrors at' =>
    have change := Station.work_closeErrors agenda out row
    refine add_step_le ?_
    simp only [at', Phase.work]
    omega
  | closeData at' =>
    have change := Station.work_closeData agenda out row
    refine add_step_le ?_
    simp only [at', Phase.work]
    omega
  | release at' | abandon at' =>
    have same : inp.data.close.load (Station.tasks row + 1) =
        inp.data.load (Station.tasks row + 1) := rfl
    refine add_step_le ?_
    simp only [at', Phase.work, same, Conduit.closeData]
    omega
  | start at' | fault at' verdict | fail at' verdict | reject at' null | concede at' | complete at'
  | finalize at' | finish at' =>
    refine add_step_le ?_
    simp only [at', Phase.work, afterFault, afterFailure]
    omega

end TransformStage

/-- A producer that says within `n` calls that there is no more, or fails or throws. -/
def Producer.StopsWithin {π : Type} (f : Producer π) : Nat → π → Prop
  | 0, _ => False
  | n + 1, x =>
    match (f x).production with
    | .yielded _ true => StopsWithin f n (f x).state
    | _ => True

namespace SourceStage

variable {π σ : Type} {s s' : SourceStage π} {out out' : Conduit} {events : List Event} {n j : Nat}

/-- A source that calls its producer `n` times more at most. -/
def Within (n : Nat) (s : SourceStage π) : Prop :=
  s.phase.more? = some true → s.producer.StopsWithin n s.state

theorem budget_succ (n j : Nat) : budget (n + 1) j = budget n j + (4 * j + 4) := by
  have unroll : (n + 1) * (4 * j + 4) = n * (4 * j + 4) + (4 * j + 4) := Nat.succ_mul n _
  rw [budget, budget, unroll]
  omega

theorem budget_ge (n j : Nat) : 3 * j + 9 ≤ budget n j := Nat.le_add_right _ _

/-- Every move of a source lessens the work from it to the end of the row, where a call of the
producer is one of those that are left. -/
theorem work_move (hw : s.Within n) (hm : s.Move out s' out' events)
    (agenda : List Application.Errand) (row : List (Station σ)) :
    ∃ n', s'.Within n' ∧
      s'.phase.work n' (Station.tasks row) + Station.work agenda out' row + 1 ≤
        s.phase.work n (Station.tasks row) + Station.work agenda out row := by
  have base := budget_ge n (Station.tasks row)
  -- a source that asks has a call left, and after an answer with more to come it has one less
  have asks : s.phase = .asking → ∃ m, n = m + 1 ∧
      ∀ p, (s.producer s.state).production = .yielded p true →
        s.producer.StopsWithin m (s.producer s.state).state := by
    intro at'
    have stops := hw (by rw [at']; rfl)
    cases n with
    | zero => exact stops.elim
    | succ m =>
      refine ⟨m, rfl, fun p answer => ?_⟩
      simpa only [Producer.StopsWithin, answer] using stops
  cases hm with
  | start at' =>
    refine ⟨n, fun _ => hw (by rw [at']; rfl), ?_⟩
    simp only [at', Phase.work]
    omega
  | fail at' answer | throw at' answer =>
    obtain ⟨m, rfl, stops⟩ := asks at'
    refine ⟨m, by simp [Within, afterCall], ?_⟩
    simp only [at', Phase.work, afterCall]
    omega
  | skip at' answer =>
    obtain ⟨m, rfl, stops⟩ := asks at'
    rw [budget_succ] at base
    rename_i more
    cases more with
    | false =>
      refine ⟨m, by simp [Within, afterCall, afterPack], ?_⟩
      simp only [at', Phase.work, afterCall, afterPack, budget_succ, Bool.false_eq_true, ↓reduceIte]
      omega
    | true =>
      refine ⟨m, fun _ => stops none answer, ?_⟩
      simp only [at', Phase.work, afterCall, afterPack, budget_succ, ↓reduceIte]
      omega
  | yield at' answer =>
    obtain ⟨m, rfl, stops⟩ := asks at'
    have base' := budget_ge m (Station.tasks row)
    rename_i p more
    cases more with
    | false =>
      refine ⟨m, by simp [Within, afterCall], ?_⟩
      simp only [at', Phase.work, afterCall, budget_succ, Bool.false_eq_true, ↓reduceIte]
      omega
    | true =>
      refine ⟨m, fun _ => stops (some p) answer, ?_⟩
      simp only [at', Phase.work, afterCall, budget_succ, ↓reduceIte]
      omega
  | refuse at' done =>
    rename_i p more data
    have change := Station.work_data agenda out row data
    have load := Handoff.load_refused (j := Station.tasks row) done
    refine ⟨n, by simp [Within], ?_⟩
    cases more <;> simp only [at', Phase.work, Bool.false_eq_true, ↓reduceIte] <;> omega
  | place at' done =>
    rename_i p more t data
    have change := Station.work_data agenda out row data
    have load := Handoff.load_placed (j := Station.tasks row) done
    refine ⟨n, fun h => hw (by rw [at']; exact h), ?_⟩
    simp only [at', Phase.work]
    omega
  | settle at' done =>
    rename_i p t more data
    have change := Station.work_data agenda out row data
    have load := Handoff.load_settled (j := Station.tasks row) done
    cases more with
    | false =>
      refine ⟨n, by simp [Within, afterPack], ?_⟩
      simp only [at', Phase.work, afterPack, Bool.false_eq_true, ↓reduceIte]
      omega
    | true =>
      refine ⟨n, fun _ => hw (by rw [at']; rfl), ?_⟩
      simp only [at', Phase.work, afterPack, ↓reduceIte]
      omega
  | lose at' done =>
    rename_i p t more data
    have change := Station.work_data agenda out row data
    have load := Handoff.load_settled (j := Station.tasks row) done
    refine ⟨n, by simp [Within], ?_⟩
    cases more <;> simp only [at', Phase.work, Bool.false_eq_true, ↓reduceIte] <;> omega
  | report at' null done | reportFault at' done =>
    have change := Station.work_put agenda row done
    refine ⟨n, by simp [Within], ?_⟩
    simp only [at', Phase.work]
    omega
  | closeErrors at' =>
    have change := Station.work_closeErrors agenda out row
    refine ⟨n, by simp [Within], ?_⟩
    simp only [at', Phase.work]
    omega
  | closeData at' =>
    have change := Station.work_closeData agenda out row
    refine ⟨n, by simp [Within], ?_⟩
    simp only [at', Phase.work]
    omega
  | reject at' null | concede at' | complete at' | finish at' =>
    refine ⟨n, by simp [Within], ?_⟩
    simp only [at', Phase.work]
    omega

end SourceStage

namespace Application

variable {a a' : Application} {c c' : Conduit} {events : List Event}

/-- Every section of an errand at the terminal conduit lessens the work there, unless it only
lets a poll time out. -/
theorem work_advance (ha : a.advance? c = some (a', c', events)) :
    c'.load 0 + work a'.agenda c'.errors + (if a.isTimeout c then 0 else 1) ≤
      c.load 0 + work a.agenda c.errors := by
  unfold advance? at ha
  split at ha <;> rename_i agenda
  case h_1 | h_2 | h_4 | h_5 =>
    simp only [Option.map_eq_some_iff, Prod.exists, Prod.mk.injEq] at ha
    obtain ⟨item, data, done, rfl, rfl, rfl⟩ := ha
    rw [agenda, work_cons (by simp)]
    refine add_step_le (work_note done ?_ ?_) <;> simp only [Errand.total, Errand.work] <;> omega
  case h_3 rest | h_6 rest =>
    cases ha
    have bound := work_le rest c.errors
    rw [agenda, work_cons (by simp)]
    refine add_step_le ?_
    show c.load 0 + work rest c.errors + 1 ≤ c.load 0 + (1 + Errand.total rest)
    omega
  case h_7 rest =>
    simp only [Option.map_eq_some_iff, Prod.exists] at ha
    obtain ⟨item, errors, done, ha⟩ := ha
    rw [agenda, work_cons (by simp)]
    refine add_step_le ?_
    cases item with
    | some e =>
      have load := Reports.load_received (j := 0) done
      have bound := work_le rest errors
      cases ha
      simp only [Errand.work, Conduit.load]
      omega
    | none =>
      obtain ⟨closed, empty, rfl⟩ := Reports.receive_end done
      cases ha
      rw [work_cons (by simp)]
      simp only [Errand.work, Conduit.load]
      omega
  case h_8 rest =>
    cases ha
    have bound := work_le rest c.errors
    rw [agenda, work_cons (by simp)]
    refine add_step_le ?_
    simp only [Errand.work]
    omega
  case h_9 purpose got rest =>
    simp only [Option.map_eq_some_iff, Prod.exists] at ha
    obtain ⟨item, errors, done, ha⟩ := ha
    rw [agenda, work_poll]
    refine add_step_le ?_
    cases item with
    | some e =>
      have load := Reports.load_received (j := 0) done
      cases ha
      simp only [Conduit.load, work_poll]
      omega
    | none =>
      obtain ⟨closed, empty, rfl⟩ := Reports.receive_end done
      have confirm : c.errors.confirmWork 1 = 1 := Reports.confirmWork_drained 1 (by
        simp [Reports.isDrained, Fifo.isDrained, closed, empty])
      cases ha
      simp only [Conduit.load, work_confirm, confirm]
      omega
  case h_10 purpose got rest =>
    rw [agenda, work_confirm]
    split at ha
    · rename_i drained
      cases ha
      have bound := work_le rest c.errors
      have confirm := Reports.confirmWork_drained 1 drained
      refine add_step_le ?_
      simp only [confirm]
      omega
    · rename_i more
      have confirm := Reports.confirmWork_more 1 (by simpa using more)
      have same : a.isTimeout c = c.errors.isQuiet := by simp only [isTimeout, agenda]
      cases ha
      rw [same, work_poll, confirm]
      split <;> omega
  case h_11 => cases ha

/-- Leaving a poll whose time is over adds no work. -/
theorem work_expire (ha : a.expire? c = some a') :
    work a'.agenda c.errors ≤ work a.agenda c.errors := by
  unfold expire? at ha
  split at ha <;> rename_i agenda
  case h_1 rest =>
    split at ha
    · cases ha
      rw [agenda, work_cons (by simp), work_cons (by simp)]
      simp [Errand.work]
    · cases ha
  case h_2 purpose got rest =>
    split at ha
    · rename_i empty
      cases ha
      have confirm := Reports.confirmWork_empty 1 empty
      rw [agenda, work_poll, work_confirm]
      omega
    · cases ha
  case h_3 => cases ha

end Application

/-! ## A step anywhere in a row -/

namespace Station

variable {σ : Type} {i : Nat} {agenda agenda' : List Application.Errand} {c c' : Conduit}
  {row row' : List (Station σ)} {events : List Event}

theorem tasks_moved (hm : Moved i c row c' row' events) : tasks row' = tasks row := by
  induction hm with
  | here move => rw [tasks_working, tasks_working]
  | passing behind ih | unconnected behind ih => exact ih
  | working behind ih => rw [tasks_working, tasks_working, ih]

theorem work_moved (agenda : List Application.Errand) (hm : Moved i c row c' row' events) :
    work agenda c' row' + (if isTimeout i c row then 0 else 1) ≤ work agenda c row := by
  induction hm with
  | here move => exact TransformStage.work_move move agenda _
  | passing behind ih | unconnected behind ih => exact ih
  | @working i c s out out' row row' events behind ih =>
    have same : isTimeout (i + 1) c (.working s out :: row) = isTimeout i out row := rfl
    rw [same, work, work, tasks_moved behind]
    omega

theorem tasks_expired (he : Expired i c row row') : tasks row' = tasks row := by
  induction he with
  | here expire => rw [tasks_working, tasks_working]
  | passing behind ih | unconnected behind ih => exact ih
  | working behind ih => rw [tasks_working, tasks_working, ih]

theorem work_expired (agenda : List Application.Errand) (he : Expired i c row row') :
    work agenda c row' ≤ work agenda c row := by
  induction he with
  | here expire =>
    obtain ⟨at', empty, rfl⟩ := TransformStage.expire_confirming expire
    have confirm := Reports.confirmWork_empty 6 empty
    simp only [work, at', TransformStage.Phase.work]
    omega
  | passing behind ih | unconnected behind ih => exact ih
  | working behind ih =>
    simp only [work, tasks_expired behind]
    omega

theorem work_terminal {β : Type} {b : β} {f : Conduit → Option (Conduit × β)}
    (hf : atTerminal? f c row = some (c', row', b)) :
    tasks row' = tasks row ∧ ∃ end', f (terminal c row) = some (end', b) ∧
      ∀ {agenda agenda' d}, end'.load 0 + Application.work agenda' end'.errors + d ≤
          (terminal c row).load 0 + Application.work agenda (terminal c row).errors →
        work agenda' c' row' + d ≤ work agenda c row := by
  induction row generalizing c c' row' with
  | nil =>
    simp only [atTerminal?, Option.map_eq_some_iff, Prod.exists, Prod.mk.injEq] at hf
    obtain ⟨c₁, b₁, hf, rfl, rfl, rfl⟩ := hf
    exact ⟨rfl, c₁, hf, id⟩
  | cons x row ih =>
    cases x with
    | passing x | unconnected x =>
      simp only [atTerminal?, Option.map_eq_some_iff, Prod.exists, Prod.mk.injEq] at hf
      obtain ⟨c₁, row₁, b₁, hf, rfl, rfl, rfl⟩ := hf
      have behind := ih hf
      exact behind
    | working s out =>
      simp only [atTerminal?, Option.map_eq_some_iff, Prod.exists, Prod.mk.injEq] at hf
      obtain ⟨out', row₁, b₁, hf, rfl, rfl, rfl⟩ := hf
      obtain ⟨same, end', he, less⟩ := ih hf
      refine ⟨by simp [same], end', he, fun h => ?_⟩
      have behind := less h
      simp only [work, same]
      omega

theorem work_agenda {d : Nat} (h : Application.work agenda' (terminal c row).errors + d ≤
      Application.work agenda (terminal c row).errors) :
    work agenda' c row + d ≤ work agenda c row := by
  induction row generalizing c with
  | nil =>
    have h' : Application.work agenda' c.errors + d ≤ Application.work agenda c.errors := h
    simp only [work]
    omega
  | cons x row ih =>
    have behind := ih (c := x.outlet c) h
    cases x with
    | passing x | unconnected x => exact behind
    | working s out =>
      simp only [work]
      simp only [outlet] at behind
      omega

/-- Closing a data channel leaves the pack in its slot. -/
theorem work_closeInput (agenda : List Application.Errand) (i : Nat) (c : Conduit)
    (row : List (Station σ)) :
    tasks (closeInput i c row).2 = tasks row ∧
      work agenda (closeInput i c row).1 (closeInput i c row).2 = work agenda c row := by
  induction row generalizing i c with
  | nil =>
    cases i with
    | zero => exact ⟨rfl, work_closeData agenda c []⟩
    | succ i => exact ⟨rfl, rfl⟩
  | cons x row ih =>
    cases i with
    | zero => exact ⟨rfl, work_closeData agenda c (x :: row)⟩
    | succ i =>
      cases x with
      | passing x | unconnected x => exact ih i c
      | working s out =>
        obtain ⟨same, behind⟩ := ih i out
        simp [closeInput, work, same, behind]

theorem work_release (agenda : List Application.Errand) (i : Nat) (c : Conduit)
    (row : List (Station σ)) :
    tasks (release i c row).1 = tasks row ∧
      work agenda c (release i c row).1 = work agenda c row := by
  induction row generalizing i c with
  | nil => cases i <;> exact ⟨rfl, rfl⟩
  | cons x row ih =>
    cases i with
    | zero => cases x <;> exact ⟨by simp [release], rfl⟩
    | succ i =>
      obtain ⟨same, behind⟩ := ih i (x.outlet c)
      cases x <;> simp_all [release, work, outlet]

end Station

namespace System

variable {π σ : Type} {t u : System (SourceStage π) σ} {n : Nat} {a : Action}

/-- The work that is left, if the producer is called `n` times more at most. -/
def work (n : Nat) (t : System (SourceStage π) σ) : Nat :=
  t.supplier.phase.work n (Station.tasks t.row) + Station.work t.application.agenda t.inlet t.row

/-- The end of the first errand, wherever it has been. -/
theorem work_pop {e : Application.Errand} {rest : List Application.Errand}
    (hg : t.application.agenda = e :: rest) (he : ∀ purpose got, e ≠ .confirm purpose got) :
    Station.work rest t.inlet t.row + 1 ≤
      Station.work t.application.agenda t.inlet t.row :=
  Station.work_agenda (Application.work_pop hg he _)

/-- Every step lessens the work that is left, unless it only lets a poll time out, and then
it adds none. -/
theorem work_step (hw : t.supplier.Within n) (hu : t.step? a = some u) :
    ∃ n', u.supplier.Within n' ∧ u.work n' + (if t.isTimeout a then 0 else 1) ≤ t.work n := by
  cases a with
  | advance q =>
    cases q with
    | supplier =>
      simp only [step?, System.advance?, Option.map_eq_some_iff, Prod.exists] at hu
      obtain ⟨supplier, inlet, events, ha, rfl⟩ := hu
      exact SourceStage.work_move hw (SourceStage.move_of_advance ha) _ _
    | stage i =>
      simp only [step?, System.advance?, Option.map_eq_some_iff, Prod.exists] at hu
      obtain ⟨inlet, row, events, ha, rfl⟩ := hu
      have moved := Station.moved_of_advance ha
      have less := Station.work_moved t.application.agenda moved
      refine ⟨n, hw, ?_⟩
      have same : t.isTimeout (.advance (.stage i)) = Station.isTimeout i t.inlet t.row := rfl
      simp only [work, record, Station.tasks_moved moved]
      rw [same]
      omega
    | application =>
      rcases application_cases hu with ⟨q, rest, agenda, _, rfl⟩ | ⟨i, rest, agenda, rfl⟩ |
        ⟨i, rest, agenda, rfl⟩ | ⟨inlet, row, a, events, hf, rfl⟩
      · have less := work_pop agenda (by simp)
        refine ⟨n, hw, ?_⟩
        simp only [work]
        split <;> omega
      · have less := work_pop agenda (by simp)
        obtain ⟨tasks, same⟩ := Station.work_closeInput rest i t.inlet t.row
        refine ⟨n, hw, ?_⟩
        simp only [work, tasks, same]
        split <;> omega
      · have less := work_pop agenda (by simp)
        obtain ⟨tasks, same⟩ := Station.work_release rest i t.inlet t.row
        refine ⟨n, hw, ?_⟩
        simp only [work, record, tasks, same]
        split <;> omega
      · obtain ⟨tasks, end', hf, less⟩ := Station.work_terminal hf
        have less := less (Application.work_advance (Application.section_eq_some.mp hf))
        have same : t.isTimeout (.advance .application) = t.application.isTimeout t.terminal := rfl
        refine ⟨n, hw, ?_⟩
        simp only [work, record, tasks]
        rw [same, System.terminal]
        omega
  | expire q =>
    cases q with
    | supplier => cases hu
    | stage i =>
      obtain ⟨row, he, rfl⟩ := Option.map_eq_some_iff.mp hu
      have expired := Station.expired_of_expire he
      have less := Station.work_expired t.application.agenda expired
      refine ⟨n, hw, ?_⟩
      simp only [work, Station.tasks_expired expired, isTimeout]
      simpa using less
    | application =>
      obtain ⟨a, ha, rfl⟩ := Option.map_eq_some_iff.mp hu
      have less : Station.work a.agenda t.inlet t.row + 0 ≤
          Station.work t.application.agenda t.inlet t.row :=
        Station.work_agenda (Application.work_expire ha)
      refine ⟨n, hw, ?_⟩
      simp only [work, isTimeout]
      simpa using less

end System

end StagedPipeline
