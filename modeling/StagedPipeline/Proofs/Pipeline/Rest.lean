import StagedPipeline.Proofs.Pipeline.Termination

/-!
# A schedule that comes to rest

`settle` lets one party after the other move, and nobody leaves a poll because its time is
over. A section that asks whether the errors have come to their end may still find that the
poll is to be tried again, and so need not lessen the work. But it is preceded by one that has
left the poll, which did. So the work counted twice, and the polls that were left, fall with
every section, and so many sections are enough for all parties to come to rest.
-/
namespace StagedPipeline

namespace Station

variable {σ : Type} {i : Nat} {c c' : Conduit} {row row' : List (Station σ)} {events : List Event}

/-- Whether a task has left a poll and has not yet looked at the channel again. -/
def hasLeft : Station σ → Bool
  | .working s _ => s.phase == .confirming
  | _ => false

def left (row : List (Station σ)) : Nat := row.countP hasLeft

theorem left_cons (x : Station σ) (row : List (Station σ)) :
    left (x :: row) = left row + if x.hasLeft then 1 else 0 := List.countP_cons

theorem left_terminal {β : Type} {b : β} {f : Conduit → Option (Conduit × β)}
    (hf : atTerminal? f c row = some (c', row', b)) : left row' = left row := by
  induction row generalizing c c' row' with
  | nil =>
    simp only [atTerminal?, Option.map_eq_some_iff, Prod.exists, Prod.mk.injEq] at hf
    obtain ⟨_, _, _, rfl, rfl, rfl⟩ := hf
    rfl
  | cons x row ih =>
    cases x <;>
    · simp only [atTerminal?, Option.map_eq_some_iff, Prod.exists, Prod.mk.injEq] at hf
      obtain ⟨c₁, row₁, b₁, hf, rfl, rfl, rfl⟩ := hf
      simp [left_cons, ih hf, hasLeft]

theorem left_closeInput (i : Nat) (c : Conduit) (row : List (Station σ)) :
    left (closeInput i c row).2 = left row := by
  induction row generalizing i c with
  | nil => cases i <;> rfl
  | cons x row ih =>
    cases i with
    | zero => rfl
    | succ i => cases x <;> simp [closeInput, left_cons, ih, hasLeft]

theorem left_release (i : Nat) (c : Conduit) (row : List (Station σ)) :
    left (release i c row).1 = left row := by
  induction row generalizing i c with
  | nil => cases i <;> rfl
  | cons x row ih =>
    cases i with
    | zero => cases x <;> rfl
    | succ i => cases x <;> simp [release, left_cons, ih]

/-- A section may leave one poll, and one that ends a poll that has timed out takes it back. -/
theorem left_moved (hm : Moved i c row c' row' events) :
    left row' ≤ left row + 1 ∧ (isTimeout i c row = true → left row' + 1 ≤ left row) := by
  induction hm with
  | @here c c' s s' out out' row events move =>
    rw [left_cons, left_cons]
    refine ⟨by split <;> split <;> omega, fun timeout => ?_⟩
    obtain ⟨confirming, quiet⟩ := Bool.and_eq_true_iff.mp timeout
    have confirming := eq_of_beq confirming
    -- the channel is open and empty, so the task can only go back to its poll
    have again : s'.phase = .polling := by
      cases move with
      | retry => rfl
      | confirm at' done =>
        simp only [Reports.isDrained, Fifo.isDrained, Reports.isQuiet,
          Bool.and_eq_true] at done quiet
        simp [done.1] at quiet
      | _ => simp_all
    simp [hasLeft, confirming, again]
  | passing behind ih | unconnected behind ih => exact ih
  | @working i c s out out' row row' events behind ih =>
    have same : hasLeft (.working s out' : Station σ) = hasLeft (.working s out) := rfl
    obtain ⟨grows, falls⟩ := ih
    rw [left_cons, left_cons, same]
    refine ⟨by omega, fun timeout => ?_⟩
    have less := falls timeout
    omega

end Station

namespace Application

variable {a a' : Application} {c c' : Conduit} {events : List Event}

/-- Whether an errand is the second section of a poll. -/
def Errand.isConfirm : Errand → Bool
  | .confirmCheck | .confirm _ _ => true
  | _ => false

/-- The number of polls that an application has left and not yet looked at again. -/
def left (agenda : List Errand) : Nat := agenda.countP Errand.isConfirm

theorem left_cons (e : Errand) (rest : List Errand) :
    left (e :: rest) = left rest + if e.isConfirm then 1 else 0 := List.countP_cons

theorem left_note {item : Option (Option Pack)} {next atEnd : List Errand} {n : Nat}
    (hn : left next ≤ n) (he : left atEnd ≤ n) : left (a.note item next atEnd).1.agenda ≤ n := by
  cases item with
  | none => exact he
  | some p =>
    simp only [note]
    split
    · exact Nat.zero_le n
    · exact hn

/-- An errand that is no second section of a poll may at most come to one. -/
theorem left_begin {e : Errand} {rest agenda : List Errand} (hg : a.agenda = e :: rest)
    (he : e.isConfirm = false) (le : left agenda ≤ left rest + 1) :
    left agenda ≤ left a.agenda + 1 ∧
      (a.isTimeout c = true → left agenda + 1 ≤ left a.agenda) := by
  have same : left a.agenda = left rest := by
    rw [hg, left_cons, he, if_neg Bool.false_ne_true, Nat.add_zero]
  refine ⟨same ▸ le, fun timeout => ?_⟩
  cases e <;> simp_all [isTimeout, Errand.isConfirm]

/-- The second section of a poll comes to none. -/
theorem left_confirm {e : Errand} {rest agenda : List Errand} (hg : a.agenda = e :: rest)
    (he : e.isConfirm = true) (le : left agenda ≤ left rest) :
    left agenda ≤ left a.agenda + 1 ∧
      (a.isTimeout c = true → left agenda + 1 ≤ left a.agenda) := by
  rw [hg, left_cons, he, if_pos rfl]
  exact ⟨by omega, fun _ => by omega⟩

theorem left_advance (ha : a.advance? c = some (a', c', events)) :
    left a'.agenda ≤ left a.agenda + 1 ∧
      (a.isTimeout c = true → left a'.agenda + 1 ≤ left a.agenda) := by
  unfold advance? at ha
  split at ha <;> rename_i agenda
  case h_1 | h_2 | h_4 | h_5 =>
    simp only [Option.map_eq_some_iff, Prod.exists, Prod.mk.injEq] at ha
    obtain ⟨item, data, done, rfl, rfl, rfl⟩ := ha
    exact left_begin agenda rfl (left_note (by simp [left_cons, Errand.isConfirm])
      (by simp [left_cons, Errand.isConfirm]))
  case h_3 | h_6 =>
    cases ha
    exact left_begin agenda rfl (Nat.le_succ _)
  case h_7 | h_9 =>
    simp only [Option.map_eq_some_iff, Prod.exists] at ha
    obtain ⟨item, errors, done, ha⟩ := ha
    cases item <;> cases ha <;>
      exact left_begin agenda rfl (by simp [left_cons, Errand.isConfirm])
  case h_8 =>
    cases ha
    exact left_confirm agenda rfl (Nat.le_refl _)
  case h_10 =>
    split at ha <;> cases ha <;>
      exact left_confirm agenda rfl (by simp [left_cons, Errand.isConfirm])
  case h_11 => cases ha

end Application

namespace System

variable {π σ : Type} {t u : System (SourceStage π) σ} {n : Nat} {q : Party} {a : Action}

/-- The polls that were left and not yet looked at again. -/
def left (t : System (SourceStage π) σ) : Nat :=
  Application.left t.application.agenda + Station.left t.row

theorem left_application (same : Station.left u.row = Station.left t.row)
    (h : Application.left u.application.agenda ≤ Application.left t.application.agenda + 1 ∧
      (t.application.isTimeout t.terminal = true →
        Application.left u.application.agenda + 1 ≤ Application.left t.application.agenda)) :
    u.left ≤ t.left + 1 ∧ (t.isTimeout (.advance .application) = true → u.left + 1 ≤ t.left) := by
  obtain ⟨grows, falls⟩ := h
  simp only [left, same]
  refine ⟨by omega, fun timeout => ?_⟩
  have less := falls timeout
  omega

theorem left_advance (hu : t.advance? q = some u) :
    u.left ≤ t.left + 1 ∧ (t.isTimeout (.advance q) = true → u.left + 1 ≤ t.left) := by
  cases q with
  | supplier =>
    simp only [System.advance?, Option.map_eq_some_iff, Prod.exists] at hu
    obtain ⟨supplier, inlet, events, ha, rfl⟩ := hu
    exact ⟨Nat.le_succ _, fun timeout => by cases timeout⟩
  | stage i =>
    simp only [System.advance?, Option.map_eq_some_iff, Prod.exists] at hu
    obtain ⟨inlet, row, events, ha, rfl⟩ := hu
    obtain ⟨grows, falls⟩ := Station.left_moved (Station.moved_of_advance ha)
    simp only [left, record]
    refine ⟨by omega, fun timeout => ?_⟩
    have less := falls timeout
    omega
  | application =>
    rcases application_cases hu with ⟨q, rest, agenda, _, rfl⟩ | ⟨i, rest, agenda, rfl⟩ |
      ⟨i, rest, agenda, rfl⟩ | ⟨inlet, row, a, events, hf, rfl⟩
    · exact left_application rfl (Application.left_begin agenda rfl (Nat.le_succ _))
    · exact left_application (Station.left_closeInput i t.inlet t.row)
        (Application.left_begin agenda rfl (Nat.le_succ _))
    · exact left_application (Station.left_release i t.inlet t.row)
        (Application.left_begin agenda rfl (Nat.le_succ _))
    · obtain ⟨_, _, ha, _⟩ := Station.work_terminal hf
      exact left_application (Station.left_terminal hf)
        (Application.left_advance (Application.section_eq_some.mp ha))

/-- The sections that are left at most, if the producer is called `n` times more at most and no
poll is left because its time is over. -/
def effort (n : Nat) (t : System (SourceStage π) σ) : Nat := 2 * t.work n + t.left

theorem effort_advance (hw : t.supplier.Within n) (hu : t.advance? q = some u) :
    ∃ n', u.supplier.Within n' ∧ u.effort n' + 1 ≤ t.effort n := by
  obtain ⟨n', hw', less⟩ := work_step (a := .advance q) hw hu
  obtain ⟨grows, falls⟩ := left_advance hu
  refine ⟨n', hw', ?_⟩
  simp only [effort]
  cases timeout : t.isTimeout (.advance q) with
  | false =>
    rw [timeout, if_neg Bool.false_ne_true] at less
    omega
  | true =>
    have fewer := falls timeout
    omega

theorem advance_of_next (h : t.next? = some u) : ∃ q, t.advance? q = some u := by
  obtain ⟨q, _, hu⟩ := List.exists_of_findSome?_eq_some h
  exact ⟨q, hu⟩

theorem exists_run_settle (k : Nat) (t : System (SourceStage π) σ) :
    ∃ acts, t.run? acts = some (t.settle k) := by
  induction k generalizing t with
  | zero => exact ⟨[], rfl⟩
  | succ k ih =>
    rw [settle]
    cases h : t.next? with
    | none => exact ⟨[], rfl⟩
    | some u =>
      obtain ⟨q, hu⟩ := advance_of_next h
      obtain ⟨acts, hr⟩ := ih u
      refine ⟨.advance q :: acts, ?_⟩
      show (t.advance? q).bind (run? acts) = _
      rw [hu]
      exact hr

/-- After so many sections nobody can go on. -/
theorem next_settle {k : Nat} (hw : t.supplier.Within n) (enough : t.effort n ≤ k) :
    (t.settle k).next? = none := by
  induction k generalizing t n with
  | zero =>
    rw [settle]
    by_contra possible
    obtain ⟨u, h⟩ := Option.ne_none_iff_exists'.mp possible
    obtain ⟨q, hu⟩ := advance_of_next h
    obtain ⟨n', hw', less⟩ := effort_advance hw hu
    omega
  | succ k ih =>
    rw [settle]
    cases h : t.next? with
    | none => exact h
    | some u =>
      obtain ⟨q, hu⟩ := advance_of_next h
      obtain ⟨n', hw', less⟩ := effort_advance hw hu
      exact ih hw' (by omega)

/-- If nobody can go on, then no step is possible but the end of a poll whose time is over. -/
theorem advance_of_next_none (h : t.next? = none) (q : Party) : t.advance? q = none := by
  have still := List.findSome?_eq_none_iff.mp h
  cases q with
  | application => exact still _ (by simp [parties])
  | supplier => exact still _ (by simp [parties])
  | stage i =>
    by_cases inside : i < t.row.length
    · exact still _ (by simp [parties, inside])
    · have rests : Station.restsAt t.row i = true := by
        simp [Station.restsAt, List.getElem?_eq_none (Nat.not_lt.mp inside)]
      simp [System.advance?, Station.advance_resting rests]

/-- A pipeline that is drained comes to its end in this way, if its producer stops. -/
theorem done_settle {p : Pipeline π σ} {waits : List Application.Errand} {k : Nat}
    (hcap : p.capacity ≠ 0) (joins : ∀ e ∈ waits, ∃ q, e = .join q) (ht : Draining p waits t)
    (hw : t.supplier.Within n) (enough : t.effort n ≤ k) :
    (t.settle k).application.agenda = [] := by
  by_contra more
  -- otherwise some party could go on without waiting for time to pass
  obtain ⟨acts, hr⟩ := exists_run_settle k t
  have there := run_invariant (draining_step joins) ht hr
  obtain ⟨a, u, hu, busy⟩ := progress hcap joins there.reads more
  cases a with
  | expire q => cases busy
  | advance q =>
    have still : (t.settle k).step? (.advance q) = none :=
      advance_of_next_none (next_settle hw enough) q
    rw [still] at hu
    cases hu

end System
end StagedPipeline
