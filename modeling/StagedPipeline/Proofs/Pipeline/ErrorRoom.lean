import StagedPipeline.Proofs.Pipeline.Runs

/-!
# Room for errors

A task puts at most one error of its own, and it passes on each error of its input once. So
the error channel behind the first task holds at most one error, and every further task adds
one to that, while the capacities grow by two. No error channel is ever full, nor is one
closed before its writer has put all it has to put, whatever the application does.
-/
namespace StagedPipeline

theorem Reports.forward_ready {q : Reports} (e : Error)
    (hl : q.queue.queue.length < q.capacity.toNat) : (q.forward? e).isSome = true := by
  have hf : q.queue.isFull = false := by
    rw [Fifo.isFull, Bool.and_eq_false_iff]
    exact .inr (decide_eq_false (by simpa [Reports.capacity] using hl))
  cases hc : q.queue.closed <;> simp [forward?, Fifo.send?, hc, hf]

/-- Whether a section puts an error. -/
@[simp] def SourceStage.Phase.puts : SourceStage.Phase → Bool
  | .reporting _ | .reportingFault _ => true
  | _ => false

/-- Whether a section puts an error. -/
@[simp] def TransformStage.Phase.puts : TransformStage.Phase → Bool
  | .reporting _ | .reportingFault _ | .relaying _ => true
  | _ => false

/-- Who is about to put an error owes one. -/
theorem SourceStage.Phase.owed_of_puts {phase : SourceStage.Phase} (hp : phase.puts = true) :
    phase.owed.toList.length = 1 := by
  cases phase <;> simp_all

theorem TransformStage.Phase.owed_of_puts {phase : TransformStage.Phase} (hp : phase.puts = true) :
    phase.owed.toList.length = 1 := by
  cases phase <;> simp_all

/-- A source puts an error without waiting where there is room. -/
theorem SourceStage.put_ready {π : Type} {s : SourceStage π} {out : Conduit}
    (hp : s.phase.puts = true)
    (hl : out.errors.queue.queue.length < out.errors.capacity.toNat) :
    (s.advance? out).isSome = true := by
  have ready := fun e => Reports.forward_ready e hl
  cases hs : s.phase with
  | reporting e =>
    cases hn : e.isNull <;> simp [SourceStage.advance?, hs, Reports.put?, hn, ready]
  | reportingFault what =>
    simp [SourceStage.advance?, hs, Reports.put?, SourceStage.faultError_ne_null, ready]
  | _ => simp [hs] at hp

/-- A task puts an error without waiting where there is room. -/
theorem TransformStage.put_ready {σ : Type} {s : TransformStage σ} {inp out : Conduit}
    (hp : s.phase.puts = true)
    (hl : out.errors.queue.queue.length < out.errors.capacity.toNat) :
    (s.advance? inp out).isSome = true := by
  have ready := fun e => Reports.forward_ready e hl
  cases hs : s.phase with
  | reporting e =>
    cases hn : e.isNull <;> simp [TransformStage.advance?, hs, Reports.put?, hn, ready]
  | reportingFault what =>
    simp [TransformStage.advance?, hs, Reports.put?, TransformStage.faultError_ne_null, ready]
  | relaying e => simp [TransformStage.advance?, hs, ready]
  | _ => simp [hs] at hp

namespace Station

variable {σ : Type}

def isWorking : Station σ → Bool
  | .working _ _ => true
  | _ => false

/-- Whether the task of a station is about to put an error. -/
def puts : Station σ → Bool
  | .working s _ => s.phase.puts
  | _ => false

/-- The number of tasks in a row up to a position, which is included. -/
def rank (row : List (Station σ)) (i : Nat) : Nat := (row.take (i + 1)).countP isWorking

theorem rank_zero (x : Station σ) (row : List (Station σ)) :
    rank (x :: row) 0 = if x.isWorking then 1 else 0 := by
  simp [rank, List.countP_cons]

theorem rank_succ (x : Station σ) (row : List (Station σ)) (i : Nat) :
    rank (x :: row) (i + 1) = (if x.isWorking then 1 else 0) + rank row i := by
  rw [rank, List.take_succ_cons, List.countP_cons, rank, Nat.add_comm]

variable {cap k i : Nat} {r : ReaderSide} {w : WriterSide} {c : Conduit}
  {row : List (Station σ)} {plan : List (Pull.Stage σ)} {logs : Nat → List Event}
  {s : TransformStage σ} {out : Conduit}

/-- The room behind the task at a position: what it has put and is about to put, and what
of this can still be in the channel. -/
structure Room (cap n : Nat) (s : TransformStage σ) (out : Conduit) (log : List Event) : Prop where
  put : (Event.collect Event.accepted? log).length + s.phase.owed.toList.length ≤ n + 1
  capacity : out.errors.capacity.toNat = cap + 2 * n
  inside : out.errors.queue.queue.length ≤ (Event.collect Event.accepted? log).length
  closed : out.errors.queue.closed = s.phase.hasClosedErrors
  kept : Event.collect Event.dropped? log = []

/-- What has entered an error channel bounds what its reader has passed on. -/
theorem polled_le {r : ReaderSide} (links : c.Links w r) : r.polled.length ≤ w.put.length := by
  rw [links.errors, List.length_append]
  omega

theorem room_of_sound (hs : Sound cap r k w c row plan logs) (hw : w.put.length ≤ k + 1)
    (hi : row[i]? = some (.working s out)) : Room cap (k + rank row i) s out (logs i) := by
  induction hs generalizing i with
  | terminal => simp at hi
  | passing bare silent rest ih =>
    cases i with
    | zero => simp at hi
    | succ i =>
      rw [rank_succ]
      simpa [isWorking] using ih hw hi
  | @working k w c logs s' out' row x₀ plan links room traces rest ih =>
    obtain ⟨ps, qs, held, x, ht⟩ := traces
    have polled := polled_le links
    have own : x.report.toList.length ≤ 1 := Option.length_toList_le
    -- what a task puts is its own error and those that it has been told of, each of them once
    have count : (Event.collect Event.accepted? (logs 0)).length + s'.phase.owed.toList.length ≤
        k + 1 + 1 := by
      have h := congrArg List.length ht.put
      rw [List.length_append, List.length_append] at h
      have hp : (s'.readerSide (logs 0)).polled = Event.collect Event.polled? (logs 0) := rfl
      rw [hp] at polled
      omega
    cases i with
    | zero =>
      simp only [List.getElem?_cons_zero, Option.some.injEq, Station.working.injEq] at hi
      obtain ⟨rfl, rfl⟩ := hi
      obtain ⟨room', r', links'⟩ := sound_front rest
      have inside := congrArg List.length links'.errors
      rw [List.length_append] at inside
      rw [rank_zero]
      refine ⟨by simpa [isWorking] using count, by simpa [isWorking] using room', ?_,
        links'.errorsClosed, ht.kept⟩
      show _ ≤ (s'.writerSide (logs 0)).put.length
      omega
    | succ i =>
      rw [rank_succ]
      have hw' : (s'.writerSide (logs 0)).put.length ≤ k + 1 + 1 := by
        show (Event.collect Event.accepted? (logs 0)).length ≤ _
        omega
      have h := ih hw' hi
      simpa [isWorking, Nat.add_assoc] using h

/-- No task has found an error channel closed. -/
theorem kept_of_sound (hs : Sound cap r k w c row plan logs) (i : Nat) :
    Event.collect Event.dropped? (logs i) = [] := by
  induction hs generalizing i with
  | terminal _ _ silent => rw [silent]; rfl
  | passing bare silent rest ih =>
    cases i with
    | zero => rw [silent]; rfl
    | succ i => exact ih i
  | working links room traces rest ih =>
    cases i with
    | zero =>
      obtain ⟨ps, qs, held, x, ht⟩ := traces
      exact ht.kept
    | succ i => exact ih i

/-- Where there is room behind a task, its puts find some. -/
theorem room_ready {n : Nat} {log : List Event} {inp : Conduit} (h : Room cap n s out log)
    (hc : cap ≠ 0) (hp : s.phase.puts = true) : (s.advance? inp out).isSome = true := by
  have owes := TransformStage.Phase.owed_of_puts hp
  refine TransformStage.put_ready hp ?_
  have put := h.put
  have inside := h.inside
  rw [h.capacity]
  omega

/-- A task of a row can move if it can between any input and its output. -/
theorem advance_at (hi : row[i]? = some (.working s out))
    (ha : ∀ inp, (s.advance? inp out).isSome = true) (c : Conduit) :
    (Station.advance? i c row).isSome = true := by
  induction row generalizing i c with
  | nil => simp at hi
  | cons x row ih =>
    cases i with
    | zero =>
      simp only [List.getElem?_cons_zero, Option.some.injEq] at hi
      subst hi
      simp [Station.advance?, ha]
    | succ i => cases x <;> simpa [Station.advance?] using ih hi _

end Station

namespace System

variable {π σ : Type} {p : Pipeline π σ} {s₀ t : System (SourceStage π) σ} {fault : Option Fault}

/-- The errors that a task has put into its error channel, in order. -/
def put (t : System (SourceStage π) σ) (q : Party) : List Error :=
  Event.collect Event.accepted? (t.eventsOf q)

theorem source_room {r : ReaderSide} (hs : Sound p r t) :
    (t.put .supplier).length + t.supplier.phase.owed.toList.length ≤ 1 ∧
      t.inlet.errors.capacity.toNat = p.capacity.toNat ∧
      t.inlet.errors.queue.queue.length ≤ (t.put .supplier).length ∧
      t.inlet.errors.queue.closed = t.supplier.phase.hasClosedErrors := by
  obtain ⟨⟨ps, held, w, ht⟩, row, _⟩ := hs
  obtain ⟨room, r', links⟩ := Station.sound_front row
  have own : w.report.toList.length ≤ 1 := Option.length_toList_le
  have put := congrArg List.length ht.put
  have inside := congrArg List.length links.errors
  rw [List.length_append] at put inside
  refine ⟨?_, room, ?_, links.errorsClosed⟩
  · rw [System.put]
    omega
  · show _ ≤ (t.supplier.writerSide (t.eventsOf .supplier)).put.length
    omega

theorem stage_room {r : ReaderSide} {i : Nat} {s : TransformStage σ} {out : Conduit}
    (hs : Sound p r t) (hi : t.row[i]? = some (.working s out)) :
    Station.Room p.capacity.toNat (Station.rank t.row i) s out (t.eventsOf (.stage i)) := by
  have first : (t.supplier.writerSide (t.eventsOf .supplier)).put.length ≤ 0 + 1 := by
    have h := (source_room hs).1
    show (t.put .supplier).length ≤ _
    omega
  simpa using Station.room_of_sound hs.row first hi

theorem source_put_ready {r : ReaderSide} (hs : Sound p r t) (hc : p.capacity.toNat ≠ 0)
    (hp : t.supplier.phase.puts = true) : (t.supplier.advance? t.inlet).isSome = true := by
  obtain ⟨put, room, inside, closed⟩ := source_room hs
  have owes := SourceStage.Phase.owed_of_puts hp
  exact SourceStage.put_ready hp (by omega)

/-- No error is dropped by a task. -/
theorem sound_kept {r : ReaderSide} (hs : Sound p r t) {q : Party} (hq : q ≠ .application)
    (e : Error) : .put e .dropped ∉ t.eventsOf q := by
  refine Event.not_mem_of_collect_nil (f := Event.dropped?) ?_ rfl
  cases q with
  | application => exact absurd rfl hq
  | supplier =>
    obtain ⟨ps, held, w, ht⟩ := hs.source
    exact ht.kept
  | stage i => exact Station.kept_of_sound hs.row i

/-- Error channels neither block nor drop. Whatever the application does, the source puts one
error at most and the task of rank `n` at most `n + 1`, which their error channels have room
for; a task that is about to put an error can do so, and no error is dropped. -/
theorem errors_have_room (hp : p.Planned) (fits : p.Fits) (hs : p.start = .ok (s₀, fault))
    (ht : s₀.Comes t) :
    ((t.put .supplier).length ≤ 1 ∧ 1 ≤ t.inlet.errors.capacity.toNat ∧
      t.inlet.errors.capacity = p.capacity) ∧
    (∀ i s out, t.row[i]? = some (.working s out) →
      (t.put (.stage i)).length ≤ Station.rank t.row i + 1 ∧
      Station.rank t.row i + 1 ≤ out.errors.capacity.toNat ∧
      out.errors.capacity.toNat = p.capacity.toNat + 2 * Station.rank t.row i) ∧
    (t.supplier.phase.puts = true → (t.step? (.advance .supplier)).isSome = true) ∧
    (∀ i s out, t.row[i]? = some (.working s out) → s.phase.puts = true →
      (t.step? (.advance (.stage i))).isSome = true) ∧
    ∀ q e, q ≠ .application → .put e .dropped ∉ t.eventsOf q := by
  obtain ⟨⟨r, sound⟩, _⟩ := sound_comes hp fits hs ht
  obtain ⟨_, capacity, _⟩ := Pipeline.planned_fresh hp
  have pos : p.capacity.toNat ≠ 0 := fun h => capacity (UInt64.toNat_inj.mp h)
  obtain ⟨put, room, inside, closed⟩ := source_room sound
  refine ⟨⟨by omega, by omega, UInt64.toNat_inj.mp room⟩, ?_, ?_, ?_, ?_⟩
  · intro i s out hi
    have h := stage_room sound hi
    have count := h.put
    have room' := h.capacity
    refine ⟨?_, by omega, room'⟩
    rw [System.put]
    omega
  · intro hputs
    have ready := source_put_ready sound pos hputs
    simpa [System.step?, System.advance?, Supplier.advance?] using ready
  · intro i s out hi hputs
    have ready := Station.advance_at hi
      (fun inp => Station.room_ready (stage_room sound hi) pos hputs) t.inlet
    simpa [System.step?, System.advance?] using ready
  · intro q e hq
    exact sound_kept sound hq e

/-- In the small pipeline with a handler that is missing, the task comes to put a fault. -/
theorem errors_have_room_sample : ∃ t s out, (sample .missing).Comes t ∧
    t.row[0]? = some (.working s out) ∧ s.phase.puts = true ∧
      (t.put (.stage 0)).length ≤ 2 ∧ (t.step? (.advance (.stage 0))).isSome = true := by
  have putting : ((sample .missing).run?
      (turns [(1, .stage 0), (3, .supplier), (4, .stage 0)])).any
        (fun t => t.row[0]?.any Station.puts) = true := by decide +kernel
  obtain ⟨t, hr, ht⟩ := (Option.any_eq_true _ _).mp putting
  obtain ⟨x, hx, puts⟩ := (Option.any_eq_true _ _).mp ht
  cases x with
  | passing x => cases puts
  | unconnected x => cases puts
  | working s out =>
    have comes := comes_run hr
    obtain ⟨_, stages, _, ready, _⟩ := errors_have_room (Pipeline.planned_sample .missing)
      (by decide) (start_sample .missing) comes
    have few := (stages 0 s out hx).1
    rw [Station.rank, List.take_one, List.head?_eq_getElem?, hx] at few
    exact ⟨t, s, out, comes, hx, puts, few, ready 0 s out hx puts⟩

end System
end StagedPipeline
