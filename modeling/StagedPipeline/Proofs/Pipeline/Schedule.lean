import StagedPipeline.Proofs.Pipeline.Runs

/-!
# Independence of the schedule

When every party has come to rest, each task stands at the end of its part of the
evaluation by pulling. Put together from the source on, these ends make up the line that
the evaluation leaves behind. So the evaluation tells the outcome of every completed run,
and the schedule has no say in it.
-/
namespace StagedPipeline

variable {π σ : Type}

theorem Conduit.links_settled {c : Conduit} {w : WriterSide} {r : ReaderSide} (hl : c.Links w r)
    (hp : w.pending = none) : r.taken = w.sent := by
  have hb := hl.data
  rw [hp] at hb
  generalize r.taken = taken at hb
  cases hb with
  | rest => rfl

/-- A reader that has found the errors closed and empty has taken all of them. -/
theorem Conduit.links_drained {c : Conduit} {w : WriterSide} {r : ReaderSide} (hl : c.Links w r)
    (hd : r.drained = true) : r.polled = w.put := by
  rw [hl.errors, (hl.drained hd).2, List.append_nil]

/-- The writer at the end of a line has come to rest: the packs that its reader has taken
have been drawn out of `l₀`, which has settled as `l`, whether the reader has found the end
or not; but it cannot have found the end where a pack was lost. -/
structure Settled (w : WriterSide) (l₀ l : Pull.Line π σ) : Prop where
  drawn : ∃ ps : List Pack, w.sent = ps.map some ∧ Pull.Settles l₀ ps false l ∧
    (w.lost = [] → Pull.Settles l₀ ps true l)
  pending : w.pending = none
  put : w.put = l.reports

namespace SourceStage

variable {s : SourceStage π} {log : List Event} {w₀ w : Pull.Source π} {ps : List Pack}
  {held : Option Pack}

/-- A source whose task is over. -/
theorem settled_of_traces (ht : s.Traces w₀ log ps held w) (hp : s.phase = .finished) :
    Settled (s.writerSide log) (⟨w₀, []⟩ : Pull.Line π σ) ⟨w, []⟩ ∧
      w.calls = (Event.collect Event.answer? log).length ∧ w.faulted = s.faulted := by
  obtain ⟨lost, last⟩ := ht.stopped (by rw [hp]; rfl)
  have put := ht.put
  have faulted := ht.faulted
  simp only [hp, Phase.owed, Option.toList_none, List.append_nil] at put
  simp only [hp, Phase.faultDue, Bool.or_false] at faulted
  refine ⟨⟨⟨ps, ht.sent, ?_, fun none' => ?_⟩, ?_, ?_⟩, ht.calls, faulted⟩
  · cases held with
    | none => exact Pull.settles_source_ended ht.holds (last rfl) false
    | some q => exact Pull.settles_source_held ht.holds
  · cases held with
    | none => exact Pull.settles_source_ended ht.holds (last rfl) true
    | some q => exact absurd (lost.symm.trans none') (by simp)
  · simp [writerSide, hp]
  · simpa [writerSide, Pull.Line.reports] using put

end SourceStage

namespace TransformStage

variable {s : TransformStage σ} {log : List Event} {x₀ x : Pull.Stage σ} {ps qs : List Pack}
  {held : Option Pack}

/-- A stage whose task is over, behind a line that has settled. -/
theorem settled_of_traces {c : Conduit} {w : WriterSide} {w₀ w₁ : Pull.Source π}
    {front₀ front₁ : List (Pull.Stage σ)} (ht : s.Traces x₀ log ps qs held x)
    (hp : s.phase = .finished) (hl : c.Links w (s.readerSide log))
    (hw : Settled w ⟨w₀, front₀⟩ ⟨w₁, front₁⟩) :
    ∃ x', Settled (s.writerSide log) ⟨w₀, x₀ :: front₀⟩ ⟨w₁, x' :: front₁⟩ ∧
      x'.handled = Event.collect Event.handed? log ∧ x'.faulted = s.faulted := by
  obtain ⟨⟨given, hsent, hfalse, htrue⟩, hpending, hput⟩ := hw
  obtain ⟨lost, stops⟩ := ht.stopped (by rw [hp]; rfl)
  -- the packs that were drawn out of the line in front are those that the task was given
  have taken : Event.collect Event.received? log = given.map some :=
    (Conduit.links_settled hl hpending).trans hsent
  have polled : Event.collect Event.polled? log = w.put :=
    Conduit.links_drained hl (by simp [readerSide, hp])
  have received := ht.received
  rw [taken, hp] at received
  obtain rfl : given = ps := by simpa [List.reduceOption] using received
  have put : Event.collect Event.accepted? log =
      x.report.toList ++ (⟨w₁, front₁⟩ : Pull.Line π σ).reports := by
    have h := ht.put
    simpa [hp, polled, hput] using h
  have faulted : x.faulted = s.faulted := by
    have h := ht.faulted
    simpa [hp] using h
  have pending : (s.writerSide log).pending = none := by simp [writerSide, hp]
  -- a stage that ends because its input has ended is marked in the evaluation, and only there
  have reports : ∀ x' : Pull.Stage σ, x'.report = x.report →
      (s.writerSide log).put = (⟨w₁, x' :: front₁⟩ : Pull.Line π σ).reports := by
    intro x' hx
    rw [show (s.writerSide log).put = _ from put]
    cases hr : x.report <;> simp [Pull.Line.reports, hx, hr]
  -- it has stopped at a write that was lost, at its own error, or at the end of its input
  cases held with
  | some q =>
    have held' := Pull.settles_stage_held ht.handler ht.holds hfalse
    refine ⟨x, ⟨⟨qs, ht.sent, held', fun none' => ?_⟩, pending, reports x rfl⟩,
      ht.handed.symm, faulted⟩
    exact absurd (lost.symm.trans none') (by simp)
  | none =>
    cases hr : x.report with
    | some e =>
      have ended : x.ended = true := by rw [ht.ended, hr]; rfl
      have failed := Pull.settles_stage_failed ht.handler ht.holds ended hfalse
      exact ⟨x, ⟨⟨qs, ht.sent, failed false, fun _ => failed true⟩, pending, reports x rfl⟩,
        ht.handed.symm, faulted⟩
    | none =>
      have goes : x.ended = false := by rw [ht.ended, hr]; rfl
      have atEnd : (s.readerSide log).ended = true := by
        rw [hr] at stops
        simp [readerSide, hp, stops]
      have ended := Pull.settles_stage_ended ht.handler ht.holds goes
        (htrue (hl.ended atEnd).2)
      exact ⟨{ x with ended := true },
        ⟨⟨qs, ht.sent, ended false, fun _ => ended true⟩, pending, reports _ rfl⟩,
        ht.handed.symm, faulted⟩

end TransformStage

namespace Station

variable {cap k : Nat} {r : ReaderSide} {w : WriterSide} {c : Conduit} {row : List (Station σ)}
  {plan : List (Pull.Stage σ)} {logs : Nat → List Event}

/-- A stage without a handler lets a line through as it is. -/
theorem settled_passing {w₀ w₁ : Pull.Source π} {front₀ front₁ : List (Pull.Stage σ)}
    {x : Pull.Stage σ} (hx : x.handler = none) (hr : x.report = none)
    (hw : Settled w ⟨w₀, front₀⟩ ⟨w₁, front₁⟩) :
    Settled w ⟨w₀, x :: front₀⟩ ⟨w₁, x :: front₁⟩ := by
  obtain ⟨⟨ps, hsent, hfalse, htrue⟩, pending, put⟩ := hw
  refine ⟨⟨ps, hsent, Pull.settles_passing hx hfalse, fun hl => ?_⟩, pending, ?_⟩
  · exact Pull.settles_passing hx (htrue hl)
  · rw [put]
    simp [Pull.Line.reports, hr]

/-- A row that has come to rest behind a line that has settled. -/
theorem settled_of_sound {w₀ w₁ : Pull.Source π} {front₀ front₁ : List (Pull.Stage σ)}
    (hs : Sound cap r k w c row plan logs) (hr : ∀ x ∈ row, x.isResting = true)
    (hplan : ∀ x₀ ∈ plan, x₀.handled = [] ∧ x₀.faulted = false ∧ x₀.report = none)
    (hw : Settled w ⟨w₀, front₀⟩ ⟨w₁, front₁⟩) :
    ∃ (w' : WriterSide) (xs : List (Pull.Stage σ)),
      Settled w' ⟨w₀, plan.reverse ++ front₀⟩ ⟨w₁, xs.reverse ++ front₁⟩ ∧
      (terminal c row).Links w' r ∧
      xs.map (·.handled) =
        (List.range row.length).map (fun i => Event.collect Event.handed? (logs i)) ∧
      xs.map (·.faulted) = row.map faulted := by
  -- from the source on: what has settled in front becomes one stage longer
  induction hs generalizing front₀ front₁ with
  | terminal links room silent => exact ⟨_, [], hw, links, rfl, rfl⟩
  | @passing k w c logs finalization row x₀ plan bare silent rest ih =>
    obtain ⟨fresh, sound, report⟩ := hplan x₀ List.mem_cons_self
    obtain ⟨w', xs, settled, links, handed, faulty⟩ :=
      ih (fun x hx => hr x (List.mem_cons_of_mem _ hx))
        (fun x hx => hplan x (List.mem_cons_of_mem _ hx)) (settled_passing bare report hw)
    refine ⟨w', x₀ :: xs, by simpa using settled, links, ?_, ?_⟩
    · rw [List.map_cons, handed, List.length_cons, List.range_succ_eq_map, List.map_cons, silent,
        fresh, List.map_map]
      rfl
    · rw [List.map_cons, faulty, List.map_cons, sound]
      rfl
  | @working k w c logs s out row x₀ plan links room traces rest ih =>
    obtain ⟨ps, qs, held, x, ht⟩ := traces
    have finished : s.phase = .finished := by
      have h := hr _ List.mem_cons_self
      simpa [isResting, ht.started] using h
    obtain ⟨x', hw', handled, faulted⟩ := TransformStage.settled_of_traces ht finished links hw
    obtain ⟨w', xs, settled, links', handed, faulty⟩ :=
      ih (fun x hx => hr x (List.mem_cons_of_mem _ hx))
        (fun x hx => hplan x (List.mem_cons_of_mem _ hx)) hw'
    refine ⟨w', x' :: xs, by simpa using settled, links', ?_, ?_⟩
    · rw [List.map_cons, handed, List.length_cons, List.range_succ_eq_map, List.map_cons, handled,
        List.map_map]
      rfl
    · rw [List.map_cons, faulty, List.map_cons, faulted]
      rfl

end Station

namespace System

variable {p : Pipeline π σ} {limit : Pull.Limit} {s₀ t t' : System (SourceStage π) σ}
  {fault : Option Fault} {acts acts' : List Action}

/-- What a run has come to. -/
def upshot (t : System (SourceStage π) σ) : Pull.Upshot where
  packs := t.received
  errors := t.application.drained
  handed := (List.range t.row.length).map fun i =>
    Event.collect Event.handed? (t.eventsOf (.stage i))
  calls := (Event.collect Event.answer? (t.eventsOf .supplier)).length
  faulted := t.supplier.faulted :: t.row.map Station.faulted

theorem evaluate_eq_some {n : Nat} {u : Pull.Upshot} :
    p.evaluate n limit = some u ↔ ∃ packs l l', Pull.read n limit p.line = some (packs, l) ∧
      Pull.abandon n l = some l' ∧ l'.upshot packs = u := by
  simp only [Pipeline.evaluate, Option.bind_eq_some_iff, Prod.exists, Option.map_eq_some_iff]
  constructor
  · rintro ⟨packs, l, hr, l', ha, rfl⟩
    exact ⟨packs, l, l', hr, ha, rfl⟩
  · rintro ⟨packs, l, l', hr, ha, rfl⟩
    exact ⟨packs, l, hr, l', ha, rfl⟩

theorem evaluate_stable {n m : Nat} {u : Pull.Upshot} (hu : p.evaluate n limit = some u)
    (hle : n ≤ m) : p.evaluate m limit = some u := by
  obtain ⟨packs, l, l', hr, ha, rfl⟩ := evaluate_eq_some.mp hu
  exact evaluate_eq_some.mpr
    ⟨packs, l, l', Pull.read_stable hr hle, Pull.abandon_stable ha hle, rfl⟩

/-- A completed run comes to what the evaluation comes to. -/
theorem evaluate_of_reads (ht : Reads p limit [] t) (hc : t.Completed) :
    ∃ n, p.evaluate n limit = some t.upshot := by
  obtain ⟨r, ⟨⟨ps, held, w, source⟩, row, taken⟩, stands, _⟩ := ht
  have rows : ∀ x ∈ t.row, x.isResting = true := by
    have check := completed_iff.mp hc
    simp only [Bool.and_eq_true, List.all_eq_true] at check
    exact check.2
  obtain ⟨empty, resting⟩ := hc
  have finished : t.supplier.phase = .finished := by
    have h := resting .supplier
    simpa [isResting, Supplier.isResting, source.started] using h
  obtain ⟨settled, calls, faulted⟩ := SourceStage.settled_of_traces source finished
  obtain ⟨w', xs, settled', links, handed, faulty⟩ := Station.settled_of_sound row rows
    (by simp [Pull.Stage.ofPlan]) settled
  simp only [List.append_nil] at settled'
  obtain ⟨drained, all, read⟩ := Application.stands_done stands empty
  obtain ⟨⟨packs, sent, drawn, drawnEnd⟩, pending, put⟩ := settled'
  have got : r.taken = packs.map some := (Conduit.links_settled links pending).trans sent
  have settles : Pull.Settles p.line packs r.ended ⟨w, xs.reverse⟩ := by
    cases he : r.ended with
    | false => exact drawn
    | true => exact drawnEnd (links.ended he).2
  have length : r.taken.length = packs.length := by rw [got, List.length_map]
  obtain ⟨l₁, ⟨n, hn⟩, m, hm⟩ := Pull.reads_of_settles settles
    (fun he => length ▸ read.stopped he) (fun he d hd => length ▸ read.found he d hd)
  have same : t.upshot = (⟨w, xs.reverse⟩ : Pull.Line π σ).upshot packs := by
    rw [upshot, Pull.Line.upshot, ← taken, got, drained, Conduit.links_drained links all, put,
      ← handed, ← faulty, ← calls, ← faulted, List.reverse_reverse]
  exact ⟨max n m, evaluate_eq_some.mpr ⟨packs, l₁, _, Pull.read_stable hn (Nat.le_max_left n m),
    Pull.abandon_stable hm (Nat.le_max_right n m), same.symm⟩⟩

/-- The schedule has no say in what a pipeline does. Two completed runs of a pipeline, read to
the same limit, have read the same packs and drained the same errors in the same order, have
handed the same packs to each handler, have called the producer as often and have reported
the same faults: what the evaluation by pulling comes to. -/
theorem schedule_independent (hp : p.Planned) (fits : p.Fits) (hs : p.start = .ok (s₀, fault))
    (limit : Pull.Limit) (hr : (s₀.plan (Application.reading limit)).run? acts = some t)
    (hc : t.Completed) (hr' : (s₀.plan (Application.reading limit)).run? acts' = some t')
    (hc' : t'.Completed) :
    t.upshot = t'.upshot ∧ ∃ n, ∀ m, n ≤ m → p.evaluate m limit = some t.upshot := by
  -- both runs come to what the evaluation comes to, with fuel enough for either of them
  rw [← List.append_nil (Application.reading limit)] at hr hr'
  obtain ⟨n, hn⟩ := evaluate_of_reads (reads_run hp fits hs (by simp) hr) hc
  obtain ⟨n', hn'⟩ := evaluate_of_reads (reads_run hp fits hs (by simp) hr') hc'
  refine ⟨?_, n, fun m hm => evaluate_stable hn hm⟩
  have h := evaluate_stable hn (Nat.le_max_left n n')
  rw [evaluate_stable hn' (Nat.le_max_right n n')] at h
  exact (Option.some.inj h).symm

/-- Two schedules of the small pipeline with a handler that is missing, one of them with a
poll that times out. -/
theorem schedule_independent_sample : ∃ t t' : System (SourceStage Producer.Listing) Unit,
    ((sample .missing).plan (Application.reading none)).run? (turns [(3, .supplier),
      (2, .stage 0), (5, .supplier), (12, .stage 0), (4, .application)]) = some t ∧
    t.Completed ∧
    ((sample .missing).plan (Application.reading none)).run? (turns [(1, .stage 0),
      (3, .supplier), (6, .stage 0)] ++ .expire (.stage 0) :: turns [(1, .stage 0),
      (3, .supplier), (7, .stage 0), (2, .supplier), (4, .application)]) = some t' ∧
    t'.Completed ∧ t.upshot = t'.upshot := by
  have first : (((sample .missing).plan (Application.reading none)).run? (turns [(3, .supplier),
      (2, .stage 0), (5, .supplier), (12, .stage 0), (4, .application)])).any
        (fun t => decide t.Completed) = true := by decide +kernel
  have second : (((sample .missing).plan (Application.reading none)).run? (turns [(1, .stage 0),
      (3, .supplier), (6, .stage 0)] ++ .expire (.stage 0) :: turns [(1, .stage 0),
      (3, .supplier), (7, .stage 0), (2, .supplier), (4, .application)])).any
        (fun t => decide t.Completed) = true := by decide +kernel
  obtain ⟨t, hr, hc⟩ := (Option.any_eq_true _ _).mp first
  obtain ⟨t', hr', hc'⟩ := (Option.any_eq_true _ _).mp second
  have hc := of_decide_eq_true hc
  have hc' := of_decide_eq_true hc'
  have same := (schedule_independent (Pipeline.planned_sample .missing) (by decide)
    (start_sample .missing) none hr hc hr' hc').1
  exact ⟨t, t', hr, hc, hr', hc', same⟩

end System
end StagedPipeline
