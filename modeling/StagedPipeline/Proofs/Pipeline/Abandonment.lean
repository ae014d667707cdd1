import StagedPipeline.Proofs.Pipeline.Termination

/-!
# The end of an abandoned pipeline

An application may destroy a pipeline at any moment, wherever the tasks are by then. It closes
the terminal data channel, drains the terminal errors, waits for every task and destroys every
stage. A task that writes finds its output closed, closes its input in turn, and so the end
comes up the row to the source. The terminal errors come to their end when the last task has
passed on those of the others, and so the application waits for nobody who waits for it.
-/
namespace StagedPipeline

namespace Application

variable {a a' : Application} {c c' : Conduit} {events : List Event} {r : ReaderSide}
  {waits : List Errand}

/-- Where an application stands that destroys a pipeline, with what there is to do after the
drain. From the first section on, it has closed the terminal data channel. -/
inductive Leaving (waits : List Errand) (a : Application) (r : ReaderSide) : Prop where
  | shutting (agenda : a.agenda = .shut :: .poll .discard [] :: waits)
  | polling {got} (agenda : a.agenda = .poll .discard got :: waits) (shut : r.shut = true)
  | confirming {got} (agenda : a.agenda = .confirm .discard got :: waits) (shut : r.shut = true)
  | waiting (agenda : a.agenda <:+ waits) (shut : r.shut = true)

/-- Errands that wait for tasks or destroy stations. -/
def Closing (waits : List Errand) : Prop := ∀ e ∈ waits, (∃ q, e = .join q) ∨ ∃ i, e = .release i

theorem closing_head {e : Errand} {rest : List Errand} (closing : Closing waits)
    (hw : a.agenda <:+ waits) (hg : a.agenda = e :: rest) :
    (∃ q, e = .join q) ∨ ∃ i, e = .release i := by
  apply closing
  apply hw.subset
  rw [hg]
  exact List.mem_cons_self

/-- A section at the terminal conduit is a step of a reader there, and what there is to do
after the drain stays ahead. -/
theorem leaving_advance (hs : Leaving waits a r) (closing : Closing waits)
    (ha : a.advance? c = some (a', c', events)) :
    waits <:+ a'.agenda ∧ ∃ r', c.ReaderStep r c' r' ∧
      r'.taken = r.taken ++ Event.collect Event.received? events ∧ Leaving waits a' r' := by
  cases hs with
  | shutting agenda =>
    simp only [advance?, agenda, Option.some.injEq, Prod.mk.injEq] at ha
    obtain ⟨rfl, rfl, rfl⟩ := ha
    exact ⟨List.suffix_cons _ _, _, .shut, (List.append_nil _).symm, .polling rfl rfl⟩
  | polling agenda shut =>
    simp only [advance?, agenda, Option.map_eq_some_iff, Prod.exists] at ha
    obtain ⟨item, errors, done, ha⟩ := ha
    cases item with
    | some e =>
      simp only [Prod.mk.injEq] at ha
      obtain ⟨rfl, rfl, rfl⟩ := ha
      exact ⟨List.suffix_cons _ _, _, .poll done, by simp, .polling rfl shut⟩
    | none =>
      simp only [Prod.mk.injEq] at ha
      obtain ⟨rfl, rfl, rfl⟩ := ha
      obtain ⟨_, _, rfl⟩ := Reports.receive_end done
      exact ⟨List.suffix_cons _ _, r, .idle, by simp, .confirming rfl shut⟩
  | confirming agenda shut =>
    simp only [advance?, agenda] at ha
    split at ha
    · simp only [Option.some.injEq, Prod.mk.injEq] at ha
      obtain ⟨rfl, rfl, rfl⟩ := ha
      exact ⟨List.suffix_refl _, r, .idle, by simp, .waiting (List.suffix_refl _) shut⟩
    · simp only [Option.some.injEq, Prod.mk.injEq] at ha
      obtain ⟨rfl, rfl, rfl⟩ := ha
      exact ⟨List.suffix_cons _ _, r, .idle, by simp, .polling rfl shut⟩
  | waiting agenda shut =>
    cases hg : a.agenda with
    | nil => simp [advance?, hg] at ha
    | cons e rest =>
      rcases closing_head closing agenda hg with ⟨q, rfl⟩ | ⟨i, rfl⟩
      · simp [advance?, hg] at ha
      · simp [advance?, hg] at ha

theorem leaving_expire (hs : Leaving waits a r) (closing : Closing waits)
    (he : a.expire? c = some a') : waits <:+ a'.agenda ∧ Leaving waits a' r := by
  cases hs with
  | shutting agenda => simp [expire?, agenda] at he
  | polling agenda shut =>
    simp only [expire?, agenda] at he
    split at he
    · cases he
      exact ⟨List.suffix_cons _ _, .confirming rfl shut⟩
    · cases he
  | confirming agenda shut => simp [expire?, agenda] at he
  | waiting agenda shut =>
    cases hg : a.agenda with
    | nil => simp [expire?, hg] at he
    | cons e rest =>
      rcases closing_head closing agenda hg with ⟨q, rfl⟩ | ⟨i, rfl⟩
      · simp [expire?, hg] at he
      · simp [expire?, hg] at he

/-- The first of the errands after the drain is done. -/
theorem leaving_pop {e : Errand} {rest : List Errand} (hs : Leaving waits a r)
    (hg : a.agenda = e :: rest) (he : (∃ q, e = .join q) ∨ ∃ i, e = .release i) :
    Leaving waits { a with agenda := rest } r := by
  have outside : ∀ e' waits', a.agenda = e' :: waits' → (∀ q, e' ≠ .join q) →
      (∀ i, e' ≠ .release i) → False := by
    intro e' waits' agenda join release
    rw [hg, List.cons.injEq] at agenda
    rcases he with ⟨q, rfl⟩ | ⟨i, rfl⟩
    · exact join q agenda.1.symm
    · exact release i agenda.1.symm
  cases hs with
  | shutting agenda => exact (outside _ _ agenda (by simp) (by simp)).elim
  | polling agenda _ => exact (outside _ _ agenda (by simp) (by simp)).elim
  | confirming agenda _ => exact (outside _ _ agenda (by simp) (by simp)).elim
  | waiting agenda shut =>
    rw [hg] at agenda
    exact .waiting ((List.suffix_cons _ _).trans agenda) shut

/-- Nobody is waited for before the drain is over. -/
theorem leaving_join {q : Party} (hs : Leaving waits a r) (hq : .join q ∈ a.agenda) :
    .join q ∈ waits := by
  cases hs with
  | shutting agenda => simpa [agenda] using hq
  | polling agenda _ => simpa [agenda] using hq
  | confirming agenda _ => simpa [agenda] using hq
  | waiting agenda _ => exact agenda.subset hq

/-- Nothing of this closes an inner data channel. -/
theorem leaving_keeps (hs : Leaving waits a r) (closing : Closing waits) : a.KeepsToTerminal := by
  have later : ∀ i, .shutInput i ∉ waits := by
    intro i hi
    rcases closing _ hi with ⟨q, same⟩ | ⟨j, same⟩ <;> cases same
  intro i hi
  cases hs with
  | shutting agenda => simp [agenda, later] at hi
  | polling agenda _ => simp [agenda, later] at hi
  | confirming agenda _ => simp [agenda, later] at hi
  | waiting agenda _ => exact later i (agenda.subset hi)

end Application

namespace System

variable {π σ : Type} {p : Pipeline π σ} {s₀ t u : System (SourceStage π) σ}
  {waits : List Application.Errand} {a : Action}

/-- Has its application give up what it is doing, and destroy the pipeline. -/
def abandoning (t : System (SourceStage π) σ) : System (SourceStage π) σ :=
  { t with application := { t.application with agenda := t.destroying true } }

/-- What is true of a pipeline that is being destroyed. -/
structure Abandoned (p : Pipeline π σ) (waits : List Application.Errand)
    (t : System (SourceStage π) σ) : Prop where
  leaves : ∃ r, Sound p r t ∧ t.application.Leaving waits r
  awaits : Awaits waits t

theorem leaving_step {r : ReaderSide} (closing : Application.Closing waits) (hs : Sound p r t)
    (leaves : t.application.Leaving waits r) (hu : t.step? a = some u) :
    ∃ r', Sound p r' u ∧ u.application.Leaving waits r' := by
  refine sound_step_of hs leaves ?_ ?_ ?_ ?_ ?_ hu
  · intro i rest agenda
    refine Application.leaving_keeps leaves closing i ?_
    rw [agenda]
    exact List.mem_cons_self
  · intro q rest agenda
    exact Application.leaving_pop leaves agenda (.inl ⟨q, rfl⟩)
  · intro i rest agenda
    exact Application.leaving_pop leaves agenda (.inr ⟨i, rfl⟩)
  · intro a' c' events ha
    exact (Application.leaving_advance leaves closing ha).2
  · intro a' ha
    exact (Application.leaving_expire leaves closing ha).2

theorem abandoned_step (closing : Application.Closing waits) (hs : Abandoned p waits t)
    (hu : t.step? a = some u) : Abandoned p waits u := by
  obtain ⟨⟨r, hs, leaves⟩, awaits⟩ := hs
  refine ⟨leaving_step closing hs leaves hu, awaits_of_kept hs awaits hu ?_ ?_⟩
  · intro a' c' events ha q hq
    have ahead := (Application.leaving_advance leaves closing ha).1
    exact ahead.subset (Application.leaving_join leaves hq)
  · intro a' ha q hq
    have ahead := (Application.leaving_expire leaves closing ha).1
    exact ahead.subset (Application.leaving_join leaves hq)

/-! ## The application is never stuck -/

theorem release_ready {i : Nat} {rest : List Application.Errand}
    (hg : t.application.agenda = .release i :: rest) :
    (t.step? (.advance .application)).isSome = true ∧
      t.isTimeout (.advance .application) = false := by
  simp [step?, System.advance?, advanceApplication?, hg, isTimeout, Application.isTimeout]

/-- Once it has closed the terminal data, no pack waits for the application, and so it goes on
when all tasks are over. -/
theorem leaving_ready {r : ReaderSide} {w : WriterSide} (closing : Application.Closing waits)
    (leaves : t.application.Leaving waits r) (links : t.terminal.Links w r)
    (hc : t.terminal.Full ∨ (t.terminal.Over ∧ ∀ q, t.isResting q = true))
    (hleft : t.application.agenda ≠ []) :
    (t.step? (.advance .application)).isSome = true ∧
      t.isTimeout (.advance .application) = false := by
  have past : r.shut = true → t.terminal.Over ∧ ∀ q, t.isResting q = true := by
    intro shut
    refine hc.resolve_left fun full => ?_
    have closed := links.closed
    rw [full.open', shut] at closed
    simp at closed
  cases leaves with
  | shutting agenda => exact shut_ready agenda
  | polling agenda shut => exact poll_ready agenda (past shut).1.not_quiet
  | confirming agenda shut => exact confirm_ready agenda (past shut).1.not_quiet
  | waiting agenda shut =>
    cases hg : t.application.agenda with
    | nil => exact absurd hg hleft
    | cons e rest =>
      rcases Application.closing_head closing agenda hg with ⟨q, rfl⟩ | ⟨i, rfl⟩
      · exact join_ready hg ((past shut).2 q)
      · exact release_ready hg

theorem abandoned_progress (hcap : p.capacity ≠ 0) (closing : Application.Closing waits)
    (hs : Abandoned p waits t) (hleft : t.application.agenda ≠ []) :
    ∃ a u, t.step? a = some u ∧ t.isTimeout a = false := by
  obtain ⟨⟨r, hs, leaves⟩, _⟩ := hs
  rcases moves_or_waits hcap hs with moves | hc
  · exact moves
  · obtain ⟨w, back⟩ := Station.sound_end hs.row
    exact possible_of_ready (leaving_ready closing leaves back hc hleft)

/-! ## From any moment to the end -/

theorem closing_destroying (t : System (SourceStage π) σ) :
    Application.Closing (t.joining ++ t.releasing) := by
  intro e he
  rcases List.mem_append.mp he with join | release
  · exact .inl (joins_joining t e join)
  · obtain ⟨i, _, rfl⟩ := List.mem_map.mp release
    exact .inr ⟨i, rfl⟩

/-- The application may begin at any moment, whatever it was doing. -/
theorem abandoned_start {r : ReaderSide} (hs : Sound p r t) :
    Abandoned p (t.joining ++ t.releasing) t.abandoning := by
  obtain ⟨source, row, taken⟩ := hs
  have agenda : t.abandoning.application.agenda =
      .shut :: .poll .discard [] :: (t.joining ++ t.releasing) := rfl
  refine ⟨⟨r, ⟨source, row, taken⟩, .shutting agenda⟩, fun q hq => .inl ?_⟩
  rw [agenda]
  exact List.mem_cons_of_mem _ (List.mem_cons_of_mem _ hq)

theorem ended_of_abandoned {r : ReaderSide} (hs : Sound p r t)
    (hu : Abandoned p (t.joining ++ t.releasing) u) (done : u.application.agenda = []) :
    Ended u := by
  obtain ⟨⟨r', hs', _⟩, awaits⟩ := hu
  have length := Station.sound_length hs.row
  rw [List.length_map] at length
  refine ended_of_sound hs' done (resting_of_awaits hs' awaits ?_ ?_ done)
  · simp [joining]
  · intro i hi
    simp [joining, length, hi]

/-- A pipeline that is destroyed at a moment of any run. Its destruction is never stuck: until
the application has nothing left to do, some step is possible that does not only let a poll
time out. If the producer stops from there, the number of such steps is bounded over all runs,
and every run in which they are not put off for ever ends, with every task over. -/
theorem abandoned_ends {fault : Option Fault} (hp : p.Planned) (fits : p.Fits)
    (hs : p.start = .ok (s₀, fault)) (ht : s₀.Comes t) :
    (∀ acts u, t.abandoning.run? acts = some u → u.application.agenda ≠ [] →
      ∃ a v, u.step? a = some v ∧ u.isTimeout a = false) ∧
    ((∃ n, t.supplier.Within n) →
      (∃ limit, ∀ acts u, t.abandoning.run? acts = some u → busy acts t.abandoning ≤ limit) ∧
      ∀ h : Path t.abandoning, h.Fair → ∃ i, ∀ j, i ≤ j → Ended (h.at' j)) := by
  obtain ⟨⟨r, sound⟩, _⟩ := sound_comes hp fits hs ht
  have closing := closing_destroying t
  have start := abandoned_start sound
  have capacity := (Pipeline.planned_fresh hp).2.1
  constructor
  · intro acts u hr left
    exact abandoned_progress capacity closing (run_invariant (abandoned_step closing) start hr) left
  · rintro ⟨n, within⟩
    exact ends_of_invariant (n := n) (abandoned_step closing)
      (abandoned_progress capacity closing) (ended_of_abandoned sound) start within

/-- The small pipeline is destroyed while its one pack waits for the task. -/
theorem abandoned_ends_sample : ∃ t, (sample .passOn).Comes t ∧ t.inlet.data.slot.isSome = true ∧
    ∃ h : Path t.abandoning, h.Fair ∧ ∃ i, ∀ j, i ≤ j → Ended (h.at' j) := by
  have offered : ((sample .passOn).run? (turns [(3, .supplier)])).any
      (fun t => t.inlet.data.slot.isSome && t.supplier.phase.more? == some false) = true := by
    decide +kernel
  obtain ⟨t, hr, ht⟩ := (Option.any_eq_true _ _).mp offered
  obtain ⟨waits, last⟩ := Bool.and_eq_true_iff.mp ht
  have last : t.supplier.phase.more? = some false := eq_of_beq last
  have stops : ∃ n, t.supplier.Within n := by
    refine ⟨0, fun more => ?_⟩
    rw [last] at more
    cases more
  have comes := comes_run hr
  have ends := (abandoned_ends (Pipeline.planned_sample .passOn) (by decide)
    (start_sample .passOn) comes).2 stops
  have fair := Path.fair_eager t.abandoning
  exact ⟨t, comes, waits, _, fair, ends.2 _ fair⟩

/-- At the end of that the stage without a handler is not closed, as it was never started. -/
theorem abandoned_not_closed : ∃ t u,
    (sample .passOn).run? (turns [(3, .supplier)]) = some t ∧
    t.abandoning.run? (turns
      [(1, .application), (5, .stage 0), (3, .supplier), (4, .stage 0), (2, .application),
        (3, .stage 0), (2, .supplier), (5, .application)]) = some u ∧
    u.application.agenda = [] ∧ (∀ a, u.step? a = none) ∧
    u.row.map Station.lifecycle = [.closed, .notStarted] := by
  have ended : ((sample .passOn).run? (turns [(3, .supplier)])).any (fun t =>
      (t.abandoning.run? (turns
        [(1, .application), (5, .stage 0), (3, .supplier), (4, .stage 0), (2, .application),
          (3, .stage 0), (2, .supplier), (5, .application)])).any fun u =>
        decide u.Completed && u.row.map Station.lifecycle == [.closed, .notStarted]) = true := by
    decide +kernel
  obtain ⟨t, ht, ended⟩ := (Option.any_eq_true _ _).mp ended
  obtain ⟨u, hu, ended⟩ := (Option.any_eq_true _ _).mp ended
  obtain ⟨completed, lives⟩ := Bool.and_eq_true_iff.mp ended
  have completed := of_decide_eq_true completed
  exact ⟨t, u, ht, hu, completed.1, step_completed completed, eq_of_beq lives⟩

end System
end StagedPipeline
