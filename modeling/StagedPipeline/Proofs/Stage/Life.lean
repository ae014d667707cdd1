import StagedPipeline.Stage.Era
import StagedPipeline.Proofs.Stage.Logs
import StagedPipeline.Proofs.Stage.SourceMoves
import StagedPipeline.Proofs.Stage.TransformMoves

/-!
# The life of a stage

Sources and stages with a handler live the same life: it has few states, and the state that a
stage shows, its fault flag and the number of faults that it has reported are all read off it.
Where the task stands leaves one or two of the states open. Every section of a task is a step
of that life, so what is true of the steps is proved once for both kinds of stages.
-/
namespace StagedPipeline

/-- How the state of a stage may change. -/
inductive Lifecycle.Next : Lifecycle → Lifecycle → Prop where
  | start : Next .notStarted .running
  | complete : Next .running .completed
  | fault : Next .running .faulted
  | closeCompleted : Next .completed .closed
  | closeFaulted : Next .faulted .closed

theorem Lifecycle.next_started {c c' : Lifecycle} (h : c.Next c') : c' ≠ .notStarted := by
  cases h <;> nofun

inductive Life where
  | waiting
  | running
  /-- A fault was announced, and its error was not put yet. -/
  | reporting
  | leaving (faulted : Bool)
  | closed (faulted : Bool)
deriving DecidableEq, Repr

namespace Life

def lifecycle : Life → Lifecycle
  | .waiting => .notStarted
  | .running => .running
  | .reporting => .faulted
  | .leaving faulted => if faulted then .faulted else .completed
  | .closed _ => .closed

def faulted : Life → Bool
  | .waiting | .running => false
  | .reporting => true
  | .leaving faulted | .closed faulted => faulted

/-- The number of errors that were put for a fault. -/
def reports : Life → Nat
  | .leaving true | .closed true => 1
  | _ => 0

inductive Step : Life → Life → Prop where
  | stay {l} : Step l l
  | start : Step .waiting .running
  | announce : Step .running .reporting
  | report : Step .reporting (.leaving true)
  | complete : Step .running (.leaving false)
  | close {faulted} : Step (.leaving faulted) (.closed faulted)

theorem step_lifecycle {l l' : Life} (h : l.Step l') :
    l'.lifecycle = l.lifecycle ∨ l.lifecycle.Next l'.lifecycle := by
  cases h with
  | stay => exact .inl rfl
  | start => exact .inr .start
  | announce => exact .inr .fault
  | report => exact .inl rfl
  | complete => exact .inr .complete
  | @close faulted =>
    cases faulted with
    | true => exact .inr .closeFaulted
    | false => exact .inr .closeCompleted

theorem step_faulted {l l' : Life} (h : l.Step l') (faulted : l.faulted = true) :
    l'.faulted = true := by
  cases h with
  | stay => exact faulted
  | report => rfl
  | start | announce | complete => cases faulted
  | close => exact faulted

theorem step_started {l l' : Life} (h : l.Step l') (started : l.lifecycle ≠ .notStarted) :
    l'.lifecycle ≠ .notStarted := by
  rcases step_lifecycle h with same | next
  · rwa [same]
  · exact Lifecycle.next_started next

def Era.allows : Era → Life → Bool
  | .waiting, .waiting | .running, .running | .reporting, .reporting => true
  | .stopping, .running | .stopping, .leaving true => true
  | .leaving, .leaving _ | .closed, .closed _ => true
  | _, _ => false

/-- A life that fits what is seen of a stage that has reported `n` faults. -/
structure Fits (l : Life) (era : Era) (lifecycle : Lifecycle) (faulted : Bool) (n : Nat) : Prop where
  era : era.allows l = true
  lifecycle : lifecycle = l.lifecycle
  faulted : faulted = l.faulted
  reports : n = l.reports

variable {l : Life} {era era' : Era} {lifecycle : Lifecycle} {faulted : Bool} {n : Nat}

theorem fits_running (h : l.Fits .running lifecycle faulted n) :
    l = .running ∧ lifecycle = .running ∧ faulted = false ∧ n = 0 := by
  obtain ⟨era, rfl, rfl, rfl⟩ := h
  cases l <;> simp only [Era.allows, Bool.false_eq_true] at era
  exact ⟨rfl, rfl, rfl, rfl⟩

theorem fits_stay (h : l.Fits era lifecycle faulted n)
    (later : era' = era ∨ era = .running ∧ era' = .stopping) : l.Fits era' lifecycle faulted n := by
  rcases later with rfl | ⟨rfl, rfl⟩
  · exact h
  · obtain ⟨rfl, _⟩ := fits_running h
    exact ⟨rfl, h.lifecycle, h.faulted, h.reports⟩

/-- A stage that shows that it was not started has no task yet. -/
theorem fits_notStarted (h : l.Fits era .notStarted faulted n) :
    era = .waiting ∧ ∃ l', l.Step l' ∧ l'.Fits .running .running faulted n := by
  obtain ⟨fits, lifecycle, rfl, rfl⟩ := h
  cases l with
  | waiting =>
    refine ⟨?_, _, .start, rfl, rfl, rfl, rfl⟩
    cases era <;> first | rfl | cases fits
  | leaving b => cases b <;> cases lifecycle
  | running | reporting | closed b => cases lifecycle

theorem fits_closed (h : l.Fits era .closed faulted n) :
    era = .closed ∧ l = .closed faulted := by
  obtain ⟨fits, lifecycle, rfl, rfl⟩ := h
  cases l with
  | closed b =>
    refine ⟨?_, rfl⟩
    cases era <;> first | rfl | cases fits
  | leaving b => cases b <;> cases lifecycle
  | waiting | running | reporting => cases lifecycle

theorem fits_announce (h : l.Fits .running lifecycle faulted n) :
    ∃ l', l.Step l' ∧ l'.Fits .reporting .faulted true n := by
  obtain ⟨rfl, rfl, rfl, rfl⟩ := fits_running h
  exact ⟨_, .announce, rfl, rfl, rfl, rfl⟩

theorem fits_report (h : l.Fits .reporting lifecycle faulted n)
    (later : era' = .stopping ∨ era' = .leaving) :
    ∃ l', l.Step l' ∧ l'.Fits era' lifecycle faulted (n + 1) := by
  obtain ⟨era, rfl, rfl, rfl⟩ := h
  cases l <;> simp only [Era.allows, Bool.false_eq_true] at era
  refine ⟨_, .report, ?_, rfl, rfl, rfl⟩
  rcases later with rfl | rfl <;> rfl

theorem fits_complete (h : l.Fits era lifecycle faulted n)
    (later : era = .running ∨ era = .stopping) :
    ∃ l', l.Step l' ∧ l'.Fits .leaving (if faulted then lifecycle else .completed) faulted n := by
  obtain ⟨fits, rfl, rfl, rfl⟩ := h
  cases l with
  | running => exact ⟨_, .complete, rfl, rfl, rfl, rfl⟩
  | leaving b =>
    cases b with
    | true => exact ⟨_, .stay, rfl, rfl, rfl, rfl⟩
    | false =>
      -- only a stage that has failed is left before it completes
      rcases later with rfl | rfl <;> cases fits
  | waiting | reporting | closed b => rcases later with rfl | rfl <;> cases fits

theorem fits_close (h : l.Fits .leaving lifecycle faulted n) :
    ∃ l', l.Step l' ∧ l'.Fits .closed .closed faulted n := by
  obtain ⟨era, rfl, rfl, rfl⟩ := h
  cases l <;> simp only [Era.allows, Bool.false_eq_true] at era
  rename_i b
  refine ⟨_, .close, rfl, rfl, rfl, ?_⟩
  cases b <;> rfl

/-- What is seen of a stage changes with its life. -/
theorem fits_step {l' : Life} {lifecycle' : Lifecycle} {faulted' : Bool} {n' : Nat}
    (step : l.Step l') (h : l.Fits era lifecycle faulted n)
    (h' : l'.Fits era' lifecycle' faulted' n') :
    (lifecycle' = lifecycle ∨ lifecycle.Next lifecycle') ∧ (faulted = true → faulted' = true) := by
  rw [h.lifecycle, h'.lifecycle, h.faulted, h'.faulted]
  exact ⟨step_lifecycle step, step_faulted step⟩

/-- How the calls to start a stage have ended that shows some state: none was made, or the first
has succeeded and every later one has thrown. -/
def Starts (restart : Fault) (lifecycle : Lifecycle) (starts : List (Option Fault)) : Prop :=
  lifecycle = .notStarted ∧ starts = [] ∨
    lifecycle ≠ .notStarted ∧ ∃ k, starts = none :: List.replicate k (some restart)

variable {restart : Fault} {starts : List (Option Fault)}

theorem starts_launch (h : Starts restart .notStarted starts) :
    Starts restart .running (starts ++ [none]) := by
  rcases h with ⟨_, rfl⟩ | ⟨other, _⟩
  · exact .inr ⟨nofun, 0, rfl⟩
  · exact absurd rfl other

theorem starts_again (h : Starts restart lifecycle starts) (started : lifecycle ≠ .notStarted) :
    Starts restart lifecycle (starts ++ [some restart]) := by
  rcases h with ⟨fresh, _⟩ | ⟨_, k, rfl⟩
  · exact absurd fresh started
  · exact .inr ⟨started, k + 1, by rw [List.replicate_succ', List.cons_append]⟩

theorem starts_eq_nil_iff (h : Starts restart lifecycle starts) :
    starts = [] ↔ lifecycle = .notStarted := by
  rcases h with ⟨fresh, rfl⟩ | ⟨started, k, rfl⟩
  · simp [fresh]
  · simp [started]

theorem starts_step {l' : Life} (h : Starts restart l.lifecycle starts) (step : l.Step l')
    (started : l.lifecycle ≠ .notStarted) : Starts restart l'.lifecycle starts := by
  rcases h with ⟨fresh, _⟩ | ⟨_, once⟩
  · exact absurd fresh started
  · exact .inr ⟨step_started step started, once⟩

/-- What the errors that were put for a fault say about a stage once it is closed: there is one
if the stage shows a fault, and it was accepted, and there is none otherwise. -/
theorem faults_closed {faultError : Bytes → Error} {faults : List (Error × Reports.Putting)}
    (h : l.Fits era .closed faulted faults.length)
    (each : ∀ f ∈ faults, ∃ what, f = (faultError what, .accepted)) :
    (faulted = true ↔ ∃ what, faults = [(faultError what, .accepted)]) ∧
      (faulted = false ↔ faults = []) := by
  have reports := h.reports
  obtain ⟨_, rfl⟩ := fits_closed h
  cases faulted with
  | true =>
    obtain ⟨f, rfl⟩ := List.length_eq_one_iff.mp reports
    obtain ⟨what, rfl⟩ := each f (List.mem_singleton_self f)
    simp
  | false =>
    obtain rfl := List.length_eq_zero_iff.mp reports
    simp

end Life

instance : Event.Skips Event.delivery? := ⟨fun _ => rfl, fun _ => rfl, fun _ _ => rfl⟩

theorem Event.delivery_forward {e : Error} {how : Reports.Putting} {q q' : Reports}
    (done : q.forward? e = some (how, q')) : Event.delivery? (.put e how) = some (e, how) := by
  rcases Reports.forward_cases done with ⟨rfl, _⟩ | ⟨rfl, _⟩ <;> rfl

/-- Where no error was dropped, each one that can be put was accepted. -/
theorem Event.accepted_of_delivery {log : List Event} {f : Error × Reports.Putting}
    (hf : f ∈ collect delivery? log) (kept : collect dropped? log = []) : f.2 = .accepted := by
  obtain ⟨event, put, at'⟩ := List.mem_filterMap.mp hf
  unfold delivery? at at'
  split at at'
  · cases at'
  · rename_i e how other
    obtain rfl := Option.some.inj at'
    cases how with
    | accepted => rfl
    | dropped => exact absurd put (not_mem_of_collect_nil kept rfl)
    | rejected w => exact absurd rfl (other w)
  · cases at'

/-! ## Sources -/

namespace SourceStage

variable {π : Type} {s s' : SourceStage π} {out out' : Conduit} {events : List Event} {l : Life}
  {n : Nat}

theorem idle_of_era {phase : Phase} (h : phase.era = .waiting) : phase = .idle := by
  cases phase <;> first | rfl | cases h

/-- A stage that was not started is launched, and another one throws. -/
theorem start_cases (h : l.Fits s.phase.era s.lifecycle s.faulted n) :
    (s.lifecycle = .notStarted ∧ s.phase = .idle ∧ s.start = .ok s.launch ∧ ∃ l', l.Step l' ∧
      l'.Fits s.launch.phase.era s.launch.lifecycle s.launch.faulted n) ∨
    (s.lifecycle ≠ .notStarted ∧ s.start = .error restartFault) := by
  by_cases fresh : s.lifecycle = .notStarted
  · obtain ⟨era, l', step, fits⟩ := Life.fits_notStarted (fresh ▸ h)
    exact .inl ⟨fresh, idle_of_era era, if_pos fresh, l', step, fits⟩
  · exact .inr ⟨fresh, if_neg fresh⟩

theorem finished_of_closed (h : l.Fits s.phase.era .closed s.faulted n) : s.phase = .finished := by
  have era := (Life.fits_closed h).1
  cases hp : s.phase <;> first | rfl | (rw [hp] at era; cases era)

theorem life_move (h : l.Fits s.phase.era s.lifecycle s.faulted n)
    (hm : s.Move out s' out' events) : ∃ l', l.Step l' ∧
      l'.Fits s'.phase.era s'.lifecycle s'.faulted (n + (s.reported events).length) := by
  have quiet : ∀ {phase : Phase}, phase.era = s.phase.era → s.phase.era ≠ .reporting →
      ∃ l', l.Step l' ∧
        l'.Fits phase.era s.lifecycle s.faulted (n + (s.reported events).length) := by
    intro phase same other
    rw [reported, if_neg other]
    exact ⟨l, .stay, Life.fits_stay h (.inl same)⟩
  cases hm with
  | concede at' =>
    rw [at'] at h
    simpa [reported, at'] using Life.fits_announce h
  | reportFault at' done =>
    rw [at'] at h
    have put := Event.delivery_forward done
    simpa [reported, at', put, -Event.delivery?] using Life.fits_report h (.inr rfl)
  | complete at' =>
    rw [at'] at h
    have free := (Life.fits_running h).2.2.1
    simpa [reported, at', free] using Life.fits_complete h (.inl rfl)
  | finish at' =>
    rw [at'] at h
    simpa [reported, at'] using Life.fits_close h
  | skip at' answer | settle at' done =>
    refine quiet ?_ (by simp [at'])
    simp only [at', afterPack]
    split <;> rfl
  | _ => exact quiet (by simp [afterCall, *]) (by simp [*])

theorem reported_fault (hm : s.Move out s' out' events) {f : Error × Reports.Putting}
    (hf : f ∈ s.reported events) :
    (∃ what, f.1 = faultError what) ∧ f ∈ Event.collect Event.delivery? events := by
  unfold reported at hf
  split at hf
  · rename_i reports
    refine ⟨?_, hf⟩
    cases hm with
    | reportFault at' done =>
      have put := Event.delivery_forward done
      simp only [Event.collect_putting, put, Option.toList_some, List.mem_singleton] at hf
      exact ⟨_, congrArg Prod.fst hf⟩
    | _ => simp [*] at reports
  · cases hf

end SourceStage

/-! ## Stages with a handler -/

namespace TransformStage

variable {σ : Type} {s s' : TransformStage σ} {inp inp' out out' : Conduit} {events : List Event}
  {l : Life} {n : Nat}

theorem idle_of_era {phase : Phase} (h : phase.era = .waiting) : phase = .idle := by
  cases phase <;> first | rfl | cases h

/-- A stage that was not started is launched, and another one throws. -/
theorem start_cases (h : l.Fits s.phase.era s.lifecycle s.faulted n) :
    (s.lifecycle = .notStarted ∧ s.phase = .idle ∧ s.start = .ok s.launch ∧ ∃ l', l.Step l' ∧
      l'.Fits s.launch.phase.era s.launch.lifecycle s.launch.faulted n) ∨
    (s.lifecycle ≠ .notStarted ∧ s.start = .error restartFault) := by
  by_cases fresh : s.lifecycle = .notStarted
  · obtain ⟨era, l', step, fits⟩ := Life.fits_notStarted (fresh ▸ h)
    exact .inl ⟨fresh, idle_of_era era, if_pos fresh, l', step, fits⟩
  · exact .inr ⟨fresh, if_neg fresh⟩

theorem finished_of_closed (h : l.Fits s.phase.era .closed s.faulted n) : s.phase = .finished := by
  have era := (Life.fits_closed h).1
  cases hp : s.phase <;> first | rfl | (rw [hp] at era; cases era)

theorem life_move (h : l.Fits s.phase.era s.lifecycle s.faulted n)
    (hm : s.Move inp out s' inp' out' events) : ∃ l', l.Step l' ∧
      l'.Fits s'.phase.era s'.lifecycle s'.faulted (n + (s.reported events).length) := by
  have quiet : ∀ {phase : Phase},
      (phase.era = s.phase.era ∨ s.phase.era = .running ∧ phase.era = .stopping) →
      s.phase.era ≠ .reporting → ∃ l', l.Step l' ∧
        l'.Fits phase.era s.lifecycle s.faulted (n + (s.reported events).length) := by
    intro phase later other
    rw [reported, if_neg other]
    exact ⟨l, .stay, Life.fits_stay h later⟩
  cases hm with
  | concede at' =>
    rw [at'] at h
    simpa [reported, at'] using Life.fits_announce h
  | reportFault at' done =>
    rw [at'] at h
    have put := Event.delivery_forward done
    simpa [reported, at', put, -Event.delivery?] using Life.fits_report h (.inl rfl)
  | complete at' =>
    rw [at'] at h
    simpa [reported, at', completed] using Life.fits_complete h (.inr rfl)
  | finish at' =>
    rw [at'] at h
    simpa [reported, at'] using Life.fits_close h
  | succeed at' verdict =>
    refine quiet (.inl ?_) (by simp [at'])
    simp only [at', afterSuccess]
    split <;> rfl
  | _ => exact quiet (by simp [afterFault, afterFailure, *]) (by simp [*])

theorem life_expire (h : l.Fits s.phase.era s.lifecycle s.faulted n) (at' : s.phase = .polling) :
    l.Fits ({ s with phase := .confirming }).phase.era s.lifecycle s.faulted n :=
  Life.fits_stay h (by simp [at'])

theorem reported_fault (hm : s.Move inp out s' inp' out' events) {f : Error × Reports.Putting}
    (hf : f ∈ s.reported events) :
    (∃ what, f.1 = faultError what) ∧ f ∈ Event.collect Event.delivery? events := by
  unfold reported at hf
  split at hf
  · rename_i reports
    refine ⟨?_, hf⟩
    cases hm with
    | reportFault at' done =>
      have put := Event.delivery_forward done
      simp only [Event.collect_putting, put, Option.toList_some, List.mem_singleton] at hf
      exact ⟨_, congrArg Prod.fst hf⟩
    | _ => simp [*] at reports
  · cases hf

end TransformStage
end StagedPipeline
