import StagedPipeline.Proofs.Stage.Lifetime

/-!
# What a stage counts

A stage counts a pack as handled when the call of its handler has returned. The task comes to an
end after a call that throws, so there is one pack at most that was given to the handler and is
not counted.
-/
namespace StagedPipeline

namespace Event

/-- A pack at which the handler has thrown. -/
@[simp] def thrown? : Event → Option Pack
  | .handled p (.fault _) => some p
  | _ => none

instance : Skips thrown? := ⟨fun _ => rfl, fun _ => rfl, fun _ _ => rfl⟩

theorem thrown_eq_nil_iff {log : List Event} :
    collect thrown? log = [] ↔ ∀ p f, .handled p (.fault f) ∉ log := by
  refine ⟨fun none' p f => not_mem_of_collect_nil none' rfl, fun never => ?_⟩
  refine List.filterMap_eq_nil_iff.mpr fun e he => ?_
  unfold thrown?
  split
  · exact absurd he (never _ _)
  · rfl

end Event

namespace TransformStage

variable {σ : Type} {s s' : TransformStage σ} {inp inp' out out' : Conduit}
  {log events : List Event}

/-- The count of a stage beside what it has done. -/
structure Counts (s : TransformStage σ) (log : List Event) : Prop where
  account : (Event.collect Event.handed? log).length =
    s.handled + (Event.collect Event.thrown? log).length
  once : (Event.collect Event.thrown? log).length ≤ 1
  /-- A task that may still take packs has seen its handler return each time. -/
  early : s.phase.consumes = true → Event.collect Event.thrown? log = []

theorem counts_quiet (h : Counts s log) (handled : s'.handled = s.handled)
    (place : s'.phase.consumes = true → s.phase.consumes = true)
    (handed : Event.collect Event.handed? events = [])
    (thrown : Event.collect Event.thrown? events = []) : Counts s' (log ++ events) where
  account := by
    rw [Event.collect_append, Event.collect_append, handed, thrown, handled, List.append_nil,
      List.append_nil]
    exact h.account
  once := by
    rw [Event.collect_append, thrown, List.append_nil]
    exact h.once
  early taking := by
    rw [Event.collect_append, thrown, List.append_nil]
    exact h.early (place taking)

/-- A call that returns is counted. -/
theorem counts_returned {p : Pack} {v : Handler.Verdict} {rest : List Event} (h : Counts s log)
    (taking : s.phase.consumes = true) (counted : s'.handled = s.handled + 1)
    (fine : Event.thrown? (.handled p v) = none) (quiet : Event.Silent rest) :
    Counts s' (log ++ .handled p v :: rest) := by
  have before := h.early taking
  have handed := Event.collect_silent (f := Event.handed?) quiet
  have thrown := Event.collect_silent (f := Event.thrown?) quiet
  constructor <;> simp [before, h.account, counted, fine, handed, thrown, -Event.thrown?]

theorem counts_move (h : Counts s log) (hm : s.Move inp out s' inp' out' events) :
    Counts s' (log ++ events) := by
  cases hm with
  | fault at' verdict =>
    have before := h.early (by rw [at']; rfl)
    constructor <;> simp [before, h.account, afterFault]
  | fail at' verdict =>
    exact counts_returned h (by rw [at']; rfl) rfl rfl
      (Event.silent_append (Event.silent_saying _) (Event.silent_saying _))
  | succeed at' verdict =>
    exact counts_returned h (by rw [at']; rfl) rfl rfl (Event.silent_saying _)
  | _ => exact counts_quiet h rfl (by simp [*]) (by simp) (by simp)

theorem counts_expire (h : Counts s log) : Counts { s with phase := .confirming } log :=
  ⟨h.account, h.once, fun taking => by cases taking⟩

end TransformStage

namespace Neighbours

variable {σ : Type} {h : Handler σ} {memory : σ} {finalizer : Option Finalizer}
  {capacity : UInt64} {interval : Int} {s₀ t u : Neighbours σ}

theorem counts_run {acts : List Act} (ht : t.stage.Counts t.log) (hr : t.run? acts = some u) :
    u.stage.Counts u.log :=
  run_invariant (P := fun t => t.stage.Counts t.log)
    (task_invariant TransformStage.counts_move TransformStage.counts_expire) ht hr

theorem counts_start (hs : start h memory finalizer capacity interval = .ok s₀) :
    s₀.stage.Counts s₀.log := by
  obtain ⟨stage, log⟩ := start_fresh hs
  rw [stage, log]
  exact ⟨rfl, Nat.zero_le 1, fun _ => rfl⟩

/-- At every moment, and so when the task is over, a stage has counted each call of its handler
but the one that has thrown, if there was one. Its count is the number of calls just when no call
has thrown. -/
theorem handled_counts {acts : List Act}
    (hs : start h memory finalizer capacity interval = .ok s₀) (hr : s₀.run? acts = some t) :
    (Event.collect Event.handed? t.log).length =
      t.stage.handled + (Event.collect Event.thrown? t.log).length ∧
    (Event.collect Event.thrown? t.log).length ≤ 1 ∧
    (t.stage.handled = (Event.collect Event.handed? t.log).length ↔
      ∀ p f, .handled p (.fault f) ∉ t.log) := by
  obtain ⟨account, once, _⟩ := counts_run (counts_start hs) hr
  refine ⟨account, once, ?_⟩
  rw [account, ← Event.thrown_eq_nil_iff, ← List.length_eq_zero_iff]
  omega

/-- Two packs, of which the handler throws at the second, up to the end of the task. -/
theorem handled_counts_sample : ∃ s₀ t : Neighbours Bool,
    start passOnce false none 1 1 = .ok s₀ ∧
    s₀.run? (sampleActs ++ List.replicate 5 .work) = some t ∧ t.stage.phase = .finished ∧
    (Event.collect Event.handed? t.log).length = t.stage.handled + 1 := by
  have runs : (start passOnce false none 1 1).toOption.any (fun s =>
      (s.run? (sampleActs ++ List.replicate 5 .work)).any fun t =>
        t.stage.phase == .finished && (Event.collect Event.thrown? t.log).length == 1) = true := by
    decide +kernel
  obtain ⟨s₀, hs, runs⟩ := exists_ok_of_any runs
  obtain ⟨t, hr, ht⟩ := (Option.any_eq_true _ _).mp runs
  simp only [Bool.and_eq_true, beq_iff_eq] at ht
  obtain ⟨finished, thrown⟩ := ht
  obtain ⟨account, _, _⟩ := handled_counts hs hr
  exact ⟨s₀, t, hs, hr, finished, thrown ▸ account⟩

/-- One pack, at which the handler throws. -/
def throwingActs : List Act :=
  [.work, .offer (some (.ofBytes []))] ++ List.replicate 6 .work ++ [.closeErrors] ++
    List.replicate 7 .work

/-- The task is over, and has called its handler once, but has counted no pack. -/
theorem thrown_not_counted : ∃ s₀ t : Neighbours Bool,
    start passOnce true none 1 1 = .ok s₀ ∧ s₀.run? throwingActs = some t ∧
    t.stage.phase = .finished ∧ (Event.collect Event.handed? t.log).length = 1 ∧
    t.stage.handled = 0 := by
  have runs : (start passOnce true none 1 1).toOption.any (fun s =>
      (s.run? throwingActs).any fun t =>
        t.stage.phase == .finished && (Event.collect Event.handed? t.log).length == 1 &&
          t.stage.handled == 0) = true := by
    decide +kernel
  obtain ⟨s₀, hs, runs⟩ := exists_ok_of_any runs
  obtain ⟨t, hr, ht⟩ := (Option.any_eq_true _ _).mp runs
  simp only [Bool.and_eq_true, beq_iff_eq] at ht
  exact ⟨s₀, t, hs, hr, ht.1.1, ht.1.2, ht.2⟩

end Neighbours
end StagedPipeline
