import StagedPipeline.Proofs.Handler.Exactness
import StagedPipeline.Proofs.Stage.Lifetime
import Mathlib.Data.List.Induction

/-!
# A stage that collects

A stage with the collecting handler adds the bodies that it is given to a sink. A body that cannot
be read to its end ends the work of the stage and leaves the sink as it was, so that the sink has
grown by the whole contents of all bodies before it, and by nothing else. No pack is passed on.
-/
namespace StagedPipeline

namespace Handler

variable {σ : Type} {h : Handler σ}

/-- A handler that takes each body out leaves no packs. -/
theorem replay_consuming (takes : ∀ memory c s, (h memory c s).body = none) (memory : σ)
    (ps : List Pack) : (h.replay memory ps).2 = [] := by
  -- from the last pack on, as the packs that are left stand in order
  induction ps using List.reverseRecOn with
  | nil => rfl
  | append_singleton ps p ih =>
    obtain ⟨_ | body, context⟩ := p
    · rwa [replay, List.foldl_append]
    · rw [replay_snoc, ih, TransformStage.leftBy, takes]
      rfl

end Handler

namespace TransformStage

variable {σ : Type} {append : σ → Bytes → σ} {memory : σ} {s s' : TransformStage σ}
  {inp inp' out out' : Conduit} {log events : List Event} {whole : List (Pack × Bytes)}
  {broken : Option Pack}

/-- What a collecting stage has made of the packs that it was given: those that were `whole`, with
their contents, and then the one that was `broken`, if the stage has met it. -/
structure Gathers (append : σ → Bytes → σ) (memory : σ) (s : TransformStage σ) (log : List Event)
    (whole : List (Pack × Bytes)) (broken : Option Pack) : Prop where
  handler : s.handler = Handler.collect append
  handed : Event.collect Event.handed? log = whole.map Prod.fst ++ broken.toList
  gives : ∀ x ∈ whole, x.1.Gives x.2
  breaks : ∀ p ∈ broken, p.Breaks
  sink : s.memory = whole.foldl (fun sink x => append sink x.2) memory
  /-- A task that may still take packs has met none that was broken. -/
  early : s.phase.consumes = true → broken = none

theorem gathers_quiet (h : Gathers append memory s log whole broken)
    (handler : s'.handler = s.handler) (same : s'.memory = s.memory)
    (place : s'.phase.consumes = true → s.phase.consumes = true)
    (none' : Event.collect Event.handed? events = []) :
    Gathers append memory s' (log ++ events) whole broken :=
  { h with
    handler := handler.trans h.handler
    handed := by rw [Event.collect_append, none', List.append_nil, h.handed]
    sink := same.trans h.sink
    early := fun taking => h.early (place taking) }

/-- A call that has succeeded has found the whole of a body. -/
theorem gathers_succeed {body : ByteStream} {context : Context} {left : Option Pack}
    (h : Gathers append memory s log whole broken) (at' : s.phase = .handling body context)
    (verdict : (s.handler s.memory context body).verdict = .success)
    (quiet : Event.Silent events) :
    ∃ content, Gathers append memory
      (s.afterSuccess (s.handler s.memory context body).memory left)
      (log ++ .handled ⟨some body, context⟩ .success :: events)
      (whole ++ [(⟨some body, context⟩, content)]) none := by
  have before := h.early (by rw [at']; rfl)
  rw [h.handler] at verdict ⊢
  rcases Handler.collect_cases append s.memory context body with
    ⟨content, gives, _, added⟩ | ⟨_, unsuccessful, _⟩
  · refine ⟨content, h.handler, ?_, ?_, by simp, ?_, fun _ => rfl⟩
    · simp [h.handed, before, Event.collect_silent quiet]
    · exact List.forall_mem_append.mpr ⟨h.gives, by simpa using gives⟩
    · rw [List.foldl_append, ← h.sink]
      exact added
  · exact absurd verdict unsuccessful

/-- A call that has not succeeded has met a broken body, and nothing was added. -/
theorem gathers_stopped {body : ByteStream} {context : Context} {v : Handler.Verdict}
    (h : Gathers append memory s log whole broken) (at' : s.phase = .handling body context)
    (verdict : (s.handler s.memory context body).verdict = v) (other : v ≠ .success)
    (handler : s'.handler = s.handler)
    (left : s'.memory = (s.handler s.memory context body).memory)
    (stopped : s'.phase.consumes = false) (quiet : Event.Silent events) :
    Gathers append memory s' (log ++ .handled ⟨some body, context⟩ v :: events) whole
      (some ⟨some body, context⟩) := by
  have before := h.early (by rw [at']; rfl)
  rw [h.handler] at verdict left
  rcases Handler.collect_cases append s.memory context body with
    ⟨_, _, success, _⟩ | ⟨breaks, _, same⟩
  · exact absurd (verdict.symm.trans success) other
  · refine ⟨handler.trans h.handler, ?_, h.gives, ?_, ?_, ?_⟩
    · simp [h.handed, before, Event.collect_silent quiet]
    · rintro _ ⟨⟩
      exact breaks
    · rw [left, same, h.sink]
    · exact fun taking => absurd taking (Bool.eq_false_iff.mp stopped)

/-- A task stops to take packs when a call has not succeeded, when it had a pack to write, or at the
end of its input. -/
theorem stops_move (hm : s.Move inp out s' inp' out' events) (taking : s.phase.consumes = true)
    (stopped : s'.phase.consumes = false) :
    inp.data.closed = true ∨ s.phase.onOffer ≠ none ∨ ∃ body context,
      s.phase = .handling body context ∧
        (s.handler s.memory context body).verdict ≠ .success := by
  cases hm with
  | meetEnd at' done => exact .inl (Handoff.take_end done).1
  | refuse at' done | lose at' done => exact .inr (.inl (by simp [at']))
  | fault at' verdict | fail at' verdict =>
    exact .inr (.inr ⟨_, _, at', fun success => by simp [success] at verdict⟩)
  | succeed at' verdict =>
    simp only [afterSuccess] at stopped
    split at stopped <;> cases stopped
  | _ => simp_all

/-- There are packs that a stage has gathered. -/
def Gathered (append : σ → Bytes → σ) (memory : σ) (s : TransformStage σ) (log : List Event) :
    Prop := ∃ whole broken, Gathers append memory s log whole broken

theorem gathered_move (h : Gathered append memory s log) (hm : s.Move inp out s' inp' out' events) :
    Gathered append memory s' (log ++ events) := by
  obtain ⟨whole, broken, h⟩ := h
  cases hm with
  | fault at' verdict =>
    exact ⟨_, _, gathers_stopped h at' verdict (by simp) rfl rfl rfl (Event.silent_saying _)⟩
  | fail at' verdict =>
    exact ⟨_, _, gathers_stopped h at' verdict (by simp) rfl rfl rfl
      (Event.silent_append (Event.silent_saying _) (Event.silent_saying _))⟩
  | succeed at' verdict =>
    obtain ⟨content, h⟩ := gathers_succeed h at' verdict (Event.silent_saying _)
    exact ⟨_, _, h⟩
  | _ => exact ⟨_, _, gathers_quiet h rfl rfl (by simp [*]) (by simp)⟩

theorem gathered_expire (h : Gathered append memory s log) :
    Gathered append memory { s with phase := .confirming } log := by
  obtain ⟨whole, broken, h⟩ := h
  exact ⟨whole, broken, { h with early := fun taking => by cases taking }⟩

end TransformStage

namespace Neighbours

variable {finalizer : Option Finalizer} {capacity : UInt64} {interval : Int}

/-- A handler that collects in a list of bytes. -/
def collecting : Handler Bytes := Handler.collect fun sink content => sink ++ content

variable {sink : Bytes} {s₀ t : Neighbours Bytes}

theorem gathered_run {acts : List Act}
    (hs : start collecting sink finalizer capacity interval = .ok s₀) (hr : s₀.run? acts = some t) :
    t.stage.Gathered (fun sink content => sink ++ content) sink t.log := by
  have fresh : s₀.stage.Gathered (fun sink content => sink ++ content) sink s₀.log := by
    obtain ⟨stage, log⟩ := start_fresh hs
    rw [stage, log]
    exact ⟨[], none, rfl, rfl, by simp, by simp, rfl, fun _ => rfl⟩
  exact run_invariant (P := fun t => t.stage.Gathered _ sink t.log)
    (task_invariant TransformStage.gathered_move TransformStage.gathered_expire) fresh hr

/-- A collecting task that has nothing to write stops at a body that breaks, or at the end. -/
theorem breaks_step {u : Neighbours Bytes} {a : Act} (handler : t.stage.handler = collecting)
    (offered : t.stage.phase.onOffer = none) (hu : t.step? a = some u)
    (taking : t.stage.phase.consumes = true) (stopped : u.stage.phase.consumes = false) :
    t.inlet.data.closed = true ∨ ∃ p, t.stage.phase.inHand = some p ∧ p.Breaks := by
  rcases step_task hu with ⟨same, _⟩ | ⟨events, move, _⟩ | ⟨at', _⟩
  · rw [same, taking] at stopped
    cases stopped
  · rcases TransformStage.stops_move move taking stopped with
      closed | holds | ⟨body, context, at', unsuccessful⟩
    · exact .inl closed
    · exact absurd offered holds
    · rw [handler] at unsuccessful
      rcases Handler.collect_cases _ t.stage.memory context body with
        ⟨_, _, success, _⟩ | ⟨breaks, _⟩
      · exact absurd success unsuccessful
      · exact .inr ⟨_, by rw [at']; rfl, breaks⟩
  · rw [at'] at taking
    cases taking

/-- At every moment, and so when the task is over, the sink of a collecting stage is what it was
and then the whole contents of the bodies that could be read to their end, in order. The handler
was given these and at most one more, a body that broke, after which the task takes no pack. Only
that stops it before the end of its input, where every body that was written in front was handed to
it. Nothing is written behind. -/
theorem collected_whole {acts : List Act}
    (hs : start collecting sink finalizer capacity interval = .ok s₀) (hr : s₀.run? acts = some t) :
    (∃ (whole : List (Pack × Bytes)) (broken : Option Pack),
      Event.collect Event.handed? t.log = whole.map Prod.fst ++ broken.toList ∧
      (∀ x ∈ whole, x.1.Gives x.2) ∧ (∀ p ∈ broken, p.Breaks) ∧
      (t.stage.phase.consumes = true → broken = none) ∧
      t.stage.memory = sink ++ (whole.map Prod.snd).flatten) ∧
    (∀ a u, t.step? a = some u → t.stage.phase.consumes = true → u.stage.phase.consumes = false →
      t.inlet.data.closed = true ∨ ∃ p, t.stage.phase.inHand = some p ∧ p.Breaks) ∧
    Event.collect Event.handed? t.log ++ t.stage.phase.inHand.toList =
      Pack.bodied (Event.collect Event.received? t.log).reduceOption ∧
    Event.collect Event.sent? t.upstream <+: Event.collect Event.received? t.log ∧
    Event.collect Event.received? t.log <+:
      Event.collect Event.sent? t.upstream ++ (t.pending.map Prod.fst).toList ∧
    (∀ p taken, .wrote p taken ∉ t.log) ∧ Event.collect Event.received? t.downstream = [] := by
  have sound := sound_run (sound_start hs) hr
  have conduct := sound.conduct
  obtain ⟨whole, broken, h⟩ := gathered_run hs hr
  obtain ⟨written, read⟩ := Handoff.between_prefix sound.front.data
  have nothing : ∀ ps, (collecting.replay sink ps).2 = [] :=
    Handler.replay_consuming (Handler.body_collect _) sink
  have left := conduct.left
  rw [show t.stage.handler = collecting from h.handler, nothing, List.map_nil] at left
  simp only [List.nil_eq, List.append_eq_nil_iff, List.map_eq_nil_iff,
    Option.toList_eq_nil_iff] at left
  obtain ⟨⟨sent, lost⟩, offered⟩ := left
  refine ⟨⟨whole, broken, h.handed, h.gives, h.breaks, h.early, ?_⟩, ?_, conduct.handed, written,
    read, ?_, ?_⟩
  · rw [h.sink, List.foldl_append_eq_append]
  · exact fun a u hu taking stopped => breaks_step h.handler offered hu taking stopped
  · rintro p (_ | _)
    · exact Event.not_mem_of_collect_nil lost rfl
    · exact Event.not_mem_of_collect_nil sent rfl
  · have behind := taken_prefix sound
    rw [nothing] at behind
    exact List.prefix_nil.mp behind

/-- A body that delivers two portions, and cancels its context in between. -/
def fineBody : Pack :=
  ⟨some (.script { events := [.deliver (bytes "1"), .cancel, .deliver (bytes "2")] }), .background⟩

/-- A body that delivers a portion and then fails. -/
def faultyBody : Pack :=
  ⟨some (.script { events := [.deliver (bytes "3"), .fail (.of .producerError [])] }), .background⟩

/-- Both of these bodies and one more, which is offered while the second is with the handler, and
then the end of the task. -/
def collectingActs : List Act :=
  [.work, .offer (some fineBody), .work, .settle, .offer (some faultyBody), .work, .work, .settle,
    .offer (some fineBody)] ++ List.replicate 3 .work ++ [.settle, .closeErrors] ++
    List.replicate 7 .work

/-- The sink has grown by the whole of the first body, and by nothing of the others. -/
theorem collected_whole_sample : ∃ s₀ t : Neighbours Bytes,
    start collecting (bytes "0") none 1 1 = .ok s₀ ∧ s₀.run? collectingActs = some t ∧
    t.stage.phase = .finished ∧
    (∃ (whole : List (Pack × Bytes)) (broken : Option Pack),
      [fineBody, faultyBody] = whole.map Prod.fst ++ broken.toList ∧
      (∀ x ∈ whole, x.1.Gives x.2) ∧ (∀ p ∈ broken, p.Breaks) ∧
      bytes "012" = bytes "0" ++ (whole.map Prod.snd).flatten) ∧
    Event.collect Event.received? t.downstream = [] := by
  have runs : (start collecting (bytes "0") none 1 1).toOption.any (fun s =>
      (s.run? collectingActs).any fun t => t.stage.phase == .finished &&
        t.stage.memory == bytes "012" &&
        Event.collect Event.received? t.log == [some fineBody, some faultyBody]) = true := by
    decide +kernel
  obtain ⟨s₀, hs, runs⟩ := exists_ok_of_any runs
  obtain ⟨t, hr, ht⟩ := (Option.any_eq_true _ _).mp runs
  simp only [Bool.and_eq_true, beq_iff_eq] at ht
  obtain ⟨⟨finished, memory⟩, received⟩ := ht
  obtain ⟨⟨whole, broken, handed, gives, breaks, _, sink⟩, _, given, _, _, _, behind⟩ :=
    collected_whole hs hr
  have bodied : Pack.bodied [fineBody, faultyBody] = [fineBody, faultyBody] := by decide
  rw [received, finished, handed] at given
  refine ⟨s₀, t, hs, hr, finished, ⟨whole, broken, ?_, gives, breaks, memory ▸ sink⟩, behind⟩
  simpa [bodied] using given.symm

end Neighbours
end StagedPipeline
