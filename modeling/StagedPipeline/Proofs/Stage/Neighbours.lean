import StagedPipeline.Stage.Neighbours
import StagedPipeline.Proofs.Stage.Conduct

/-!
# A task is faithful between any neighbours

What a task has taken, handed to its handler, written and put stands to what its neighbours have
written, put and taken as if they were stages themselves. This is kept by every section of the task
and by everything that the neighbours can do.
-/
namespace StagedPipeline

namespace Neighbours

variable {σ : Type} {h : Handler σ} {memory : σ} {t u : Neighbours σ}

/-- What the party in front has done. Its closings are left out, as it may go on after them. -/
def writerSide (t : Neighbours σ) : WriterSide where
  sent := Event.collect Event.sent? t.upstream
  pending := t.pending
  lost := Event.collect Event.lost? t.upstream
  put := Event.collect Event.accepted? t.upstream

/-- What is true of a task among its neighbours, whose handler began with `memory`. -/
structure Sound (h : Handler σ) (memory : σ) (t : Neighbours σ) : Prop where
  traces : ∃ ps qs held x, t.stage.Traces { handler := some h, memory } t.log ps qs held x
  conduct : t.stage.Conduct memory t.log
  front : t.inlet.Feeds t.writerSide (t.stage.readerSide t.log)
  back : ∃ r, t.outlet.Links (t.stage.writerSide t.log) r ∧
    r.taken = Event.collect Event.received? t.downstream ∧
    r.polled = Event.collect Event.polled? t.downstream

/-! ## What the task does -/

theorem sound_work (ht : Sound h memory t) (hu : t.step? .work = some u) : Sound h memory u := by
  simp only [step?, Option.map_eq_some_iff, Prod.exists] at hu
  obtain ⟨stage, inlet, outlet, events, ha, rfl⟩ := hu
  have move := TransformStage.move_of_advance ha
  obtain ⟨⟨ps, qs, held, x, traces⟩, conduct, front, r, links, taken, polled⟩ := ht
  have closed := links.errorsClosed
  refine ⟨TransformStage.traces_move traces move closed,
    TransformStage.conduct_move traces conduct move closed, ?_, r, ?_, taken, polled⟩
  · exact Conduit.feeds_readerStep front (TransformStage.readerStep_move traces move)
  · exact Conduit.links_writerStep links (TransformStage.writerStep_move move closed)

theorem sound_expire (ht : Sound h memory t) (hu : t.step? .expire = some u) :
    Sound h memory u := by
  obtain ⟨stage, he, rfl⟩ := Option.map_eq_some_iff.mp hu
  obtain ⟨⟨ps, qs, held, x, traces⟩, conduct, front, r, links, taken, polled⟩ := ht
  obtain ⟨traces', reader, writer⟩ := TransformStage.traces_expire traces he
  exact ⟨⟨ps, qs, held, x, traces'⟩, TransformStage.conduct_expire conduct he,
    by rw [reader]; exact front, r, by rw [writer]; exact links, taken, polled⟩

/-! ## What the neighbours do -/

theorem sound_front {inlet : Conduit} {pending : Option (Option Pack × Nat)}
    {upstream : List Event} (ht : Sound h memory t)
    (hf : inlet.Feeds { t with inlet, pending, upstream }.writerSide (t.stage.readerSide t.log)) :
    Sound h memory { t with inlet, pending, upstream } := ⟨ht.traces, ht.conduct, hf, ht.back⟩

theorem sound_offer {p : Option Pack} (ht : Sound h memory t) (hu : t.step? (.offer p) = some u) :
    Sound h memory u := by
  have front := ht.front
  have free : t.writerSide.pending = none := by
    cases hp : t.pending with
    | none => exact hp
    | some w => simp [step?, hp] at hu
  have free' : t.pending.isSome = false := by simp [show t.pending = none from free]
  simp only [step?, free', Bool.false_eq_true, ↓reduceIte, Option.map_eq_some_iff,
    Prod.exists] at hu
  obtain ⟨r, data, done, rfl⟩ := hu
  cases r with
  | refused =>
    apply sound_front ht
    have step := Conduit.WriterStep.refuse (w := t.writerSide) free rfl done
    simpa [writerSide] using Conduit.feeds_writerStep front step
  | placed ticket =>
    apply sound_front ht
    have step := Conduit.WriterStep.place (w := t.writerSide) free done
    exact Conduit.feeds_writerStep front step

theorem sound_settle (ht : Sound h memory t) (hu : t.step? .settle = some u) :
    Sound h memory u := by
  have front := ht.front
  simp only [step?, Option.bind_eq_some_iff, Prod.exists, Option.map_eq_some_iff] at hu
  obtain ⟨p, ticket, waits, taken, data, done, rfl⟩ := hu
  have waits : t.writerSide.pending = some (p, ticket) := waits
  apply sound_front ht
  cases taken with
  | true =>
    have step := Conduit.WriterStep.settle waits done
    simpa [writerSide] using Conduit.feeds_writerStep front step
  | false =>
    have step := Conduit.WriterStep.lose waits rfl done
    simpa [writerSide] using Conduit.feeds_writerStep front step

theorem sound_put {e : Error} (ht : Sound h memory t) (hu : t.step? (.put e) = some u) :
    Sound h memory u := by
  have front := ht.front
  simp only [step?, Option.map_eq_some_iff, Prod.exists] at hu
  obtain ⟨how, errors, done, rfl⟩ := hu
  apply sound_front ht
  rcases Reports.put_cases done with ⟨rfl, entered⟩ | ⟨other, rfl⟩
  · have step := Conduit.WriterStep.put (w := t.writerSide) rfl entered
    simpa [writerSide] using Conduit.feeds_writerStep front step
  · cases how with
    | accepted => exact absurd rfl other
    | dropped | rejected _ => simpa [writerSide] using front

/-- A step of the party behind. -/
theorem sound_back {c : Conduit} {events : List Event} (ht : Sound h memory t)
    (hs : ∀ r, ∃ r', t.outlet.ReaderStep r c r' ∧
      r'.taken = r.taken ++ Event.collect Event.received? events ∧
      r'.polled = r.polled ++ Event.collect Event.polled? events) :
    Sound h memory { t with outlet := c, downstream := t.downstream ++ events } := by
  obtain ⟨traces, conduct, front, r, links, taken, polled⟩ := ht
  obtain ⟨r', step, taken', polled'⟩ := hs r
  refine ⟨traces, conduct, front, r', Conduit.links_readerStep links step, ?_, ?_⟩
  · rw [taken', taken, Event.collect_append]
  · rw [polled', polled, Event.collect_append]

theorem sound_step {a : Act} (ht : Sound h memory t) (hu : t.step? a = some u) :
    Sound h memory u := by
  cases a with
  | work => exact sound_work ht hu
  | expire => exact sound_expire ht hu
  | offer p => exact sound_offer ht hu
  | settle => exact sound_settle ht hu
  | put e => exact sound_put ht hu
  | closeErrors =>
    obtain rfl := Option.some.inj hu
    have closed := Conduit.feeds_writerStep ht.front .closeErrors
    exact sound_front ht ⟨closed.data, closed.errors, closed.drained⟩
  | closeData =>
    obtain rfl := Option.some.inj hu
    have closed := Conduit.feeds_writerStep ht.front .closeData
    exact sound_front ht ⟨closed.data, closed.errors, closed.drained⟩
  | take =>
    simp only [step?, Option.map_eq_some_iff, Prod.exists] at hu
    obtain ⟨item, data, done, rfl⟩ := hu
    refine sound_back ht fun r => ?_
    cases item with
    | some p => exact ⟨_, .take done, rfl, (List.append_nil _).symm⟩
    | none =>
      obtain ⟨_, rfl⟩ := Handoff.take_end done
      exact ⟨r, .idle, (List.append_nil _).symm, (List.append_nil _).symm⟩
  | check =>
    simp only [step?, Option.map_eq_some_iff, Prod.exists] at hu
    obtain ⟨item, errors, done, rfl⟩ := hu
    refine sound_back ht fun r => ?_
    cases item with
    | some e => exact ⟨_, .poll done, (List.append_nil _).symm, rfl⟩
    | none =>
      obtain ⟨_, _, rfl⟩ := Reports.receive_end done
      exact ⟨r, .idle, (List.append_nil _).symm, (List.append_nil _).symm⟩
  | shut =>
    obtain rfl := Option.some.inj hu
    obtain ⟨traces, conduct, front, r, links, taken, polled⟩ := ht
    exact ⟨traces, conduct, front, _, Conduit.links_readerStep links .shut, taken, polled⟩

/-! ## What comes of it -/

variable {s₀ : Neighbours σ} {finalizer : Option Finalizer} {capacity : UInt64} {interval : Int}

theorem sound_start (hs : start h memory finalizer capacity interval = .ok s₀) :
    Sound h memory s₀ := by
  simp only [start, bind, Except.bind, pure, Except.pure] at hs
  split at hs
  · cases hs
  · rename_i inlet hi
    split at hs
    · cases hs
    · rename_i outlet ho
      obtain rfl := Except.ok.inj hs
      let fresh : TransformStage σ := { handler := h, memory, finalization := { finalizer } }
      refine ⟨⟨[], [], none, { handler := some h, memory }, ?_⟩, fresh.conduct_launch,
        Conduit.feeds_fresh hi, {}, Conduit.links_fresh ho, rfl, rfl⟩
      exact fresh.traces_launch rfl rfl rfl rfl rfl rfl rfl

/-- What every act keeps holds at the end of every run. -/
theorem run_invariant {P : Neighbours σ → Prop}
    (keeps : ∀ {t a u}, P t → t.step? a = some u → P u) {acts : List Act} (ht : P t)
    (hr : t.run? acts = some u) : P u := by
  induction acts generalizing t with
  | nil => exact Option.some.inj hr ▸ ht
  | cons a acts ih =>
    obtain ⟨t', ht', hr⟩ := Option.bind_eq_some_iff.mp hr
    exact ih (keeps ht ht') hr

theorem sound_run {acts : List Act} (ht : Sound h memory t) (hr : t.run? acts = some u) :
    Sound h memory u := run_invariant sound_step ht hr

/-- What was taken out of the output is what the handler has left, up to some pack. -/
theorem taken_prefix (ht : Sound h memory t) : Event.collect Event.received? t.downstream <+:
    (h.replay memory (Event.collect Event.succeeded? t.log)).2.map some := by
  obtain ⟨⟨ps, qs, held, x, traces⟩, conduct, _, r, links, taken, _⟩ := ht
  obtain rfl : h = t.stage.handler := Option.some.inj traces.handler
  have between := (Handoff.between_prefix links.data).2
  rw [taken] at between
  rw [conduct.left]
  refine between.trans ?_
  cases hp : t.stage.phase with
  | awaiting p ticket =>
    -- while a write is under way, none has been lost
    have lost := (traces.going (by rw [hp]; rfl)).2.1
    rw [lost, List.append_nil]
    simp [TransformStage.writerSide, hp]
  | _ =>
    rw [List.append_assoc]
    simp [TransformStage.writerSide, hp]

theorem put_prefix (ht : Sound h memory t) :
    Event.collect Event.accepted? t.log <+:
        Event.collect TransformStage.ownError? t.log ++ Event.collect Event.accepted? t.upstream ∧
      (t.stage.phase.hasDrained = true → Event.collect Event.accepted? t.log =
        Event.collect TransformStage.ownError? t.log ++
          Event.collect Event.accepted? t.upstream) := by
  have put := ht.conduct.put
  have told : Event.collect Event.accepted? t.upstream =
      Event.collect Event.polled? t.log ++ t.inlet.errors.queue.queue := ht.front.errors
  constructor
  · have own : Event.collect Event.accepted? t.log <+:
        Event.collect TransformStage.ownError? t.log ++ Event.collect Event.polled? t.log :=
      ⟨_, put⟩
    rw [told, ← List.append_assoc]
    exact own.trans (List.prefix_append _ _)
  · intro drained
    have empty := ht.front.drained drained
    have nothing : t.stage.phase.owed = none := by
      cases hp : t.stage.phase <;> simp_all
    simp only [Reports.isDrained, Fifo.isDrained, Bool.and_eq_true, List.isEmpty_iff] at empty
    rw [nothing, Option.toList_none, List.append_nil] at put
    rw [put, told, empty.2, List.append_nil]

/-- Leaves the first body as it is, and throws at the next. -/
def passOnce : Handler Bool := fun spent context body =>
  { verdict := if spent then .fault (.runtimeError "spent") else .success
    memory := true, context, body := some body }

/-- A run with two packs and an error of the input, where the data is closed while the second
pack is with the handler and its write has not ended. -/
def sampleActs : List Act :=
  [.offer (some (.ofBytes [])), .work, .work, .put (.of .producerError []), .settle,
    .offer (some (.ofBytes [])), .work, .work, .take, .work, .work, .closeData] ++
  [.work, .work, .work, .work, .check, .work, .work, .work, .closeErrors, .work, .check, .work]

end Neighbours
end StagedPipeline
