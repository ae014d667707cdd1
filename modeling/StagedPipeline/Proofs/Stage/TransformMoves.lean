import StagedPipeline.Proofs.Channel.Sides
import StagedPipeline.Stage.Transform

/-!
# The moves of a transform stage

`TransformStage.Move` lists everything that a section of the task can do, with the
condition on the two conduits under which it does it. `advance?` makes exactly these
moves; what is true of a stage is proved along this list and never along `advance?`.
-/
namespace StagedPipeline.TransformStage

variable {σ : Type}

/-- The state after a handler has thrown. -/
def afterFault (s : TransformStage σ) (memory : σ) (f : Fault) : TransformStage σ :=
  { s with memory, phase := .abandoning f.describe }

/-- The state after a handler has ended with an error. -/
def afterFailure (s : TransformStage σ) (memory : σ) (e : Error) : TransformStage σ :=
  { s with memory, phase := .reporting e, handled := s.handled + 1 }

/-- The state after a handler has succeeded and left a pack, or none. -/
def afterSuccess (s : TransformStage σ) (memory : σ) (left : Option Pack) : TransformStage σ :=
  { s with
    memory
    phase := match left with
      | some p => .offering p
      | none => .reading
    handled := s.handled + 1 }

/-- What a successful call has left in its pack. -/
def leftBy (c : Handler.Call σ) : Option Pack := c.body.map fun b => ⟨some b, c.context⟩

/-- A section of the task between an input and an output. -/
inductive Move (s : TransformStage σ) (inp out : Conduit) :
    TransformStage σ → Conduit → Conduit → List Event → Prop where
  | start (at' : s.phase = .starting) :
      Move s inp out { s with phase := .reading } inp out
        (Event.saying [Thread.startedEntry threadName])
  | meetEnd {data} (at' : s.phase = .reading) (done : inp.data.take? = some (none, data)) :
      Move s inp out { s with phase := .releasing } { inp with data } out []
  | receive {body context data} (at' : s.phase = .reading)
      (done : inp.data.take? = some (some (some ⟨some body, context⟩), data)) :
      Move s inp out { s with phase := .handling body context } { inp with data } out
        [.received (some ⟨some body, context⟩)]
  | skip {p : Option Pack} {data} (at' : s.phase = .reading)
      (done : inp.data.take? = some (some p, data)) (bare : p.bind Pack.body = none) :
      Move s inp out s { inp with data } out (.received p :: Event.saying [skippedEntry])
  | fault {body context f} (at' : s.phase = .handling body context)
      (verdict : (s.handler s.memory context body).verdict = .fault f) :
      Move s inp out (s.afterFault (s.handler s.memory context body).memory f) inp out
        (.handled ⟨some body, context⟩ (.fault f) ::
          Event.saying (s.handler s.memory context body).entries)
  | fail {body context e} (at' : s.phase = .handling body context)
      (verdict : (s.handler s.memory context body).verdict = .failure e) :
      Move s inp out (s.afterFailure (s.handler s.memory context body).memory e) inp out
        (.handled ⟨some body, context⟩ (.failure e) ::
          (Event.saying (s.handler s.memory context body).entries
            ++ Event.saying [failedEntry e]))
  | succeed {body context} (at' : s.phase = .handling body context)
      (verdict : (s.handler s.memory context body).verdict = .success) :
      Move s inp out
        (s.afterSuccess (s.handler s.memory context body).memory
          (leftBy (s.handler s.memory context body))) inp out
        (.handled ⟨some body, context⟩ .success ::
          Event.saying (s.handler s.memory context body).entries)
  | refuse {p data} (at' : s.phase = .offering p)
      (done : out.data.offer? (some p) = some (.refused, data)) :
      Move s inp out { s with phase := .releasing } inp { out with data }
        (.wrote (some p) false :: Event.saying [stoppedEntry])
  | place {p t data} (at' : s.phase = .offering p)
      (done : out.data.offer? (some p) = some (.placed t, data)) :
      Move s inp out { s with phase := .awaiting p t } inp { out with data } []
  | settle {p t data} (at' : s.phase = .awaiting p t)
      (done : out.data.settle? t = some (true, data)) :
      Move s inp out { s with phase := .reading } inp { out with data } [.wrote (some p) true]
  | lose {p t data} (at' : s.phase = .awaiting p t)
      (done : out.data.settle? t = some (false, data)) :
      Move s inp out { s with phase := .releasing } inp { out with data }
        (.wrote (some p) false :: Event.saying [stoppedEntry])
  | reject {e} (at' : s.phase = .reporting e) (null : e.isNull = true) :
      Move s inp out { s with phase := .abandoning Reports.nullFault.describe } inp out
        (Event.putting e (.rejected Reports.nullFault))
  | report {e how errors} (at' : s.phase = .reporting e) (null : e.isNull = false)
      (done : out.errors.forward? e = some (how, errors)) :
      Move s inp out { s with phase := .releasing } inp { out with errors } (Event.putting e how)
  | abandon {what} (at' : s.phase = .abandoning what) :
      Move s inp out { s with phase := .faulting what } inp.closeData out []
  | concede {what} (at' : s.phase = .faulting what) :
      Move s inp out
        { s with phase := .reportingFault what, lifecycle := .faulted, faulted := true } inp out
        (Event.saying [faultedEntry what])
  | reportFault {what how errors} (at' : s.phase = .reportingFault what)
      (done : out.errors.forward? (faultError what) = some (how, errors)) :
      Move s inp out { s with phase := .releasing } inp { out with errors }
        (Event.putting (faultError what) how)
  | release (at' : s.phase = .releasing) :
      Move s inp out { s with phase := .polling } inp.closeData out []
  | poll {e errors} (at' : s.phase = .polling) (done : inp.errors.receive? = some (some e, errors)) :
      Move s inp out { s with phase := .relaying e } { inp with errors } out [.polled e]
  | pollEnd {errors} (at' : s.phase = .polling)
      (done : inp.errors.receive? = some (none, errors)) :
      Move s inp out { s with phase := .confirming } { inp with errors } out []
  | confirm (at' : s.phase = .confirming) (done : inp.errors.isDrained = true) :
      Move s inp out { s with phase := .completing } inp out []
  | retry (at' : s.phase = .confirming) (more : inp.errors.isDrained = false) :
      Move s inp out { s with phase := .polling } inp out []
  | relay {e how errors} (at' : s.phase = .relaying e)
      (done : out.errors.forward? e = some (how, errors)) :
      Move s inp out { s with phase := .polling } inp { out with errors } (Event.putting e how)
  | complete (at' : s.phase = .completing) :
      Move s inp out { s with phase := .closingErrors, lifecycle := s.completed } inp out []
  | closeErrors (at' : s.phase = .closingErrors) :
      Move s inp out { s with phase := .closingData } inp out.closeErrors []
  | closeData (at' : s.phase = .closingData) :
      Move s inp out { s with phase := .finalizing } inp out.closeData []
  | finalize (at' : s.phase = .finalizing) :
      Move s inp out
        { s with
          phase := .finishing
          finalization := (s.finalization.run (out.sighting s.lifecycle)).1 } inp out
        (s.finalization.run (out.sighting s.lifecycle)).2
  | finish (at' : s.phase = .finishing) :
      Move s inp out { s with phase := .finished, lifecycle := .closed } inp out
        (Event.saying [closedEntry s.handled, Thread.exitingEntry threadName])

theorem faultError_ne_null (what : Bytes) : (faultError what).isNull = false := rfl

theorem move_of_handle {s : TransformStage σ} {inp out : Conduit} {body : ByteStream}
    {context : Context} (hp : s.phase = .handling body context) :
    Move s inp out (s.handle body context).1 inp out (s.handle body context).2 := by
  cases hv : (s.handler s.memory context body).verdict with
  | fault f =>
    have he : s.handle body context = (s.afterFault (s.handler s.memory context body).memory f,
        .handled ⟨some body, context⟩ (.fault f) ::
          Event.saying (s.handler s.memory context body).entries) := by
      simp only [handle, hv, afterFault]
    rw [he]
    exact .fault hp hv
  | failure e =>
    have he : s.handle body context = (s.afterFailure (s.handler s.memory context body).memory e,
        .handled ⟨some body, context⟩ (.failure e) ::
          (Event.saying (s.handler s.memory context body).entries
            ++ Event.saying [failedEntry e])) := by
      simp only [handle, hv, afterFailure, List.cons_append]
    rw [he]
    exact .fail hp hv
  | success =>
    have he : s.handle body context = (s.afterSuccess (s.handler s.memory context body).memory
          (leftBy (s.handler s.memory context body)),
        .handled ⟨some body, context⟩ .success ::
          Event.saying (s.handler s.memory context body).entries) := by
      simp only [handle, hv, afterSuccess, leftBy]
      cases (s.handler s.memory context body).body <;> rfl
    rw [he]
    exact .succeed hp hv

/-- Every section of the task is one of the moves. -/
theorem move_of_advance {s s' : TransformStage σ} {inp inp' out out' : Conduit}
    {events : List Event} (h : s.advance? inp out = some (s', inp', out', events)) :
    Move s inp out s' inp' out' events := by
  cases hp : s.phase with
  | idle | finished => simp [advance?, hp] at h
  | starting =>
    simp only [advance?, hp, Option.some.injEq, Prod.mk.injEq] at h
    obtain ⟨rfl, rfl, rfl, rfl⟩ := h
    exact .start hp
  | reading =>
    simp only [advance?, hp, Option.map_eq_some_iff, Prod.exists] at h
    obtain ⟨item, data, ht, h⟩ := h
    split at h <;> simp only [Prod.mk.injEq] at h <;> obtain ⟨rfl, rfl, rfl, rfl⟩ := h
    · exact .meetEnd hp ht
    · exact .receive hp ht
    · rename_i p other
      refine .skip hp ht ?_
      rcases p with _ | ⟨_ | body, context⟩
      · rfl
      · rfl
      · exact absurd rfl (other body context)
  | handling body context =>
    simp only [advance?, hp, Option.some.injEq, Prod.mk.injEq] at h
    obtain ⟨rfl, rfl, rfl, rfl⟩ := h
    exact move_of_handle hp
  | offering p =>
    simp only [advance?, hp, Option.map_eq_some_iff, Prod.exists] at h
    obtain ⟨r, data, ho, h⟩ := h
    cases r with
    | refused =>
      simp only [Prod.mk.injEq] at h
      obtain ⟨rfl, rfl, rfl, rfl⟩ := h
      exact .refuse hp ho
    | placed t =>
      simp only [Prod.mk.injEq] at h
      obtain ⟨rfl, rfl, rfl, rfl⟩ := h
      exact .place hp ho
  | awaiting p t =>
    simp only [advance?, hp, Option.map_eq_some_iff, Prod.exists] at h
    obtain ⟨r, data, hs, h⟩ := h
    cases r with
    | true =>
      simp only [↓reduceIte, Prod.mk.injEq] at h
      obtain ⟨rfl, rfl, rfl, rfl⟩ := h
      exact .settle hp hs
    | false =>
      simp only [Bool.false_eq_true, ↓reduceIte, Prod.mk.injEq] at h
      obtain ⟨rfl, rfl, rfl, rfl⟩ := h
      exact .lose hp hs
  | reporting e =>
    simp only [advance?, hp, Option.map_eq_some_iff, Prod.exists] at h
    obtain ⟨how, errors, hput, h⟩ := h
    simp only [Prod.mk.injEq] at h
    obtain ⟨rfl, rfl, rfl, rfl⟩ := h
    cases hn : e.isNull with
    | true =>
      simp only [Reports.put?, hn, ↓reduceIte, Option.some.injEq, Prod.mk.injEq] at hput
      obtain ⟨rfl, rfl⟩ := hput
      exact .reject hp hn
    | false =>
      simp only [Reports.put?, hn, Bool.false_eq_true, ↓reduceIte] at hput
      cases how with
      | rejected f => exact absurd hput (Reports.forward_not_rejected e out.errors f errors)
      | accepted => exact .report hp hn hput
      | dropped => exact .report hp hn hput
  | abandoning what =>
    simp only [advance?, hp, Option.some.injEq, Prod.mk.injEq] at h
    obtain ⟨rfl, rfl, rfl, rfl⟩ := h
    exact .abandon hp
  | faulting what =>
    simp only [advance?, hp, Option.some.injEq, Prod.mk.injEq] at h
    obtain ⟨rfl, rfl, rfl, rfl⟩ := h
    exact .concede hp
  | reportingFault what =>
    simp only [advance?, hp, Option.map_eq_some_iff, Prod.exists, Reports.put?,
      faultError_ne_null, Bool.false_eq_true, ↓reduceIte] at h
    obtain ⟨how, errors, hput, h⟩ := h
    simp only [Prod.mk.injEq] at h
    obtain ⟨rfl, rfl, rfl, rfl⟩ := h
    exact .reportFault hp hput
  | releasing =>
    simp only [advance?, hp, Option.some.injEq, Prod.mk.injEq] at h
    obtain ⟨rfl, rfl, rfl, rfl⟩ := h
    exact .release hp
  | polling =>
    simp only [advance?, hp, Option.map_eq_some_iff, Prod.exists] at h
    obtain ⟨item, errors, hr, h⟩ := h
    cases item with
    | some e =>
      simp only [Prod.mk.injEq] at h
      obtain ⟨rfl, rfl, rfl, rfl⟩ := h
      exact .poll hp hr
    | none =>
      simp only [Prod.mk.injEq] at h
      obtain ⟨rfl, rfl, rfl, rfl⟩ := h
      exact .pollEnd hp hr
  | confirming =>
    simp only [advance?, hp, Option.some.injEq, Prod.mk.injEq] at h
    obtain ⟨rfl, rfl, rfl, rfl⟩ := h
    cases hd : inp.errors.isDrained with
    | true => exact .confirm hp hd
    | false => exact .retry hp hd
  | relaying e =>
    simp only [advance?, hp, Option.map_eq_some_iff, Prod.exists] at h
    obtain ⟨how, errors, hput, h⟩ := h
    simp only [Prod.mk.injEq] at h
    obtain ⟨rfl, rfl, rfl, rfl⟩ := h
    exact .relay hp hput
  | completing =>
    simp only [advance?, hp, Option.some.injEq, Prod.mk.injEq] at h
    obtain ⟨rfl, rfl, rfl, rfl⟩ := h
    exact .complete hp
  | closingErrors =>
    simp only [advance?, hp, Option.some.injEq, Prod.mk.injEq] at h
    obtain ⟨rfl, rfl, rfl, rfl⟩ := h
    exact .closeErrors hp
  | closingData =>
    simp only [advance?, hp, Option.some.injEq, Prod.mk.injEq] at h
    obtain ⟨rfl, rfl, rfl, rfl⟩ := h
    exact .closeData hp
  | finalizing =>
    simp only [advance?, hp, Option.some.injEq, Prod.mk.injEq] at h
    obtain ⟨rfl, rfl, rfl, rfl⟩ := h
    exact .finalize hp
  | finishing =>
    simp only [advance?, hp, Option.some.injEq, Prod.mk.injEq] at h
    obtain ⟨rfl, rfl, rfl, rfl⟩ := h
    exact .finish hp

end StagedPipeline.TransformStage
