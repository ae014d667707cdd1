import StagedPipeline.Proofs.Channel.Sides
import StagedPipeline.Stage.Source

/-!
# The moves of a source stage

`SourceStage.Move` lists everything that a section of the task can do, with the condition
on its conduit under which it does it.
-/
namespace StagedPipeline.SourceStage

variable {π : Type}

/-- The state after a call of the producer. -/
def afterCall (s : SourceStage π) (phase : Phase) : SourceStage π :=
  { s with state := (s.producer s.state).state, phase }

/-- A section of the task in front of a conduit. -/
inductive Move (s : SourceStage π) (out : Conduit) :
    SourceStage π → Conduit → List Event → Prop where
  | start (at' : s.phase = .starting) :
      Move s out { s with phase := .asking } out (Event.saying [Thread.startedEntry threadName])
  | fail {e} (at' : s.phase = .asking)
      (answer : (s.producer s.state).production = .failed e) :
      Move s out (s.afterCall (.reporting e)) out
        (.asked (.failed e) ::
          (Event.saying (s.producer s.state).entries ++ Event.saying [failedEntry e]))
  | throw {f} (at' : s.phase = .asking)
      (answer : (s.producer s.state).production = .threw f) :
      Move s out (s.afterCall (.faulting f.describe)) out
        (.asked (.threw f) :: Event.saying (s.producer s.state).entries)
  | skip {more} (at' : s.phase = .asking)
      (answer : (s.producer s.state).production = .yielded none more) :
      Move s out (s.afterCall (afterPack more)) out
        (.asked (.yielded none more) :: Event.saying (s.producer s.state).entries)
  | yield {p more} (at' : s.phase = .asking)
      (answer : (s.producer s.state).production = .yielded (some p) more) :
      Move s out (s.afterCall (.offering p more)) out
        (.asked (.yielded (some p) more) :: Event.saying (s.producer s.state).entries)
  | refuse {p more data} (at' : s.phase = .offering p more)
      (done : out.data.offer? (some p) = some (.refused, data)) :
      Move s out { s with phase := .completing } { out with data }
        (.wrote (some p) false :: Event.saying [stoppedEntry])
  | place {p more t data} (at' : s.phase = .offering p more)
      (done : out.data.offer? (some p) = some (.placed t, data)) :
      Move s out { s with phase := .awaiting p t more } { out with data } []
  | settle {p t more data} (at' : s.phase = .awaiting p t more)
      (done : out.data.settle? t = some (true, data)) :
      Move s out { s with phase := afterPack more, delivered := s.delivered + 1 }
        { out with data } [.wrote (some p) true]
  | lose {p t more data} (at' : s.phase = .awaiting p t more)
      (done : out.data.settle? t = some (false, data)) :
      Move s out { s with phase := .completing } { out with data }
        (.wrote (some p) false :: Event.saying [stoppedEntry])
  | reject {e} (at' : s.phase = .reporting e) (null : e.isNull = true) :
      Move s out { s with phase := .faulting Reports.nullFault.describe } out
        (Event.putting e (.rejected Reports.nullFault))
  | report {e how errors} (at' : s.phase = .reporting e) (null : e.isNull = false)
      (done : out.errors.forward? e = some (how, errors)) :
      Move s out { s with phase := .completing } { out with errors } (Event.putting e how)
  | concede {what} (at' : s.phase = .faulting what) :
      Move s out { s with phase := .reportingFault what, lifecycle := .faulted, faulted := true }
        out (Event.saying [faultedEntry what])
  | reportFault {what how errors} (at' : s.phase = .reportingFault what)
      (done : out.errors.forward? (faultError what) = some (how, errors)) :
      Move s out { s with phase := .closingErrors } { out with errors }
        (Event.putting (faultError what) how)
  | complete (at' : s.phase = .completing) :
      Move s out { s with phase := .closingErrors, lifecycle := .completed } out []
  | closeErrors (at' : s.phase = .closingErrors) :
      Move s out { s with phase := .closingData } out.closeErrors []
  | closeData (at' : s.phase = .closingData) :
      Move s out { s with phase := .finishing } out.closeData []
  | finish (at' : s.phase = .finishing) :
      Move s out { s with phase := .finished, lifecycle := .closed } out
        (Event.saying [closedEntry s.delivered, Thread.exitingEntry threadName])

theorem faultError_ne_null (what : Bytes) : (faultError what).isNull = false := rfl

/-- Every section of the task is one of the moves. -/
theorem move_of_advance {s s' : SourceStage π} {out out' : Conduit} {events : List Event}
    (h : s.advance? out = some (s', out', events)) : Move s out s' out' events := by
  cases hp : s.phase with
  | idle | finished => simp [advance?, hp] at h
  | starting =>
    simp only [advance?, hp, Option.some.injEq, Prod.mk.injEq] at h
    obtain ⟨rfl, rfl, rfl⟩ := h
    exact .start hp
  | asking =>
    simp only [advance?, hp] at h
    cases ha : (s.producer s.state).production with
    | failed e =>
      simp only [ha, Option.some.injEq, Prod.mk.injEq] at h
      obtain ⟨rfl, rfl, rfl⟩ := h
      exact .fail hp ha
    | threw f =>
      simp only [ha, Option.some.injEq, Prod.mk.injEq] at h
      obtain ⟨rfl, rfl, rfl⟩ := h
      exact .throw hp ha
    | yielded p more =>
      cases p with
      | none =>
        simp only [ha, Option.some.injEq, Prod.mk.injEq] at h
        obtain ⟨rfl, rfl, rfl⟩ := h
        exact .skip hp ha
      | some p =>
        simp only [ha, Option.some.injEq, Prod.mk.injEq] at h
        obtain ⟨rfl, rfl, rfl⟩ := h
        exact .yield hp ha
  | offering p more =>
    simp only [advance?, hp, Option.map_eq_some_iff, Prod.exists] at h
    obtain ⟨r, data, ho, h⟩ := h
    cases r with
    | refused =>
      simp only [Prod.mk.injEq] at h
      obtain ⟨rfl, rfl, rfl⟩ := h
      exact .refuse hp ho
    | placed t =>
      simp only [Prod.mk.injEq] at h
      obtain ⟨rfl, rfl, rfl⟩ := h
      exact .place hp ho
  | awaiting p t more =>
    simp only [advance?, hp, Option.map_eq_some_iff, Prod.exists] at h
    obtain ⟨r, data, hs, h⟩ := h
    cases r with
    | true =>
      simp only [↓reduceIte, Prod.mk.injEq] at h
      obtain ⟨rfl, rfl, rfl⟩ := h
      exact .settle hp hs
    | false =>
      simp only [Bool.false_eq_true, ↓reduceIte, Prod.mk.injEq] at h
      obtain ⟨rfl, rfl, rfl⟩ := h
      exact .lose hp hs
  | reporting e =>
    simp only [advance?, hp, Option.map_eq_some_iff, Prod.exists] at h
    obtain ⟨how, errors, hput, h⟩ := h
    simp only [Prod.mk.injEq] at h
    obtain ⟨rfl, rfl, rfl⟩ := h
    cases hn : e.isNull with
    | true =>
      simp only [Reports.put?, hn, ↓reduceIte, Option.some.injEq, Prod.mk.injEq] at hput
      obtain ⟨rfl, rfl⟩ := hput
      exact .reject hp hn
    | false =>
      simp only [Reports.put?, hn, Bool.false_eq_true, ↓reduceIte] at hput
      cases how with
      | rejected f => exact absurd hput (Reports.forward_not_rejected e out.errors f errors)
      | accepted => exact .report hp hn hput
      | dropped => exact .report hp hn hput
  | faulting what =>
    simp only [advance?, hp, Option.some.injEq, Prod.mk.injEq] at h
    obtain ⟨rfl, rfl, rfl⟩ := h
    exact .concede hp
  | reportingFault what =>
    simp only [advance?, hp, Option.map_eq_some_iff, Prod.exists, Reports.put?,
      faultError_ne_null, Bool.false_eq_true, ↓reduceIte] at h
    obtain ⟨how, errors, hput, h⟩ := h
    simp only [Prod.mk.injEq] at h
    obtain ⟨rfl, rfl, rfl⟩ := h
    exact .reportFault hp hput
  | completing =>
    simp only [advance?, hp, Option.some.injEq, Prod.mk.injEq] at h
    obtain ⟨rfl, rfl, rfl⟩ := h
    exact .complete hp
  | closingErrors =>
    simp only [advance?, hp, Option.some.injEq, Prod.mk.injEq] at h
    obtain ⟨rfl, rfl, rfl⟩ := h
    exact .closeErrors hp
  | closingData =>
    simp only [advance?, hp, Option.some.injEq, Prod.mk.injEq] at h
    obtain ⟨rfl, rfl, rfl⟩ := h
    exact .closeData hp
  | finishing =>
    simp only [advance?, hp, Option.some.injEq, Prod.mk.injEq] at h
    obtain ⟨rfl, rfl, rfl⟩ := h
    exact .finish hp

end StagedPipeline.SourceStage
