import StagedPipeline.Proofs.Stage.Logs
import StagedPipeline.Proofs.Stage.SourceMoves
import StagedPipeline.Proofs.Pull.Settling

/-!
# The traces of a source stage

Where the task stands and its log say together which answers the producer has given, which
of the packs have been written and which one is still in the task's hands or was written to
nobody, and so at which point of the evaluation by pulling the source is.
-/
namespace StagedPipeline

/-- The pack of an answer. -/
@[simp] def Production.pack? : Production → Option Pack
  | .yielded p _ => p
  | _ => none

/-- Whether the producer has more to give after an answer. -/
@[simp] def Production.goesOn : Production → Bool
  | .yielded _ more => more
  | _ => false

/-- Whether an answer is an error or an exception. -/
@[simp] def Production.isFailure : Production → Bool
  | .yielded _ _ => false
  | _ => true

/-- The answers that a task gets from its producer: it stops asking at the first one after
which there is no more. -/
inductive Production.Answers : List Production → (ended failed : Bool) → Prop where
  | going {as : List Production} (all : ∀ a ∈ as, a.goesOn = true) : Answers as false false
  | last {as : List Production} (all : ∀ a ∈ as, a.goesOn = true) (p : Option Pack) :
      Answers (as ++ [.yielded p false]) true false
  | failed {as : List Production} {a : Production} (all : ∀ a ∈ as, a.goesOn = true)
      (bad : a.isFailure = true) : Answers (as ++ [a]) true true

namespace Production

variable {as : List Production} {a : Production} {failed : Bool}

theorem answers_open (h : Answers as false failed) : ∀ b ∈ as, b.goesOn = true := by
  cases h with
  | going all => exact all

theorem answers_yielded (h : Answers as false failed) (p : Option Pack) (more : Bool) :
    Answers (as ++ [.yielded p more]) (!more) false := by
  have all := answers_open h
  cases more with
  | false => exact .last all p
  | true =>
    refine .going fun b hb => ?_
    rcases List.mem_append.mp hb with hb | hb
    · exact all b hb
    · rw [List.mem_singleton.mp hb]
      rfl

theorem answers_failed (h : Answers as false failed) (bad : a.isFailure = true) :
    Answers (as ++ [a]) true true :=
  .failed (answers_open h) bad

end Production

namespace SourceStage

variable {π : Type}

namespace Phase

/-- Whether the task may still call the producer or write. -/
@[simp] def produces : Phase → Bool
  | .idle | .starting | .asking | .offering _ _ | .awaiting _ _ _ => true
  | _ => false

/-- What the producer has said about more packs, where the task's place alone tells. -/
@[simp] def more? : Phase → Option Bool
  | .idle | .starting | .asking => some true
  | .offering _ more => some more
  | .awaiting _ _ more => some more
  | _ => none

/-- The pack that has not found its reader. -/
@[simp] def onOffer : Phase → Option Pack
  | .offering p _ => some p
  | .awaiting p _ _ => some p
  | _ => none

/-- The write that has not ended, with its ticket. -/
@[simp] def pending : Phase → Option (Option Pack × Nat)
  | .awaiting p t _ => some (some p, t)
  | _ => none

/-- The error that the task is about to put, now or after the sections that lead to it. -/
@[simp] def owed : Phase → Option Error
  | .reporting e => some (Pull.reported faultError e)
  | .faulting what => some (faultError what)
  | .reportingFault what => some (faultError what)
  | _ => none

/-- Whether the task is bound to report a fault. -/
@[simp] def faultDue : Phase → Bool
  | .reporting e => e.isNull
  | .faulting _ => true
  | _ => false

/-- All that the traces of a task depend on in its place. -/
def view (phase : Phase) : Bool × Option Bool × Option Pack × Option Error × Bool :=
  (phase.produces, phase.more?, phase.onOffer, phase.owed, phase.faultDue)

@[simp] def hasClosedErrors : Phase → Bool
  | .closingData | .finishing | .finished => true
  | _ => false

@[simp] def hasClosedData : Phase → Bool
  | .finishing | .finished => true
  | _ => false

end Phase

/-- What the task has done at its conduit. -/
def writerSide (s : SourceStage π) (log : List Event) : WriterSide where
  sent := Event.collect Event.sent? log
  pending := s.phase.pending
  lost := Event.collect Event.lost? log
  put := Event.collect Event.accepted? log
  errorsClosed := s.phase.hasClosedErrors
  dataClosed := s.phase.hasClosedData

/-- The point of the evaluation at which a task stands that has this log: its source was
`w₀` and is `w`, has yielded the packs `ps` and, after them, the pack `held`, which has
found no reader. -/
structure Traces (w₀ : Pull.Source π) (s : SourceStage π) (log : List Event)
    (ps : List Pack) (held : Option Pack) (w : Pull.Source π) : Prop where
  producer : w.producer = s.producer
  holds : w₀.Holds ps held w
  state : w.state = s.state
  calls : w.calls = (Event.collect Event.answer? log).length
  packs : (Event.collect Event.answer? log).filterMap Production.pack? = ps ++ held.toList
  answers : Production.Answers (Event.collect Event.answer? log) w.ended w.report.isSome
  sent : Event.collect Event.sent? log = ps.map some
  more : ∀ b, s.phase.more? = some b → w.ended = !b
  producing : s.phase.produces = true →
    held = s.phase.onOffer ∧ Event.collect Event.lost? log = [] ∧ w.report = none ∧
      s.faulted = false
  /-- A task that has stopped has no more to give, or has lost its last pack. -/
  stopped : s.phase.produces = false →
    Event.collect Event.lost? log = held.toList.map some ∧ (held = none → w.ended = true)
  put : Event.collect Event.accepted? log ++ s.phase.owed.toList = w.report.toList
  faulted : w.faulted = (s.faulted || s.phase.faultDue)
  kept : Event.collect Event.dropped? log = []
  started : s.phase ≠ .idle
  closed : s.phase = .finished → s.lifecycle = .closed

variable {s s' : SourceStage π} {out out' : Conduit} {events log : List Event}
  {w₀ w : Pull.Source π} {ps : List Pack} {held : Option Pack}

/-! ## What a call of the producer comes to -/

theorem ask_yielded {p : Option Pack} {more : Bool}
    (ha : (w.producer w.state).production = .yielded p more) :
    w.ask = ({ w with
      state := (w.producer w.state).state, calls := w.calls + 1, ended := !more }, p) := by
  simp only [Pull.Source.ask, ha]

theorem ask_failed {e : Error} (ha : (w.producer w.state).production = .failed e) :
    w.ask = ({ w with
      state := (w.producer w.state).state, calls := w.calls + 1
      ended := true, report := some (Pull.reported faultError e), faulted := e.isNull }, none) := by
  simp only [Pull.Source.ask, ha]

theorem ask_threw {f : Fault} (ha : (w.producer w.state).production = .threw f) :
    w.ask = ({ w with
      state := (w.producer w.state).state, calls := w.calls + 1
      ended := true, report := some (faultError f.describe), faulted := true }, none) := by
  simp only [Pull.Source.ask, ha]

/-! ## Every move keeps the traces -/

/-- A task that is launched has no trace yet. -/
theorem traces_launch (s : SourceStage π) (hf : s.faulted = false) :
    s.launch.Traces { producer := s.producer, state := s.state } [] [] none
      { producer := s.producer, state := s.state } where
  producer := rfl
  holds := .nothing .nil
  state := rfl
  calls := rfl
  packs := rfl
  answers := .going (by simp)
  sent := rfl
  more b hb := by simpa [launch] using hb
  producing _ := ⟨rfl, rfl, rfl, hf⟩
  stopped hc := by simp [launch] at hc
  put := rfl
  faulted := by simp [launch, hf]
  kept := rfl
  started hc := by simp [launch] at hc
  closed hc := by simp [launch] at hc

/-- A move that nothing in the traces depends on. -/
theorem traces_quiet (ht : s.Traces w₀ log ps held w) (silent : Event.Silent events)
    (hp : s'.producer = s.producer) (hs : s'.state = s.state) (hf : s'.faulted = s.faulted)
    (hv : s'.phase.view = s.phase.view) (hi : s'.phase ≠ .idle)
    (hc : s'.phase = .finished → s'.lifecycle = .closed) :
    s'.Traces w₀ (log ++ events) ps held w := by
  simp only [Phase.view, Prod.mk.injEq] at hv
  obtain ⟨produces, more, onOffer, owed, faultDue⟩ := hv
  constructor <;> try simp only [hp, hs, hf, produces, more, onOffer, owed, faultDue,
    Event.collect_append_silent log silent]
  · exact ht.producer
  · exact ht.holds
  · exact ht.state
  · exact ht.calls
  · exact ht.packs
  · exact ht.answers
  · exact ht.sent
  · exact ht.more
  · exact ht.producing
  · exact ht.stopped
  · exact ht.put
  · exact ht.faulted
  · exact ht.kept
  · exact hi
  · exact hc

/-- A task that still calls the producer or writes has no errors and has not lost anything. -/
theorem traces_producing (ht : s.Traces w₀ log ps held w) (hp : s.phase.produces = true) :
    held = s.phase.onOffer ∧ Event.collect Event.lost? log = [] ∧
      Event.collect Event.accepted? log = [] ∧ w.report = none ∧ w.faulted = false ∧
      s.faulted = false := by
  obtain ⟨held, lost, report, free⟩ := ht.producing hp
  obtain ⟨owed, due⟩ : s.phase.owed = none ∧ s.phase.faultDue = false := by
    cases hph : s.phase <;> simp_all
  have put := ht.put
  have faulted := ht.faulted
  rw [owed, report] at put
  rw [due, free] at faulted
  exact ⟨held, lost, by simpa using put, report, faulted, free⟩

/-- A call of the producer that has yielded a pack or none. -/
theorem traces_yield {place : Option Pack} {more : Bool} {phase : Phase}
    (ht : s.Traces w₀ log ps held w) (at' : s.phase = .asking)
    (answer : (s.producer s.state).production = .yielded place more)
    (hp : phase = match place with
      | some p => .offering p more
      | none => afterPack more)
    (silent : Event.Silent events) :
    (s.afterCall phase).Traces w₀ (log ++ Event.asked (.yielded place more) :: events) ps place
      w.ask.1 := by
  obtain ⟨rfl, lost, put, report, faulted, free⟩ := traces_producing ht (by rw [at']; rfl)
  have goes : w.ended = false := ht.more true (by rw [at']; rfl)
  have holds := ht.holds
  have packs := ht.packs
  have answers := ht.answers
  rw [at'] at holds packs
  rw [goes, report] at answers
  have answers := Production.answers_yielded answers place more
  rw [← ht.producer, ← ht.state] at answer
  have ask := ask_yielded answer
  have after : w₀.Holds ps place w.ask.1 := by
    cases place with
    | none => exact Pull.source_holds_ask holds goes (congrArg Prod.snd ask)
    | some p => exact Pull.source_holds_yield holds goes (congrArg Prod.snd ask)
  have state : (s.producer s.state).state = (w.producer w.state).state := by
    rw [ht.producer, ht.state]
  subst hp
  constructor
  case holds => exact after
  case answers => simpa [ask, report, Event.collect_silent silent] using answers
  all_goals cases place <;> cases more <;>
    simp [afterCall, afterPack, ask, state, Event.collect_silent silent, ht.producer, ht.calls,
      packs, ht.sent, lost, put, report, faulted, free, ht.kept]

/-- A call of the producer that has ended with an error or an exception, after which the stage
has an error to put. -/
theorem traces_failed {a : Production} {e : Error} {due : Bool} {phase : Phase}
    (ht : s.Traces w₀ log ps held w) (at' : s.phase = .asking)
    (ask : w.ask = ({ w with
      state := (w.producer w.state).state, calls := w.calls + 1, ended := true
      report := some e, faulted := due }, none))
    (bad : a.isFailure = true) (silent : Event.Silent events)
    (hv : phase.view = (false, none, none, some e, due)) :
    (s.afterCall phase).Traces w₀ (log ++ Event.asked a :: events) ps none w.ask.1 := by
  obtain ⟨rfl, lost, put, report, faulted, free⟩ := traces_producing ht (by rw [at']; rfl)
  have goes : w.ended = false := ht.more true (by rw [at']; rfl)
  have holds := ht.holds
  have packs := ht.packs
  have answers := ht.answers
  rw [at'] at holds packs
  rw [goes] at answers
  have answers := Production.answers_failed answers bad
  have after := Pull.source_holds_ask holds goes (congrArg Prod.snd ask)
  have state : (s.producer s.state).state = (w.producer w.state).state := by
    rw [ht.producer, ht.state]
  have packs : (Event.collect Event.answer? log ++ [a]).filterMap Production.pack? = ps := by
    cases a with
    | yielded p more => cases bad
    | failed e | threw f => simp [packs]
  have idle : phase ≠ .idle := by
    rintro rfl
    simp [Phase.view] at hv
  have going : phase ≠ .finished := by
    rintro rfl
    simp [Phase.view] at hv
  simp only [Phase.view, Prod.mk.injEq] at hv
  obtain ⟨produces, more, _, owed, faultDue⟩ := hv
  constructor
  case holds => exact after
  case answers => simpa [ask, Event.collect_silent silent] using answers
  case started => exact idle
  case closed => exact fun h => absurd h going
  case packs => simpa [Event.collect_silent silent] using packs
  all_goals try simp only [afterCall, produces, more, owed, faultDue, ask, state]
  all_goals simp [Event.collect_silent silent, ht.producer, ht.calls, ht.sent, lost, put, free,
    ht.kept]

/-- A write that has found its reader. -/
theorem traces_settle {p : Pack} {t n : Nat} {more : Bool} (ht : s.Traces w₀ log ps held w)
    (at' : s.phase = .awaiting p t more) :
    { s with phase := afterPack more, delivered := n }.Traces w₀
      (log ++ [Event.wrote (some p) true]) (ps ++ [p]) none w := by
  obtain ⟨rfl, lost, put, report, faulted, free⟩ := traces_producing ht (by rw [at']; rfl)
  have ended := ht.more more (by rw [at']; rfl)
  have holds := ht.holds
  have packs := ht.packs
  have answers := ht.answers
  rw [at'] at holds packs
  constructor
  case holds => exact Pull.source_holds_sent holds
  case answers => simpa using answers
  all_goals cases more <;>
    simp [afterPack, ended, ht.producer, ht.state, ht.calls, packs, ht.sent, lost, put, report,
      faulted, free, ht.kept]

/-- A write that has found the channel closed. -/
theorem traces_lose {p : Pack} {more : Bool} (ht : s.Traces w₀ log ps held w)
    (hv : s.phase.view = (true, some more, some p, none, false)) (silent : Event.Silent events) :
    { s with phase := .completing }.Traces w₀ (log ++ Event.wrote (some p) false :: events) ps
      held w := by
  simp only [Phase.view, Prod.mk.injEq] at hv
  obtain ⟨produces, _, onOffer, _⟩ := hv
  obtain ⟨hheld, lost, put, report, faulted, free⟩ := traces_producing ht produces
  have packs := ht.packs
  rw [onOffer] at hheld
  subst hheld
  constructor
  case holds => exact ht.holds
  case answers => simpa [Event.collect_silent silent] using ht.answers
  all_goals simp [Event.collect_silent silent, ht.producer, ht.state, ht.calls, packs, ht.sent,
    lost, put, report, faulted, free, ht.kept]

/-- A putting that has ended. -/
theorem traces_put {e : Error} {phase : Phase} (ht : s.Traces w₀ log ps held w)
    (hv : s.phase.view = (false, none, none, some e, false))
    (hp : phase = .completing ∨ phase = .closingErrors) :
    { s with phase }.Traces w₀ (log ++ Event.putting e .accepted) ps held w := by
  simp only [Phase.view, Prod.mk.injEq] at hv
  obtain ⟨produces, _, _, owed, due⟩ := hv
  obtain ⟨lost, last⟩ := ht.stopped produces
  have put := ht.put
  have faulted := ht.faulted
  rw [owed] at put
  rw [due] at faulted
  rcases hp with rfl | rfl <;> constructor
  case inl.holds | inr.holds => exact ht.holds
  case inl.answers | inr.answers => simpa using ht.answers
  case inl.put | inr.put => simpa using put
  all_goals simp [ht.producer, ht.state, ht.calls, ht.packs, ht.sent, lost, faulted, ht.kept]
  all_goals exact last

/-- The announcement of a fault. -/
theorem traces_concede {what : Bytes} (ht : s.Traces w₀ log ps held w)
    (at' : s.phase = .faulting what) (silent : Event.Silent events) :
    { s with phase := .reportingFault what, lifecycle := .faulted, faulted := true }.Traces w₀
      (log ++ events) ps held w := by
  obtain ⟨lost, last⟩ := ht.stopped (by rw [at']; rfl)
  have put := ht.put
  have faulted := ht.faulted
  rw [at'] at put faulted
  constructor
  case holds => exact ht.holds
  case answers => simpa [Event.collect_silent silent] using ht.answers
  case put => simpa [Event.collect_silent silent] using put
  all_goals simp [Event.collect_silent silent, ht.producer, ht.state, ht.calls, ht.packs, ht.sent,
    lost, faulted, ht.kept]
  all_goals exact last

/-- Every move leads to a point of the evaluation. -/
theorem traces_move (ht : s.Traces w₀ log ps held w) (hm : s.Move out s' out' events)
    (ho : out.errors.queue.closed = s.phase.hasClosedErrors) :
    ∃ ps' held' w', s'.Traces w₀ (log ++ events) ps' held' w' := by
  cases hm with
  | fail at' answer =>
    rw [← ht.producer, ← ht.state] at answer
    exact ⟨_, _, _, traces_failed ht at' (ask_failed answer) rfl
      (Event.silent_append (Event.silent_saying _) (Event.silent_saying _)) rfl⟩
  | throw at' answer =>
    rw [← ht.producer, ← ht.state] at answer
    exact ⟨_, _, _, traces_failed ht at' (ask_threw answer) rfl (Event.silent_saying _) rfl⟩
  | skip at' answer | yield at' answer =>
    exact ⟨_, _, _, traces_yield ht at' answer rfl (Event.silent_saying _)⟩
  | settle at' done => exact ⟨_, _, _, traces_settle ht at'⟩
  | refuse at' done | lose at' done =>
    exact ⟨_, _, _, traces_lose ht (by rw [at']; rfl) (Event.silent_saying _)⟩
  | report at' null done =>
    obtain rfl := Reports.accepted_of_forward (by simpa [at'] using ho) done
    rename_i e errors
    have owes : s.phase.view = (false, none, none, some e, false) := by
      rw [at']
      simp [Phase.view, Pull.reported, null]
    exact ⟨_, _, _, traces_put ht owes (.inl rfl)⟩
  | reportFault at' done =>
    obtain rfl := Reports.accepted_of_forward (by simpa [at'] using ho) done
    exact ⟨_, _, _, traces_put ht (by rw [at']; rfl) (.inr rfl)⟩
  | concede at' => exact ⟨_, _, _, traces_concede ht at' (Event.silent_saying _)⟩
  | reject at' null =>
    have same : (Phase.faulting Reports.nullFault.describe).view = s.phase.view := by
      rw [at']
      simp [Phase.view, Pull.reported, null]
    exact ⟨_, _, _, traces_quiet ht (Event.silent_rejected _ _) rfl rfl rfl same (by simp)
      (by simp)⟩
  | start at' =>
    exact ⟨_, _, _, traces_quiet ht (Event.silent_saying _) rfl rfl rfl (by rw [at']; rfl)
      (by simp) (by simp)⟩
  | finish at' =>
    exact ⟨_, _, _, traces_quiet ht (Event.silent_saying _) rfl rfl rfl (by rw [at']; rfl)
      (by simp) fun _ => rfl⟩
  | place at' done | complete at' | closeErrors at' | closeData at' =>
    exact ⟨_, _, _, traces_quiet ht Event.silent_nil rfl rfl rfl (by rw [at']; rfl)
      (by simp) (by simp)⟩

/-! ## Every move is a step of a writer -/

theorem writerStep_move (hm : s.Move out s' out' events)
    (ho : out.errors.queue.closed = s.phase.hasClosedErrors) :
    out.WriterStep (s.writerSide log) out' (s'.writerSide (log ++ events)) := by
  have same : s'.writerSide (log ++ events) = s.writerSide log →
      out.WriterStep (s.writerSide log) out (s'.writerSide (log ++ events)) :=
    fun he => he ▸ .idle
  cases hm with
  | skip at' answer =>
    refine same ?_
    rename_i more
    cases more <;> simp [writerSide, afterCall, afterPack, at']
  | refuse at' done =>
    have hs := Conduit.WriterStep.refuse (w := s.writerSide log) (by simp [writerSide, at'])
      (by simp [writerSide, at']) done
    simpa [writerSide, at'] using hs
  | place at' done =>
    have hs := Conduit.WriterStep.place (w := s.writerSide log) (by simp [writerSide, at']) done
    simpa [writerSide, at'] using hs
  | settle at' done =>
    have waits : (s.writerSide log).pending = some (some _, _) := congrArg Phase.pending at'
    have hs := Conduit.WriterStep.settle waits done
    rename_i p t more data
    cases more <;> simpa [writerSide, afterPack, at'] using hs
  | lose at' done =>
    have waits : (s.writerSide log).pending = some (some _, _) := congrArg Phase.pending at'
    have hs := Conduit.WriterStep.lose waits (by simp [writerSide, at']) done
    simpa [writerSide, at'] using hs
  | report at' null done | reportFault at' done =>
    obtain rfl := Reports.accepted_of_forward (by simpa [at'] using ho) done
    have hs := Conduit.WriterStep.put (w := s.writerSide log) (by simp [writerSide, at']) done
    simpa [writerSide, at'] using hs
  | closeErrors at' =>
    have hs := Conduit.WriterStep.closeErrors (c := out) (w := s.writerSide log)
    simpa [writerSide, at'] using hs
  | closeData at' =>
    have hs := Conduit.WriterStep.closeData (c := out) (w := s.writerSide log)
    simpa [writerSide, at'] using hs
  | _ => exact same (by simp [writerSide, afterCall, *])

end SourceStage
end StagedPipeline
