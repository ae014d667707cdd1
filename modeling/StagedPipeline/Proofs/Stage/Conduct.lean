import StagedPipeline.Proofs.Stage.TransformTraces

/-!
# What a task makes of its input

The packs with a body are given to the handler one after the other, and what it leaves of them
is written in the same order. Once a call has not succeeded, or a write has found the output
closed, nothing more is taken. The errors that are put are that of the call, if there is one,
and then those of the input. Here this is read off the log of the task alone.
-/
namespace StagedPipeline

variable {σ : Type}

namespace Pack

/-- The packs that have a body, in order. -/
def bodied (ps : List Pack) : List Pack := ps.filter fun p => p.body.isSome

theorem bodied_append (ps qs : List Pack) : bodied (ps ++ qs) = bodied ps ++ bodied qs :=
  List.filter_append ..

theorem bodied_bare {place : Option Pack} (bare : place.bind Pack.body = none) :
    bodied [place].reduceOption = [] := by
  cases place with
  | none => rfl
  | some p =>
    have none' : p.body = none := bare
    simp [bodied, none']

end Pack

namespace Handler

/-- What a handler remembers after it was given packs, and the packs in which it has left or
put a body, in order. -/
def replay (h : Handler σ) (memory : σ) (ps : List Pack) : σ × List Pack :=
  ps.foldl
    (fun (memory, left) p =>
      match p.body with
      | none => (memory, left)
      | some body =>
        let c := h memory p.context body
        (c.memory, left ++ (TransformStage.leftBy c).toList))
    (memory, [])

theorem replay_snoc (h : Handler σ) (memory : σ) (ps : List Pack) (body : ByteStream)
    (context : Context) :
    h.replay memory (ps ++ [⟨some body, context⟩]) =
      ((h (h.replay memory ps).1 context body).memory,
        (h.replay memory ps).2 ++
          (TransformStage.leftBy (h (h.replay memory ps).1 context body)).toList) := by
  rw [replay, List.foldl_append]
  rfl

end Handler

namespace Event

/-- A pack for which the call of the handler has succeeded. -/
@[simp] def succeeded? : Event → Option Pack
  | .handled p .success => some p
  | _ => none

instance : Skips succeeded? := ⟨fun _ => rfl, fun _ => rfl, fun _ _ => rfl⟩

/-- Whether a stage takes a pack, or gives one to its handler. -/
@[simp] def takes : Event → Bool
  | .received _ | .handled _ _ => true
  | _ => false

/-- After a stage has stopped on its own account, it takes no pack and calls no handler. -/
def Orderly (log : List Event) : Prop :=
  log.Pairwise fun e e' => e.stops = true → e'.takes = false

theorem takes_silent {e : Event} (he : e.isSilent = true) : e.takes = false := by
  unfold isSilent at he
  split at he
  · rfl
  · rfl
  · rfl
  · cases he

variable {log events : List Event}

theorem orderly_silent (hl : Orderly log) (silent : Silent events) : Orderly (log ++ events) :=
  neverAfter_quiet hl fun e he => takes_silent (silent e he)

/-- A pack is taken, or given to the handler, only before the stage has stopped. -/
theorem orderly_cons (hl : Orderly log) {e : Event} (silent : Silent events)
    (going : e.takes = true → anyStops log = false) : Orderly (log ++ e :: events) :=
  neverAfter_cons hl (fun e he => takes_silent (silent e he)) going

end Event

namespace TransformStage

/-- The error that a stage puts for a call of its handler. A null error cannot be put, and the
attempt is a fault. -/
@[simp] def ownError? : Event → Option Error
  | .handled _ (.failure e) => some (Pull.reported faultError e)
  | .handled _ (.fault f) => some (faultError f.describe)
  | _ => none

instance : Event.Skips ownError? := ⟨fun _ => rfl, fun _ => rfl, fun _ _ => rfl⟩

/-- What a task has done with its input whose handler began with `memory`. -/
structure Conduct (memory : σ) (s : TransformStage σ) (log : List Event) : Prop where
  handed : Event.collect Event.handed? log ++ s.phase.inHand.toList =
    Pack.bodied (Event.collect Event.received? log).reduceOption
  remembers : s.phase.consumes = true →
    (s.handler.replay memory (Event.collect Event.succeeded? log)).1 = s.memory
  left : (s.handler.replay memory (Event.collect Event.succeeded? log)).2.map some =
    Event.collect Event.sent? log ++ Event.collect Event.lost? log ++
      s.phase.onOffer.toList.map some
  order : Event.Orderly log
  own : (Event.collect ownError? log).length = (Event.collect Event.failure? log).length
  put : Event.collect Event.accepted? log ++ s.phase.owed.toList =
    Event.collect ownError? log ++ Event.collect Event.polled? log

variable {s s' : TransformStage σ} {inp inp' out out' : Conduit} {events log : List Event}
  {x₀ x : Pull.Stage σ} {ps qs : List Pack} {held : Option Pack} {memory : σ}

theorem conduct_launch (s : TransformStage σ) : s.launch.Conduct s.memory [] where
  handed := rfl
  remembers _ := rfl
  left := rfl
  order := List.Pairwise.nil
  own := rfl
  put := rfl

/-- A move that neither takes nor writes nor puts. -/
theorem conduct_quiet (hc : s.Conduct memory log) (silent : Event.Silent events)
    (hh : s'.handler = s.handler) (hm : s'.memory = s.memory)
    (hp : (s'.phase.inHand, s'.phase.onOffer, s'.phase.owed) =
      (s.phase.inHand, s.phase.onOffer, s.phase.owed))
    (going : s'.phase.consumes = true → s.phase.consumes = true) :
    s'.Conduct memory (log ++ events) := by
  simp only [Prod.mk.injEq] at hp
  obtain ⟨inHand, onOffer, owed⟩ := hp
  -- the place of the task enters only by these three, and the log by what is not silent
  constructor <;> try simp only [hh, hm, inHand, onOffer, owed,
    Event.collect_append_silent log silent]
  · exact hc.handed
  · exact fun consumes => hc.remembers (going consumes)
  · exact hc.left
  · exact Event.orderly_silent hc.order silent
  · exact hc.own
  · exact hc.put

/-- As long as a task may take packs, it has put nothing and has nothing to put. -/
theorem conduct_going (ht : s.Traces x₀ log ps qs held x) (hc : s.Conduct memory log)
    (consumes : s.phase.consumes = true) :
    Event.collect Event.lost? log = [] ∧ Event.anyStops log = false ∧
      Event.collect Event.polled? log = [] ∧ Event.collect Event.accepted? log = [] ∧
      Event.collect ownError? log = [] ∧ Event.collect Event.failure? log = [] := by
  obtain ⟨_, lost, stops, polled, put, _, report, _⟩ := traces_going ht consumes
  have failures : Event.collect Event.failure? log = [] := by
    have count := ht.failures
    rw [report] at count
    exact List.length_eq_zero_iff.mp count
  have own : Event.collect ownError? log = [] := by
    have count := hc.own
    rw [failures] at count
    exact List.length_eq_zero_iff.mp count
  exact ⟨lost, stops, polled, put, own, failures⟩

/-- A call that has not succeeded, after which there is an error to put. -/
theorem conduct_failed {body : ByteStream} {context : Context} {v : Handler.Verdict} {e : Error}
    {due : Bool} (ht : s.Traces x₀ log ps qs held x) (hc : s.Conduct memory log)
    (at' : s.phase = .handling body context)
    (own : ownError? (.handled ⟨some body, context⟩ v) = some e) (silent : Event.Silent events)
    (hh : s'.handler = s.handler)
    (hv : s'.phase.view = (false, none, none, some e, due, some false)) :
    s'.Conduct memory (log ++ Event.handled ⟨some body, context⟩ v :: events) := by
  obtain ⟨lost, stops, polled, put, none', failures⟩ := conduct_going ht hc (by rw [at']; rfl)
  have handed := hc.handed
  have left := hc.left
  rw [at'] at handed left
  have bad : Event.failure? (.handled ⟨some body, context⟩ v) = some v ∧
      Event.succeeded? (.handled ⟨some body, context⟩ v) = none := by
    cases v with
    | success => cases own
    | failure _ | fault _ => exact ⟨rfl, rfl⟩
  simp only [Phase.view, Prod.mk.injEq] at hv
  obtain ⟨consumes, inHand, onOffer, owed, _⟩ := hv
  constructor
  case remembers =>
    intro going
    rw [consumes] at going
    cases going
  case order => exact Event.orderly_cons hc.order silent fun _ => stops
  all_goals simp only [inHand, onOffer, owed, hh, own, bad, Event.collect_append,
    Event.collect_cons, Event.collect_silent silent]
  · simpa using handed
  · simpa using left
  · simp [none', failures]
  · simp [put, none', polled]

/-- A call that has succeeded, after which its pack is to be written, if it has a body. -/
theorem conduct_succeed {body : ByteStream} {context : Context}
    (ht : s.Traces x₀ log ps qs held x) (hc : s.Conduct memory log)
    (at' : s.phase = .handling body context) (silent : Event.Silent events) :
    (s.afterSuccess (s.handler s.memory context body).memory
        (leftBy (s.handler s.memory context body))).Conduct memory
      (log ++ Event.handled ⟨some body, context⟩ .success :: events) := by
  obtain ⟨lost, stops, polled, put, own, failures⟩ := conduct_going ht hc (by rw [at']; rfl)
  have handed := hc.handed
  have left := hc.left
  have remembers := hc.remembers (by rw [at']; rfl)
  rw [at'] at handed left
  have replayed := Handler.replay_snoc s.handler memory
    (Event.collect Event.succeeded? log) body context
  rw [remembers] at replayed
  constructor
  case order => exact Event.orderly_cons hc.order silent fun _ => stops
  case remembers =>
    intro _
    simpa [afterSuccess, Event.collect_silent silent] using congrArg Prod.fst replayed
  case left =>
    -- what was left so far was all sent, and a pack left now is the one on offer
    simp only [lost, Phase.onOffer, Option.toList_none, List.map_nil, List.append_nil] at left
    cases hq : leftBy (s.handler s.memory context body) <;> rw [hq] at replayed <;>
      simp [afterSuccess, Event.collect_silent silent, replayed, left, lost]
  all_goals cases leftBy (s.handler s.memory context body) <;>
    simp [afterSuccess, Event.collect_silent silent, ← handed, put, own, polled, failures]

theorem conduct_receive {body : ByteStream} {context : Context}
    (ht : s.Traces x₀ log ps qs held x) (hc : s.Conduct memory log) (at' : s.phase = .reading) :
    { s with phase := .handling body context }.Conduct memory
      (log ++ [Event.received (some ⟨some body, context⟩)]) := by
  obtain ⟨lost, stops, polled, put, own, failures⟩ := conduct_going ht hc (by rw [at']; rfl)
  have handed := hc.handed
  have left := hc.left
  have remembers := hc.remembers (by rw [at']; rfl)
  rw [at'] at handed left
  have handed' : Event.collect Event.handed? log =
      Pack.bodied (Event.collect Event.received? log).reduceOption := by simpa using handed
  constructor
  case order => exact Event.orderly_cons hc.order Event.silent_nil fun _ => stops
  case left => simpa using left
  case handed => simp [List.reduceOption_append, handed', Pack.bodied]
  all_goals simp [remembers, put, own, polled, failures]

/-- A place without a body, which the handler does not see. -/
theorem conduct_skip {place : Option Pack} (ht : s.Traces x₀ log ps qs held x)
    (hc : s.Conduct memory log) (at' : s.phase = .reading) (bare : place.bind Pack.body = none)
    (silent : Event.Silent events) : s.Conduct memory (log ++ Event.received place :: events) := by
  obtain ⟨lost, stops, polled, put, own, failures⟩ := conduct_going ht hc (by rw [at']; rfl)
  have handed := hc.handed
  have left := hc.left
  have remembers := hc.remembers (by rw [at']; rfl)
  constructor
  case order => exact Event.orderly_cons hc.order silent fun _ => stops
  case left => simpa [Event.collect_silent silent] using left
  case handed =>
    have none' := Pack.bodied_bare bare
    simpa [Event.collect_silent silent, List.reduceOption_append, Pack.bodied_append, none'] using
      handed
  all_goals simp [Event.collect_silent silent, remembers, put, own, polled, failures, at']

theorem conduct_settle {p : Pack} {t : Nat} (ht : s.Traces x₀ log ps qs held x)
    (hc : s.Conduct memory log) (at' : s.phase = .awaiting p t) :
    { s with phase := .reading }.Conduct memory (log ++ [Event.wrote (some p) true]) := by
  obtain ⟨lost, stops, polled, put, own, failures⟩ := conduct_going ht hc (by rw [at']; rfl)
  have handed := hc.handed
  have left := hc.left
  have remembers := hc.remembers (by rw [at']; rfl)
  rw [at'] at handed left
  constructor
  case order => exact Event.orderly_cons hc.order Event.silent_nil (by simp)
  case left => simpa [lost] using left
  all_goals simp [← handed, remembers, put, own, polled, failures]

theorem conduct_lose {p : Pack} (ht : s.Traces x₀ log ps qs held x) (hc : s.Conduct memory log)
    (hv : s.phase.view = (true, none, some p, none, false, some false))
    (silent : Event.Silent events) :
    { s with phase := .releasing }.Conduct memory
      (log ++ Event.wrote (some p) false :: events) := by
  simp only [Phase.view, Prod.mk.injEq] at hv
  obtain ⟨consumes, inHand, onOffer, _⟩ := hv
  obtain ⟨lost, stops, polled, put, own, failures⟩ := conduct_going ht hc consumes
  have handed := hc.handed
  have left := hc.left
  rw [inHand] at handed
  rw [onOffer, lost] at left
  constructor
  case order => exact Event.orderly_cons hc.order silent (by simp)
  case left => simpa [Event.collect_silent silent, lost] using left
  all_goals simp [Event.collect_silent silent, ← handed, put, own, polled, failures]

/-- A putting that has ended, of an error of the stage or of its input. -/
theorem conduct_put {e : Error} {phase : Phase} {faulted? : Option Bool}
    (hc : s.Conduct memory log)
    (hv : s.phase.view = (false, none, none, some e, false, faulted?))
    (hp : phase = .releasing ∨ phase = .polling) :
    { s with phase }.Conduct memory (log ++ Event.putting e .accepted) := by
  simp only [Phase.view, Prod.mk.injEq] at hv
  obtain ⟨_, inHand, onOffer, owed, _⟩ := hv
  have handed := hc.handed
  have left := hc.left
  have put := hc.put
  rw [inHand] at handed
  rw [onOffer] at left
  rw [owed] at put
  have order : Event.Orderly (log ++ Event.putting e .accepted) :=
    Event.orderly_cons hc.order (Event.silent_saying _) (by simp)
  rcases hp with rfl | rfl <;> constructor
  case inl.order | inr.order => exact order
  case inl.left | inr.left => simpa using left
  case inl.put | inr.put => simpa using put
  all_goals simp [← handed, hc.own]

theorem conduct_poll {e : Error} (hc : s.Conduct memory log) (at' : s.phase = .polling) :
    { s with phase := .relaying e }.Conduct memory (log ++ [Event.polled e]) := by
  have handed := hc.handed
  have left := hc.left
  have put := hc.put
  rw [at'] at handed left put
  constructor
  case order => exact Event.orderly_cons hc.order Event.silent_nil (by simp)
  case left => simpa using left
  case put =>
    simp only [Phase.owed, Option.toList_none, List.append_nil] at put
    simp [put]
  all_goals simp [← handed, hc.own]

theorem conduct_move (ht : s.Traces x₀ log ps qs held x) (hc : s.Conduct memory log)
    (hm : s.Move inp out s' inp' out' events)
    (ho : out.errors.queue.closed = s.phase.hasClosedErrors) :
    s'.Conduct memory (log ++ events) := by
  cases hm with
  | receive at' done => exact conduct_receive ht hc at'
  | skip at' done bare => exact conduct_skip ht hc at' bare (Event.silent_saying _)
  | fault at' verdict => exact conduct_failed ht hc at' rfl (Event.silent_saying _) rfl rfl
  | fail at' verdict =>
    exact conduct_failed ht hc at' rfl
      (Event.silent_append (Event.silent_saying _) (Event.silent_saying _)) rfl rfl
  | succeed at' verdict => exact conduct_succeed ht hc at' (Event.silent_saying _)
  | settle at' done => exact conduct_settle ht hc at'
  | refuse at' done | lose at' done =>
    exact conduct_lose ht hc (by rw [at']; rfl) (Event.silent_saying _)
  | report at' null done =>
    -- nobody has closed the errors before the task does, so the putting is accepted
    obtain rfl := Reports.accepted_of_forward (by simpa [at'] using ho) done
    rename_i e errors
    have owes : s.phase.view = (false, none, none, some e, false, some false) := by
      rw [at']
      simp [Phase.view, Pull.reported, null]
    exact conduct_put hc owes (.inl rfl)
  | reportFault at' done =>
    obtain rfl := Reports.accepted_of_forward (by simpa [at'] using ho) done
    exact conduct_put hc (by rw [at']; rfl) (.inl rfl)
  | relay at' done =>
    obtain rfl := Reports.accepted_of_forward (by simpa [at'] using ho) done
    exact conduct_put hc (by rw [at']; rfl) (.inr rfl)
  | poll at' done => exact conduct_poll hc at'
  | reject at' null =>
    refine conduct_quiet hc (Event.silent_rejected _ _) rfl rfl ?_ (by simp)
    rw [at']
    simp [Pull.reported, null]
  | start at' =>
    exact conduct_quiet hc (Event.silent_saying _) rfl rfl (by rw [at']; rfl) (by simp [at'])
  | concede at' | finish at' =>
    exact conduct_quiet hc (Event.silent_saying _) rfl rfl (by rw [at']; rfl) (by simp)
  | finalize at' =>
    exact conduct_quiet hc (Finalization.silent_run _ _) rfl rfl (by rw [at']; rfl) (by simp)
  | meetEnd at' done | place at' done | abandon at' | release at' | pollEnd at' done
  | confirm at' done | retry at' more | complete at' | closeErrors at' | closeData at' =>
    exact conduct_quiet hc Event.silent_nil rfl rfl (by rw [at']; rfl) (by simp [at'])

theorem conduct_expire (hc : s.Conduct memory log) (he : s.expire? inp = some s') :
    s'.Conduct memory log := by
  obtain ⟨at', _, rfl⟩ := expire_confirming he
  have quiet : { s with phase := .confirming }.Conduct memory (log ++ []) :=
    conduct_quiet hc Event.silent_nil rfl rfl (by rw [at']; rfl) (by simp)
  rwa [List.append_nil] at quiet

end TransformStage
end StagedPipeline
