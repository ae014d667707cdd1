import StagedPipeline.Proofs.Stage.SourceTraces

/-!
# What a source makes of its producer

The packs that a producer yields are written one after the other, and the producer is not called
again once it has said that there is no more, has failed, or a write has found the channel
closed. One error is put at most. Here this is read off the log of the task alone. Nothing is
assumed of the conduit, whose channels may have been closed by anybody.
-/
namespace StagedPipeline

namespace Event

/-- An error that was put, whether or not it has found the channel open. -/
@[simp] def attempted? : Event → Option Error
  | .put e .accepted => some e
  | .put e .dropped => some e
  | _ => none

instance : Skips attempted? := ⟨fun _ => rfl, fun _ => rfl, fun _ _ => rfl⟩

/-- Where no error was dropped, all that were put and can be have entered the channel. -/
theorem accepted_eq_attempted {log : List Event} (kept : collect dropped? log = []) :
    collect accepted? log = collect attempted? log := by
  refine List.filterMap_congr fun e he => ?_
  cases e with
  | put e how =>
    cases how with
    | dropped => exact absurd he (not_mem_of_collect_nil kept rfl)
    | accepted | rejected _ => rfl
  | _ => rfl

/-- A pack that the producer has yielded. -/
@[simp] def yielded? : Event → Option Pack
  | .asked (.yielded p _) => p
  | _ => none

instance : Skips yielded? := ⟨fun _ => rfl, fun _ => rfl, fun _ _ => rfl⟩

/-- Whether it is the last time that a source has called its producer. -/
@[simp] def concludes : Event → Bool
  | .asked a => !a.goesOn
  | .wrote _ taken => !taken
  | _ => false

@[simp] def asks : Event → Bool
  | .asked _ => true
  | _ => false

theorem asks_silent {e : Event} (he : e.isSilent = true) : e.asks = false := by
  cases e <;> simp_all [isSilent]

theorem concludes_silent {events : List Event} (silent : Silent events) :
    events.any concludes = false := by
  refine List.any_eq_false.mpr fun e he => ?_
  have he := silent e he
  cases e <;> simp_all [isSilent]

end Event

namespace SourceStage

variable {π : Type}

/-- The error that a source puts for an answer of its producer. A null error cannot be put, and
the attempt is a fault. -/
@[simp] def ownError? : Event → Option Error
  | .asked (.failed e) => some (Pull.reported faultError e)
  | .asked (.threw f) => some (faultError f.describe)
  | _ => none

instance : Event.Skips ownError? := ⟨fun _ => rfl, fun _ => rfl, fun _ _ => rfl⟩

/-- What a task has done that has this log. -/
structure Conduct (s : SourceStage π) (log : List Event) : Prop where
  packs : (Event.collect Event.yielded? log).map some =
    Event.collect Event.sent? log ++ Event.collect Event.lost? log ++ s.phase.onOffer.toList.map some
  delivered : s.delivered = (Event.collect Event.sent? log).length
  order : Event.NeverAfter Event.concludes Event.asks log
  going : s.phase.more? = some true → log.any Event.concludes = false
  producing : s.phase.produces = true →
    Event.collect Event.lost? log = [] ∧ Event.collect ownError? log = []
  put : Event.collect Event.attempted? log ++ s.phase.owed.toList = Event.collect ownError? log
  one : (Event.collect ownError? log).length ≤ 1

variable {s s' : SourceStage π} {out out' : Conduit} {events log : List Event}

theorem conduct_idle (hi : s.phase = .idle) (hd : s.delivered = 0) : s.Conduct [] := by
  constructor <;> simp [hi, hd, Event.NeverAfter]

/-- A task that produces has put nothing and has nothing to put. -/
theorem conduct_producing (hc : s.Conduct log) (hp : s.phase.produces = true) :
    Event.collect Event.lost? log = [] ∧ Event.collect ownError? log = [] ∧
      Event.collect Event.attempted? log = [] := by
  obtain ⟨lost, own⟩ := hc.producing hp
  have put := hc.put
  rw [own] at put
  exact ⟨lost, own, (List.append_eq_nil_iff.mp put).1⟩

/-- A move that neither asks nor writes nor puts. -/
theorem conduct_quiet (hc : s.Conduct log) (silent : Event.Silent events)
    (hd : s'.delivered = s.delivered)
    (hp : (s'.phase.produces, s'.phase.more?, s'.phase.onOffer, s'.phase.owed) =
      (s.phase.produces, s.phase.more?, s.phase.onOffer, s.phase.owed)) :
    s'.Conduct (log ++ events) := by
  simp only [Prod.mk.injEq] at hp
  obtain ⟨produces, more, onOffer, owed⟩ := hp
  constructor <;> try simp only [hd, produces, more, onOffer, owed,
    Event.collect_append_silent log silent]
  · exact hc.packs
  · exact hc.delivered
  · exact Event.neverAfter_quiet hc.order fun e he => Event.asks_silent (silent e he)
  · intro goes
    rw [List.any_append, hc.going goes, Event.concludes_silent silent]
    rfl
  · exact hc.producing
  · exact hc.put
  · exact hc.one

theorem conduct_yield {place : Option Pack} {more : Bool} {phase : Phase} (hc : s.Conduct log)
    (at' : s.phase = .asking)
    (hp : phase = match place with
      | some p => .offering p more
      | none => afterPack more)
    (silent : Event.Silent events) :
    (s.afterCall phase).Conduct (log ++ Event.asked (.yielded place more) :: events) := by
  obtain ⟨lost, own, put⟩ := conduct_producing hc (by rw [at']; rfl)
  have goes := hc.going (by rw [at']; rfl)
  have quiet : ∀ e ∈ events, e.asks = false := fun e he => Event.asks_silent (silent e he)
  have packs := hc.packs
  rw [at', lost] at packs
  subst hp
  constructor
  case order => exact Event.neverAfter_cons hc.order quiet fun _ => goes
  case packs =>
    cases place <;> cases more <;>
      simpa [afterCall, afterPack, Event.collect_silent silent, lost] using packs
  all_goals cases place <;> cases more <;>
    simp [afterCall, afterPack, goes, Event.concludes_silent silent, Event.collect_silent silent,
      lost, own, put, hc.delivered]

/-- A call of the producer that has ended with an error or an exception. -/
theorem conduct_failed {a : Production} {e : Error} {phase : Phase} (hc : s.Conduct log)
    (at' : s.phase = .asking) (own : ownError? (.asked a) = some e) (silent : Event.Silent events)
    (hp : (phase.produces, phase.more?, phase.onOffer, phase.owed) = (false, none, none, some e)) :
    (s.afterCall phase).Conduct (log ++ Event.asked a :: events) := by
  obtain ⟨lost, none', put⟩ := conduct_producing hc (by rw [at']; rfl)
  have goes := hc.going (by rw [at']; rfl)
  have quiet : ∀ e ∈ events, e.asks = false := fun e he => Event.asks_silent (silent e he)
  have packs := hc.packs
  rw [at', lost] at packs
  have bare : Event.yielded? (.asked a) = none := by
    cases a with
    | yielded p more => cases own
    | failed _ | threw _ => rfl
  simp only [Prod.mk.injEq] at hp
  obtain ⟨produces, more, onOffer, owed⟩ := hp
  constructor
  case order => exact Event.neverAfter_cons hc.order quiet fun _ => goes
  all_goals simp only [afterCall, produces, more, onOffer, owed, Event.collect_append,
    Event.collect_cons, Event.collect_silent silent, own, bare]
  · simpa [lost] using packs
  · simpa using hc.delivered
  · simp
  · simp
  · simp [put, none']
  · simp [none']

theorem conduct_settle {p : Pack} {t : Nat} {more : Bool} (hc : s.Conduct log)
    (at' : s.phase = .awaiting p t more) :
    { s with phase := afterPack more, delivered := s.delivered + 1 }.Conduct
      (log ++ [Event.wrote (some p) true]) := by
  obtain ⟨lost, own, put⟩ := conduct_producing hc (by rw [at']; rfl)
  have goes := hc.going
  have packs := hc.packs
  rw [at'] at packs goes
  constructor
  case order => exact Event.neverAfter_cons hc.order (by simp) (by simp)
  case packs => cases more <;> simpa [afterPack, lost] using packs
  case going =>
    cases more with
    | true => simpa [afterPack] using goes
    | false => simp [afterPack]
  all_goals cases more <;> simp [afterPack, lost, own, put, hc.delivered]

/-- A write that has found the channel closed. -/
theorem conduct_lose {p : Pack} (hc : s.Conduct log)
    (hv : s.phase.produces = true ∧ s.phase.onOffer = some p) (silent : Event.Silent events) :
    { s with phase := .completing }.Conduct (log ++ Event.wrote (some p) false :: events) := by
  obtain ⟨lost, own, put⟩ := conduct_producing hc hv.1
  have quiet : ∀ e ∈ events, e.asks = false := fun e he => Event.asks_silent (silent e he)
  have packs := hc.packs
  rw [hv.2, lost] at packs
  constructor
  case order => exact Event.neverAfter_cons hc.order quiet (by simp)
  case packs => simpa [Event.collect_silent silent, lost] using packs
  all_goals simp [Event.collect_silent silent, own, put, hc.delivered]

/-- A putting that has ended, accepted or dropped. -/
theorem conduct_put {e : Error} {how : Reports.Putting} {phase : Phase} (hc : s.Conduct log)
    (hv : (s.phase.onOffer, s.phase.owed) = (none, some e)) (hh : ∀ f, how ≠ .rejected f)
    (hp : phase = .completing ∨ phase = .closingErrors) :
    { s with phase }.Conduct (log ++ Event.putting e how) := by
  have packs := hc.packs
  have put := hc.put
  simp only [Prod.mk.injEq] at hv
  rw [hv.1] at packs
  rw [hv.2] at put
  have order : Event.NeverAfter Event.concludes Event.asks (log ++ Event.putting e how) :=
    Event.neverAfter_cons hc.order
      (fun e he => Event.asks_silent (Event.silent_saying _ e he)) (by simp)
  cases how with
  | rejected f => exact absurd rfl (hh f)
  | accepted | dropped =>
    rcases hp with rfl | rfl <;> constructor
    case inl.order | inr.order => exact order
    case inl.packs | inr.packs => simpa using packs
    case inl.put | inr.put => simpa using put
    all_goals simp [hc.delivered, hc.one]

theorem conduct_move (hc : s.Conduct log) (hm : s.Move out s' out' events) :
    s'.Conduct (log ++ events) := by
  cases hm with
  | fail at' answer =>
    exact conduct_failed hc at' rfl
      (Event.silent_append (Event.silent_saying _) (Event.silent_saying _)) rfl
  | throw at' answer => exact conduct_failed hc at' rfl (Event.silent_saying _) rfl
  | skip at' answer | yield at' answer => exact conduct_yield hc at' rfl (Event.silent_saying _)
  | settle at' done => exact conduct_settle hc at'
  | refuse at' done | lose at' done =>
    exact conduct_lose hc (by rw [at']; exact ⟨rfl, rfl⟩) (Event.silent_saying _)
  | report at' null done =>
    refine conduct_put hc ?_ (fun f hf => ?_) (.inl rfl)
    · rw [at']
      simp [Pull.reported, null]
    · exact Reports.forward_not_rejected _ _ f _ (hf ▸ done)
  | reportFault at' done =>
    refine conduct_put hc (by rw [at']; rfl) (fun f hf => ?_) (.inr rfl)
    exact Reports.forward_not_rejected _ _ f _ (hf ▸ done)
  | reject at' null =>
    -- the error that is owed is now that of the fault
    refine conduct_quiet hc (Event.silent_rejected _ _) rfl ?_
    rw [at']
    simp [Pull.reported, null]
  | start at' | concede at' | finish at' =>
    exact conduct_quiet hc (Event.silent_saying _) rfl (by rw [at']; rfl)
  | place at' done | complete at' | closeErrors at' | closeData at' =>
    exact conduct_quiet hc Event.silent_nil rfl (by rw [at']; rfl)

end SourceStage
end StagedPipeline
