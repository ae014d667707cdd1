import StagedPipeline.Proofs.Stage.Delivery
import StagedPipeline.Proofs.Pipeline.Work

/-!
# A source that is read to the end

A reader takes packs at its own pace, until a read finds the end of the data. If nobody but the task
closes the data, the source is never stuck on the way there, gets there in finitely many sections,
and its producer has then been asked exactly until it had no more to say. What it has said by then
is a matter of the producer alone, and every pack that it has yielded was taken.
-/
namespace StagedPipeline

namespace Producer

variable {π : Type} {f : Producer π} {x x' y : π} {as : List Production}

/-- The answers of a producer that is asked until it says that there is no more, or fails or throws,
and the state that it is left in. The flag tells whether it is still to be asked. -/
inductive Runs (f : Producer π) : Bool → π → List Production → π → Prop where
  | ended {x : π} : Runs f false x [] x
  | ask {x y : π} {as : List Production}
      (rest : Runs f (f x).production.goesOn (f x).state as y) :
      Runs f true x ((f x).production :: as) y

/-- A call that gets the last answer. -/
theorem runs_last {a : Production} (answer : (f x).production = a) (state : (f x).state = y)
    (last : a.goesOn = false) : f.Runs true x [a] y := by
  subst answer state
  exact .ask (last ▸ .ended)

/-- A call that gets an answer after which there is more. -/
theorem runs_more {a : Production} (answer : (f x).production = a) (state : (f x).state = x')
    (more : a.goesOn = true) (rest : f.Runs true x' as y) : f.Runs true x (a :: as) y := by
  subst answer state
  exact .ask (more ▸ rest)

theorem runs_ended (h : f.Runs false x as y) : as = [] ∧ y = x := by
  cases h
  exact ⟨rfl, rfl⟩

theorem stopsWithin_of_runs (h : f.Runs true x as y) : f.StopsWithin as.length x := by
  generalize going : true = goes at h
  induction h with
  | ended => cases going
  | ask rest ih =>
    rw [List.length_cons, StopsWithin]
    split
    · rename_i answer
      rw [answer] at ih
      exact ih rfl
    · trivial

end Producer

namespace Event

/-- What the answers of a producer tell is read off the answers in the log. -/
theorem collect_of_answers {β : Type} {f : Event → Option β} {g : Production → Option β}
    (h : ∀ e, f e = e.answer?.bind g) (log : List Event) :
    collect f log = (collect answer? log).filterMap g := by
  rw [collect, collect, List.filterMap_filterMap]
  exact List.filterMap_congr fun e _ => h e

theorem collect_yielded (log : List Event) :
    collect yielded? log = (collect answer? log).filterMap Production.pack? := by
  refine collect_of_answers (fun e => ?_) log
  cases e with
  | asked a => cases a <;> rfl
  | _ => rfl

/-- What has entered a channel was put. -/
theorem accepted_eq_nil {log : List Event} (none' : collect attempted? log = []) :
    collect accepted? log = [] := by
  refine List.filterMap_eq_nil_iff.mpr fun e he => ?_
  have silent := List.filterMap_eq_nil_iff.mp none' e he
  cases e with
  | put e how => cases how <;> simp_all
  | _ => rfl

end Event

/-- The error that a source puts for an answer. -/
def Production.report? (a : Production) : Option Error := SourceStage.ownError? (.asked a)

@[simp] theorem Production.report?_yielded (p : Option Pack) (more : Bool) :
    (Production.yielded p more).report? = none := rfl

@[simp] theorem Production.report?_failed (e : Error) :
    (Production.failed e).report? = some (Pull.reported SourceStage.faultError e) := rfl

namespace SourceStage

variable {π : Type} {f : Producer π} {x y : π} {as rest : List Production} {goes : Bool}
  {s s' : SourceStage π} {out out' : Conduit} {events log : List Event}

theorem collect_ownError (log : List Event) :
    Event.collect ownError? log =
      (Event.collect Event.answer? log).filterMap Production.report? := by
  refine Event.collect_of_answers (fun e => ?_) log
  cases e <;> rfl

/-- Where a task stands in the run of its producer: it has got the first answers of the run, and
those of `rest` are still to come if the producer goes on. -/
structure Follows (f : Producer π) (as : List Production) (y : π) (s : SourceStage π)
    (log : List Event) (goes : Bool) (rest : List Production) : Prop where
  producer : s.producer = f
  answers : as = Event.collect Event.answer? log ++ rest
  runs : f.Runs goes s.state rest y
  more : ∀ b, s.phase.more? = some b → goes = b
  /-- A task has stopped because there is no more, or because it has lost a pack. -/
  stopped : s.phase.produces = false → goes = false ∨ Event.collect Event.lost? log ≠ []

/-- A call of the producer, which is the next one of its run. -/
theorem follows_ask {phase : Phase} (hf : s.Follows f as y log goes rest) (at' : s.phase = .asking)
    (answer : Event.collect Event.answer? events = [(s.producer s.state).production])
    (more : ∀ b, phase.more? = some b → (s.producer s.state).production.goesOn = b)
    (stopped : phase.produces = false → (s.producer s.state).production.goesOn = false) :
    ∃ goes' rest', (s.afterCall phase).Follows f as y (log ++ events) goes' rest' := by
  obtain ⟨rfl, answers, runs, going, _⟩ := hf
  obtain rfl := going true (by rw [at']; rfl)
  cases runs with
  | ask later =>
    exact ⟨_, _, rfl, by simp [answers, answer], later, more, fun h => .inl (stopped h)⟩

/-- A section that does not call the producer. What it may do is to stop the task. -/
theorem follows_quiet (hf : s.Follows f as y log goes rest)
    (quiet : Event.collect Event.answer? events = [])
    (same : (s'.producer, s'.state) = (s.producer, s.state))
    (more : ∀ b, s'.phase.more? = some b → goes = b)
    (stopped : s'.phase.produces = false →
      s.phase.produces = false ∨ goes = false ∨ Event.collect Event.lost? events ≠ []) :
    s'.Follows f as y (log ++ events) goes rest := by
  obtain ⟨producer, state⟩ := Prod.mk.inj same
  refine ⟨producer.trans hf.producer, ?_, state ▸ hf.runs, more, fun h => ?_⟩
  · rw [Event.collect_append, quiet, List.append_nil]
    exact hf.answers
  · rw [Event.collect_append]
    rcases stopped h with before | ended | lost
    · exact (hf.stopped before).imp_right fun lost => List.append_ne_nil_of_left_ne_nil lost _
    · exact .inl ended
    · exact .inr (List.append_ne_nil_of_right_ne_nil _ lost)

theorem follows_move (hf : s.Follows f as y log goes rest) (hm : s.Move out s' out' events) :
    ∃ goes' rest', s'.Follows f as y (log ++ events) goes' rest' := by
  have more := hf.more
  cases hm with
  | fail at' answer | throw at' answer =>
    exact follows_ask hf at' (by simp [answer]) (by simp) (by simp [answer])
  | @skip more' at' answer =>
    refine follows_ask hf at' (by simp [answer]) ?_ ?_ <;> cases more' <;> simp [answer, afterPack]
  | yield at' answer => exact follows_ask hf at' (by simp [answer]) (by simp [answer]) (by simp)
  | @settle p t more' data at' done =>
    rw [at'] at more
    obtain rfl := more more' rfl
    refine ⟨_, _, follows_quiet hf (by simp) rfl ?_ ?_⟩ <;> cases goes <;> simp [afterPack]
  | refuse at' done | lose at' done =>
    exact ⟨_, _, follows_quiet hf (by simp) rfl (by simp) (by simp)⟩
  | start at' | place at' done =>
    rw [at'] at more
    exact ⟨_, _, follows_quiet hf (by simp) rfl more (by simp)⟩
  | _ => exact ⟨_, _, follows_quiet hf (by simp) rfl (by simp) (by simp [*])⟩

/-- A pack is lost only where somebody else has closed the data. -/
theorem lost_move (hm : s.Move out s' out' events)
    (lost : Event.collect Event.lost? events ≠ []) :
    out.data.closed = true ∧ s.phase.hasClosedData = false := by
  cases hm with
  | refuse at' done => exact ⟨(Handoff.offer_refused done).1, by rw [at']; rfl⟩
  | @lose p t more data at' done =>
    refine ⟨?_, by rw [at']; rfl⟩
    unfold Handoff.settle? at done
    split at done
    · cases done
    · split at done
      · assumption
      · cases done
  | _ => simp at lost

theorem capacity_move (hm : s.Move out s' out' events) :
    out'.errors.capacity = out.errors.capacity := by
  cases hm with
  | report at' null done | reportFault at' done =>
    rcases Reports.forward_cases done with ⟨_, _, rfl⟩ | ⟨_, _, rfl⟩ <;> rfl
  | _ => rfl

end SourceStage

namespace Delivery

variable {π : Type} {f : Producer π} {x y : π} {as : List Production} {s₀ t u : Delivery π}
  {a : Act} {acts : List Act} {n : Nat}

/-- A read finds the end of the data. -/
def AtEnd (t : Delivery π) : Prop := ∃ data, t.outlet.data.take? = some (none, data)

theorem atEnd_iff : t.AtEnd ↔ t.outlet.data.closed = true := by
  refine ⟨fun ⟨data, done⟩ => (Handoff.take_end done).1, fun closed => ?_⟩
  exact ⟨t.outlet.data, by rw [Handoff.take?, if_pos closed]⟩

/-- What is true of a source whose producer is in a run, besides what is true of every source. -/
structure Following (f : Producer π) (as : List Production) (y : π) (t : Delivery π) : Prop where
  sound : Sound t
  follows : ∃ goes rest, t.stage.Follows f as y t.log goes rest
  whole : t.shut = false → Event.collect Event.lost? t.log = []
  room : t.outlet.errors.capacity ≠ 0

theorem create_eq {capacity : UInt64} (room : capacity ≠ 0) (interval : Int) :
    ∃ outlet : Conduit, outlet.errors.capacity = capacity ∧
      create (some (f, x)) capacity interval =
        .ok { stage := { producer := f, state := x }, outlet } := by
  refine ⟨{ errors := { queue := { capacity }, interval := if 0 < interval then interval else
    Reports.defaultInterval } }, rfl, ?_⟩
  simp [create, SourceStage.create, Conduit.create, Reports.create, room, bind, Except.bind, pure,
    Except.pure, Except.map]

theorem following_create {capacity : UInt64} {interval : Int} (runs : f.Runs true x as y)
    (room : capacity ≠ 0) (hs : create (some (f, x)) capacity interval = .ok s₀) :
    Following f as y s₀ := by
  have sound := sound_create hs
  obtain ⟨outlet, capacity', made⟩ := create_eq (f := f) (x := x) room interval
  obtain rfl := Except.ok.inj (made.symm.trans hs)
  exact ⟨sound, ⟨true, as, rfl, rfl, runs, by simp, by simp⟩, fun _ => rfl, capacity'.symm ▸ room⟩

theorem following_step (ht : Following f as y t) (hu : t.step? a = some u) :
    Following f as y u := by
  have sound := sound_step ht.sound hu
  obtain ⟨before, ⟨goes, rest, follows⟩, whole, room⟩ := ht
  cases happens_of_step hu with
  | launch fresh =>
    have idle := idle_of_fresh before fresh
    have launched : t.stage.launch.Follows f as y (t.log ++ []) goes rest :=
      SourceStage.follows_quiet follows rfl rfl
        (fun b more => follows.more b (by rw [idle]; exact more)) (by simp [SourceStage.launch])
    exact ⟨sound, ⟨goes, rest, by simpa using launched⟩, whole, room⟩
  | @work stage outlet events move =>
    refine ⟨sound, SourceStage.follows_move follows move, fun alone => ?_,
      SourceStage.capacity_move move ▸ room⟩
    have none' : Event.collect Event.lost? events = [] := by
      by_contra lost
      obtain ⟨found, open'⟩ := SourceStage.lost_move move lost
      rw [before.closed, open', alone] at found
      cases found
    rw [Event.collect_append, whole alone, none', List.append_nil]
  | check done =>
    obtain ⟨_, _, rfl⟩ := Reports.receive_error done
    exact ⟨sound, ⟨goes, rest, follows⟩, whole, room⟩
  | closeData => exact ⟨sound, ⟨goes, rest, follows⟩, by simp, room⟩
  | _ => exact ⟨sound, ⟨goes, rest, follows⟩, whole, room⟩

/-! ## On the way to the end -/

/-- Until it puts its one error, a source has left its error channel empty. -/
theorem put_ready (ht : Following f as y t) (hp : t.stage.phase.puts = true) :
    (t.stage.advance? t.outlet).isSome = true := by
  have owes := SourceStage.Phase.owed_of_puts hp
  have put := congrArg List.length ht.sound.conduct.put
  have one := ht.sound.conduct.one
  rw [List.length_append] at put
  have none' : Event.collect Event.attempted? t.log = [] := List.eq_nil_of_length_eq_zero (by omega)
  have errors := ht.sound.errors
  rw [Event.accepted_eq_nil none'] at errors
  have empty := (List.append_eq_nil_iff.mp errors.symm).2
  have room : t.outlet.errors.capacity.toNat ≠ 0 := fun zero => ht.room (UInt64.toNat_inj.mp zero)
  refine SourceStage.put_ready hp ?_
  rw [empty]
  exact Nat.pos_of_ne_zero room

theorem starts_eq_nil_of_idle (ht : Sound t) (idle : t.stage.phase = .idle) : t.starts = [] := by
  obtain ⟨l, fits⟩ := ht.life
  rw [idle] at fits
  have waiting : l = .waiting := by
    have era := fits.era
    cases l <;> first | rfl | cases era
  exact (Life.starts_eq_nil_iff ht.starts).mpr (by rw [fits.lifecycle, waiting]; rfl)

/-- A source that was started is not stuck before the end: its task goes on, or a pack waits. -/
theorem goes_on (ht : Following f as y t) (begun : t.starts ≠ []) (before : ¬t.AtEnd) :
    (t.step? .work).isSome = true ∨ (t.step? .take).isSome = true := by
  have busy : t.stage.phase ≠ .idle := fun idle => begun (starts_eq_nil_of_idle ht.sound idle)
  rcases SourceStage.moves_or_waits busy ht.sound.data (put_ready ht) with moves | full | ended
  · exact .inl (by simpa [step?] using moves)
  · have waits := Handoff.take_ready (.inr full.pack)
    exact .inr (by simpa [step?] using waits)
  · refine absurd (atEnd_iff.mpr ?_) before
    rw [ht.sound.closed, ended]
    rfl

/-- The sections and takes that are left, if the producer is called `n` times more at most. -/
def effort (n : Nat) (t : Delivery π) : Nat :=
  (if t.stage.phase = .idle then SourceStage.Phase.starting else t.stage.phase).work n 0 +
    t.outlet.load 0

/-- Every section of the task and every pack that is taken lessens what is left, and nothing that
anybody does adds to it. -/
theorem effort_step (within : t.stage.Within n) (sound : Sound t) (before : ¬t.AtEnd)
    (hu : t.step? a = some u) :
    ∃ n', u.stage.Within n' ∧ u.effort n' + [a].count .work + [a].count .take ≤ t.effort n := by
  cases happens_of_step hu with
  | launch fresh =>
    have idle := idle_of_fresh sound fresh
    refine ⟨n, fun _ => within (by rw [idle]; rfl), ?_⟩
    simp [effort, SourceStage.launch, idle]
  | work move =>
    obtain ⟨n', within', less⟩ := SourceStage.work_move within move [] ([] : List (Station Unit))
    obtain ⟨busy, busy'⟩ := SourceStage.busy_move move
    refine ⟨n', within', ?_⟩
    simp only [effort, if_neg busy, if_neg busy']
    exact less
  | take done =>
    have less := Handoff.load_taken (j := 0) done
    refine ⟨n, within, ?_⟩
    simp [effort, Conduit.load]
    omega
  | meetEnd closed => exact absurd (atEnd_iff.mpr closed) before
  | check done =>
    have less := Reports.load_received (j := 0) done
    refine ⟨n, within, ?_⟩
    simp [effort, Conduit.load]
    omega
  | _ => exact ⟨n, within, Nat.le_refl _⟩

theorem atEnd_step (hs : t.AtEnd) (hu : t.step? a = some u) : u.AtEnd := by
  rw [atEnd_iff] at hs ⊢
  cases happens_of_step hu with
  | work move =>
    rcases SourceStage.closed_move move with ⟨_, same⟩ | ⟨_, closed⟩
    · exact same.trans hs
    · exact closed
  | take done => exact (Handoff.take_closed done).trans hs
  | closeData => rfl
  | _ => exact hs

/-- Before the end, so many sections of the task and takes are all that there have been. -/
theorem count_le (within : t.stage.Within n) (sound : Sound t) (hr : t.run? acts = some u)
    (before : ¬u.AtEnd) : acts.count .work + acts.count .take ≤ t.effort n := by
  induction acts generalizing t n with
  | nil => simp
  | cons a acts ih =>
    obtain ⟨t', ht', hr⟩ := Option.bind_eq_some_iff.mp hr
    have open' : ¬t.AtEnd := fun atEnd =>
      before (run_invariant atEnd_step (atEnd_step atEnd ht') hr)
    obtain ⟨n', within', less⟩ := effort_step within sound open' ht'
    have rest := ih within' (sound_step sound ht') hr
    rw [← List.singleton_append, List.count_append, List.count_append]
    omega

/-! ## At the end -/

/-- The number of calls of the producer. -/
def asked (t : Delivery π) : Nat := (Event.collect Event.answer? t.log).length

/-- These packs were taken, in this order, and the source has counted them. -/
structure Delivered (packs : List Pack) (t : Delivery π) : Prop where
  taken : Event.collect Event.received? t.downstream = packs.map some
  counted : t.stage.delivered = packs.length

/-- These errors were put, and whoever reads them has found them or will, unless somebody else has
closed the errors. -/
structure Reported (errors : List Error) (t : Delivery π) : Prop where
  put : Event.collect Event.attempted? t.log = errors
  found : t.errorsShut = false →
    Event.collect Event.polled? t.downstream ++ t.outlet.errors.queue.queue = errors

/-- What a source leaves whose producer was asked for a whole run. -/
structure Exhausted (as : List Production) (y : π) (t : Delivery π) : Prop where
  answers : Event.collect Event.answer? t.log = as
  state : t.stage.state = y
  packs : t.Delivered (as.filterMap Production.pack?)
  errors : t.Reported (as.filterMap Production.report?)

theorem exhausted (ht : Following f as y t) (alone : t.shut = false) (atEnd : t.AtEnd) :
    t.Exhausted as y := by
  obtain ⟨sound, ⟨goes, rest, follows⟩, whole, _⟩ := ht
  have past : t.stage.phase.hasClosedData = true := by
    have closed := sound.closed
    rw [atEnd_iff.mp atEnd, alone, Bool.or_false] at closed
    exact closed.symm
  obtain ⟨stopped, onOffer, pending, owed⟩ : t.stage.phase.produces = false ∧
      t.stage.phase.onOffer = none ∧ t.stage.phase.pending = none ∧ t.stage.phase.owed = none := by
    cases hp : t.stage.phase <;> simp_all
  -- nothing was lost, so the task has stopped because there was no more
  have lost := whole alone
  obtain rfl := (follows.stopped stopped).resolve_right (not_not_intro lost)
  obtain ⟨rfl, rfl⟩ := Producer.runs_ended follows.runs
  have answers : Event.collect Event.answer? t.log = as := by simpa using follows.answers.symm
  have taken : Event.collect Event.received? t.downstream =
      (as.filterMap Production.pack?).map some := by
    have data := sound.data
    have packs := sound.conduct.packs
    rw [pending] at data
    rw [lost, onOffer, Event.collect_yielded, answers] at packs
    simpa [Handoff.between_rest data] using packs.symm
  have counted := (delivered_bounds sound).2.2 pending
  have put : Event.collect Event.attempted? t.log = as.filterMap Production.report? := by
    have put := sound.conduct.put
    rw [owed, SourceStage.collect_ownError, answers] at put
    simpa using put
  refine ⟨answers, rfl, ⟨taken, ?_⟩, ⟨put, fun free => ?_⟩⟩
  · rw [counted, taken, List.length_map]
  · rw [← sound.errors, Event.accepted_eq_attempted (sound.kept free), put]

/-- A source that can be read to the end: once it was started it goes on until a read finds the end,
which takes so many sections and takes at most. And what is true there if nobody but the task has
closed the data. -/
structure ReadToEnd (s₀ : Delivery π) (Outcome : Delivery π → Prop) : Prop where
  goesOn : ∀ acts t, s₀.run? acts = some t → t.starts ≠ [] → ¬t.AtEnd →
    (t.step? .work).isSome = true ∨ (t.step? .take).isSome = true
  ends : ∃ limit, ∀ acts t, s₀.run? acts = some t → ¬t.AtEnd →
    acts.count .work + acts.count .take ≤ limit
  outcome : ∀ acts t, s₀.run? acts = some t → t.shut = false → t.AtEnd → Outcome t

theorem ReadToEnd.imp {P Q : Delivery π → Prop} (h : s₀.ReadToEnd P) (hpq : ∀ t, P t → Q t) :
    s₀.ReadToEnd Q :=
  ⟨h.goesOn, h.ends, fun acts t hr alone atEnd => hpq t (h.outcome acts t hr alone atEnd)⟩

/-- A run to the end, told by evaluation. -/
theorem ReadToEnd.exists_outcome {Outcome : Delivery π → Prop} {x : Except Fault (Delivery π)}
    (reads : s₀.ReadToEnd Outcome) (made : x = .ok s₀) (acts : List Act)
    (runs : x.toOption.any (fun s => (s.run? acts).any fun t => t.outlet.data.closed && !t.shut)) :
    ∃ t, s₀.run? acts = some t ∧ t.AtEnd ∧ Outcome t := by
  obtain ⟨s, hs, runs⟩ := exists_ok_of_any runs
  obtain rfl := Except.ok.inj (made.symm.trans hs)
  obtain ⟨t, hr, ends⟩ := (Option.any_eq_true _ _).mp runs
  obtain ⟨closed, alone⟩ : t.outlet.data.closed = true ∧ t.shut = false := by simpa using ends
  have atEnd := atEnd_iff.mpr closed
  exact ⟨t, hr, atEnd, reads.outcome acts t hr alone atEnd⟩

/-- A source around a producer that stops can be read to the end, whatever its reader's pace. -/
theorem exists_readToEnd {capacity : UInt64} (runs : f.Runs true x as y) (room : capacity ≠ 0)
    (interval : Int) : ∃ s₀, create (some (f, x)) capacity interval = .ok s₀ ∧
      s₀.ReadToEnd (Exhausted as y) := by
  obtain ⟨outlet, _, made⟩ := create_eq (f := f) (x := x) room interval
  have start := following_create runs room made
  let most := effort as.length { stage := { producer := f, state := x }, outlet }
  refine ⟨_, made, ?_, ⟨most, ?_⟩, ?_⟩
  · intro acts t hr begun before
    exact goes_on (run_invariant following_step start hr) begun before
  · intro acts t hr before
    exact count_le (fun _ => Producer.stopsWithin_of_runs runs) start.sound hr before
  · intro acts t hr alone atEnd
    exact exhausted (run_invariant following_step start hr) alone atEnd

end Delivery
end StagedPipeline
