import StagedPipeline.Proofs.Channel.Exactness
import StagedPipeline.Proofs.Stage.SourceTraces
import StagedPipeline.Proofs.Stage.TransformTraces

/-!
# The pace of a task

A task does not take or ask for a pack before its last one has found a reader. So it is ahead of
its data channel by one pack at most, and by none where it may take another. This needs that
every pack that goes in comes out: a stage that leaves no body in a pack goes on to the next one
without having written anything.
-/
namespace StagedPipeline

/-! ## Producers and handlers that leave every pack full -/

/-- Whether an answer brings a pack with a body, or none and nothing after it. -/
def Production.isFull : Production → Bool
  | .yielded (some p) _ => p.body.isSome
  | .yielded none more => !more
  | _ => true

namespace Producer

variable {π : Type} {f : Producer π} {s : π}

/-- The state after a number of calls. -/
def after (f : Producer π) : Nat → π → π
  | 0, s => s
  | n + 1, s => f.after n (f s).state

/-- Whatever the producer yields has a body. -/
def Full (f : Producer π) (s : π) : Prop := ∀ n, (f (f.after n s)).production.isFull = true

theorem full_now (h : f.Full s) : (f s).production.isFull = true := h 0

theorem full_next (h : f.Full s) : f.Full (f s).state := fun n => h (n + 1)

end Producer

namespace Handler

variable {σ : Type} {h : Handler σ} {m : σ}

/-- What a handler may remember after some calls. -/
inductive Reaches (h : Handler σ) (m : σ) : σ → Prop where
  | here : Reaches h m m
  | call {m'} (before : Reaches h m m') (context : Context) (body : ByteStream) :
      Reaches h m (h m' context body).memory

/-- Whenever the handler succeeds, there is a body in the pack. -/
def Leaves (h : Handler σ) (m : σ) : Prop :=
  ∀ m', h.Reaches m m' → ∀ context body, (h m' context body).verdict = .success →
    (h m' context body).body.isSome = true

theorem reaches_after {context : Context} {body : ByteStream} {m' : σ}
    (hr : h.Reaches (h m context body).memory m') : h.Reaches m m' := by
  induction hr with
  | here => exact .call .here context body
  | call before context body ih => exact .call ih context body

theorem leaves_next (hl : h.Leaves m) (context : Context) (body : ByteStream) :
    h.Leaves (h m context body).memory :=
  fun m' hr => hl m' (reaches_after hr)

end Handler

/-! ## Data channels -/

namespace Handoff

variable {d d' : Handoff (Option Pack)} {place : Option Pack} {t : Nat}

/-- No more was taken than offered, what is in the slot left aside; and that has a body. -/
structure Stocked (d : Handoff (Option Pack)) : Prop where
  tally : d.taken + d.slot.toList.length ≤ d.offered
  full : ∀ place, d.slot = some place → (place.bind Pack.body).isSome = true

theorem stocked_fresh : Stocked {} := ⟨Nat.le_refl _, by simp⟩

/-- What a section does to a channel without taking anything. -/
structure Keeps (d d' : Handoff (Option Pack)) : Prop where
  stocked : d'.Stocked
  taken : d'.taken = d.taken
  closed : d.closed = true → d'.closed = true

theorem keeps_self (h : d.Stocked) : d.Keeps d := ⟨h, rfl, id⟩

theorem keeps_close (h : d.Stocked) : d.Keeps d.close := ⟨⟨h.tally, h.full⟩, rfl, fun _ => rfl⟩

theorem keeps_placed (h : d.Stocked) (full : (place.bind Pack.body).isSome = true)
    (done : d.offer? place = some (.placed t, d')) : d.Keeps d' ∧ d.taken < t := by
  unfold offer? at done
  split at done
  · cases done
  · split at done
    · cases done
    · rename_i slot
      cases done
      have tally := h.tally
      simp only [slot, Option.toList_none, List.length_nil, Nat.add_zero] at tally
      refine ⟨⟨⟨?_, ?_⟩, rfl, id⟩, Nat.lt_succ_of_le tally⟩
      · exact Nat.succ_le_succ tally
      · intro place' hp
        cases hp
        exact full

theorem keeps_settled {taken : Bool} (h : d.Stocked)
    (done : d.settle? t = some (taken, d')) : d.Keeps d' ∧ (taken = true → t ≤ d.taken) := by
  unfold settle? at done
  split at done
  · rename_i reached
    cases done
    exact ⟨keeps_self h, fun _ => reached⟩
  · split at done
    · cases done
      exact ⟨⟨⟨Nat.le_trans (Nat.le_add_right _ _) h.tally, by simp⟩, rfl, id⟩, by simp⟩
    · cases done

theorem stocked_taken (h : d.Stocked) (done : d.take? = some (some place, d')) :
    d'.Stocked ∧ d'.taken = d.taken + 1 ∧ (place.bind Pack.body).isSome = true := by
  unfold take? at done
  split at done
  · cases done
  · split at done
    · rename_i slot
      cases done
      have tally := h.tally
      rw [slot] at tally
      exact ⟨⟨tally, by simp⟩, rfl, h.full _ slot⟩
    · cases done

end Handoff

/-- How a party with `n` packs on its way stands before its data channel: `free` if it may get
another one, and with a write under way or without. -/
structure Pace (n : Nat) (free : Bool) (pending : Option (Option Pack × Nat))
    (d : Handoff (Option Pack)) : Prop where
  lead : n ≤ d.taken + if free then 0 else 1
  ticket : ∀ place t, pending = some (place, t) → n ≤ t

namespace Pace

variable {n : Nat} {free : Bool} {pending : Option (Option Pack × Nat)}
  {d d' : Handoff (Option Pack)}

theorem le (h : Pace n free pending d) : n ≤ d.taken + 1 := by
  have lead := h.lead
  cases free <;> simp at lead <;> omega

theorem of_le (h : n ≤ d.taken + 1) : Pace n false none d := ⟨h, by simp⟩

/-- The reader may take more. -/
theorem taken (h : Pace n free pending d) (more : d.taken ≤ d'.taken) : Pace n free pending d' :=
  ⟨Nat.le_trans h.lead (Nat.add_le_add_right more _), h.ticket⟩

/-- A party that was free gets one more pack. -/
theorem next (h : Pace n true pending d) : Pace (n + 1) false none d :=
  of_le (Nat.succ_le_succ h.lead)

/-- A party gives up what it has under way. -/
theorem stop (h : Pace n free pending d) : Pace n false none d := of_le h.le

end Pace

/-! ## Sources -/

namespace SourceStage

variable {π : Type} {s s' : SourceStage π} {out out' : Conduit} {log events : List Event}

/-- Whether every pack that the producer was asked for has found its reader. -/
@[simp] def Phase.free : Phase → Bool
  | .idle | .starting | .asking => true
  | _ => false

/-- The calls of the producer that have begun. -/
def calls (s : SourceStage π) (log : List Event) : Nat :=
  (Event.collect Event.answer? log).length + if s.phase = .asking then 1 else 0

structure Paced (s : SourceStage π) (log : List Event) (out : Conduit) : Prop where
  full : s.producer.Full s.state
  pace : Pace (Event.collect Event.answer? log).length s.phase.free s.phase.pending out.data
  offer : ∀ p, s.phase.onOffer = some p → p.body.isSome = true

theorem calls_le (h : s.Paced log out) : s.calls log ≤ out.data.taken + 1 := by
  unfold calls
  split
  · rename_i at'
    have lead := h.pace.lead
    simp only [at', Phase.free, ↓reduceIte, Nat.add_zero] at lead
    exact Nat.succ_le_succ lead
  · exact h.pace.le

/-- The reader of the output may go on. -/
theorem paced_around (h : s.Paced log out) (more : out.data.taken ≤ out'.data.taken) :
    s.Paced log out' :=
  ⟨h.full, h.pace.taken more, h.offer⟩

/-- The producer is asked. -/
theorem paced_ask {phase : Phase} (h : s.Paced log out) (at' : s.phase = .asking)
    (answer : (Event.collect Event.answer? events).length = 1) (busy : phase.free = false)
    (none' : phase.pending = none) (offer : ∀ p, phase.onOffer = some p → p.body.isSome = true) :
    (s.afterCall phase).Paced (log ++ events) out := by
  have pace := h.pace
  rw [at'] at pace
  refine ⟨Producer.full_next h.full, ?_, offer⟩
  have count : (Event.collect Event.answer? (log ++ events)).length =
      (Event.collect Event.answer? log).length + 1 := by
    rw [Event.collect_append, List.length_append, answer]
  rw [count, show (s.afterCall phase).phase = phase from rfl, busy, none']
  exact pace.next

/-- A section by which the task stops, or was not producing any more. -/
theorem paced_stop (h : s.Paced log out) (same : s'.producer = s.producer ∧ s'.state = s.state)
    (quiet : Event.collect Event.answer? events = []) (stops : s'.phase.produces = false)
    (taken : out.data.taken ≤ out'.data.taken) : s'.Paced (log ++ events) out' := by
  refine ⟨by rw [same.1, same.2]; exact h.full, ?_, ?_⟩
  · have pace := (h.pace.taken taken).stop
    rw [Event.collect_append, quiet, List.append_nil]
    cases hp : s'.phase <;> first | exact pace | simp [hp] at stops
  · intro p hp
    cases hp' : s'.phase <;> simp_all

theorem paced_move (h : s.Paced log out) (stocked : out.data.Stocked)
    (hm : s.Move out s' out' events) :
    s'.Paced (log ++ events) out' ∧ out.data.Keeps out'.data := by
  have still := Handoff.keeps_self stocked
  have full := Producer.full_now h.full
  cases hm with
  | start at' =>
    refine ⟨⟨h.full, ?_, by simp⟩, still⟩
    simpa [at'] using h.pace
  | fail at' answer | throw at' answer =>
    exact ⟨paced_ask h at' (by simp) rfl rfl (by simp), still⟩
  | @skip more at' answer =>
    rw [answer] at full
    obtain rfl : more = false := by simpa [Production.isFull] using full
    exact ⟨paced_ask h at' (by simp) rfl rfl (by simp [afterPack]), still⟩
  | yield at' answer =>
    rw [answer] at full
    exact ⟨paced_ask h at' (by simp) rfl rfl (by simpa [Production.isFull] using full), still⟩
  | refuse at' done =>
    obtain ⟨_, rfl⟩ := Handoff.offer_refused done
    exact ⟨paced_stop h ⟨rfl, rfl⟩ (by simp) rfl (Nat.le_refl _), still⟩
  | place at' done =>
    have body := h.offer _ (by rw [at']; rfl)
    obtain ⟨keeps, ahead⟩ := Handoff.keeps_placed stocked (by simpa using body) done
    have count := h.pace.le
    refine ⟨⟨h.full, ⟨?_, ?_⟩, ?_⟩, keeps⟩
    · simpa [keeps.taken] using count
    · intro place t ht
      cases ht
      simp only [List.append_nil]
      omega
    · intro p hp
      cases hp
      exact body
  | @settle p t more data at' done =>
    obtain ⟨keeps, reached⟩ := Handoff.keeps_settled stocked done
    have due := h.pace.ticket (some p) t (by rw [at']; rfl)
    have taken : t ≤ data.taken := Nat.le_trans (reached rfl) (Nat.le_of_eq keeps.taken.symm)
    cases more with
    | true =>
      refine ⟨⟨h.full, ⟨?_, by simp [afterPack]⟩, by simp [afterPack]⟩, keeps⟩
      simpa [afterPack] using Nat.le_trans due taken
    | false => exact ⟨paced_stop h ⟨rfl, rfl⟩ (by simp) rfl (Nat.le_of_eq keeps.taken.symm), keeps⟩
  | lose at' done =>
    obtain ⟨keeps, _⟩ := Handoff.keeps_settled stocked done
    exact ⟨paced_stop h ⟨rfl, rfl⟩ (by simp) rfl (Nat.le_of_eq keeps.taken.symm), keeps⟩
  | reject at' null =>
    exact ⟨paced_stop h ⟨rfl, rfl⟩ (by simp) rfl (Nat.le_refl _), still⟩
  | closeData at' =>
    have keeps := Handoff.keeps_close stocked
    exact ⟨paced_stop h ⟨rfl, rfl⟩ (by simp) rfl (Nat.le_refl _), keeps⟩
  | report at' null done | reportFault at' done =>
    exact ⟨paced_stop h ⟨rfl, rfl⟩ (by simp) rfl (Nat.le_refl _), still⟩
  | concede at' | complete at' | closeErrors at' | finish at' =>
    exact ⟨paced_stop h ⟨rfl, rfl⟩ (by simp) rfl (Nat.le_refl _), still⟩

end SourceStage

/-! ## Stages with a handler -/

namespace TransformStage

variable {σ : Type} {s s' : TransformStage σ} {inp inp' out out' : Conduit}
  {log events : List Event}

/-- Whether every pack that was taken has come out and found its reader. -/
@[simp] def Phase.free : Phase → Bool
  | .idle | .starting | .reading => true
  | _ => false

/-- The calls of the handler that have begun. -/
def calls (s : TransformStage σ) (log : List Event) : Nat :=
  (Event.collect Event.handed? log).length + s.phase.inHand.toList.length

structure Paced (s : TransformStage σ) (log : List Event) (inp out : Conduit) : Prop where
  leaves : s.handler.Leaves s.memory
  handed : s.calls log ≤ inp.data.taken
  pace : Pace inp.data.taken s.phase.free s.phase.pending out.data
  offer : ∀ p, s.phase.onOffer = some p → p.body.isSome = true

/-- The writer of the input may go on, and the reader of the output. -/
theorem paced_around (h : s.Paced log inp out) (same : inp'.data.taken = inp.data.taken)
    (more : out.data.taken ≤ out'.data.taken) : s.Paced log inp' out' :=
  ⟨h.leaves, by rw [same]; exact h.handed, by rw [same]; exact h.pace.taken more, h.offer⟩

/-- A section by which the task stops, or was not taking packs any more. -/
theorem paced_stop (h : s.Paced log inp out)
    (same : s'.handler = s.handler ∧ s'.memory = s.memory)
    (quiet : Event.collect Event.handed? events = []) (stops : s'.phase.consumes = false)
    (taken : inp'.data.taken = inp.data.taken) (more : out.data.taken ≤ out'.data.taken) :
    s'.Paced (log ++ events) inp' out' := by
  have none' : s'.phase.inHand = none ∧ s'.phase.onOffer = none ∧ s'.phase.pending = none ∧
      s'.phase.free = false := by
    cases hp : s'.phase <;> simp_all
  obtain ⟨inHand, onOffer, pending, busy⟩ := none'
  refine ⟨by rw [same.1, same.2]; exact h.leaves, ?_, ?_, fun p hp => nomatch onOffer.symm.trans hp⟩
  · have handed := h.handed
    unfold calls at handed ⊢
    rw [Event.collect_append, quiet, List.append_nil, inHand, taken]
    exact Nat.le_trans (Nat.le_add_right _ _) handed
  · rw [taken, pending, busy]
    exact (h.pace.taken more).stop

/-- The handler is called with the pack in hand. -/
theorem paced_handle {body : ByteStream} {context : Context}
    (h : s.Paced log inp out) (at' : s.phase = .handling body context)
    (same : s'.handler = s.handler)
    (memory : s'.memory = (s.handler s.memory context body).memory)
    (call : (Event.collect Event.handed? events).length = 1) (busy : s'.phase.free = false)
    (none' : s'.phase.inHand = none ∧ s'.phase.pending = none)
    (offer : ∀ p, s'.phase.onOffer = some p → p.body.isSome = true) :
    s'.Paced (log ++ events) inp out := by
  refine ⟨by rw [same, memory]; exact Handler.leaves_next h.leaves _ _, ?_, ?_, offer⟩
  · have handed := h.handed
    unfold calls at handed ⊢
    rw [Event.collect_append, List.length_append, call, none'.1]
    simpa [at'] using handed
  · rw [busy, none'.2]
    exact h.pace.stop

theorem paced_move (h : s.Paced log inp out) (hi : inp.data.Stocked) (ho : out.data.Stocked)
    (hm : s.Move inp out s' inp' out' events) :
    s'.Paced (log ++ events) inp' out' ∧ inp'.data.Stocked ∧ inp.data.taken ≤ inp'.data.taken ∧
      out.data.Keeps out'.data := by
  have still := Handoff.keeps_self ho
  have stops : ∀ {s' : TransformStage σ} {inp' out' : Conduit} {events : List Event},
      s'.handler = s.handler ∧ s'.memory = s.memory →
      Event.collect Event.handed? events = [] → s'.phase.consumes = false →
      inp.data.Keeps inp'.data → out.data.Keeps out'.data →
      s'.Paced (log ++ events) inp' out' ∧ inp'.data.Stocked ∧
        inp.data.taken ≤ inp'.data.taken ∧ out.data.Keeps out'.data := by
    intro s' inp' out' events same quiet stops hi' ho'
    exact ⟨paced_stop h same quiet stops hi'.taken (Nat.le_of_eq ho'.taken.symm), hi'.stocked,
      Nat.le_of_eq hi'.taken.symm, ho'⟩
  have hi' := Handoff.keeps_self hi
  cases hm with
  | start at' =>
    refine ⟨⟨h.leaves, ?_, ?_, by simp⟩, hi, Nat.le_refl _, still⟩
    · simpa [calls, at'] using h.handed
    · simpa [at'] using h.pace
  | meetEnd at' done =>
    obtain ⟨_, rfl⟩ := Handoff.take_end done
    exact stops ⟨rfl, rfl⟩ rfl rfl hi' still
  | receive at' done =>
    obtain ⟨stocked, taken, _⟩ := Handoff.stocked_taken hi done
    have pace := h.pace
    rw [at'] at pace
    refine ⟨⟨h.leaves, ?_, ?_, by simp⟩, stocked, ?_, still⟩
    · have handed := h.handed
      unfold calls at handed ⊢
      simp only [at', Phase.inHand, Option.toList_none, List.length_nil] at handed
      simp only [taken]
      simpa using handed
    · simp only [taken]
      exact pace.next
    · simp only [taken]
      exact Nat.le_succ _
  | skip at' done bare =>
    -- every pack that comes in has a body
    obtain ⟨_, _, body⟩ := Handoff.stocked_taken hi done
    rw [bare] at body
    cases body
  | fault at' verdict | fail at' verdict =>
    exact ⟨paced_handle h at' rfl rfl (by simp) rfl ⟨rfl, rfl⟩ (by simp [afterFault, afterFailure]),
      hi, Nat.le_refl _, still⟩
  | @succeed body context at' verdict =>
    have left := h.leaves s.memory .here context body verdict
    obtain ⟨b, hb⟩ := Option.isSome_iff_exists.mp left
    refine ⟨paced_handle h at' rfl rfl (by simp) ?_ ?_ ?_, hi, Nat.le_refl _, still⟩
    all_goals simp [afterSuccess, leftBy, hb]
  | refuse at' done =>
    obtain ⟨_, rfl⟩ := Handoff.offer_refused done
    exact stops ⟨rfl, rfl⟩ (by simp) rfl hi' still
  | place at' done =>
    have body := h.offer _ (by rw [at']; rfl)
    obtain ⟨keeps, ahead⟩ := Handoff.keeps_placed ho (by simpa using body) done
    have count := h.pace.le
    refine ⟨⟨h.leaves, ?_, ⟨?_, ?_⟩, ?_⟩, hi, Nat.le_refl _, keeps⟩
    · simpa [calls, at'] using h.handed
    · simpa [keeps.taken] using count
    · intro place t ht
      cases ht
      omega
    · intro p hp
      cases hp
      exact body
  | @settle p t data at' done =>
    obtain ⟨keeps, reached⟩ := Handoff.keeps_settled ho done
    have due := h.pace.ticket (some p) t (by rw [at']; rfl)
    have taken : t ≤ data.taken := Nat.le_trans (reached rfl) (Nat.le_of_eq keeps.taken.symm)
    refine ⟨⟨h.leaves, ?_, ⟨?_, by simp⟩, by simp⟩, hi, Nat.le_refl _, keeps⟩
    · simpa [calls, at'] using h.handed
    · simpa using Nat.le_trans due taken
  | lose at' done => exact stops ⟨rfl, rfl⟩ (by simp) rfl hi' (Handoff.keeps_settled ho done).1
  | abandon at' | release at' => exact stops ⟨rfl, rfl⟩ rfl rfl (Handoff.keeps_close hi) still
  | closeData at' => exact stops ⟨rfl, rfl⟩ rfl rfl hi' (Handoff.keeps_close ho)
  | finalize at' => exact stops ⟨rfl, rfl⟩ (by simp) rfl hi' still
  | reject at' null => exact stops ⟨rfl, rfl⟩ (by simp) rfl hi' still
  | report at' null done => exact stops ⟨rfl, rfl⟩ (by simp) rfl hi' still
  | reportFault at' done | relay at' done => exact stops ⟨rfl, rfl⟩ (by simp) rfl hi' still
  | concede at' | finish at' => exact stops ⟨rfl, rfl⟩ (by simp) rfl hi' still
  | poll at' done | pollEnd at' done => exact stops ⟨rfl, rfl⟩ rfl rfl hi' still
  | confirm at' done | retry at' more => exact stops ⟨rfl, rfl⟩ rfl rfl hi' still
  | complete at' | closeErrors at' => exact stops ⟨rfl, rfl⟩ rfl rfl hi' still

theorem paced_expire (h : s.Paced log inp out) (he : s.expire? inp = some s') :
    s'.Paced log inp out := by
  obtain ⟨_, _, rfl⟩ := expire_confirming he
  have stopped : { s with phase := .confirming }.Paced (log ++ []) inp out :=
    paced_stop h ⟨rfl, rfl⟩ rfl rfl rfl (Nat.le_refl _)
  rwa [List.append_nil] at stopped

end TransformStage
end StagedPipeline
