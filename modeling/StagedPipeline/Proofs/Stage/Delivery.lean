import StagedPipeline.Stage.Delivery
import StagedPipeline.Proofs.Channel.Exactness
import StagedPipeline.Proofs.Stage.Life
import StagedPipeline.Proofs.Stage.SourceConduct

/-!
# A source hands on what its producer answers

Every section of a source keeps the account of what was answered, what was written and what was
taken behind. So the packs that are taken are a beginning of those that the producer has yielded,
whoever reads and closes, and the only error of the source is that of its last answer.
-/
namespace StagedPipeline

/-! ## What a section does to the conduit -/

namespace SourceStage

variable {π : Type} {s s' : SourceStage π} {out out' : Conduit} {events : List Event}

theorem between_move {sent taken : List (Option Pack)}
    (hb : out.data.Between sent s.phase.pending taken) (hm : s.Move out s' out' events) :
    out'.data.Between (sent ++ Event.collect Event.sent? events) s'.phase.pending taken := by
  cases hm with
  | @skip more at' answer =>
    cases more <;> simpa [at', afterCall, afterPack] using hb
  | refuse at' done =>
    obtain ⟨_, rfl⟩ := Handoff.offer_refused done
    simpa [at'] using hb
  | place at' done =>
    rw [at'] at hb
    simpa using (Handoff.between_place hb done).1
  | @settle p t more data at' done =>
    rw [at'] at hb
    obtain ⟨rfl, settled⟩ := Handoff.between_settle_taken hb done
    cases more <;> simpa [afterPack] using settled
  | lose at' done =>
    rw [at'] at hb
    simpa using (Handoff.between_settle_lost hb done).2.2
  | closeData at' =>
    rw [at'] at hb
    exact (List.append_nil sent).symm ▸ Handoff.between_close hb
  | closeErrors at' =>
    rw [at'] at hb
    exact (List.append_nil sent).symm ▸ hb
  | _ => simpa [afterCall, *] using hb

/-- A section closes the data channel, or leaves it as it was. -/
theorem closed_move (hm : s.Move out s' out' events) :
    (s'.phase.hasClosedData = s.phase.hasClosedData ∧ out'.data.closed = out.data.closed) ∨
      (s'.phase.hasClosedData = true ∧ out'.data.closed = true) := by
  cases hm with
  | @skip more at' answer => cases more <;> simp [at', afterCall, afterPack]
  | refuse at' done =>
    obtain ⟨_, rfl⟩ := Handoff.offer_refused done
    simp [at']
  | place at' done => simp [at', Handoff.offer_closed done]
  | @settle p t more data at' done =>
    have same := (Handoff.settle_counts done).2.2
    cases more <;> simp [same, at', afterPack]
  | lose at' done => simp [(Handoff.settle_counts done).2.2, at']
  | closeData at' => exact .inr ⟨rfl, rfl⟩
  | closeErrors at' => exact .inl ⟨by simp [at'], rfl⟩
  | _ => simp [afterCall, *]

/-- A section closes the error channel, or leaves it as it was. -/
theorem errorsClosed_move (hm : s.Move out s' out' events) :
    (s'.phase.hasClosedErrors = s.phase.hasClosedErrors ∧
        out'.errors.queue.closed = out.errors.queue.closed) ∨
      (s'.phase.hasClosedErrors = true ∧ out'.errors.queue.closed = true) := by
  cases hm with
  | @skip more at' answer => cases more <;> simp [at', afterCall, afterPack]
  | @settle p t more data at' done => cases more <;> simp [at', afterPack]
  | report at' null done | reportFault at' done =>
    rcases Reports.forward_cases done with ⟨_, _, rfl⟩ | ⟨_, _, rfl⟩ <;> simp [at']
  | closeErrors at' => exact .inr ⟨rfl, rfl⟩
  | closeData at' => exact .inl ⟨by simp [at'], rfl⟩
  | _ => simp [afterCall, *]

/-- The errors that are accepted enter the channel; one is dropped only where it is closed. -/
theorem errors_move (hm : s.Move out s' out' events) :
    out'.errors.queue.queue = out.errors.queue.queue ++ Event.collect Event.accepted? events ∧
      (Event.collect Event.dropped? events ≠ [] →
        out.errors.queue.closed = true ∧ s.phase.hasClosedErrors = false) := by
  cases hm with
  | report at' null done | reportFault at' done =>
    rcases Reports.forward_cases done with ⟨rfl, _, rfl⟩ | ⟨rfl, closed, rfl⟩
    · simp
    · simp [closed, at']
  | closeErrors at' | closeData at' => exact ⟨(List.append_nil _).symm, by simp⟩
  | _ => simp

/-- A section is carried out once the task was launched. -/
theorem busy_move (hm : s.Move out s' out' events) : s.phase ≠ .idle ∧ s'.phase ≠ .idle := by
  cases hm with
  | @skip more at' answer => cases more <;> simp [at', afterCall, afterPack]
  | @settle p t more data at' done => cases more <;> simp [at', afterPack]
  | _ => simp [afterCall, *]

end SourceStage

/-- What succeeds with a value of a kind, told by evaluation. -/
theorem exists_ok_of_any {ε α : Type} {x : Except ε α} {p : α → Bool}
    (h : x.toOption.any p = true) : ∃ a, x = .ok a ∧ p a = true := by
  cases x with
  | error => cases h
  | ok a => exact ⟨a, rfl, h⟩

namespace Delivery

variable {π : Type} {s₀ t u : Delivery π} {a : Act}

/-- Everything that an act can do. -/
inductive Happens (t : Delivery π) : Act → Delivery π → Prop where
  | launch (fresh : t.stage.lifecycle = .notStarted) :
      Happens t .start { t with stage := t.stage.launch, starts := t.starts ++ [none] }
  | again (busy : t.stage.lifecycle ≠ .notStarted) :
      Happens t .start { t with starts := t.starts ++ [some SourceStage.restartFault] }
  | work {stage outlet events} (move : t.stage.Move t.outlet stage outlet events) :
      Happens t .work { t with
        stage, outlet
        log := t.log ++ events
        faults := t.faults ++ t.stage.reported events }
  | take {p data} (done : t.outlet.data.take? = some (some p, data)) :
      Happens t .take { t with
        outlet := { t.outlet with data }
        downstream := t.downstream ++ [.received p] }
  | meetEnd (closed : t.outlet.data.closed = true) : Happens t .take t
  | check {e errors} (done : t.outlet.errors.receive? = some (some e, errors)) :
      Happens t .check { t with
        outlet := { t.outlet with errors }
        downstream := t.downstream ++ [.polled e] }
  | meetErrorsEnd (closed : t.outlet.errors.queue.closed = true) : Happens t .check t
  | closeData : Happens t .closeData { t with outlet := t.outlet.closeData, shut := true }
  | closeErrors : Happens t .closeErrors { t with
      outlet := t.outlet.closeErrors, errorsShut := true }

theorem happens_of_step (hu : t.step? a = some u) : t.Happens a u := by
  cases a with
  | start =>
    by_cases fresh : t.stage.lifecycle = .notStarted
    · rw [step?, SourceStage.start, if_pos fresh] at hu
      exact Option.some.inj hu ▸ .launch fresh
    · rw [step?, SourceStage.start, if_neg fresh] at hu
      exact Option.some.inj hu ▸ .again fresh
  | work =>
    simp only [step?, Option.map_eq_some_iff, Prod.exists] at hu
    obtain ⟨stage, outlet, events, ha, rfl⟩ := hu
    exact .work (SourceStage.move_of_advance ha)
  | take =>
    simp only [step?, Option.map_eq_some_iff, Prod.exists] at hu
    obtain ⟨item, data, done, rfl⟩ := hu
    cases item with
    | some p => exact .take done
    | none =>
      obtain ⟨closed, rfl⟩ := Handoff.take_end done
      simpa using Happens.meetEnd closed
  | check =>
    simp only [step?, Option.map_eq_some_iff, Prod.exists] at hu
    obtain ⟨item, errors, done, rfl⟩ := hu
    cases item with
    | some e => exact .check done
    | none =>
      obtain ⟨closed, _, rfl⟩ := Reports.receive_end done
      simpa using Happens.meetErrorsEnd closed
  | closeData => exact Option.some.inj hu ▸ .closeData
  | closeErrors => exact Option.some.inj hu ▸ .closeErrors

/-- What is true of a source and those behind it. -/
structure Sound (t : Delivery π) : Prop where
  conduct : t.stage.Conduct t.log
  life : ∃ l : Life, l.Fits t.stage.phase.era t.stage.lifecycle t.stage.faulted t.faults.length
  faults : ∀ f ∈ t.faults, (∃ what, f.1 = SourceStage.faultError what) ∧
    f ∈ Event.collect Event.delivery? t.log
  starts : Life.Starts SourceStage.restartFault t.stage.lifecycle t.starts
  data : t.outlet.data.Between (Event.collect Event.sent? t.log) t.stage.phase.pending
    (Event.collect Event.received? t.downstream)
  closed : t.outlet.data.closed = (t.stage.phase.hasClosedData || t.shut)
  errors : Event.collect Event.accepted? t.log =
    Event.collect Event.polled? t.downstream ++ t.outlet.errors.queue.queue
  errorsClosed : t.outlet.errors.queue.closed = (t.stage.phase.hasClosedErrors || t.errorsShut)
  kept : t.errorsShut = false → Event.collect Event.dropped? t.log = []

theorem sound_create {producer : Option (Producer π × π)} {capacity : UInt64} {interval : Int}
    (hs : create producer capacity interval = .ok s₀) : Sound s₀ := by
  simp only [create, bind, Except.bind, pure, Except.pure] at hs
  split at hs
  · cases hs
  · rename_i stage made
    split at hs
    · cases hs
    · rename_i outlet ho
      obtain rfl := Except.ok.inj hs
      have fresh : stage = { producer := stage.producer, state := stage.state } := by
        unfold SourceStage.create at made
        split at made
        · cases made
        · split at made
          · cases made
          · cases made
            rfl
      have links := Conduit.links_fresh ho
      rw [fresh]
      exact
        { conduct := SourceStage.conduct_idle rfl rfl
          life := ⟨.waiting, rfl, rfl, rfl, rfl⟩
          faults := by simp
          starts := .inl ⟨rfl, rfl⟩
          data := links.data
          closed := links.closed
          errors := links.errors
          errorsClosed := links.errorsClosed
          kept := fun _ => rfl }

theorem idle_of_fresh (ht : Sound t) (fresh : t.stage.lifecycle = .notStarted) :
    t.stage.phase = .idle := by
  obtain ⟨l, fits⟩ := ht.life
  exact SourceStage.idle_of_era (Life.fits_notStarted (fresh ▸ fits)).1

theorem sound_launch (ht : Sound t) (fresh : t.stage.lifecycle = .notStarted) :
    Sound { t with stage := t.stage.launch, starts := t.starts ++ [none] } := by
  obtain ⟨l, fits⟩ := ht.life
  have idle := idle_of_fresh ht fresh
  obtain ⟨_, l', _, fits'⟩ := Life.fits_notStarted (fresh ▸ fits)
  have launched : t.stage.launch.Conduct (t.log ++ []) :=
    SourceStage.conduct_quiet ht.conduct Event.silent_nil rfl (by rw [idle]; rfl)
  rw [List.append_nil] at launched
  exact
    { conduct := launched
      life := ⟨l', fits'⟩
      faults := ht.faults
      starts := Life.starts_launch (fresh ▸ ht.starts)
      data := by simpa [SourceStage.launch, idle] using ht.data
      closed := by simpa [SourceStage.launch, idle] using ht.closed
      errors := ht.errors
      errorsClosed := by simpa [SourceStage.launch, idle] using ht.errorsClosed
      kept := ht.kept }

variable {stage : SourceStage π} {outlet : Conduit} {events : List Event}

/-- The life of a stage goes on by a step when its task moves, which was started before. -/
theorem life_work (ht : Sound t) (move : t.stage.Move t.outlet stage outlet events) :
    ∃ l l' : Life, l.Step l' ∧
      l.Fits t.stage.phase.era t.stage.lifecycle t.stage.faulted t.faults.length ∧
      l'.Fits stage.phase.era stage.lifecycle stage.faulted
        (t.faults ++ t.stage.reported events).length ∧
      t.stage.lifecycle ≠ .notStarted := by
  obtain ⟨l, fits⟩ := ht.life
  obtain ⟨l', step, fits'⟩ := SourceStage.life_move fits move
  refine ⟨l, l', step, fits, ?_, fun fresh => ?_⟩
  · rw [List.length_append]
    exact fits'
  · exact (SourceStage.busy_move move).1 (idle_of_fresh ht fresh)

theorem sound_work (ht : Sound t) (move : t.stage.Move t.outlet stage outlet events) :
    Sound { t with
      stage, outlet
      log := t.log ++ events
      faults := t.faults ++ t.stage.reported events } := by
  obtain ⟨l, l', step, fits, fits', started⟩ := life_work ht move
  obtain ⟨conduct, _, faults, starts, data, closed, errors, errorsClosed, kept⟩ := ht
  obtain ⟨entered, dropped⟩ := SourceStage.errors_move move
  refine ⟨SourceStage.conduct_move conduct move, ⟨l', fits'⟩, ?_, ?_, ?_, ?_, ?_, ?_, fun free => ?_⟩
  · intro f hf
    rw [Event.collect_append]
    rcases List.mem_append.mp hf with hf | hf
    · exact (faults f hf).imp_right (List.mem_append_left _)
    · exact (SourceStage.reported_fault move hf).imp_right (List.mem_append_right _)
  · exact fits'.lifecycle ▸ Life.starts_step (fits.lifecycle ▸ starts) step (fits.lifecycle ▸ started)
  · rw [Event.collect_append]
    exact SourceStage.between_move data move
  · rcases SourceStage.closed_move move with ⟨same, same'⟩ | ⟨here, here'⟩
    · rw [same', same, closed]
    · rw [here', here, Bool.true_or]
  · rw [Event.collect_append, errors, entered, List.append_assoc]
  · rcases SourceStage.errorsClosed_move move with ⟨same, same'⟩ | ⟨here, here'⟩
    · rw [same', same, errorsClosed]
    · rw [here', here, Bool.true_or]
  · have none' : Event.collect Event.dropped? events = [] := by
      by_contra some'
      obtain ⟨found, before⟩ := dropped some'
      rw [errorsClosed, before, free] at found
      cases found
    rw [Event.collect_append, kept free, none']
    rfl

theorem sound_step (ht : Sound t) (hu : t.step? a = some u) : Sound u := by
  cases happens_of_step hu with
  | launch fresh => exact sound_launch ht fresh
  | again busy => exact { ht with starts := Life.starts_again ht.starts busy }
  | work move => exact sound_work ht move
  | take done =>
    obtain ⟨between, same⟩ := Handoff.between_take ht.data done
    exact { ht with
      data := by simpa using between
      closed := same.trans ht.closed
      errors := by simpa using ht.errors }
  | meetEnd | meetErrorsEnd => exact ht
  | check done =>
    obtain ⟨rest, queue, rfl⟩ := Reports.receive_error done
    exact { ht with
      data := by simpa using ht.data
      errors := by simpa [queue] using ht.errors }
  | closeData =>
    exact { ht with
      data := Handoff.between_close ht.data
      closed := by simp [Conduit.closeData, Handoff.close] }
  | closeErrors =>
    exact { ht with
      errorsClosed := by simp [Conduit.closeErrors, Reports.close, Fifo.close]
      kept := by simp }

/-- What every act keeps is kept by a run. -/
theorem run_invariant {Keeps : Delivery π → Prop} {acts : List Act}
    (step : ∀ {t u a}, Keeps t → t.step? a = some u → Keeps u) (ht : Keeps t)
    (hr : t.run? acts = some u) : Keeps u := by
  induction acts generalizing t with
  | nil => exact Option.some.inj hr ▸ ht
  | cons a acts ih =>
    obtain ⟨t', ht', hr⟩ := Option.bind_eq_some_iff.mp hr
    exact ih (step ht ht') hr

theorem sound_run {acts : List Act} (ht : Sound t) (hr : t.run? acts = some u) : Sound u :=
  run_invariant sound_step ht hr

/-! ## What comes of it -/

theorem taken_prefix (ht : Sound t) : Event.collect Event.received? t.downstream <+:
    (Event.collect Event.yielded? t.log).map some := by
  have taken := (Handoff.between_prefix ht.data).2
  rw [ht.conduct.packs]
  refine taken.trans ?_
  cases hp : t.stage.phase with
  | awaiting p ticket more =>
    -- while a write is under way, none has been lost
    have lost := (ht.conduct.producing (by rw [hp]; rfl)).1
    simp [lost]
  | _ =>
    rw [List.append_assoc]
    simp

theorem delivered_bounds (ht : Sound t) :
    t.stage.delivered ≤ (Event.collect Event.received? t.downstream).length ∧
      (Event.collect Event.received? t.downstream).length ≤ t.stage.delivered + 1 ∧
      (t.stage.phase.pending = none →
        t.stage.delivered = (Event.collect Event.received? t.downstream).length) := by
  obtain ⟨sent, taken⟩ := Handoff.between_prefix ht.data
  have least := sent.length_le
  have most := taken.length_le
  have one : (t.stage.phase.pending.map Prod.fst).toList.length ≤ 1 := Option.length_toList_le
  rw [List.length_append] at most
  rw [ht.conduct.delivered]
  refine ⟨least, by omega, fun free => ?_⟩
  have data := ht.data
  rw [free] at data
  rw [Handoff.between_rest data]

variable {producer : Option (Producer π × π)} {capacity : UInt64} {interval : Int}

/-- Yields one pack, then none, and then fails with the null error. -/
def faltering : Producer Nat := fun n =>
  { production := match n with
      | 0 => .yielded (some (.ofBytes [])) true
      | 1 => .yielded none true
      | _ => .failed .null
    state := n + 1 }

end Delivery
end StagedPipeline
