import StagedPipeline.Proofs.Pipeline.ErrorRoom

/-!
# Freedom from deadlock

A writer that waits has its pack in the slot of a channel that is still open. Whoever reads
there can take it, or is itself a writer that waits further down. So the waiting ends at the
application, which takes the pack. If no writer waits, the parties that have ended are
followed by parties that find the end of their input, down to the application again.

A poll that times out brings nobody further. Leaving it, and finding the channel neither
closed nor filled afterwards, are told apart from all other steps by `System.isTimeout`.
-/
namespace StagedPipeline

/-- Open and empty, so that a poll can only time out. -/
def Reports.isQuiet (r : Reports) : Bool := !r.queue.closed && r.queue.queue.isEmpty

/-- Whether the next section of the task at a position is the end of a poll that has timed
out. -/
def Station.isTimeout {σ : Type} : Nat → Conduit → List (Station σ) → Bool
  | _, _, [] => false
  | 0, c, x :: _ =>
    match x with
    | .working s _ => s.phase == .confirming && c.errors.isQuiet
    | _ => false
  | i + 1, c, x :: row => isTimeout i (x.outlet c) row

/-- Whether the next section of the application is the end of a poll that has timed out. -/
def Application.isTimeout (a : Application) (c : Conduit) : Bool :=
  match a.agenda with
  | .confirm _ _ :: _ => c.errors.isQuiet
  | .confirmCheck :: _ => c.errors.isQuiet
  | _ => false

namespace System

/-- Whether a step only lets a poll time out. -/
def isTimeout {α σ : Type} (t : System α σ) : Action → Bool
  | .expire _ => true
  | .advance .supplier => false
  | .advance .application => t.application.isTimeout t.terminal
  | .advance (.stage i) => Station.isTimeout i t.inlet t.row

end System

/-- A pack waits in the slot of an open channel. -/
structure Conduit.Full (c : Conduit) : Prop where
  open' : c.data.closed = false
  pack : c.data.slot.isSome = true

/-- Both channels are closed. -/
structure Conduit.Over (c : Conduit) : Prop where
  data : c.data.closed = true
  errors : c.errors.queue.closed = true

theorem Conduit.Over.not_quiet {c : Conduit} (h : c.Over) : c.errors.isQuiet = false := by
  simp [Reports.isQuiet, h.errors]

namespace Handoff

variable {α : Type} {c : Handoff α} {sent taken : List α}

/-- A writer that has no write under way never waits to make an offer. -/
theorem offer_ready (h : c.Between sent none taken) (a : α) : (c.offer? a).isSome = true := by
  cases h with
  | rest slot count offered =>
    unfold offer?
    split
    · rfl
    · rw [slot]
      rfl

/-- A writer that waits has its item in the slot of an open channel. -/
theorem settle_ready {a : α} {t : Nat} (h : c.Between sent (some (a, t)) taken) :
    (c.settle? t).isSome = true ∨ (c.closed = false ∧ c.slot.isSome = true) := by
  by_cases hc : c.closed = true
  · left
    unfold settle?
    split
    · rfl
    · simp [hc]
  · cases h with
    | offered slot => exact .inr ⟨by simpa using hc, by rw [slot]; rfl⟩
    | taken slot count offered last =>
      left
      unfold settle?
      rw [if_pos (Nat.le_of_eq last)]
      rfl

theorem take_ready (h : c.closed = true ∨ c.slot.isSome = true) : c.take?.isSome = true := by
  unfold take?
  split
  · rfl
  · rename_i hc
    obtain ⟨a, ha⟩ := Option.isSome_iff_exists.mp (h.resolve_left hc)
    rw [ha]
    rfl

end Handoff

namespace Reports

theorem receive_ready {r : Reports} (h : r.isQuiet = false) : r.receive?.isSome = true := by
  unfold receive? Fifo.receive?
  cases hq : r.queue.queue with
  | cons e rest => rfl
  | nil =>
    have hc : r.queue.closed = true := by simpa [isQuiet, hq] using h
    simp [hc]

end Reports

/-- A source at work that cannot move has a pack waiting, or is over. -/
theorem SourceStage.moves_or_waits {π : Type} {s : SourceStage π} {out : Conduit}
    {sent taken : List (Option Pack)} (begun : s.phase ≠ .idle)
    (data : out.data.Between sent s.phase.pending taken)
    (hroom : s.phase.puts = true → (s.advance? out).isSome = true) :
    (s.advance? out).isSome = true ∨ out.Full ∨ s.phase = .finished := by
  cases hp : s.phase with
  | idle => exact absurd hp begun
  | offering p more =>
    rw [hp] at data
    left
    simpa [advance?, hp] using Handoff.offer_ready data (some p)
  | awaiting p t more =>
    rw [hp] at data
    rcases Handoff.settle_ready data with h | ⟨open', pack⟩
    · left
      simpa [advance?, hp] using h
    · exact .inr (.inl ⟨open', pack⟩)
  | reporting e => exact .inl (hroom (by rw [hp]; rfl))
  | reportingFault what => exact .inl (hroom (by rw [hp]; rfl))
  | finished => exact .inr (.inr rfl)
  | asking =>
    left
    unfold advance?
    rw [hp]
    dsimp only
    split <;> rfl
  | _ => left; simp [advance?, hp]

/-- Behind a source that is over, so is its conduit. -/
theorem SourceStage.ready {π : Type} {s : SourceStage π} {out : Conduit} {log : List Event}
    {w₀ w : Pull.Source π} {ps : List Pack} {held : Option Pack} {r : ReaderSide}
    (ht : s.Traces w₀ log ps held w) (hl : out.Links (s.writerSide log) r)
    (hroom : s.phase.puts = true → (s.advance? out).isSome = true) :
    (s.advance? out).isSome = true ∨ out.Full ∨ (s.phase = .finished ∧ out.Over) := by
  rcases moves_or_waits ht.started hl.data hroom with moves | full | ended
  · exact .inl moves
  · exact .inr (.inl full)
  · refine .inr (.inr ⟨ended, ?_, ?_⟩)
    · rw [hl.closed]
      simp [writerSide, ended]
    · rw [hl.errorsClosed]
      simp [writerSide, ended]

/-- A task whose input is filled or over, and that cannot move, has a pack waiting itself, or
is over after its input. -/
theorem TransformStage.ready {σ : Type} {s : TransformStage σ} {inp out : Conduit}
    {log : List Event} {x₀ x : Pull.Stage σ} {ps qs : List Pack} {held : Option Pack}
    {w : WriterSide} {r : ReaderSide} (ht : s.Traces x₀ log ps qs held x)
    (hi : inp.Links w (s.readerSide log)) (hl : out.Links (s.writerSide log) r)
    (hroom : s.phase.puts = true → (s.advance? inp out).isSome = true)
    (hinp : inp.Full ∨ inp.Over) :
    ((s.advance? inp out).isSome = true ∧ (s.phase == .confirming && inp.errors.isQuiet) = false) ∨
      out.Full ∨ (s.phase = .finished ∧ inp.Over ∧ out.Over) := by
  have data := hl.data
  -- once the task has released its input, the input is closed, and so over
  have past : s.hasReleased = true → inp.Over := fun hs => hinp.resolve_left fun full => by
    have closed : inp.data.closed = true := by
      rw [hi.closed]
      simp [readerSide, hs]
    rw [full.open'] at closed
    cases closed
  cases hp : s.phase with
  | idle => exact absurd hp ht.started
  | reading =>
    refine .inl ⟨?_, rfl⟩
    have taken : inp.data.take?.isSome = true :=
      Handoff.take_ready (hinp.symm.imp (·.data) (·.pack))
    simpa [advance?, hp] using taken
  | offering p =>
    have pending : (s.writerSide log).pending = none := by simp [writerSide, hp]
    rw [pending] at data
    refine .inl ⟨?_, rfl⟩
    simpa [advance?, hp] using Handoff.offer_ready data (some p)
  | awaiting p t =>
    have pending : (s.writerSide log).pending = some (some p, t) := by simp [writerSide, hp]
    rw [pending] at data
    rcases Handoff.settle_ready data with h | ⟨open', pack⟩
    · refine .inl ⟨?_, rfl⟩
      simpa [advance?, hp] using h
    · exact .inr (.inl ⟨open', pack⟩)
  | reporting e => exact .inl ⟨hroom (by rw [hp]; rfl), rfl⟩
  | reportingFault what => exact .inl ⟨hroom (by rw [hp]; rfl), rfl⟩
  | relaying e => exact .inl ⟨hroom (by rw [hp]; rfl), rfl⟩
  | polling =>
    refine .inl ⟨?_, rfl⟩
    have quiet := (past (by simp [hasReleased, hp])).not_quiet
    simpa [advance?, hp] using Reports.receive_ready quiet
  | confirming =>
    have quiet := (past (by simp [hasReleased, hp])).not_quiet
    refine .inl ⟨?_, by simp [quiet]⟩
    simp [advance?, hp]
  | finished =>
    refine .inr (.inr ⟨rfl, past (by simp [hasReleased, hp]), ?_, ?_⟩)
    · rw [hl.closed]
      simp [writerSide, hp]
    · rw [hl.errorsClosed]
      simp [writerSide, hp]
  | _ =>
    refine .inl ⟨?_, rfl⟩
    simp [advance?, hp]

namespace Station

variable {σ : Type} {cap k : Nat} {r : ReaderSide} {w : WriterSide} {c : Conduit}
  {row : List (Station σ)} {plan : List (Pull.Stage σ)} {logs : Nat → List Event}

/-- Some task of a row can move, and does not only let a poll time out. -/
def Moves (c : Conduit) (row : List (Station σ)) : Prop :=
  ∃ i, (Station.advance? i c row).isSome = true ∧ isTimeout i c row = false

theorem moves_cons {x : Station σ} (h : Moves (x.outlet c) row) : Moves c (x :: row) := by
  obtain ⟨i, ready, busy⟩ := h
  refine ⟨i + 1, ?_, busy⟩
  cases x <;> simpa [Station.advance?, outlet] using ready

/-- The last conduit of a row has its reader at the end. -/
theorem sound_end (hs : Sound cap r k w c row plan logs) : ∃ w', (terminal c row).Links w' r := by
  induction hs with
  | terminal links => exact ⟨_, links⟩
  | passing _ _ _ ih => exact ih
  | working _ _ _ _ ih => exact ih

/-- Behind an input that is filled or over, some task can move, or a pack waits for the reader
at the end, or all tasks are over. -/
theorem moves_or_waits (hs : Sound cap r k w c row plan logs) (hcap : cap ≠ 0)
    (hw : w.put.length ≤ k + 1) (hc : c.Full ∨ c.Over) :
    Moves c row ∨ (terminal c row).Full ∨
      (c.Over ∧ (terminal c row).Over ∧ ∀ x ∈ row, x.isResting = true) := by
  -- A task that cannot move leaves its output in the same plight as its input, full or over,
  -- and so hands the question on to the rest of the row.
  induction hs with
  | terminal links room silent =>
    refine .inr (hc.imp id fun past => ⟨past, past, ?_⟩)
    simp
  | @passing k w c logs finalization row x₀ plan bare silent rest ih =>
    rcases ih hw hc with moves | full | ⟨past, past', resting⟩
    · exact .inl (moves_cons (x := .passing finalization) moves)
    · exact .inr (.inl full)
    · refine .inr (.inr ⟨past, past', ?_⟩)
      intro x hx
      rcases List.mem_cons.mp hx with rfl | hx
      · rfl
      · exact resting x hx
  | @working k w c logs s out row x₀ plan links room traces rest ih =>
    have hsound : Sound cap r k w c (.working s out :: row) (x₀ :: plan) logs :=
      .working links room traces rest
    have behind := room_of_sound (i := 0) hsound hw rfl
    obtain ⟨ps, qs, held, x, ht⟩ := traces
    obtain ⟨_, r', links'⟩ := sound_front rest
    have hw' : (s.writerSide (logs 0)).put.length ≤ k + 1 + 1 := by
      have h := behind.put
      rw [rank_zero, isWorking, if_pos rfl] at h
      show (Event.collect Event.accepted? (logs 0)).length ≤ _
      omega
    rcases TransformStage.ready ht links links' (room_ready behind hcap) hc with
      ⟨ready, busy⟩ | full | ⟨finished, past, past'⟩
    · refine .inl ⟨0, ?_, busy⟩
      simpa [Station.advance?] using ready
    · rcases ih hw' (.inl full) with moves | full' | ⟨past, _, _⟩
      · exact .inl (moves_cons (x := .working s out) moves)
      · exact .inr (.inl full')
      · -- a channel with a pack that waits is not over
        have closed := past.data
        rw [full.open'] at closed
        cases closed
    · rcases ih hw' (.inr past') with moves | full' | ⟨_, past'', resting⟩
      · exact .inl (moves_cons (x := .working s out) moves)
      · exact .inr (.inl full')
      · refine .inr (.inr ⟨past, past'', ?_⟩)
        intro x hx
        rcases List.mem_cons.mp hx with rfl | hx
        · simp [isResting, finished]
        · exact resting x hx

/-- A change at the end of a row is possible if it is possible there. -/
theorem atTerminal_ready {β : Type} {f : Conduit → Option (Conduit × β)}
    (hf : (f (terminal c row)).isSome = true) : (atTerminal? f c row).isSome = true := by
  induction row generalizing c with
  | nil =>
    have hf' : (f c).isSome = true := hf
    simpa [atTerminal?] using hf'
  | cons x row ih =>
    have ready := ih (c := x.outlet c) hf
    cases x <;> simpa [atTerminal?, outlet] using ready

end Station

namespace System

variable {π σ : Type} {p : Pipeline π σ} {t : System (SourceStage π) σ} {limit : Pull.Limit}
  {waits : List Application.Errand}

/-! ## What the application needs to go on -/

theorem terminal_ready (ready : (t.application.advance? t.terminal).isSome = true) :
    (t.step? (.advance .application)).isSome = true := by
  have possible : (Station.atTerminal? t.application.section? t.inlet t.row).isSome = true :=
    Station.atTerminal_ready (by simpa [Application.section?, System.terminal] using ready)
  show t.advanceApplication?.isSome = true
  unfold advanceApplication?
  split
  case h_1 agenda | h_2 agenda | h_3 agenda => simp [Application.advance?, agenda] at ready
  case h_4 =>
    rw [Option.isSome_map]
    exact possible

theorem shut_ready {rest : List Application.Errand} (hg : t.application.agenda = .shut :: rest) :
    (t.step? (.advance .application)).isSome = true ∧
      t.isTimeout (.advance .application) = false := by
  refine ⟨terminal_ready ?_, ?_⟩
  · simp [Application.advance?, hg]
  · simp [isTimeout, Application.isTimeout, hg]

theorem poll_ready {purpose : Application.Purpose} {got : List Error}
    {rest : List Application.Errand} (hg : t.application.agenda = .poll purpose got :: rest)
    (hq : t.terminal.errors.isQuiet = false) : (t.step? (.advance .application)).isSome = true ∧
      t.isTimeout (.advance .application) = false := by
  have received := Reports.receive_ready hq
  refine ⟨terminal_ready ?_, ?_⟩
  · simp [Application.advance?, hg, received]
  · simp [isTimeout, Application.isTimeout, hg]

theorem confirm_ready {purpose : Application.Purpose} {got : List Error}
    {rest : List Application.Errand} (hg : t.application.agenda = .confirm purpose got :: rest)
    (hq : t.terminal.errors.isQuiet = false) : (t.step? (.advance .application)).isSome = true ∧
      t.isTimeout (.advance .application) = false := by
  refine ⟨terminal_ready ?_, ?_⟩
  · simp only [Application.advance?, hg]
    split <;> rfl
  · simp [isTimeout, Application.isTimeout, hg, hq]

theorem join_ready {q : Party} {rest : List Application.Errand}
    (hg : t.application.agenda = .join q :: rest) (hq : t.isResting q = true) :
    (t.step? (.advance .application)).isSome = true ∧
      t.isTimeout (.advance .application) = false := by
  simp [step?, System.advance?, advanceApplication?, hg, hq, isTimeout, Application.isTimeout]

/-- An application with errands left at the terminal conduit can move there if a pack waits
for it, or all tasks are over. -/
theorem application_ready {r : ReaderSide} {w : WriterSide}
    (stands : t.application.Stands limit waits r) (joins : ∀ e ∈ waits, ∃ q, e = .join q)
    (links : t.terminal.Links w r)
    (hc : t.terminal.Full ∨ (t.terminal.Over ∧ ∀ q, t.isResting q = true))
    (hleft : t.application.agenda ≠ []) :
    (t.step? (.advance .application)).isSome = true ∧
      t.isTimeout (.advance .application) = false := by
  have taken : t.terminal.data.take?.isSome = true :=
    Handoff.take_ready (hc.symm.imp (·.1.data) (·.pack))
  -- the application has found the end of the data, or has closed the channel itself
  have past : r.shut = limit.isSome → Application.HasRead limit r →
      t.terminal.Over ∧ ∀ q, t.isResting q = true := by
    intro shut read
    refine hc.resolve_left fun full => ?_
    have closed := links.closed
    rw [full.open', shut] at closed
    cases limit with
    | some d => simp at closed
    | none =>
      have found : r.ended = true := by
        by_contra h
        cases read.stopped (by simpa using h)
      rw [(links.ended found).1] at closed
      cases closed
  cases stands with
  | draining whole agenda begun =>
    refine ⟨terminal_ready ?_, ?_⟩
    · simpa [Application.advance?, agenda] using taken
    · simp [isTimeout, Application.isTimeout, agenda]
  | @taking d n part agenda begun count =>
    refine ⟨terminal_ready ?_, ?_⟩
    · cases n with
      | zero => simp [Application.advance?, agenda]
      | succ n => simpa [Application.advance?, agenda] using taken
    · simp [isTimeout, Application.isTimeout, agenda]
  | shutting part agenda open' polled read => exact shut_ready agenda
  | polling agenda shut read => exact poll_ready agenda (past shut read).1.not_quiet
  | confirming agenda shut read => exact confirm_ready agenda (past shut read).1.not_quiet
  | waiting agenda drained all shut read =>
    cases hg : t.application.agenda with
    | nil => exact absurd hg hleft
    | cons e rest =>
      obtain ⟨q, rfl⟩ := joins e (agenda.subset (by rw [hg]; exact List.mem_cons_self))
      exact join_ready hg ((past shut read).2 q)

/-! ## Who can move -/

theorem possible_of_ready {a : Action}
    (h : (t.step? a).isSome = true ∧ t.isTimeout a = false) :
    ∃ a u, t.step? a = some u ∧ t.isTimeout a = false := by
  obtain ⟨u, hu⟩ := Option.isSome_iff_exists.mp h.1
  exact ⟨a, u, hu, h.2⟩

/-- Some step is possible that does not only let a poll time out, or it is the turn of the
application: a pack waits for it, or all tasks are over. -/
theorem moves_or_waits {r : ReaderSide} (hcap : p.capacity ≠ 0) (hs : Sound p r t) :
    (∃ a u, t.step? a = some u ∧ t.isTimeout a = false) ∨
      t.terminal.Full ∨ (t.terminal.Over ∧ ∀ q, t.isResting q = true) := by
  have pos : p.capacity.toNat ≠ 0 := fun h => hcap (UInt64.toNat_inj.mp h)
  obtain ⟨put, room, inside, closed⟩ := source_room hs
  have hputs := source_put_ready hs pos
  obtain ⟨⟨ps, held, w, ht⟩, row, taken⟩ := hs
  obtain ⟨_, r₁, front⟩ := Station.sound_front row
  have first : (t.supplier.writerSide (t.eventsOf .supplier)).put.length ≤ 0 + 1 := by
    show (t.put .supplier).length ≤ _
    omega
  -- if the source cannot move, then a task can, or it is the turn of the application
  have behind : t.inlet.Full ∨ (t.supplier.phase = .finished ∧ t.inlet.Over) →
      (∃ a u, t.step? a = some u ∧ t.isTimeout a = false) ∨
        t.terminal.Full ∨ (t.terminal.Over ∧ ∀ q, t.isResting q = true) := by
    intro hc
    rcases Station.moves_or_waits row pos first (hc.imp id (·.2)) with
      ⟨i, ready, busy⟩ | full | ⟨past, past', resting⟩
    · refine .inl (possible_of_ready (a := .advance (.stage i)) ⟨?_, busy⟩)
      simpa [step?, System.advance?] using ready
    · exact .inr (.inl full)
    · have finished : t.supplier.phase = .finished := by
        rcases hc with full | ⟨finished, _⟩
        · have h := past.data
          rw [full.open'] at h
          cases h
        · exact finished
      refine .inr (.inr ⟨past', fun q => ?_⟩)
      cases q with
      | application => rfl
      | supplier => simp [isResting, Supplier.isResting, finished]
      | stage i =>
        cases hi : t.row[i]? with
        | none => simp [isResting, hi]
        | some x => simpa [isResting, hi] using resting x (List.mem_of_getElem? hi)
  rcases SourceStage.ready ht front hputs with ready | full | past
  · refine .inl (possible_of_ready (a := .advance .supplier) ⟨?_, rfl⟩)
    simpa [step?, System.advance?, Supplier.advance?] using ready
  · exact behind (.inl full)
  · exact behind (.inr past)

/-- No deadlock. As long as the application has an errand left, some step is possible that
does not only let a poll time out. -/
theorem progress (hcap : p.capacity ≠ 0) (joins : ∀ e ∈ waits, ∃ q, e = .join q)
    (ht : Reads p limit waits t) (hleft : t.application.agenda ≠ []) :
    ∃ a u, t.step? a = some u ∧ t.isTimeout a = false := by
  obtain ⟨r, hs, stands, _⟩ := ht
  rcases moves_or_waits hcap hs with moves | hc
  · exact moves
  · obtain ⟨w, back⟩ := Station.sound_end hs.row
    exact possible_of_ready (application_ready stands joins back hc hleft)

end System
end StagedPipeline
