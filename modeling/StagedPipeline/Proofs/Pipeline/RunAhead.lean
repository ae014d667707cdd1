import StagedPipeline.Proofs.Pipeline.Capacities
import StagedPipeline.Proofs.Pipeline.Termination
import StagedPipeline.Proofs.Stage.Pace

/-!
# How far a pipeline runs ahead of its reader

Every task is ahead of its data channel by one pack at most, so along the row the counts of packs
taken grow by one from each channel to the one before it, and the producer is ahead of the
reader by one call for each task and one for itself. This does not depend on who has closed what.
-/
namespace StagedPipeline

/-- What a section of a reader does to the data channel. -/
theorem Conduit.stocked_readerStep {c c' : Conduit} {r r' : ReaderSide} (h : c.data.Stocked)
    (hr : c.ReaderStep r c' r') :
    c'.data.Stocked ∧ c'.data.taken + r.taken.length = c.data.taken + r'.taken.length ∧
      c.data.taken ≤ c'.data.taken ∧
      (c.data.closed = true → c'.data.closed = true ∧ c'.data.taken = c.data.taken) := by
  cases hr with
  | idle | poll _ | drained _ => exact ⟨h, rfl, Nat.le_refl _, fun closed => ⟨closed, rfl⟩⟩
  | take done =>
    obtain ⟨stocked, taken, _⟩ := Handoff.stocked_taken h done
    refine ⟨stocked, ?_, ?_, fun closed => ?_⟩
    · simp [taken]
      omega
    · simp [taken]
    · simp [Handoff.take?, closed] at done
  | meetEnd _ done =>
    obtain ⟨_, rfl⟩ := Handoff.take_end done
    exact ⟨h, rfl, Nat.le_refl _, fun closed => ⟨closed, rfl⟩⟩
  | shut => exact ⟨(Handoff.keeps_close h).stocked, rfl, Nat.le_refl _, fun _ => ⟨rfl, rfl⟩⟩

namespace Station

variable {σ : Type}

/-- A row of `n` tasks, from the end of which `m` packs were taken. If it is `shut`, the data
channel at its end is closed. -/
inductive Paced (m : Nat) (shut : Bool) :
    Nat → Conduit → List (Station σ) → (Nat → List Event) → Prop where
  | terminal {c logs} (stocked : c.data.Stocked) (count : c.data.taken = m)
      (closed : shut = true → c.data.closed = true) : Paced m shut 0 c [] logs
  | passing {n c logs x row} (rest : Paced m shut n c row (shifted logs)) :
      Paced m shut n c (.passing x :: row) logs
  | unconnected {n c logs x row} (rest : Paced m shut n c row (shifted logs)) :
      Paced m shut n c (.unconnected x :: row) logs
  | working {n c logs s out row} (stocked : c.data.Stocked) (task : s.Paced (logs 0) c out)
      (rest : Paced m shut n out row (shifted logs)) :
      Paced m shut (n + 1) c (.working s out :: row) logs

variable {m n i : Nat} {shut : Bool} {c c' : Conduit} {row row' : List (Station σ)}
  {logs logs' : Nat → List Event} {events : List Event}

theorem paced_stocked (h : Paced m shut n c row logs) : c.data.Stocked := by
  induction h with
  | terminal stocked _ _ | working stocked _ _ _ => exact stocked
  | passing _ ih | unconnected _ ih => exact ih

/-- The tasks of a row are ahead of its end by one pack each. -/
theorem paced_taken (h : Paced m shut n c row logs) : c.data.taken ≤ m + n := by
  induction h with
  | terminal _ count _ => exact Nat.le_of_eq count
  | passing _ ih | unconnected _ ih => exact ih
  | working _ task _ ih => exact Nat.le_trans task.pace.le (Nat.succ_le_succ ih)

theorem paced_calls (h : Paced m shut n c row logs) {s : TransformStage σ} {out : Conduit}
    (hi : row[i]? = some (.working s out)) : s.calls (logs i) + rank row i ≤ m + n + 1 := by
  induction h generalizing i with
  | terminal => cases hi
  | passing _ ih | unconnected _ ih =>
    cases i with
    | zero => cases hi
    | succ i =>
      rw [rank_succ]
      simpa [isWorking] using ih hi
  | @working n c logs s' out' row stocked task rest ih =>
    cases i with
    | zero =>
      cases hi
      rw [rank_working_zero]
      have taken := paced_taken rest
      have lead := task.pace.le
      have handed := task.handed
      omega
    | succ i =>
      rw [rank_working]
      exact Nat.succ_le_succ (ih hi)

/-- A section that takes nothing from the channel in front of the row. -/
theorem paced_keeps (h : Paced m shut n c row logs) (hk : c.data.Keeps c'.data) :
    Paced m shut n c' row logs := by
  induction h with
  | terminal stocked count closed =>
    exact .terminal hk.stocked (hk.taken.trans count) fun hs => hk.closed (closed hs)
  | passing _ ih => exact .passing (ih hk)
  | unconnected _ ih => exact .unconnected (ih hk)
  | working _ task rest _ =>
    exact .working hk.stocked (TransformStage.paced_around task hk.taken (Nat.le_refl _)) rest

theorem paced_moved (h : Paced m shut n c row logs) (hm : Moved i c row c' row' events)
    (hi : logs' i = logs i ++ events) (ho : ∀ j, j ≠ i → logs' j = logs j) :
    Paced m shut n c' row' logs' ∧ c.data.taken ≤ c'.data.taken := by
  induction hm generalizing n logs logs' with
  | @here c c' s s' out out' row events move =>
    cases h with
    | working stocked task rest =>
      obtain ⟨task', stocked', more, keeps⟩ :=
        TransformStage.paced_move task stocked (paced_stocked rest) move
      have tail : shifted logs' = shifted logs := funext fun j => ho (j + 1) (by simp)
      refine ⟨.working stocked' (hi ▸ task') ?_, more⟩
      rw [tail]
      exact paced_keeps rest keeps
  | passing behind ih =>
    cases h with
    | passing rest =>
      obtain ⟨rest', more⟩ := ih rest hi fun j hj => ho (j + 1) (by omega)
      exact ⟨.passing rest', more⟩
  | unconnected behind ih =>
    cases h with
    | unconnected rest =>
      obtain ⟨rest', more⟩ := ih rest hi fun j hj => ho (j + 1) (by omega)
      exact ⟨.unconnected rest', more⟩
  | working behind ih =>
    cases h with
    | working stocked task rest =>
      obtain ⟨rest', more⟩ := ih rest hi fun j hj => ho (j + 1) (by omega)
      have head := ho 0 (by simp)
      refine ⟨.working stocked ?_ rest', Nat.le_refl _⟩
      rw [head]
      exact TransformStage.paced_around task rfl more

theorem paced_expired (h : Paced m shut n c row logs) (he : Expired i c row row') :
    Paced m shut n c row' logs := by
  induction he generalizing n logs with
  | here expire =>
    cases h with
    | working stocked task rest =>
      exact .working stocked (TransformStage.paced_expire task expire) rest
  | passing _ ih =>
    cases h with
    | passing rest => exact .passing (ih rest)
  | unconnected _ ih =>
    cases h with
    | unconnected rest => exact .unconnected (ih rest)
  | working _ ih =>
    cases h with
    | working stocked task rest => exact .working stocked task (ih rest)

/-- A section at the end of the row, by which nothing is given back. -/
theorem paced_terminal {β : Type} {b : β} {f : Conduit → Option (Conduit × β)}
    (h : Paced m shut n c row logs) (hf : atTerminal? f c row = some (c', row', b)) :
    ∃ end', f (terminal c row) = some (end', b) ∧ (terminal c row).data.Stocked ∧
      (terminal c row).data.taken = m ∧ (shut = true → (terminal c row).data.closed = true) ∧
      (end'.data.Stocked → m ≤ end'.data.taken → (shut = true → end'.data.closed = true) →
        Paced end'.data.taken shut n c' row' logs ∧ c.data.taken ≤ c'.data.taken) := by
  induction h generalizing c' row' with
  | terminal stocked count closed =>
    simp only [atTerminal?, Option.map_eq_some_iff, Prod.exists, Prod.mk.injEq] at hf
    obtain ⟨c₁, b₁, hf, rfl, rfl, rfl⟩ := hf
    exact ⟨c₁, hf, stocked, count, closed, fun stocked' more closed' =>
      ⟨.terminal stocked' rfl closed', count ▸ more⟩⟩
  | passing rest ih =>
    simp only [atTerminal?, Option.map_eq_some_iff, Prod.exists, Prod.mk.injEq] at hf
    obtain ⟨c₁, row₁, b₁, hf, rfl, rfl, rfl⟩ := hf
    obtain ⟨end', he, stocked, count, closed, after⟩ := ih hf
    refine ⟨end', he, stocked, count, closed, fun stocked' more closed' => ?_⟩
    obtain ⟨rest', more'⟩ := after stocked' more closed'
    exact ⟨.passing rest', more'⟩
  | unconnected rest ih =>
    simp only [atTerminal?, Option.map_eq_some_iff, Prod.exists, Prod.mk.injEq] at hf
    obtain ⟨c₁, row₁, b₁, hf, rfl, rfl, rfl⟩ := hf
    obtain ⟨end', he, stocked, count, closed, after⟩ := ih hf
    refine ⟨end', he, stocked, count, closed, fun stocked' more closed' => ?_⟩
    obtain ⟨rest', more'⟩ := after stocked' more closed'
    exact ⟨.unconnected rest', more'⟩
  | working front task rest ih =>
    simp only [atTerminal?, Option.map_eq_some_iff, Prod.exists, Prod.mk.injEq] at hf
    obtain ⟨out', row₁, b₁, hf, rfl, rfl, rfl⟩ := hf
    obtain ⟨end', he, stocked, count, closed, after⟩ := ih hf
    refine ⟨end', he, stocked, count, closed, fun stocked' more closed' => ?_⟩
    obtain ⟨rest', more'⟩ := after stocked' more closed'
    exact ⟨.working front (TransformStage.paced_around task rfl more') rest', Nat.le_refl _⟩

theorem paced_closeInput (h : Paced m shut n c row logs) (i : Nat) :
    Paced m shut n (closeInput i c row).1 (closeInput i c row).2 logs ∧
      c.data.Keeps (closeInput i c row).1.data := by
  have close : ∀ {n c} {row : List (Station σ)} {logs}, Paced m shut n c row logs →
      Paced m shut n c.closeData row logs ∧ c.data.Keeps c.closeData.data := fun h => by
    have keeps := Handoff.keeps_close (paced_stocked h)
    exact ⟨paced_keeps h keeps, keeps⟩
  induction h generalizing i with
  | terminal stocked count closed =>
    cases i with
    | zero => exact close (.terminal stocked count closed)
    | succ i => exact ⟨.terminal stocked count closed, Handoff.keeps_self stocked⟩
  | passing rest ih =>
    cases i with
    | zero => exact close (.passing rest)
    | succ i => exact ⟨.passing (ih i).1, (ih i).2⟩
  | unconnected rest ih =>
    cases i with
    | zero => exact close (.unconnected rest)
    | succ i => exact ⟨.unconnected (ih i).1, (ih i).2⟩
  | working stocked task rest ih =>
    cases i with
    | zero => exact close (.working stocked task rest)
    | succ i =>
      obtain ⟨rest', keeps⟩ := ih i
      have task' := TransformStage.paced_around task rfl (Nat.le_of_eq keeps.taken.symm)
      exact ⟨.working stocked task' rest', Handoff.keeps_self stocked⟩

theorem paced_release (h : Paced m shut n c row logs) (i : Nat) :
    Paced m shut n c (release i c row).1 logs := by
  induction h generalizing i with
  | terminal stocked count closed => cases i <;> exact .terminal stocked count closed
  | passing rest ih =>
    cases i with
    | zero => exact .passing rest
    | succ i => exact .passing (ih i)
  | unconnected rest ih =>
    cases i with
    | zero => exact .unconnected rest
    | succ i => exact .unconnected (ih i)
  | working stocked task rest ih =>
    cases i with
    | zero => exact .working stocked ⟨task.leaves, task.handed, task.pace, task.offer⟩ rest
    | succ i => exact .working stocked task (ih i)

theorem paced_shut (h : Paced m false n c row logs)
    (closed : (terminal c row).data.closed = true) : Paced m true n c row logs := by
  induction h with
  | terminal stocked count _ => exact .terminal stocked count fun _ => closed
  | passing _ ih => exact .passing (ih closed)
  | unconnected _ ih => exact .unconnected (ih closed)
  | working stocked task _ ih => exact .working stocked task (ih closed)

theorem create_data {capacity : UInt64} {interval : Int}
    (h : Conduit.create capacity interval = .ok c) : c.data = {} := by
  unfold Conduit.create Reports.create at h
  split at h
  · cases h
  · cases h
    rfl

/-- A row that was just set up, possibly not to its end. -/
theorem paced_connect (stages : List (Pipeline.Stage σ)) (fresh : c.data = {})
    (leaves : ∀ s ∈ stages, ∀ h, s.handler = some h → h.Leaves s.memory) :
    ∃ n, n ≤ Pipeline.handlers stages ∧
      Paced 0 false n c (Pipeline.connect c stages).1 fun _ => [] := by
  have stocked : ∀ {c : Conduit}, c.data = {} → c.data.Stocked := fun h => h ▸ Handoff.stocked_fresh
  induction stages generalizing c with
  | nil => exact ⟨0, Nat.le_refl _, .terminal (stocked fresh) (by rw [fresh]) (by simp)⟩
  | cons s stages ih =>
    have behind := fun c (fresh : Conduit.data c = {}) =>
      ih fresh fun s hs => leaves s (List.mem_cons_of_mem _ hs)
    rw [Pipeline.handlers_cons]
    cases hh : s.handler with
    | none =>
      obtain ⟨n, le, rest⟩ := behind c fresh
      refine ⟨n, le, ?_⟩
      simp only [Pipeline.connect, hh]
      exact .passing rest
    | some h =>
      cases ho : TransformStage.outputFor c with
      | error f =>
        refine ⟨0, Nat.zero_le _, ?_⟩
        simp only [Pipeline.connect, hh, ho]
        exact .unconnected (.terminal (stocked fresh) (by rw [fresh]) (by simp))
      | ok out =>
        have fresh' := create_data ho
        obtain ⟨n, le, rest⟩ := behind out fresh'
        refine ⟨n + 1, Nat.succ_le_succ le, ?_⟩
        simp only [Pipeline.connect, hh, ho]
        refine .working (stocked fresh) ⟨leaves s List.mem_cons_self h hh, ?_, ⟨?_, ?_⟩, ?_⟩ rest
        all_goals simp [TransformStage.launch, TransformStage.calls, fresh, fresh']

end Station

namespace System

variable {π σ : Type} {p : Pipeline π σ} {k m : Nat} {shut : Bool}
  {s₀ t u : System (SourceStage π) σ} {fault : Option Fault}

/-- A running pipeline of at most `k` tasks behind its source, from which `m` packs were read. -/
structure Paced (k m : Nat) (shut : Bool) (t : System (SourceStage π) σ) : Prop where
  source : t.supplier.Paced (t.eventsOf .supplier) t.inlet
  row : ∃ n, n ≤ k ∧ Station.Paced m shut n t.inlet t.row fun i => t.eventsOf (.stage i)
  received : t.received.length = m

theorem paced_start
    (full : p.source.producer.Full p.source.state)
    (leaves : ∀ s ∈ p.stages, ∀ h, s.handler = some h → h.Leaves s.memory)
    (hs : p.start = .ok (s₀, fault)) : Paced (Pipeline.handlers p.stages) 0 false s₀ := by
  have fresh : ∀ {inlet : Conduit}, Conduit.create p.capacity p.interval = .ok inlet →
      Paced (Pipeline.handlers p.stages) 0 false
        { supplier := p.source.launch, inlet, row := (Pipeline.connect inlet p.stages).1 } := by
    intro inlet made
    have empty := Station.create_data made
    exact ⟨⟨full, ⟨Nat.zero_le _, by simp [SourceStage.launch]⟩, by simp [SourceStage.launch]⟩,
      Station.paced_connect p.stages empty leaves, rfl⟩
  simp only [Pipeline.start, bind, Except.bind, pure, Except.pure] at hs
  split at hs
  · cases hs
  · split at hs
    · cases hs
    · rename_i inlet made
      split at hs
      · cases hs
        exact fresh made
      · cases hs
        obtain ⟨source, row, _⟩ := fresh made
        refine ⟨?_, ?_, rfl⟩
        · rw [eventsOf_record_other _ (by simp)]
          exact source
        · simp only [eventsOf_record_other (q := .application) (p := .stage _) _ (by simp)]
          exact row

theorem paced_task {q : Party} (h : Paced k m shut t) (hq : q ≠ .application)
    (ha : t.advance? q = some u) : Paced k m shut u := by
  obtain ⟨source, ⟨n, le, row⟩, received⟩ := h
  cases q with
  | application => exact absurd rfl hq
  | supplier =>
    simp only [System.advance?, Option.map_eq_some_iff, Prod.exists] at ha
    obtain ⟨supplier, inlet, events, ha, rfl⟩ := ha
    obtain ⟨source', keeps⟩ := SourceStage.paced_move source (Station.paced_stocked row)
      (SourceStage.move_of_advance ha)
    refine ⟨?_, ⟨n, le, ?_⟩, ?_⟩
    · rw [eventsOf_record_self]
      exact source'
    · simp only [eventsOf_record_other (q := .supplier) (p := .stage _) _ (by simp)]
      exact Station.paced_keeps row keeps
    · rw [System.received, eventsOf_record_other _ (by simp)]
      exact received
  | stage i =>
    simp only [System.advance?, Option.map_eq_some_iff, Prod.exists] at ha
    obtain ⟨inlet, row', events, ha, rfl⟩ := ha
    let u := record { t with inlet, row := row' } (.stage i) events
    have own : u.eventsOf (.stage i) = t.eventsOf (.stage i) ++ events := eventsOf_record_self _ _ _
    have others : ∀ j, j ≠ i → u.eventsOf (.stage j) = t.eventsOf (.stage j) := fun j hj =>
      eventsOf_record_other _ (by simpa using Ne.symm hj) _
    obtain ⟨moved, more⟩ := Station.paced_moved row (Station.moved_of_advance ha) own others
    refine ⟨?_, ⟨n, le, moved⟩, ?_⟩
    · rw [eventsOf_record_other _ (by simp)]
      exact SourceStage.paced_around source more
    · rw [System.received, eventsOf_record_other _ (by simp)]
      exact received

/-- The application may take a pack, unless the channel that it reads from is closed. -/
theorem paced_application (h : Paced k m shut t) (ha : t.advance? .application = some u) :
    ∃ m', (shut = true → m' = m) ∧ Paced k m' shut u := by
  obtain ⟨source, ⟨n, le, row⟩, received⟩ := h
  rcases application_cases ha with ⟨_, _, _, _, rfl⟩ | ⟨i, _, _, rfl⟩ | ⟨i, _, _, rfl⟩ |
    ⟨inlet, row', a, events, hf, rfl⟩
  · exact ⟨m, fun _ => rfl, source, ⟨n, le, row⟩, received⟩
  · -- closing an input takes no pack, and what is on offer there stays
    obtain ⟨row', keeps⟩ := Station.paced_closeInput row i
    exact ⟨m, fun _ => rfl, SourceStage.paced_around source (Nat.le_of_eq keeps.taken.symm),
      ⟨n, le, row'⟩, received⟩
  · refine ⟨m, fun _ => rfl, ?_, ⟨n, le, ?_⟩, ?_⟩
    · rw [eventsOf_record_other _ (by simp)]
      exact source
    · simp only [eventsOf_record_other (q := .application) (p := .stage _) _ (by simp)]
      exact Station.paced_release row i
    · have none' : List.filterMap Event.received? (Station.release i t.inlet t.row).2 = [] :=
        Station.collect_release i t.inlet t.row
      rw [System.received, eventsOf_record_self, List.filterMap_append, none', List.append_nil]
      exact received
  · -- only at the end of the row can the count of packs grow, and by what was received
    obtain ⟨end', he, stocked, count, closed, after⟩ := Station.paced_terminal row hf
    obtain ⟨r', step, taken⟩ :=
      Application.readerStep_advance (r := {}) (Application.section_eq_some.mp he)
    obtain ⟨stocked', moved, more, still⟩ := Conduit.stocked_readerStep stocked step
    obtain ⟨row'', more'⟩ := after stocked' (count ▸ more) fun hs => (still (closed hs)).1
    refine ⟨end'.data.taken, fun hs => (still (closed hs)).2.trans count, ?_, ⟨n, le, ?_⟩, ?_⟩
    · rw [eventsOf_record_other _ (by simp)]
      exact SourceStage.paced_around source more'
    · simp only [eventsOf_record_other (q := .application) (p := .stage _) _ (by simp)]
      exact row''
    · rw [System.received, eventsOf_record_self, List.filterMap_append, List.length_append]
      have taken' := congrArg List.length taken
      simp only [List.nil_append, List.length_nil, Nat.add_zero, Event.collect] at taken' moved
      rw [moved, count, taken', ← received]
      rfl

theorem paced_step {a : Action} (h : Paced k m shut t) (hu : t.step? a = some u) :
    ∃ m', (shut = true → m' = m) ∧ Paced k m' shut u := by
  cases a with
  | advance q =>
    by_cases hq : q = .application
    · subst hq
      exact paced_application h hu
    · exact ⟨m, fun _ => rfl, paced_task h hq hu⟩
  | expire q =>
    obtain ⟨source, ⟨n, le, row⟩, received⟩ := h
    cases q with
    | application =>
      obtain ⟨_, _, rfl⟩ := Option.map_eq_some_iff.mp hu
      exact ⟨m, fun _ => rfl, source, ⟨n, le, row⟩, received⟩
    | supplier => cases hu
    | stage i =>
      obtain ⟨row', he, rfl⟩ := Option.map_eq_some_iff.mp hu
      have expired := Station.paced_expired row (Station.expired_of_expire he)
      exact ⟨m, fun _ => rfl, source, ⟨n, le, expired⟩, received⟩

theorem paced_comes (h : Paced k m shut t) (hu : t.Comes u) :
    ∃ m', (shut = true → m' = m) ∧ Paced k m' shut u := by
  induction hu with
  | here => exact ⟨m, fun _ => rfl, h⟩
  | step before done ih =>
    obtain ⟨m₁, same, h₁⟩ := ih
    obtain ⟨m₂, same', h₂⟩ := paced_step h₁ done
    exact ⟨m₂, fun hs => (same' hs).trans (same hs), h₂⟩
  | decide before a own ih =>
    obtain ⟨m₁, same, source, row, received⟩ := ih
    exact ⟨m₁, same, source, row, received⟩

theorem paced_source_calls (h : Paced k m shut t) :
    t.supplier.calls (t.eventsOf .supplier) ≤ m + k + 1 := by
  obtain ⟨source, ⟨n, le, row⟩, _⟩ := h
  have calls := SourceStage.calls_le source
  have taken := Station.paced_taken row
  omega

/-- Bounded run-ahead. If the producer and the handlers leave a body in every pack, then when
`m` packs were read from a pipeline with `k` handlers, the producer has been called `m + k + 1`
times at most, and the handler of rank `i` so many times less by `i`. Once the data channel that
is read from is closed, this bound on the calls of the producer never grows again. -/
theorem run_ahead_bounded (full : p.source.producer.Full p.source.state)
    (leaves : ∀ s ∈ p.stages, ∀ h, s.handler = some h → h.Leaves s.memory)
    (hs : p.start = .ok (s₀, fault)) (ht : s₀.Comes t) :
    t.supplier.calls (t.eventsOf .supplier) ≤
      t.received.length + Pipeline.handlers p.stages + 1 ∧
    (∀ i s out, t.row[i]? = some (.working s out) →
      s.calls (t.eventsOf (.stage i)) + Station.rank t.row i ≤
        t.received.length + Pipeline.handlers p.stages + 1) ∧
    (t.terminal.data.closed = true → ∀ u, t.Comes u →
      u.supplier.calls (u.eventsOf .supplier) ≤
        t.received.length + Pipeline.handlers p.stages + 1) := by
  obtain ⟨m, _, paced⟩ := paced_comes (paced_start full leaves hs) ht
  obtain rfl := paced.received
  refine ⟨paced_source_calls paced, ?_, ?_⟩
  · intro i s out hi
    obtain ⟨n, le, row⟩ := paced.row
    have calls := Station.paced_calls row hi
    omega
  · intro closed u hu
    obtain ⟨n, le, row⟩ := paced.row
    -- from here on the count of packs stays as it is
    have paced' : Paced (Pipeline.handlers p.stages) t.received.length true t :=
      ⟨paced.source, ⟨n, le, Station.paced_shut row closed⟩, rfl⟩
    obtain ⟨m, same, later⟩ := paced_comes paced' hu
    obtain rfl := same rfl
    exact paced_source_calls later

end System

/-- Always has one more pack. -/
def Producer.endless : Producer Unit := fun s =>
  { production := .yielded (some (.ofBytes [])) true, state := s }

/-- Packs without end, which go through one handler. -/
def Pipeline.endless : Pipeline Unit Unit where
  source := { producer := Producer.endless, state := () }
  capacity := 1
  stages := [{ handler := some .passOn, memory := () }]

namespace System

/-- That pipeline when it has just been started. -/
def endless : System (SourceStage Unit) Unit :=
  let stage : TransformStage Unit := { handler := .passOn, memory := () }
  let fresh (capacity : UInt64) : Conduit :=
    { errors := { queue := { capacity }, interval := Reports.defaultInterval } }
  record {
      supplier := Pipeline.endless.source.launch
      inlet := fresh 1
      row := [.working stage.launch (fresh 3)] }
    .application (Event.saying [Pipeline.startedEntry 2])

theorem start_endless : Pipeline.endless.start = .ok (endless, none) := rfl

/-- One pack is read and then the channel is closed, while the task and the source each have the
next pack under way. Both bounds are reached, and the producer is not called again. -/
theorem run_ahead_bounded_endless : ∃ t, endless.Comes t ∧ t.terminal.data.closed = true ∧
    t.received.length = 1 ∧ t.supplier.calls (t.eventsOf .supplier) = 3 ∧
    (t.eventsOf (.stage 0)).countP Event.isCall = 2 ∧
    ∀ u, t.Comes u → u.supplier.calls (u.eventsOf .supplier) ≤ 3 := by
  have reached : ((endless.plan [.read, .shut]).run? (turns
      [(3, .supplier), (4, .stage 0), (1, .application), (1, .stage 0), (3, .supplier),
        (3, .stage 0), (3, .supplier), (1, .application)])).any (fun t =>
          t.terminal.data.closed && t.received.length == 1 &&
            t.supplier.calls (t.eventsOf .supplier) == 3 &&
            (t.eventsOf (.stage 0)).countP Event.isCall == 2) = true := by decide +kernel
  obtain ⟨t, hr, ht⟩ := (Option.any_eq_true _ _).mp reached
  simp only [Bool.and_eq_true, beq_iff_eq] at ht
  obtain ⟨⟨⟨closed, one⟩, calls⟩, handled⟩ := ht
  have full : Pipeline.endless.source.producer.Full Pipeline.endless.source.state := fun _ => rfl
  have leaves : ∀ s ∈ Pipeline.endless.stages, ∀ h, s.handler = some h → h.Leaves s.memory := by
    intro s hs h hh
    obtain rfl := List.mem_singleton.mp hs
    cases hh
    exact fun _ _ _ _ _ => rfl
  have own : (endless.plan [.read, .shut]).application.KeepsToTerminal := by
    have agenda : (endless.plan [.read, .shut]).application.agenda = [.read, .shut] := rfl
    simp [Application.KeepsToTerminal, agenda]
  have comes : endless.Comes t :=
    run_invariant (P := endless.Comes) .step (.decide .here _ own) hr
  obtain ⟨_, _, after⟩ := run_ahead_bounded full leaves start_endless comes
  refine ⟨t, comes, closed, one, calls, handled, fun u hu => ?_⟩
  have bound := after closed u hu
  rwa [one] at bound

end System
end StagedPipeline
