import StagedPipeline.Proofs.Channel.Sides
import StagedPipeline.Proofs.Stage.Logs
import StagedPipeline.Proofs.Pull.Evaluation
import StagedPipeline.Pipeline.Application

/-!
# The application as a reader

Whatever errand the application is on, its section at the terminal conduit is a step of a
reader. An application that is to read so far, to drain the errors and then to wait for
some tasks is followed through its agenda by `Stands`, which says what it has done as a
reader by the time it is at each of these errands.
-/
namespace StagedPipeline.Application

variable {a a' : Application} {c c' : Conduit} {events : List Event} {r : ReaderSide}

/-- The next section at the terminal conduit, as a change of it. -/
def section? (a : Application) (c : Conduit) : Option (Conduit × Application × List Event) :=
  (a.advance? c).map fun (a, c, events) => (c, a, events)

theorem section_eq_some : a.section? c = some (c', a', events) ↔
    a.advance? c = some (a', c', events) := by
  simp only [section?, Option.map_eq_some_iff, Prod.exists, Prod.mk.injEq]
  constructor
  · rintro ⟨_, _, _, ha, rfl, rfl, rfl⟩
    exact ha
  · intro ha
    exact ⟨_, _, _, ha, rfl, rfl, rfl⟩

/-- A read is a step of a reader, and it leaves no other events than that of its pack. -/
theorem readerStep_note {item : Option (Option Pack)} {data : Handoff (Option Pack)}
    {next atEnd : List Errand} (done : c.data.take? = some (item, data)) :
    ∃ r', c.ReaderStep r { c with data } r' ∧
      r'.taken = r.taken ++ Event.collect Event.received? (a.note item next atEnd).2 := by
  cases item with
  | some p => exact ⟨_, .take done, rfl⟩
  | none =>
    cases hs : r.shut with
    | false => exact ⟨_, .meetEnd hs done, (List.append_nil _).symm⟩
    | true =>
      obtain ⟨_, rfl⟩ := Handoff.take_end done
      exact ⟨r, .idle, (List.append_nil _).symm⟩

theorem readerStep_receive {item : Option Error} {errors : Reports}
    (done : c.errors.receive? = some (item, errors)) :
    ∃ r', c.ReaderStep r { c with errors } r' ∧ r'.taken = r.taken := by
  cases item with
  | some e => exact ⟨_, .poll done, rfl⟩
  | none =>
    obtain ⟨_, _, rfl⟩ := Reports.receive_end done
    exact ⟨r, .idle, rfl⟩

/-- Every section of an errand at the terminal conduit is a step of a reader. -/
theorem readerStep_advance (ha : a.advance? c = some (a', c', events)) :
    ∃ r', c.ReaderStep r c' r' ∧ r'.taken = r.taken ++ Event.collect Event.received? events := by
  unfold advance? at ha
  split at ha
  case h_1 | h_2 | h_4 | h_5 =>
    simp only [Option.map_eq_some_iff, Prod.exists, Prod.mk.injEq] at ha
    obtain ⟨item, data, done, rfl, rfl, rfl⟩ := ha
    exact readerStep_note done
  case h_3 | h_8 =>
    cases ha
    exact ⟨r, .idle, (List.append_nil _).symm⟩
  case h_6 =>
    cases ha
    exact ⟨_, .shut, (List.append_nil _).symm⟩
  case h_7 | h_9 =>
    simp only [Option.map_eq_some_iff, Prod.exists] at ha
    obtain ⟨item, errors, done, ha⟩ := ha
    obtain ⟨r', hr, ht⟩ := readerStep_receive (r := r) done
    refine ⟨r', ?_, ?_⟩
    · cases item <;> cases ha <;> exact hr
    · rw [ht]
      cases item <;> cases ha <;> simp
  case h_10 =>
    split at ha
    · cases ha
      exact ⟨r, .idle, by simp⟩
    · cases ha
      exact ⟨r, .idle, (List.append_nil _).symm⟩
  case h_11 => cases ha

/-! ## The agenda -/

/-- How a section at the terminal conduit leaves the agenda: the errands after the first one stay,
or all of them are given up, because the application has thrown at a pack. -/
def Leaves (a : Application) (rest agenda : List Errand) : Prop :=
  (∃ front, agenda = front ++ rest ∧ ∀ i, .shutInput i ∉ front) ∨
    (agenda = [] ∧ ∃ n p, (a.onItem n p).isSome = true)

theorem leaves_note (item : Option (Option Pack)) (next atEnd rest : List Errand)
    (hn : ∀ i, .shutInput i ∉ next) (he : ∀ i, .shutInput i ∉ atEnd) :
    a.Leaves rest (a.note item (next ++ rest) (atEnd ++ rest)).1.agenda := by
  cases item with
  | none => exact .inl ⟨atEnd, rfl, he⟩
  | some p =>
    by_cases thrown : (a.onItem a.taken p).isSome = true
    · exact .inr ⟨by simp [note, thrown], _, _, thrown⟩
    · exact .inl ⟨next, by simp [note, thrown], hn⟩

/-- A section at the terminal conduit is part of the first errand, which is no wait for a task. -/
theorem leaves_advance (ha : a.advance? c = some (a', c', events)) :
    ∃ e rest, a.agenda = e :: rest ∧ (∀ q, e ≠ .join q) ∧ a.Leaves rest a'.agenda := by
  unfold advance? at ha
  split at ha <;> rename_i agenda
  case h_1 rest =>
    simp only [Option.map_eq_some_iff, Prod.exists, Prod.mk.injEq] at ha
    obtain ⟨item, data, done, rfl, rfl, rfl⟩ := ha
    exact ⟨_, rest, agenda, by simp, leaves_note item [] [] rest (by simp) (by simp)⟩
  case h_2 rest =>
    simp only [Option.map_eq_some_iff, Prod.exists, Prod.mk.injEq] at ha
    obtain ⟨item, data, done, rfl, rfl, rfl⟩ := ha
    exact ⟨_, rest, agenda, by simp, leaves_note item [.readRest] [] rest (by simp) (by simp)⟩
  case h_4 n rest =>
    simp only [Option.map_eq_some_iff, Prod.exists, Prod.mk.injEq] at ha
    obtain ⟨item, data, done, rfl, rfl, rfl⟩ := ha
    exact ⟨_, rest, agenda, by simp, leaves_note item [.take n] [] rest (by simp) (by simp)⟩
  case h_5 n rest =>
    simp only [Option.map_eq_some_iff, Prod.exists, Prod.mk.injEq] at ha
    obtain ⟨item, data, done, rfl, rfl, rfl⟩ := ha
    exact ⟨_, rest, agenda, by simp,
      leaves_note item [.drain (n + 1)] [.poll (.report n) []] rest (by simp) (by simp)⟩
  case h_3 rest | h_6 rest | h_8 rest =>
    cases ha
    exact ⟨_, rest, agenda, by simp, .inl ⟨[], rfl, by simp⟩⟩
  case h_7 rest =>
    simp only [Option.map_eq_some_iff, Prod.exists] at ha
    obtain ⟨item, errors, done, ha⟩ := ha
    cases item with
    | some e =>
      cases ha
      exact ⟨_, rest, agenda, by simp, .inl ⟨[], rfl, by simp⟩⟩
    | none =>
      cases ha
      exact ⟨_, rest, agenda, by simp, .inl ⟨[.confirmCheck], rfl, by simp⟩⟩
  case h_9 purpose got rest =>
    simp only [Option.map_eq_some_iff, Prod.exists] at ha
    obtain ⟨item, errors, done, ha⟩ := ha
    cases item with
    | some e =>
      cases ha
      exact ⟨_, rest, agenda, by simp, .inl ⟨[.poll purpose (got ++ [e])], rfl, by simp⟩⟩
    | none =>
      cases ha
      exact ⟨_, rest, agenda, by simp, .inl ⟨[.confirm purpose got], rfl, by simp⟩⟩
  case h_10 purpose got rest =>
    split at ha
    · cases ha
      exact ⟨_, rest, agenda, by simp, .inl ⟨[], rfl, by simp⟩⟩
    · cases ha
      exact ⟨_, rest, agenda, by simp, .inl ⟨[.poll purpose got], rfl, by simp⟩⟩
  case h_11 => cases ha

theorem leaves_expire (he : a.expire? c = some a') :
    ∃ e rest, a.agenda = e :: rest ∧ (∀ q, e ≠ .join q) ∧ a.Leaves rest a'.agenda := by
  unfold expire? at he
  split at he <;> rename_i agenda
  case h_1 rest =>
    split at he
    · cases he
      exact ⟨_, rest, agenda, by simp, .inl ⟨[.confirmCheck], rfl, by simp⟩⟩
    · cases he
  case h_2 purpose got rest =>
    split at he
    · cases he
      exact ⟨_, rest, agenda, by simp, .inl ⟨[.confirm purpose got], rfl, by simp⟩⟩
    · cases he
  case h_3 => cases he

/-- An application that closes no data channel but the terminal one. -/
def KeepsToTerminal (a : Application) : Prop := ∀ i, .shutInput i ∉ a.agenda

theorem keepsToTerminal_leaves {e : Errand} {rest : List Errand} (hk : a.KeepsToTerminal)
    (hg : a.agenda = e :: rest) (hl : a.Leaves rest a'.agenda) : a'.KeepsToTerminal := by
  intro i hi
  rcases hl with ⟨front, same, own⟩ | ⟨none', _⟩
  · rw [same, List.mem_append] at hi
    rcases hi with hi | hi
    · exact own i hi
    · exact hk i (by rw [hg]; exact List.mem_cons_of_mem _ hi)
  · rw [none'] at hi
    cases hi

/-- If the application does not throw, it does not forget what it is to wait for. -/
theorem join_leaves {e : Errand} {rest : List Errand} {q : Party}
    (silent : ∀ n p, a.onItem n p = none) (hg : a.agenda = e :: rest) (he : ∀ q, e ≠ .join q)
    (hl : a.Leaves rest a'.agenda) (hj : .join q ∈ a.agenda) : .join q ∈ a'.agenda := by
  rw [hg, List.mem_cons] at hj
  have later := hj.resolve_left (Ne.symm (he q))
  rcases hl with ⟨front, same, _⟩ | ⟨_, n, p, thrown⟩
  · rw [same]
    exact List.mem_append_right _ later
  · rw [silent] at thrown
    cases thrown

/-! ## A reader with a plan -/

/-- The errands of an application that reads so far and then drains the errors. -/
def reading : Pull.Limit → List Errand
  | none => [.drain 0]
  | some d => [.take d, .shut, .poll .collect []]

/-- A reader who is still reading. -/
structure Begun (r : ReaderSide) : Prop where
  open' : r.shut = false
  going : r.ended = false
  polled : r.polled = []

/-- A reader who has read so far, or has found the end before. -/
structure HasRead (limit : Pull.Limit) (r : ReaderSide) : Prop where
  stopped : r.ended = false → limit = some r.taken.length
  found : r.ended = true → ∀ d, limit = some d → r.taken.length < d

/-- Where an application stands that is to read so far, to drain the errors and then to
wait for tasks, and what it has done as a reader. -/
inductive Stands (limit : Pull.Limit) (waits : List Errand) (a : Application)
    (r : ReaderSide) : Prop where
  | draining {n} (whole : limit = none) (agenda : a.agenda = .drain n :: waits) (begun : Begun r)
  | taking {d n} (part : limit = some d)
      (agenda : a.agenda = .take n :: .shut :: .poll .collect [] :: waits) (begun : Begun r)
      (count : r.taken.length + n = d)
  | shutting {d} (part : limit = some d) (agenda : a.agenda = .shut :: .poll .collect [] :: waits)
      (open' : r.shut = false) (polled : r.polled = []) (read : HasRead limit r)
  | polling {purpose} (agenda : a.agenda = .poll purpose r.polled :: waits)
      (shut : r.shut = limit.isSome) (read : HasRead limit r)
  | confirming {purpose} (agenda : a.agenda = .confirm purpose r.polled :: waits)
      (shut : r.shut = limit.isSome) (read : HasRead limit r)
  | waiting (agenda : a.agenda <:+ waits) (drained : a.drained = r.polled)
      (all : r.drained = true) (shut : r.shut = limit.isSome) (read : HasRead limit r)

/-- None of these errands closes an inner data channel or destroys a station. -/
theorem stands_errand {limit : Pull.Limit} {waits : List Errand} {e : Errand}
    (hs : Stands limit waits a r) (joins : ∀ e ∈ waits, ∃ p, e = .join p) (he : e ∈ a.agenda) :
    (∀ i, e ≠ .shutInput i) ∧ ∀ i, e ≠ .release i := by
  have join : e ∈ waits → (∀ i, e ≠ .shutInput i) ∧ ∀ i, e ≠ .release i := by
    intro hw
    obtain ⟨p, rfl⟩ := joins e hw
    simp
  cases hs with
  | waiting agenda => exact join (agenda.subset he)
  | draining _ agenda | polling agenda | confirming agenda =>
    rw [agenda, List.mem_cons] at he
    rcases he with rfl | he
    · simp
    · exact join he
  | taking _ agenda =>
    rw [agenda, List.mem_cons, List.mem_cons, List.mem_cons] at he
    rcases he with rfl | rfl | rfl | he
    · simp
    · simp
    · simp
    · exact join he
  | shutting _ agenda =>
    rw [agenda, List.mem_cons, List.mem_cons] at he
    rcases he with rfl | rfl | he
    · simp
    · simp
    · exact join he

/-- What such an application has done when no errand is left. -/
theorem stands_done {limit : Pull.Limit} {waits : List Errand} (hs : Stands limit waits a r)
    (hg : a.agenda = []) : a.drained = r.polled ∧ r.drained = true ∧ HasRead limit r := by
  cases hs with
  | waiting _ drained all _ read => exact ⟨drained, all, read⟩
  | draining _ agenda | taking _ agenda | shutting _ agenda | polling agenda
  | confirming agenda => simp [agenda] at hg

theorem stands_advance {limit : Pull.Limit} {waits : List Errand}
    (hs : Stands limit waits a r) (silent : ∀ n p, a.onItem n p = none)
    (joins : ∀ e ∈ waits, ∃ p, e = .join p) (ha : a.advance? c = some (a', c', events)) :
    ∃ r', c.ReaderStep r c' r' ∧ r'.taken = r.taken ++ Event.collect Event.received? events ∧
      Stands limit waits a' r' ∧ a'.onItem = a.onItem := by
  cases hs with
  | @draining n whole agenda begun =>
    simp only [advance?, agenda, Option.map_eq_some_iff, Prod.exists, Prod.mk.injEq] at ha
    obtain ⟨item, data, done, rfl, rfl, rfl⟩ := ha
    cases item with
    | some p =>
      refine ⟨_, .take done, rfl, ?_, rfl⟩
      refine .draining (n := n + 1) whole ?_ ⟨begun.open', begun.going, begun.polled⟩
      simp [note, silent]
    | none =>
      -- the list of errors that is filled next starts empty, as nothing was polled before
      refine ⟨_, .meetEnd begun.open' done, (List.append_nil _).symm, ?_, rfl⟩
      have agenda' : (a.note none (.drain (n + 1) :: waits) (.poll (.report n) [] :: waits)).1.agenda =
          .poll (.report n) r.polled :: waits := by
        rw [begun.polled]
        rfl
      refine .polling agenda' ?_ ⟨by simp, ?_⟩
      · rw [whole]; exact begun.open'
      · simp [whole]
  | @taking d n part agenda begun count =>
    cases n with
    | zero =>
      simp only [advance?, agenda, Option.some.injEq, Prod.mk.injEq] at ha
      obtain ⟨rfl, rfl, rfl⟩ := ha
      refine ⟨r, .idle, (List.append_nil _).symm, ?_, rfl⟩
      refine .shutting part rfl begun.open' begun.polled ⟨fun _ => ?_, ?_⟩
      · rw [part, ← count]; rfl
      · simp [begun.going]
    | succ n =>
      simp only [advance?, agenda, Option.map_eq_some_iff, Prod.exists, Prod.mk.injEq] at ha
      obtain ⟨item, data, done, rfl, rfl, rfl⟩ := ha
      cases item with
      | some p =>
        refine ⟨_, .take done, rfl, ?_, rfl⟩
        refine .taking (n := n) part ?_ ⟨begun.open', begun.going, begun.polled⟩ ?_
        · simp [note, silent]
        · simp only [List.length_append, List.length_singleton]
          omega
      | none =>
        refine ⟨_, .meetEnd begun.open' done, (List.append_nil _).symm, ?_, rfl⟩
        refine .shutting part rfl begun.open' begun.polled ⟨by simp, fun _ e he => ?_⟩
        obtain rfl := Option.some.inj (part.symm.trans he)
        show r.taken.length < _
        omega
  | shutting part agenda open' polled read =>
    simp only [advance?, agenda, Option.some.injEq, Prod.mk.injEq] at ha
    obtain ⟨rfl, rfl, rfl⟩ := ha
    have agenda' : .poll .collect [] :: waits = Errand.poll .collect r.polled :: waits := by
      rw [polled]
    refine ⟨_, .shut, (List.append_nil _).symm, .polling agenda' ?_ ?_, rfl⟩
    · rw [part]; rfl
    · exact ⟨read.stopped, read.found⟩
  | @polling purpose agenda shut read =>
    simp only [advance?, agenda, Option.map_eq_some_iff, Prod.exists] at ha
    obtain ⟨item, errors, done, ha⟩ := ha
    cases item with
    | some e =>
      simp only [Prod.mk.injEq] at ha
      obtain ⟨rfl, rfl, rfl⟩ := ha
      exact ⟨_, .poll done, by simp, .polling rfl shut
        ⟨read.stopped, read.found⟩, rfl⟩
    | none =>
      simp only [Prod.mk.injEq] at ha
      obtain ⟨rfl, rfl, rfl⟩ := ha
      obtain ⟨_, _, rfl⟩ := Reports.receive_end done
      exact ⟨r, .idle, by simp, .confirming rfl shut read, rfl⟩
  | @confirming purpose agenda shut read =>
    simp only [advance?, agenda] at ha
    split at ha
    · rename_i done
      simp only [Option.some.injEq, Prod.mk.injEq] at ha
      obtain ⟨rfl, rfl, rfl⟩ := ha
      exact ⟨_, .drained done, by simp, .waiting (List.suffix_refl _) rfl rfl shut
        ⟨read.stopped, read.found⟩, rfl⟩
    · simp only [Option.some.injEq, Prod.mk.injEq] at ha
      obtain ⟨rfl, rfl, rfl⟩ := ha
      exact ⟨r, .idle, by simp, .polling rfl shut read, rfl⟩
  | waiting agenda drained all shut read =>
    cases hg : a.agenda with
    | nil => simp [advance?, hg] at ha
    | cons e rest =>
      obtain ⟨p, rfl⟩ := joins e (agenda.subset (by rw [hg]; exact List.mem_cons_self))
      simp [advance?, hg] at ha

theorem stands_expire {limit : Pull.Limit} {waits : List Errand}
    (hs : Stands limit waits a r) (joins : ∀ e ∈ waits, ∃ p, e = .join p)
    (he : a.expire? c = some a') : Stands limit waits a' r ∧ a'.onItem = a.onItem := by
  cases hs with
  | draining whole agenda begun => simp [expire?, agenda] at he
  | taking part agenda begun count => simp [expire?, agenda] at he
  | shutting part agenda open' polled read => simp [expire?, agenda] at he
  | @polling purpose agenda shut read =>
    simp only [expire?, agenda] at he
    split at he
    · cases he
      exact ⟨.confirming rfl shut read, rfl⟩
    · cases he
  | confirming agenda shut read => simp [expire?, agenda] at he
  | waiting agenda drained all shut read =>
    cases hg : a.agenda with
    | nil => simp [expire?, hg] at he
    | cons e rest =>
      obtain ⟨p, rfl⟩ := joins e (agenda.subset (by rw [hg]; exact List.mem_cons_self))
      simp [expire?, hg] at he

theorem stands_join {limit : Pull.Limit} {waits rest : List Errand} {p : Party}
    (hs : Stands limit waits a r) (hg : a.agenda = .join p :: rest) :
    Stands limit waits { a with agenda := rest } r := by
  cases hs with
  | waiting agenda drained all shut read =>
    rw [hg] at agenda
    exact .waiting ((List.suffix_cons _ _).trans agenda) drained all shut read
  | draining _ agenda | taking _ agenda | shutting _ agenda | polling agenda
  | confirming agenda => simp [agenda] at hg

end StagedPipeline.Application
