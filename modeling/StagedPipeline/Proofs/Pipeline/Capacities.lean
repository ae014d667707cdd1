import StagedPipeline.Proofs.Pipeline.ErrorRoom

/-!
# Capacities of error channels

The error channel behind a task gets the capacity of the one in front of it and two more, by an
addition of words that nothing checks. The capacities grow as they should as long as the last of
them is within 64 bits. Beyond that they start again at zero: a channel is smaller than the one
in front of it, or cannot be made, and then the start of the pipeline breaks off.
-/
namespace StagedPipeline

namespace TransformStage

variable {inp out : Conduit}

theorem outputFor_capacity (ho : outputFor inp = .ok out) :
    out.errors.capacity.toNat = (inp.errors.capacity.toNat + 2) % UInt64.size := by
  rw [(Station.create_capacity ho).2, UInt64.toNat_add]
  rfl

/-- An output that cannot be made would have a capacity of zero. -/
theorem outputFor_error {f : Fault} (ho : outputFor inp = .error f) :
    UInt64.size ≤ inp.errors.capacity.toNat + 2 := by
  by_contra below
  obtain ⟨out, made, _⟩ := Station.outputFor_room (c := inp) (by omega)
  rw [made] at ho
  cases ho

end TransformStage

namespace Station

variable {σ : Type} {cap : Nat} {row : List (Station σ)}

/-- Each error channel of a row has room for two errors more than the one in front of it, the
first of which has room for `cap`. -/
def Grows (cap : Nat) (row : List (Station σ)) : Prop :=
  ∀ i s out, row[i]? = some (.working s out) →
    out.errors.capacity.toNat = cap + 2 * rank row i

theorem grows_nil (cap : Nat) : Grows cap ([] : List (Station σ)) := by
  intro i s out hi
  cases hi

theorem rank_passing (x : Finalization) (row : List (Station σ)) (i : Nat) :
    rank (.passing x :: row) (i + 1) = rank row i := by
  rw [rank_succ]
  exact Nat.zero_add _

theorem rank_working_zero (s : TransformStage σ) (out : Conduit) (row : List (Station σ)) :
    rank (.working s out :: row) 0 = 1 := rank_zero _ _

theorem rank_working (s : TransformStage σ) (out : Conduit) (row : List (Station σ)) (i : Nat) :
    rank (.working s out :: row) (i + 1) = rank row i + 1 := by
  rw [rank_succ]
  exact Nat.add_comm _ _

theorem grows_passing (x : Finalization) : Grows cap (.passing x :: row) ↔ Grows cap row := by
  constructor
  · intro h i s out hi
    rw [← rank_passing x row]
    exact h (i + 1) s out hi
  · intro h i s out hi
    cases i with
    | zero => cases hi
    | succ i =>
      rw [rank_passing]
      exact h i s out hi

theorem grows_working (s : TransformStage σ) (out : Conduit) :
    Grows cap (.working s out :: row) ↔
      out.errors.capacity.toNat = cap + 2 ∧ Grows (cap + 2) row := by
  have shift : ∀ i, cap + 2 * rank (.working s out :: row) (i + 1) = cap + 2 + 2 * rank row i := by
    intro i
    rw [rank_working]
    omega
  constructor
  · intro h
    refine ⟨?_, fun i s' out' hi => ?_⟩
    · have head := h 0 s out rfl
      rwa [rank_working_zero] at head
    · rw [← shift]
      exact h (i + 1) s' out' hi
  · rintro ⟨head, behind⟩ i s' out' hi
    cases i with
    | zero =>
      cases hi
      rw [rank_working_zero]
      exact head
    | succ i =>
      rw [shift]
      exact behind i s' out' hi

end Station

namespace Pipeline

variable {π σ : Type} {p : Pipeline π σ} {c : Conduit}

/-- The number of stages with a handler. -/
def handlers (stages : List (Stage σ)) : Nat := stages.countP fun s => s.handler.isSome

theorem handlers_cons (s : Stage σ) (stages : List (Stage σ)) :
    handlers (s :: stages) = handlers stages + if s.handler.isSome then 1 else 0 :=
  List.countP_cons

/-- A row of stages is set up one by one, each behind the output of the one before. -/
theorem connect_cons (c : Conduit) (s : Stage σ) (stages : List (Stage σ)) :
    (s.handler = none ∧ connect c (s :: stages) =
      (.passing { finalizer := s.finalizer } :: (connect c stages).1, (connect c stages).2)) ∨
    (s.handler.isSome = true ∧
      ((∃ f, TransformStage.outputFor c = .error f ∧
          connect c (s :: stages) = ([.unconnected { finalizer := s.finalizer }], some f)) ∨
        ∃ t out, TransformStage.outputFor c = .ok out ∧
          connect c (s :: stages) =
            (.working t out :: (connect out stages).1, (connect out stages).2))) := by
  cases hh : s.handler with
  | none => exact .inl ⟨rfl, by simp only [connect, hh]⟩
  | some h =>
    refine .inr ⟨rfl, ?_⟩
    cases ho : TransformStage.outputFor c with
    | error f => exact .inl ⟨f, rfl, by simp only [connect, hh, ho]⟩
    | ok out =>
      let fresh : TransformStage σ :=
        { handler := h, memory := s.memory, finalization := { finalizer := s.finalizer } }
      exact .inr ⟨fresh.launch, out, rfl, by simp only [connect, hh, ho, fresh]⟩

/-- The capacities of a row that is set up are sums of words. -/
theorem connect_wraps (stages : List (Stage σ)) {i : Nat} {s : TransformStage σ} {out : Conduit}
    (hi : (connect c stages).1[i]? = some (.working s out)) :
    out.errors.capacity.toNat =
      (c.errors.capacity.toNat + 2 * Station.rank (connect c stages).1 i) % UInt64.size := by
  induction stages generalizing c i with
  | nil => cases hi
  | cons s' stages ih =>
    rcases connect_cons c s' stages with ⟨_, made⟩ | ⟨_, ⟨f, _, made⟩ | ⟨t, out', ho, made⟩⟩
    all_goals rw [made] at hi ⊢
    · cases i with
      | zero => cases hi
      | succ i =>
        rw [Station.rank_passing]
        exact ih hi
    · cases i <;> cases hi
    · have first := TransformStage.outputFor_capacity ho
      cases i with
      | zero =>
        cases hi
        rw [Station.rank_working_zero]
        exact first
      | succ i =>
        rw [ih hi, first, Nat.mod_add_mod, Station.rank_working]
        congr 1
        omega

/-- A row is set up to its end with the capacities it should have exactly if the last of them
is within 64 bits. -/
theorem connect_grows_iff (stages : List (Stage σ)) :
    ((connect c stages).2 = none ∧
      Station.Grows c.errors.capacity.toNat (connect c stages).1) ↔
        c.errors.capacity.toNat + 2 * handlers stages < UInt64.size := by
  induction stages generalizing c with
  | nil =>
    have word := c.errors.capacity.toNat_lt_size
    exact ⟨fun _ => word, fun _ => ⟨rfl, Station.grows_nil _⟩⟩
  | cons s stages ih =>
    rw [handlers_cons]
    rcases connect_cons c s stages with ⟨bare, made⟩ | ⟨handles, ⟨f, ho, made⟩ | ⟨t, out, ho, made⟩⟩
    all_goals rw [made]
    · rw [bare, Station.grows_passing, ih]
      rfl
    · have past := TransformStage.outputFor_error ho
      rw [if_pos handles]
      constructor
      · rintro ⟨none', _⟩
        cases none'
      · intro below
        omega
    · have first := TransformStage.outputFor_capacity ho
      rw [if_pos handles, Station.grows_working]
      by_cases within : c.errors.capacity.toNat + 2 < UInt64.size
      · rw [Nat.mod_eq_of_lt within] at first
        have behind := ih (c := out)
        rw [first] at behind
        constructor
        · rintro ⟨through, _, grows⟩
          have below := behind.mp ⟨through, grows⟩
          omega
        · intro below
          obtain ⟨through, grows⟩ := behind.mpr (by omega)
          exact ⟨through, first, grows⟩
      · -- the first capacity has wrapped already, and is no sum of numbers
        have less : out.errors.capacity.toNat < UInt64.size := out.errors.capacity.toNat_lt_size
        constructor
        · rintro ⟨_, same, _⟩
          omega
        · intro below
          omega

/-- Starting a planned pipeline always makes its source and the capacities it can. They are sums
of words; all of them are the sums of numbers that they stand for, and nothing is left out,
exactly if the last one is within 64 bits. -/
theorem capacities_exact_iff (hp : p.Planned) : ∃ s₀ fault, p.start = .ok (s₀, fault) ∧
    s₀.inlet.errors.capacity = p.capacity ∧
    (∀ i s out, s₀.row[i]? = some (.working s out) → out.errors.capacity.toNat =
      (p.capacity.toNat + 2 * Station.rank s₀.row i) % UInt64.size) ∧
    ((fault = none ∧ Station.Grows p.capacity.toNat s₀.row) ↔
      p.capacity.toNat + 2 * handlers p.stages < UInt64.size) := by
  obtain ⟨started, capacity, _⟩ := planned_fresh hp
  obtain ⟨inlet, hi⟩ := Station.create_ok capacity p.interval
  have room : inlet.errors.capacity = p.capacity := (Station.create_capacity hi).2
  have wraps : ∀ i s out, (connect inlet p.stages).1[i]? = some (.working s out) →
      out.errors.capacity.toNat = (inlet.errors.capacity.toNat +
        2 * Station.rank (connect inlet p.stages).1 i) % UInt64.size :=
    fun i s out hi => connect_wraps p.stages hi
  have grows := connect_grows_iff (c := inlet) p.stages
  rw [room] at wraps grows
  cases hc : connect inlet p.stages with
  | mk row fault =>
    rw [hc] at wraps grows
    cases fault with
    | none =>
      refine ⟨System.record { supplier := p.source.launch, inlet, row } .application
        (Event.saying [startedEntry p.size]), none, ?_, room, wraps, grows⟩
      simp [Pipeline.start, started, hi, bind, Except.bind, pure, Except.pure, hc]
    | some f =>
      refine ⟨{ supplier := p.source.launch, inlet, row }, some f, ?_, room, wraps, grows⟩
      simp [Pipeline.start, started, hi, bind, Except.bind, pure, Except.pure, hc]

/-- The small pipeline with another capacity. -/
def wide (capacity : UInt64) : Pipeline Producer.Listing Unit := { sample .passOn with capacity }

theorem planned_wide (capacity : UInt64) (hc : capacity ≠ 0) : (wide capacity).Planned := by
  let producer : Option (Producer Producer.Listing × Producer.Listing) :=
    some (Producer.Listing.next, { rest := [some (.ofBytes [])] })
  let bare : Pipeline Producer.Listing Unit := { source := (sample .passOn).source, capacity }
  have made : create producer capacity Reports.defaultInterval = .ok bare := by
    simp [create, SourceStage.create, producer, bare, hc, Except.map, sample]
  exact .append (.append (.create made) rfl) rfl

/-- The greatest capacity with which the one handler of the small pipeline still gets its due. -/
theorem capacities_exact_iff_wide : ∃ s₀, (wide 18446744073709551613).start = .ok (s₀, none) ∧
    Station.Grows 18446744073709551613 s₀.row := by
  obtain ⟨s₀, fault, hs, _, _, exact'⟩ :=
    capacities_exact_iff (planned_wide 18446744073709551613 (by decide))
  obtain ⟨rfl, grows⟩ := exact'.mpr (by decide)
  exact ⟨s₀, hs, grows⟩

/-- With a capacity one greater the start breaks off, and with the greatest one of all the
channel behind the handler has room for a single error. -/
theorem capacity_wraps :
    ((wide 18446744073709551614).Planned ∧
      ∃ s₀ f, (wide 18446744073709551614).start = .ok (s₀, some f)) ∧
    (wide 18446744073709551615).Planned ∧
      ∃ s₀ s out, (wide 18446744073709551615).start = .ok (s₀, none) ∧
        s₀.row[0]? = some (.working s out) ∧ out.errors.capacity = 1 :=
  ⟨⟨planned_wide _ (by decide), _, _, rfl⟩, planned_wide _ (by decide), _, _, _, rfl, rfl, rfl⟩

end Pipeline
end StagedPipeline
