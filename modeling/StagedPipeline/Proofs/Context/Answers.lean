import StagedPipeline.Proofs.Context.Ancestry

/-!
# What a context answers

A context asks its ancestors, the nearest first. The first one that is cancelled or past
its deadline says why it is done, the earliest deadline of all is its deadline, and the
first one that carries a key gives the value. From this follows how the answers move: what
is done stays done, and a cancel is seen below the cancelled context and nowhere else.
-/
namespace StagedPipeline.Context

/-- The layer puts an end to the context: it is cancelled, or past its deadline. -/
def Layer.isOver (now : Time) (l : Layer) : Bool := l.cancelled || l.deadline.any (· ≤ now)

/-- Why the layer put an end to the context. -/
def Layer.reason (l : Layer) : Error := if l.cancelled then cancelledError else deadlineError

/-- The value of a layer, if it carries the key. -/
def Layer.find? (key : Bytes) (l : Layer) : Option Bytes :=
  l.entry.bind fun (k, v) => if k == key then some v else none

variable {now now' : Time} {l l' : Layer} {ls ls' : List Layer} {key : Bytes}

theorem Layer.isOver_iff : l.isOver now = true ↔
    l.cancelled = true ∨ ∃ a, l.deadline = some a ∧ a ≤ now := by
  rw [Layer.isOver, Bool.or_eq_true]
  cases l.deadline <;> simp

theorem Layer.reason_isNull (l : Layer) : l.reason.isNull = false := by
  unfold Layer.reason
  split <;> rfl

theorem Layer.Later.isOver (h : l.Later l') (le : now ≤ now') (stops : l.isOver now = true) :
    l'.isOver now' = true := by
  rw [Layer.isOver_iff] at stops ⊢
  obtain flagged | ⟨a, deadline, past⟩ := stops
  · exact .inl (h.cancelled flagged)
  · exact .inr ⟨a, h.deadline.trans deadline, Int.le_trans past le⟩

/-! ## The walks along the layers -/

theorem error?_eq (now : Time) (ls : Context) :
    ls.error? now = (ls.find? (·.isOver now)).map Layer.reason := by
  induction ls with
  | nil => rfl
  | cons l ls ih =>
    rw [error?, List.find?_cons]
    cases flagged : l.cancelled <;> cases past : l.deadline.any (· ≤ now) <;>
      simp [Layer.isOver, Layer.reason, flagged, past, ih]

theorem deadline?_eq (ls : Context) : ls.deadline? = (ls.filterMap Layer.deadline).min? := by
  induction ls with
  | nil => rfl
  | cons l ls ih =>
    rw [deadline?, ih, List.filterMap_cons]
    cases l.deadline with
    | none => rfl
    | some a =>
      rw [List.min?_cons]
      cases (List.filterMap Layer.deadline ls).min? <;> rfl

theorem value?_eq (key : Bytes) (ls : Context) :
    ls.value? key = ls.findSome? (Layer.find? key) := by
  induction ls with
  | nil => rfl
  | cons l ls ih =>
    rw [value?, ih, List.findSome?_cons, Layer.find?]
    cases l.entry with
    | none => rfl
    | some e => obtain same | differs := Decidable.em (e.1 = key) <;> simp [*]

/-- Whether a context is done is a matter of its layers, in any order. -/
theorem isSome_error?_iff (now : Time) (ls : Context) :
    (ls.error? now).isSome = true ↔ ∃ l ∈ ls, l.isOver now = true := by
  rw [error?_eq, Option.isSome_map, List.find?_isSome]

/-- Without a flag, a context is done when its deadline has come. -/
theorem isSome_error?_iff_deadline? (unflagged : ∀ l ∈ ls, l.cancelled = false) :
    (error? now ls).isSome = true ↔ ∃ a, deadline? ls = some a ∧ a ≤ now := by
  have past_iff : ∀ l ∈ ls, (l.isOver now = true ↔ ∃ a, l.deadline = some a ∧ a ≤ now) := by
    intro l mem
    simp [Layer.isOver_iff, unflagged l mem]
  rw [isSome_error?_iff, deadline?_eq]
  constructor
  · rintro ⟨l, mem, stops⟩
    obtain ⟨a, deadline, past⟩ := (past_iff l mem).mp stops
    have among : a ∈ ls.filterMap Layer.deadline := List.mem_filterMap.mpr ⟨l, mem, deadline⟩
    obtain ⟨least, eq⟩ := Option.isSome_iff_exists.mp (List.isSome_min?_of_mem among)
    exact ⟨least, eq, Int.le_trans ((List.min?_eq_some_iff.mp eq).2 a among) past⟩
  · rintro ⟨a, least, past⟩
    obtain ⟨l, mem, deadline⟩ := List.mem_filterMap.mp (List.min?_mem least)
    exact ⟨l, mem, (past_iff l mem).mpr ⟨a, deadline, past⟩⟩

theorem deadline?_later (h : List.Forall₂ Layer.Later ls ls') : deadline? ls' = deadline? ls := by
  induction h with
  | nil => rfl
  | cons hl _ ih => simp only [deadline?, hl.deadline, ih]

theorem value?_later (h : List.Forall₂ Layer.Later ls ls') (key : Bytes) :
    value? key ls' = value? key ls := by
  induction h with
  | nil => rfl
  | cons hl _ ih => simp only [value?, hl.entry, ih]

theorem isSome_error?_later (h : List.Forall₂ Layer.Later ls ls') (le : now ≤ now')
    (done : (error? now ls).isSome = true) : (error? now' ls').isSome = true := by
  rw [isSome_error?_iff] at done ⊢
  induction h with
  | nil => exact nomatch done
  | cons hl _ ih =>
    obtain ⟨l, mem, stops⟩ := done
    obtain rfl | mem := List.mem_cons.mp mem
    · exact ⟨_, List.mem_cons_self, hl.isOver le stops⟩
    · obtain ⟨l', mem', stops'⟩ := ih ⟨l, mem, stops⟩
      exact ⟨l', List.mem_cons_of_mem _ mem', stops'⟩

namespace Tree

variable {t u : Tree} {c d e : Nat}

/-! ## The answers of a tree -/

theorem isDone_eq (t : Tree) (now : Time) (c : Nat) :
    t.isDone now c = ((t.chain c).error? now).isSome := by
  rw [isDone, error, error?_eq]
  cases (t.chain c).find? (·.isOver now) with
  | none => rfl
  | some l => simp [Layer.reason_isNull]

/-- What a context answers when these are its layers and those of its ancestors, nearest first. -/
structure Answers (t : Tree) (c : Nat) (ls : List Layer) : Prop where
  error : ∀ now, t.error now c = ((ls.find? (·.isOver now)).map Layer.reason).getD .null
  isDone : ∀ now, t.isDone now c = true ↔ ∃ l ∈ ls, l.isOver now = true
  deadline : t.deadline? c = (ls.filterMap Layer.deadline).min?
  expiry : (∀ l ∈ ls, l.cancelled = false) →
    ∀ now, t.isDone now c = true ↔ ∃ a, t.deadline? c = some a ∧ a ≤ now
  value : ∀ key, t.value? c key = ls.findSome? (Layer.find? key)

theorem answers_lineage (ht : t.Sound) (h : t.Lineage c ls) : t.Answers c ls where
  error now := by rw [Tree.error, chain_eq ht h, error?_eq]
  isDone now := by rw [isDone_eq, chain_eq ht h, isSome_error?_iff]
  deadline := by rw [deadline?, chain_eq ht h, deadline?_eq]
  expiry unflagged now := by
    rw [isDone_eq, deadline?, chain_eq ht h, isSome_error?_iff_deadline? unflagged]
  value key := by rw [value?, chain_eq ht h, value?_eq]

/-! ## How the answers move -/

/-- In a later tree the ancestors of a context are the same, each as it is by then. -/
theorem chain_later (ht : t.Sound) (hu : u.Sound) (later : t.Extends u)
    (known : c < t.nodes.size) : List.Forall₂ Layer.Later (t.chain c) (u.chain c) := by
  obtain ⟨ls, h⟩ := exists_lineage ht known
  obtain ⟨ls', h', hls⟩ := lineage_later h later
  rwa [chain_eq ht h, chain_eq hu h']

theorem isDone_later (ht : t.Sound) (h : t.Comes u) (known : c < t.nodes.size) (le : now ≤ now')
    (done : t.isDone now c = true) : u.isDone now' c = true := by
  rw [isDone_eq] at done ⊢
  exact isSome_error?_later (chain_later ht (sound_comes ht h) (extends_comes h) known) le done

theorem lineage_background (ht : t.Sound) : t.Lineage background [{}] :=
  .first ht.background rfl

/-- A cancel leaves the ancestors of a context alone, unless the context descends from there. -/
theorem lineage_cancel (h : t.Lineage c ls) (apart : ¬ t.Descends e c) :
    (t.cancel e).Lineage c ls := by
  have elsewhere {c : Nat} (apart : ¬ t.Descends e c) : (t.cancel e).nodes[c]? = t.nodes[c]? := by
    rw [cancel_getElem?, if_neg]
    rintro rfl
    exact apart .self
  induction h with
  | first here alone => exact .first ((elsewhere apart).trans here) alone
  | derived here parent _ ih =>
    have above := ih fun descends => apart (.child here parent descends)
    exact .derived ((elsewhere apart).trans here) parent above

/-- The chain of ancestors alone says what a context answers, what is done stays done, and a
cancel changes no answer but those of the cancelled context and of its descendants. -/
theorem answers_determined (built : t.Built) (known : c < t.nodes.size) :
    (∃ ls, t.Lineage c ls) ∧ (∀ ls, t.Lineage c ls → t.Answers c ls) ∧
      (∀ u, t.Comes u → ∀ now now', now ≤ now' →
        t.isDone now c = true → u.isDone now' c = true) ∧
      (∀ now, t.isDone now background = false) ∧
      ∀ e, (¬ t.Descends e c → ∀ now,
          (t.cancel e).error now c = t.error now c ∧
          (t.cancel e).isDone now c = t.isDone now c) ∧
        (t.cancel e).deadline? c = t.deadline? c ∧
        ∀ key, (t.cancel e).value? c key = t.value? c key := by
  have ht := sound_of_built built
  obtain ⟨ls, h⟩ := exists_lineage ht known
  refine ⟨⟨ls, h⟩, fun _ => answers_lineage ht, fun u hu _ _ => isDone_later ht hu known, ?_, ?_⟩
  case refine_1 =>
    intro now
    rw [isDone_eq, chain_eq ht (lineage_background ht)]
    rfl
  case refine_2 =>
    intro e
    have later := chain_later ht (sound_cancel ht e) (extends_cancel t e) known
    refine ⟨fun apart now => ?_, deadline?_later later, value?_later later⟩
    -- apart from the cancelled context the whole chain is the same, flags included
    have same : (t.cancel e).chain c = t.chain c := by
      rw [chain_eq (sound_cancel ht e) (lineage_cancel h apart), chain_eq ht h]
    exact ⟨by rw [Tree.error, Tree.error, same], by rw [isDone_eq, isDone_eq, same]⟩

/-- Below the background: a context to be cancelled, one with a deadline, one with a value. -/
def sample : Tree :=
  let t := (({} : Tree).withCancel (some background)).1
  let t := (t.withDeadline (some 1) 5).1
  (t.withValue (some 2) (bytes "key") (bytes "value")).1

theorem sample_built : sample.Built :=
  .step (.step (.step .refl (.withCancel (by simp [background])))
    (.withDeadline (by simp [withCancel]) 5)) (.withValue (by simp [withCancel, withDeadline]) _ _)

theorem sample_lineage : sample.Lineage 3
    [{ entry := some (bytes "key", bytes "value") }, { deadline := some 5 }, {}, {}] :=
  .derived (n := ⟨some 2, _⟩) rfl rfl (.derived (n := ⟨some 1, _⟩) rfl rfl
    (.derived (n := ⟨some 0, _⟩) rfl rfl (.first (n := {}) rfl rfl)))

theorem answers_determined_sample :
    sample.Built ∧ 3 < sample.nodes.size ∧
      sample.Answers 3
        [{ entry := some (bytes "key", bytes "value") }, { deadline := some 5 }, {}, {}] ∧
      ∀ u, sample.Comes u → ∀ now, 5 ≤ now → u.isDone now 3 = true := by
  have known : 3 < sample.nodes.size := by decide
  obtain ⟨-, answers, later, -⟩ := answers_determined sample_built known
  have expired : sample.isDone 5 3 = true := by
    rw [(answers _ sample_lineage).isDone]
    exact ⟨{ deadline := some 5 }, by simp, rfl⟩
  exact ⟨sample_built, known, answers _ sample_lineage,
    fun u hu now le => later u hu 5 now le expired⟩

end Tree
end StagedPipeline.Context
