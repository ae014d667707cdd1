import StagedPipeline.Proofs.Context.Answers

/-!
# How far a cancel reaches

A cancel puts up a flag that no operation takes down, and a context asks all of its ancestors
for theirs. So everything that descends from a cancelled context is done, whether it was
derived before the cancel or after it. The one thing a cancel looks at is whether the context
has a parent, which is how it spares the background. It spares every other context without a
parent in the same way: there is nothing that tells such a context from the background.
-/
namespace StagedPipeline.Context.Tree

variable {t : Tree} {c d p : Nat} {n : Node}

/-- Among the layers of a context are those of everything that it descends from. -/
theorem exists_lineage_of_descends {ls : List Layer} (h : t.Descends c d)
    (above : t.Lineage c ls) : ∃ ls', t.Lineage d ls' ∧ ls <:+ ls' := by
  induction h with
  | self => exact ⟨ls, above, List.suffix_rfl⟩
  | child here parent _ ih =>
    obtain ⟨ls', h, suffix⟩ := ih
    exact ⟨_, .derived here parent h, suffix.trans (List.suffix_cons ..)⟩

/-- A context below a flag is done. -/
theorem isDone_of_descends (ht : t.Sound) (here : t.nodes[c]? = some n)
    (flagged : n.layer.cancelled = true) (h : t.Descends c d) (now : Time) :
    t.isDone now d = true := by
  obtain ⟨ls, above⟩ := exists_lineage ht (Array.getElem?_eq_some_iff.mp here).1
  obtain ⟨ls', lineage, suffix⟩ := exists_lineage_of_descends h above
  have own : n.layer ∈ ls := by
    cases above with
    | first here' =>
      obtain rfl := Option.some.inj (here.symm.trans here')
      exact List.mem_cons_self
    | derived here' =>
      obtain rfl := Option.some.inj (here.symm.trans here')
      exact List.mem_cons_self
  rw [(answers_lineage ht lineage).isDone]
  exact ⟨n.layer, suffix.subset own, Layer.isOver_iff.mpr (.inl flagged)⟩

/-- A context with a parent takes the flag of a cancel. -/
theorem cancel_flags (here : t.nodes[c]? = some n) (parent : n.parent = some p) :
    ∃ m, (t.cancel c).nodes[c]? = some m ∧ m.layer.cancelled = true := by
  rw [cancel_getElem?, if_pos rfl, here]
  simp [parent]

/-- A context without a parent is done when its own deadline has come, and not before. -/
theorem exists_not_isDone (ht : t.Sound) (here : t.nodes[c]? = some n) (alone : n.parent = none) :
    ∃ now, t.isDone now c = false := by
  have answers := answers_lineage ht (.first here alone)
  have expiry := answers.expiry (by simpa using ht.unflagged here alone)
  cases deadline : t.deadline? c with
  | none => exact ⟨0, Bool.eq_false_iff.mpr (by simp [expiry, deadline])⟩
  | some a =>
    have before : ¬ a ≤ a - 1 := Int.not_le.mpr (Int.sub_lt_self a Int.one_pos)
    refine ⟨a - 1, Bool.eq_false_iff.mpr fun done => before ?_⟩
    obtain ⟨a', same, past⟩ := (expiry _).mp done
    obtain rfl := Option.some.inj (deadline.symm.trans same)
    exact past

/-- A cancel makes a context and all of its descendants done for ever exactly when the
context has a parent. Without one the cancel does nothing. -/
theorem cancel_reaches_iff (built : t.Built) (here : t.nodes[c]? = some n) :
    ((∀ u, (t.cancel c).Comes u → ∀ d, u.Descends c d → ∀ now, u.isDone now d = true) ↔
        n.parent.isSome = true) ∧
      (n.parent = none → t.cancel c = t) := by
  have ht := sound_of_built built
  refine ⟨⟨fun reached => ?_, fun derived => ?_⟩, cancel_of_orphan here⟩
  case refine_1 =>
    -- without a parent nothing is flagged, and at some moment the context itself is not done
    by_contra alone
    rw [Option.not_isSome_iff_eq_none] at alone
    rw [cancel_of_orphan here alone] at reached
    obtain ⟨now, live⟩ := exists_not_isDone ht here alone
    exact Bool.false_ne_true (live.symm.trans (reached t .refl c .self now))
  case refine_2 =>
    intro u hu d descends now
    obtain ⟨p, parent⟩ := Option.isSome_iff_exists.mp derived
    obtain ⟨m, flagged, up⟩ := cancel_flags here parent
    obtain ⟨m', found, -, later⟩ := extends_comes hu flagged
    exact isDone_of_descends (sound_comes (sound_cancel ht c) hu) found (later.cancelled up)
      descends now

/-- The sample's first context takes the context with the value down with it. -/
theorem cancel_reaches_iff_sample :
    sample.Built ∧ sample.nodes[1]? = some ⟨some 0, {}⟩ ∧
      ∀ u, (sample.cancel 1).Comes u → u.Descends 1 3 → ∀ now, u.isDone now 3 = true :=
  ⟨sample_built, rfl, fun u hu descends now =>
    (cancel_reaches_iff sample_built (c := 1) rfl).1.mpr rfl u hu 3 descends now⟩

/-- A context that was derived from nothing is not the background, and cannot be cancelled. -/
theorem cancel_misses_orphan :
    ¬ ∀ t : Tree, t.Built → ∀ c < t.nodes.size, c ≠ background →
      ∀ u, (t.cancel c).Comes u → ∀ d, u.Descends c d → ∀ now, u.isDone now d = true := by
  intro reaches
  have built : (({} : Tree).withCancel none).1.Built := .step .refl (.withCancel (by simp))
  have lineage : (({} : Tree).withCancel none).1.Lineage 1 [{}] := .first (n := {}) rfl rfl
  have done := reaches _ built 1 (by decide) (by decide) _ .refl 1 .self 0
  rw [cancel_of_orphan (n := {}) rfl rfl,
    (answers_lineage (sound_of_built built) lineage).isDone] at done
  exact absurd done (by decide)

end StagedPipeline.Context.Tree
