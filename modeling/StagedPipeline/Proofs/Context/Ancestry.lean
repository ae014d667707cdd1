import StagedPipeline.Context.Tree
import Mathlib.Data.List.Forall2

/-!
# Ancestors in a tree of contexts

A tree is built from the background alone by deriving contexts and cancelling them, in any
order. Whatever was built, a parent stands before its children, so that each context has a
line of ancestors that ends. Time only adds to a tree: a context keeps its parent, its
deadline and its entry, and a flag that is up stays up.
-/
namespace StagedPipeline.Context

/-- A layer at a later moment: only its flag may have gone up. -/
structure Layer.Later (l l' : Layer) : Prop where
  deadline : l'.deadline = l.deadline
  entry : l'.entry = l.entry
  cancelled : l.cancelled = true → l'.cancelled = true

theorem Layer.Later.refl (l : Layer) : l.Later l := ⟨rfl, rfl, id⟩

theorem Layer.Later.trans {l m n : Layer} (hm : l.Later m) (hn : m.Later n) : l.Later n :=
  ⟨hn.deadline.trans hm.deadline, hn.entry.trans hm.entry, hn.cancelled ∘ hm.cancelled⟩

namespace Tree

/-- What can be done to a tree of contexts. The parent of a new context is one that is
there, or there is none; a timeout starts at some reading of the clock. -/
inductive Step (t : Tree) : Tree → Prop where
  | withCancel {parent : Option Nat} (known : ∀ p ∈ parent, p < t.nodes.size) :
      Step t (t.withCancel parent).1
  | withDeadline {parent : Option Nat} (known : ∀ p ∈ parent, p < t.nodes.size)
      (deadline : Time) : Step t (t.withDeadline parent deadline).1
  | withTimeout {parent : Option Nat} (known : ∀ p ∈ parent, p < t.nodes.size)
      (now timeout : Time) : Step t (t.withTimeout now parent timeout).1
  | withValue {parent : Option Nat} (known : ∀ p ∈ parent, p < t.nodes.size)
      (key value : Bytes) : Step t (t.withValue parent key value).1
  | cancel (c : Nat) : Step t (t.cancel c)

/-- The trees that a tree can become. -/
inductive Comes (t : Tree) : Tree → Prop where
  | refl : Comes t t
  | step {u v} : Comes t u → u.Step v → Comes t v

/-- A tree that was built from the background alone. -/
def Built (t : Tree) : Prop := ({} : Tree).Comes t

/-- A context and those derived from it, through any number of layers. -/
inductive Descends (t : Tree) (c : Nat) : Nat → Prop where
  | self : Descends t c c
  | child {d p n} (here : t.nodes[d]? = some n) (parent : n.parent = some p)
      (above : Descends t c p) : Descends t c d

/-- The layers of a context and of its ancestors, its own first. -/
inductive Lineage (t : Tree) : Nat → List Layer → Prop where
  | first {c n} (here : t.nodes[c]? = some n) (alone : n.parent = none) : Lineage t c [n.layer]
  | derived {c p n ls} (here : t.nodes[c]? = some n) (parent : n.parent = some p)
      (above : Lineage t p ls) : Lineage t c (n.layer :: ls)

variable {t u v : Tree} {c d p : Nat} {n : Node} {ls : List Layer}

/-! ## The contexts after an operation -/

@[simp] theorem derive_fst_size (t : Tree) (parent : Option Nat) (layer : Layer) :
    (t.derive parent layer).1.nodes.size = t.nodes.size + 1 :=
  Array.size_push _

theorem derive_fst_getElem? (t : Tree) (parent : Option Nat) (layer : Layer) (d : Nat) :
    (t.derive parent layer).1.nodes[d]? =
      if d = t.nodes.size then some ⟨parent, layer⟩ else t.nodes[d]? :=
  Array.getElem?_push

/-- A context with a parent takes the flag; nothing else is touched. -/
theorem cancel_getElem? (t : Tree) (c d : Nat) :
    (t.cancel c).nodes[d]? =
      if d = c then t.nodes[d]?.map fun n =>
        if n.parent.isSome then { n with layer := { n.layer with cancelled := true } } else n
      else t.nodes[d]? := by
  unfold cancel
  split
  case h_1 p layer here =>
    have inside : c < t.nodes.size := (Array.getElem?_eq_some_iff.mp here).1
    by_cases same : d = c
    · subst same
      rw [if_pos rfl, here, Array.getElem?_setIfInBounds_self_of_lt inside]
      rfl
    · rw [if_neg same, Array.getElem?_setIfInBounds_ne (Ne.symm same)]
  case h_2 untouched =>
    by_cases same : d = c
    · subst same
      cases here : t.nodes[d]? with
      | none => simp
      | some n =>
        obtain ⟨_ | p, layer⟩ := n
        · simp
        · exact absurd here (untouched p layer)
    · simp [same]

@[simp] theorem cancel_size (t : Tree) (c : Nat) : (t.cancel c).nodes.size = t.nodes.size := by
  unfold cancel
  split <;> simp

theorem cancel_of_orphan (here : t.nodes[c]? = some n) (alone : n.parent = none) :
    t.cancel c = t := by
  obtain ⟨parent, layer⟩ := n
  subst alone
  unfold cancel
  rw [here]

/-! ## What every tree that was built keeps -/

/-- What is true of every tree that was built: parents stand before their children, the
background has no parent and nothing of its own, and a context without a parent is not flagged. -/
structure Sound (t : Tree) : Prop where
  background : t.nodes[background]? = some {}
  earlier : ∀ {d : Nat} {n : Node} {p : Nat}, t.nodes[d]? = some n → n.parent = some p → p < d
  unflagged : ∀ {d : Nat} {n : Node}, t.nodes[d]? = some n → n.parent = none →
    n.layer.cancelled = false

theorem sound_derive (ht : t.Sound) {parent : Option Nat} (known : ∀ p ∈ parent, p < t.nodes.size)
    {layer : Layer} (fresh : layer.cancelled = false) : (t.derive parent layer).1.Sound where
  background := by
    have inside := (Array.getElem?_eq_some_iff.mp ht.background).1
    rw [derive_fst_getElem?, if_neg (Nat.ne_of_lt inside), ht.background]
  earlier := by
    intro d n p here hp
    rw [derive_fst_getElem?] at here
    split at here
    case isTrue last =>
      obtain rfl := Option.some.inj here
      exact last ▸ known p hp
    case isFalse => exact ht.earlier here hp
  unflagged := by
    intro d n here alone
    rw [derive_fst_getElem?] at here
    split at here
    case isTrue =>
      obtain rfl := Option.some.inj here
      exact fresh
    case isFalse => exact ht.unflagged here alone

/-- Where a context of the cancelled tree comes from. -/
theorem of_cancel_getElem? (here : (t.cancel c).nodes[d]? = some n) :
    ∃ m, t.nodes[d]? = some m ∧ n.parent = m.parent ∧ m.layer.Later n.layer ∧
      ((d = c → m.parent = none) → n = m) := by
  rw [cancel_getElem?] at here
  split at here
  case isTrue same =>
    obtain ⟨m, found, rfl⟩ := Option.map_eq_some_iff.mp here
    refine ⟨m, found, ?_⟩
    split
    case isTrue derived =>
      exact ⟨rfl, ⟨rfl, rfl, fun _ => rfl⟩, fun alone => by simp [alone same] at derived⟩
    case isFalse => exact ⟨rfl, .refl _, fun _ => rfl⟩
  case isFalse => exact ⟨n, here, rfl, .refl _, fun _ => rfl⟩

theorem sound_cancel (ht : t.Sound) (c : Nat) : (t.cancel c).Sound where
  background := by
    rw [cancel_getElem?, ht.background]
    simp
  earlier := by
    intro d n p here hp
    obtain ⟨m, found, parent, -⟩ := of_cancel_getElem? here
    exact ht.earlier found (parent ▸ hp)
  unflagged := by
    intro d n here alone
    obtain ⟨m, found, parent, -, same⟩ := of_cancel_getElem? here
    rw [same fun _ => parent ▸ alone]
    exact ht.unflagged found (parent ▸ alone)

theorem sound_step (ht : t.Sound) (h : t.Step u) : u.Sound := by
  cases h with
  | withCancel known => exact sound_derive ht known rfl
  | withDeadline known deadline => exact sound_derive ht known rfl
  | withTimeout known now timeout => exact sound_derive ht known rfl
  | withValue known key value => exact sound_derive ht known rfl
  | cancel c => exact sound_cancel ht c

theorem sound_comes (ht : t.Sound) (h : t.Comes u) : u.Sound := by
  induction h with
  | refl => exact ht
  | step _ h ih => exact sound_step ih h

theorem eq_of_empty (here : ({} : Tree).nodes[d]? = some n) : n = {} := by
  obtain rfl | above := Nat.eq_zero_or_pos d
  · exact (Option.some.inj here).symm
  · rw [Array.getElem?_eq_none (by exact above)] at here
    exact nomatch here

theorem sound_empty : ({} : Tree).Sound where
  background := rfl
  earlier here parent := nomatch (eq_of_empty here ▸ parent : none = some _)
  unflagged here _ := eq_of_empty here ▸ rfl

theorem sound_of_built (built : t.Built) : t.Sound := sound_comes sound_empty built

/-! ## What later trees keep -/

/-- The contexts of the first tree are in the second one, none earlier than it was. -/
def Extends (t u : Tree) : Prop :=
  ∀ ⦃d : Nat⦄ ⦃n : Node⦄, t.nodes[d]? = some n →
    ∃ n' : Node, u.nodes[d]? = some n' ∧ n'.parent = n.parent ∧ n.layer.Later n'.layer

theorem Extends.trans (hu : t.Extends u) (hv : u.Extends v) : t.Extends v := by
  intro d n here
  obtain ⟨m, found, parent, later⟩ := hu here
  obtain ⟨n', found', parent', later'⟩ := hv found
  exact ⟨n', found', parent'.trans parent, later.trans later'⟩

theorem extends_derive (t : Tree) (parent : Option Nat) (layer : Layer) :
    t.Extends (t.derive parent layer).1 := by
  intro d n here
  have inside : d < t.nodes.size := (Array.getElem?_eq_some_iff.mp here).1
  refine ⟨n, ?_, rfl, .refl _⟩
  rw [derive_fst_getElem?, if_neg (Nat.ne_of_lt inside), here]

theorem extends_cancel (t : Tree) (c : Nat) : t.Extends (t.cancel c) := by
  intro d n here
  have inside : d < (t.cancel c).nodes.size := by
    rw [cancel_size]
    exact (Array.getElem?_eq_some_iff.mp here).1
  have found := Array.getElem?_eq_getElem inside
  obtain ⟨m, before, parent, later, -⟩ := of_cancel_getElem? found
  obtain rfl : m = n := Option.some.inj (before.symm.trans here)
  exact ⟨_, found, parent, later⟩

theorem extends_step (h : t.Step u) : t.Extends u := by
  cases h with
  | withCancel known => exact extends_derive ..
  | withDeadline known deadline => exact extends_derive ..
  | withTimeout known now timeout => exact extends_derive ..
  | withValue known key value => exact extends_derive ..
  | cancel c => exact extends_cancel t c

theorem extends_comes (h : t.Comes u) : t.Extends u := by
  induction h with
  | refl => exact fun _ _ here => ⟨_, here, rfl, .refl _⟩
  | step _ h ih => exact ih.trans (extends_step h)

/-! ## Lines of ancestors -/

/-- The line of ancestors ends, because it only goes to earlier contexts. -/
theorem exists_lineage (ht : t.Sound) (known : c < t.nodes.size) : ∃ ls, t.Lineage c ls := by
  induction c using Nat.strongRecOn with
  | _ c ih =>
    have here := Array.getElem?_eq_getElem known
    cases parent : (t.nodes[c]).parent with
    | none => exact ⟨_, .first here parent⟩
    | some p =>
      have before : p < c := ht.earlier here parent
      obtain ⟨ls, above⟩ := ih p before (Nat.lt_trans before known)
      exact ⟨_, .derived here parent above⟩

/-- The queries read the line of ancestors. -/
theorem chain_eq (ht : t.Sound) (h : t.Lineage c ls) : t.chain c = ls := by
  induction h with
  | first here alone =>
    unfold chain
    simp [here, alone]
  | derived here parent _ ih =>
    have before := ht.earlier here parent
    unfold chain
    simp only [here, parent, if_pos before, ih]

/-- A line of ancestors is that of later trees, each layer as it is by then. -/
theorem lineage_later (h : t.Lineage c ls) (later : t.Extends u) :
    ∃ ls', u.Lineage c ls' ∧ List.Forall₂ Layer.Later ls ls' := by
  induction h with
  | first here alone =>
    obtain ⟨n', found, parent, hl⟩ := later here
    exact ⟨_, .first found (parent.trans alone), .cons hl .nil⟩
  | derived here parent _ ih =>
    obtain ⟨n', found, parent', hl⟩ := later here
    obtain ⟨ls', above, hls⟩ := ih
    exact ⟨_, .derived found (parent'.trans parent) above, .cons hl hls⟩

end Tree
end StagedPipeline.Context
