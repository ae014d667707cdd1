import StagedPipeline.FileSystem
import Mathlib.Data.List.Basic

/-!
# What stands in the files

A file is told by its place, so that two paths that lead to it are one file. Opening a file to
append to it changes no content, and what is appended goes to the end of one file.
-/
namespace StagedPipeline.FileSystem

variable {fs fs' : FileSystem} {p q : Place} {n : Node} {path : Bytes}

/-- What the file at a place holds; nothing, if no file is there. -/
def contentAt (fs : FileSystem) (p : Place) : Bytes :=
  match fs.node? p with
  | some (.file content) => content
  | _ => []

/-- Whether a file is at a place. -/
def HasFile (fs : FileSystem) (p : Place) : Prop := ∃ content, fs.node? p = some (.file content)

theorem contentAt_of_node {content : Bytes} (there : fs.node? p = some (.file content)) :
    fs.contentAt p = content := by
  rw [contentAt, there]

/-! ## One node is set -/

/-- The lookup in a table in which the value of one key was replaced. -/
theorem lookup_replaced (nodes : List (Place × Node)) (p q : Place) (n : Node) :
    (nodes.map fun e => if e.1 == p then (p, n) else e).lookup q =
      if q = p then (nodes.lookup p).map fun _ => n else nodes.lookup q := by
  induction nodes with
  | nil => simp
  | cons e nodes ih =>
    obtain ⟨k, old⟩ := e
    rw [List.map_cons, List.lookup_cons, List.lookup_cons]
    by_cases replaced : k = p
    · subst replaced
      by_cases asked : q = k
      · simp [asked]
      · have other : (q == k) = false := beq_eq_false_iff_ne.mpr asked
        rw [beq_self_eq_true, if_pos rfl, List.lookup_cons, other, ih, if_neg asked, if_neg asked]
    · have kept : (k == p) = false := beq_eq_false_iff_ne.mpr replaced
      have other : (p == k) = false := beq_eq_false_iff_ne.mpr (Ne.symm replaced)
      simp only [kept, Bool.false_eq_true, ↓reduceIte, List.lookup_cons, other, ih]
      by_cases asked : q = p
      · simp [asked, other]
      · simp [asked]

theorem lookup_setNode (fs : FileSystem) (p q : Place) (n : Node) :
    (fs.setNode p n).nodes.lookup q = if q = p then some n else fs.nodes.lookup q := by
  unfold setNode
  split
  case isTrue there =>
    have found : (fs.nodes.lookup p).isSome = true := by
      rw [Option.isSome_iff_ne_none]
      intro absent
      obtain ⟨e, mem, same⟩ := List.any_eq_true.mp there
      have different := List.lookup_eq_none_iff.mp absent e mem
      rw [beq_iff_eq.mp same, bne_self_eq_false] at different
      cases different
    obtain ⟨old, found⟩ := Option.isSome_iff_exists.mp found
    rw [lookup_replaced, found, Option.map_some]
  case isFalse absent =>
    rw [List.lookup_append]
    by_cases asked : q = p
    · subst asked
      have none' : fs.nodes.lookup q = none := by
        refine List.lookup_eq_none_iff.mpr fun e mem => bne_iff_ne.mpr ?_
        rintro rfl
        exact absent (List.any_eq_true.mpr ⟨e, mem, beq_self_eq_true _⟩)
      rw [none', Option.none_or, List.lookup_cons_self, if_pos rfl]
    · have other : (q == p) = false := beq_eq_false_iff_ne.mpr asked
      rw [List.lookup_cons, other, List.lookup_nil, Option.or_none, if_neg asked]

theorem working_setNode (fs : FileSystem) (p : Place) (n : Node) :
    (fs.setNode p n).working = fs.working := by
  unfold setNode
  split <;> rfl

/-- A node that is set is there, unless the working directory is below its place. -/
theorem node_setNode_self (n : Node) (free : fs.node? p ≠ some .directory) :
    (fs.setNode p n).node? p = some n := by
  have aside : p.isPrefixOf fs.working = false := by
    by_contra above
    exact free (by rw [node?, if_pos (by simpa using above)])
  rw [node?, working_setNode, aside, if_neg Bool.false_ne_true, lookup_setNode, if_pos rfl]

theorem node_setNode_other (n : Node) (other : q ≠ p) :
    (fs.setNode p n).node? q = fs.node? q := by
  rw [node?, node?, working_setNode, lookup_setNode, if_neg other]

/-! ## Appending -/

theorem node_append_self {old : Bytes} (there : fs.node? p = some (.file old)) (more : Bytes) :
    (fs.append p more).node? p = some (.file (old ++ more)) := by
  rw [append, there]
  exact node_setNode_self _ (by rw [there]; simp)

theorem node_append_other (other : q ≠ p) (more : Bytes) :
    (fs.append p more).node? q = fs.node? q := by
  unfold append
  split
  · exact node_setNode_other _ other
  · rfl

/-- What is appended to a file stands at its end, and all other files stay as they are. -/
theorem contentAt_append (there : fs.HasFile p) (more : Bytes) (q : Place) :
    (fs.append p more).contentAt q = fs.contentAt q ++ (if q = p then more else []) := by
  obtain ⟨old, there⟩ := there
  by_cases same : q = p
  · rw [if_pos same, same, contentAt_of_node (node_append_self there more),
      contentAt_of_node there]
  · rw [if_neg same, contentAt, node_append_other same, List.append_nil, contentAt]

theorem hasFile_append (there : fs.HasFile q) (p : Place) (more : Bytes) :
    (fs.append p more).HasFile q := by
  obtain ⟨old, there⟩ := there
  by_cases same : q = p
  · subst same
    exact ⟨_, node_append_self there more⟩
  · exact ⟨old, by rw [node_append_other same, there]⟩

/-! ## Opening a file to append to it -/

/-- A file that was opened is there, and holds what it has held; no other file is touched. -/
theorem opened_append (done : fs.openAppend? path = some (p, fs')) :
    fs'.HasFile p ∧ ∀ q, fs'.contentAt q = fs.contentAt q ∧ (fs.HasFile q → fs'.HasFile q) := by
  obtain ⟨place, found, done⟩ := Option.map_eq_some_iff.mp done
  have isFile : (fs.node? place).all Node.isFile = true := by
    obtain ⟨at', _, named⟩ := Option.bind_eq_some_iff.mp found
    split at named
    · rename_i free
      exact Option.some.inj named ▸ free
    · cases named
  split at done
  case h_1 node there =>
    obtain ⟨rfl, rfl⟩ := Prod.mk.inj done
    refine ⟨?_, fun q => ⟨rfl, id⟩⟩
    rw [there] at isFile
    cases node with
    | file content => exact ⟨content, there⟩
    | directory | locked => cases isFile
  case h_2 absent =>
    obtain ⟨rfl, rfl⟩ := Prod.mk.inj done
    have created := node_setNode_self (.file [])
      (by rw [absent]; exact Option.some_ne_none _ |>.symm)
    refine ⟨⟨[], created⟩, fun q => ?_⟩
    by_cases same : q = place
    · subst same
      refine ⟨?_, fun _ => ⟨[], created⟩⟩
      rw [contentAt_of_node created, contentAt, absent]
    · have stays : (fs.setNode place (.file [])).node? q = fs.node? q :=
        node_setNode_other (.file []) same
      exact ⟨by rw [contentAt, stays, contentAt], fun ⟨content, there⟩ =>
        ⟨content, by rw [stays, there]⟩⟩

/-! ## Where paths lead -/

/-- Where a path leads depends on the directories alone, and whether a file can be there on what
else is no file. -/
theorem filePlace_congr (working : fs'.working = fs.working)
    (same : ∀ q, fs'.node? q = some .directory ↔ fs.node? q = some .directory)
    (files : ∀ q, (fs'.node? q).all Node.isFile = (fs.node? q).all Node.isFile) (path : Bytes) :
    fs'.filePlace? path = fs.filePlace? path := by
  have step : ∀ q name, fs'.step? q name = fs.step? q name := fun q name => by
    have kind : (fs'.node? q != some .directory) = (fs.node? q != some .directory) := by
      rw [Bool.eq_iff_iff, bne_iff_ne, bne_iff_ne, Ne, Ne, same]
    rw [step?, step?, kind]
  have walk : ∀ names q, fs'.walk? q names = fs.walk? q names := by
    intro names
    induction names with
    | nil => exact fun _ => rfl
    | cons name names ih =>
      intro q
      rw [walk?, walk?, step]
      exact congrArg _ (funext ih)
  have place : fs'.place? path = fs.place? path := by
    rw [place?, place?, route?, route?, working]
    exact congrArg _ (funext fun _ => walk _ _)
  rw [filePlace?, filePlace?, place]
  exact congrArg _ (funext fun q => by rw [files])

/-- What is appended to a file does not change which files can be opened. -/
theorem openAppend_append (p : Place) (more : Bytes) :
    (fs.append p more).openAppend? path = none ↔ fs.openAppend? path = none := by
  have working : (fs.append p more).working = fs.working := by
    unfold append
    split
    · exact working_setNode ..
    · rfl
  -- a file that is appended to is a file before and after, and nothing else changes
  have kept : ∀ q, (fs.append p more).node? q = fs.node? q ∨
      ∃ old new, fs.node? q = some (.file old) ∧ (fs.append p more).node? q = some (.file new) := by
    intro q
    by_cases at' : q = p
    · subst at'
      cases there : fs.node? q with
      | none => exact .inl (by simp [append, there])
      | some n =>
        cases n with
        | file old => exact .inr ⟨old, _, rfl, node_append_self there more⟩
        | directory | locked => exact .inl (by simp [append, there])
    · exact .inl (node_append_other at' more)
  have same : ∀ q, (fs.append p more).node? q = some .directory ↔
      fs.node? q = some .directory := fun q => by
    rcases kept q with same | ⟨old, new, before, after⟩
    · rw [same]
    · simp [before, after]
  have files : ∀ q, ((fs.append p more).node? q).all Node.isFile =
      (fs.node? q).all Node.isFile := fun q => by
    rcases kept q with same | ⟨old, new, before, after⟩
    · rw [same]
    · simp [before, after, Node.isFile]
  rw [openAppend?, openAppend?, Option.map_eq_none_iff, Option.map_eq_none_iff,
    filePlace_congr working same files]

end StagedPipeline.FileSystem
