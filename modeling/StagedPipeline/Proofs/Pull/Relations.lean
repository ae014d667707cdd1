import StagedPipeline.Proofs.Pull.Evaluation
import Mathlib.Data.Option.Basic

/-!
# Pulling without fuel

More fuel never changes a result, so a line determines what is pulled out of it. The
relations below leave the fuel out, and say of each kind of line how a pull goes.
-/
namespace StagedPipeline.Pull

variable {π σ : Type} {w w' : Source π} {x x' : Stage σ} {front : List (Stage σ)}
  {l l' l₁ l₂ : Line π σ} {item : Option Pack} {p : Pack} {h : Handler σ}

theorem pull_source (n : Nat) (w : Source π) :
    pull (n + 1) (⟨w, []⟩ : Line π σ) =
      if w.ended then some (none, ⟨w, []⟩)
      else
        match w.ask with
        | (w, some p) => some (some p, ⟨w, []⟩)
        | (w, none) => pull n ⟨w, []⟩ := rfl

theorem pull_passing (n : Nat) (hx : x.handler = none) :
    pull (n + 1) (⟨w, x :: front⟩ : Line π σ) =
      (pull n ⟨w, front⟩).map fun r => (r.1, r.2.behind x) := by
  rewrite [pull, hx]
  rfl

theorem pull_working (n : Nat) (hx : x.handler = some h) :
    pull (n + 1) (⟨w, x :: front⟩ : Line π σ) =
      if x.ended then some (none, ⟨w, x :: front⟩)
      else
        match pull n (⟨w, front⟩ : Line π σ) with
        | none => none
        | some (none, l) => some (none, l.behind { x with ended := true })
        | some (some p, l) =>
          match x.take h p with
          | (x, some q) => some (some q, l.behind x)
          | (x, none) => pull n (l.behind x) := by
  rewrite [pull, hx]
  rfl

theorem pull_succ {n : Nat} {r : Option Pack × Line π σ} (hr : pull n l = some r) :
    pull (n + 1) l = some r := by
  induction n generalizing l r with
  | zero => cases l; simp [pull] at hr
  | succ n ih =>
    obtain ⟨w, stages⟩ := l
    cases stages with
    | nil =>
      rw [pull_source] at hr ⊢
      split
      · rename_i he; simpa [he] using hr
      · rename_i he
        simp only [he, Bool.false_eq_true, ↓reduceIte] at hr
        split at hr
        · exact hr
        · exact ih hr
    | cons x front =>
      cases hx : x.handler with
      | none =>
        rw [pull_passing _ hx, Option.map_eq_some_iff] at hr ⊢
        obtain ⟨r', hr', he⟩ := hr
        exact ⟨r', ih hr', he⟩
      | some h =>
        rw [pull_working _ hx] at hr ⊢
        split
        · rename_i he; simpa [he] using hr
        · rename_i he
          simp only [he, Bool.false_eq_true, ↓reduceIte] at hr
          split at hr
          · cases hr
          · rename_i l' hl; rw [ih hl]; exact hr
          · rename_i p l' hl
            rw [ih hl]
            dsimp only
            split at hr
            · exact hr
            · exact ih hr

theorem pull_stable {n m : Nat} {r : Option Pack × Line π σ} (hr : pull n l = some r)
    (hle : n ≤ m) : pull m l = some r := by
  induction hle with
  | refl => exact hr
  | step _ ih => exact pull_succ ih

/-- A pull of a line comes to an item and leaves a line. -/
def Pulls (l : Line π σ) (item : Option Pack) (l' : Line π σ) : Prop :=
  ∃ n, pull n l = some (item, l')

theorem pulls_source_ended (he : w.ended = true) :
    Pulls (⟨w, []⟩ : Line π σ) none ⟨w, []⟩ :=
  ⟨1, by simp [pull_source, he]⟩

theorem pulls_source_pack (he : w.ended = false) (ha : w.ask.2 = some p) :
    Pulls (⟨w, []⟩ : Line π σ) (some p) ⟨w.ask.1, []⟩ := by
  have ha' : w.ask = (w.ask.1, some p) := Prod.ext rfl ha
  refine ⟨1, ?_⟩
  rw [pull_source, if_neg (by simp [he]), ha']

theorem pulls_source_again (he : w.ended = false) (ha : w.ask.2 = none)
    (hl : Pulls (⟨w.ask.1, []⟩ : Line π σ) item l) : Pulls ⟨w, []⟩ item l := by
  obtain ⟨n, hn⟩ := hl
  have ha' : w.ask = (w.ask.1, none) := Prod.ext rfl ha
  refine ⟨n + 1, ?_⟩
  rw [pull_source, if_neg (by simp [he]), ha']
  exact hn

theorem pulls_passing (hx : x.handler = none) (hl : Pulls ⟨w, front⟩ item l) :
    Pulls ⟨w, x :: front⟩ item (l.behind x) := by
  obtain ⟨n, hn⟩ := hl
  exact ⟨n + 1, by rw [pull_passing n hx, hn]; rfl⟩

theorem pulls_ended (hx : x.handler = some h) (he : x.ended = true) :
    Pulls (⟨w, x :: front⟩ : Line π σ) none ⟨w, x :: front⟩ :=
  ⟨1, by rw [pull_working 0 hx, if_pos he]⟩

theorem pulls_end (hx : x.handler = some h) (he : x.ended = false)
    (hl : Pulls ⟨w, front⟩ none l) :
    Pulls ⟨w, x :: front⟩ none (l.behind { x with ended := true }) := by
  obtain ⟨n, hn⟩ := hl
  exact ⟨n + 1, by rw [pull_working n hx, if_neg (by simp [he]), hn]⟩

theorem pulls_pack {q : Pack} (hx : x.handler = some h) (he : x.ended = false)
    (hl : Pulls ⟨w, front⟩ (some p) l) (ht : (x.take h p).2 = some q) :
    Pulls ⟨w, x :: front⟩ (some q) (l.behind (x.take h p).1) := by
  obtain ⟨n, hn⟩ := hl
  have ht' : x.take h p = ((x.take h p).1, some q) := Prod.ext rfl ht
  exact ⟨n + 1, by rw [pull_working n hx, if_neg (by simp [he]), hn]; dsimp only; rw [ht']⟩

theorem pulls_again (hx : x.handler = some h) (he : x.ended = false)
    (hl : Pulls ⟨w, front⟩ (some p) l) (ht : (x.take h p).2 = none)
    (hr : Pulls (l.behind (x.take h p).1) item l') : Pulls ⟨w, x :: front⟩ item l' := by
  obtain ⟨n, hn⟩ := hl
  obtain ⟨m, hm⟩ := hr
  have ht' : x.take h p = ((x.take h p).1, none) := Prod.ext rfl ht
  -- the fuel has to do for both pulls
  refine ⟨max n m + 1, ?_⟩
  rw [pull_working _ hx, if_neg (by simp [he]), pull_stable hn (Nat.le_max_left n m)]
  dsimp only
  rw [ht']
  exact pull_stable hm (Nat.le_max_right n m)

/-- Packs pulled out of a line one after the other, and the line that they leave. -/
inductive Draws : Line π σ → List Pack → Line π σ → Prop where
  | nil {l : Line π σ} : Draws l [] l
  | snoc {l l₁ l₂ : Line π σ} {ps : List Pack} {p : Pack} (before : Draws l ps l₁)
      (last : Pulls l₁ (some p) l₂) : Draws l (ps ++ [p]) l₂

/-- Packs pulled out of a line, and one pull more. -/
def DrawsThen (l : Line π σ) (ps : List Pack) (item : Option Pack) (l' : Line π σ) : Prop :=
  ∃ l₁, Draws l ps l₁ ∧ Pulls l₁ item l'

theorem draws_nil (hd : Draws l [] l') : l' = l := by
  generalize hn : ([] : List Pack) = ps at hd
  cases hd with
  | nil => rfl
  | snoc => simp at hn

theorem draws_snoc {ps : List Pack} (hd : Draws l (ps ++ [p]) l₂) :
    DrawsThen l ps (some p) l₂ := by
  generalize hps : ps ++ [p] = qs at hd
  cases hd with
  | nil => simp at hps
  | snoc before last =>
    obtain ⟨rfl, he⟩ := List.append_inj' hps rfl
    obtain rfl : p = _ := by simpa using he
    exact ⟨_, before, last⟩

theorem draws_passing (hx : x.handler = none) {ps : List Pack} (hd : Draws ⟨w, front⟩ ps l) :
    Draws ⟨w, x :: front⟩ ps (l.behind x) := by
  induction hd with
  | nil => exact .nil
  | snoc _ last ih => exact .snoc ih (pulls_passing hx last)

theorem draws_uncons {ps : List Pack} (hd : Draws l (p :: ps) l₂) :
    ∃ l₁, Pulls l (some p) l₁ ∧ Draws l₁ ps l₂ := by
  generalize hq : p :: ps = qs at hd
  induction hd generalizing ps with
  | nil => cases hq
  | @snoc m l₃ qs q before last ih =>
    cases qs with
    | nil =>
      obtain ⟨rfl, rfl⟩ := List.cons.inj hq
      obtain rfl := draws_nil before
      exact ⟨l₃, last, .nil⟩
    | cons q' qs =>
      obtain ⟨rfl, rfl⟩ := List.cons.inj hq
      obtain ⟨l₁, hp, hd⟩ := ih rfl
      exact ⟨l₁, hp, .snoc hd last⟩

/-! ## Reading and abandoning -/

theorem read_done (n : Nat) (l : Line π σ) : read (n + 1) (some 0) l = some ([], l) := rfl

theorem read_next (n : Nat) {limit : Limit} (hl : limit ≠ some 0) :
    read (n + 1) limit l =
      match pull n l with
      | none => none
      | some (none, l) => some ([], l)
      | some (some p, l) => (read n (limit.map (· - 1)) l).map fun r => (p :: r.1, r.2) := by
  rcases limit with _ | _ | d
  · rfl
  · exact absurd rfl hl
  · rfl

theorem read_succ {n : Nat} {limit : Limit} {r : List Pack × Line π σ}
    (hr : read n limit l = some r) : read (n + 1) limit l = some r := by
  induction n generalizing limit l r with
  | zero => simp [read] at hr
  | succ n ih =>
    by_cases hl : limit = some 0
    · subst hl; exact hr
    · rw [read_next _ hl] at hr ⊢
      split at hr
      · cases hr
      · rename_i hp; rw [pull_succ hp]; exact hr
      · rename_i hp
        obtain ⟨r', hr', he⟩ := Option.map_eq_some_iff.mp hr
        rw [pull_succ hp]
        exact Option.map_eq_some_iff.mpr ⟨r', ih hr', he⟩

theorem read_stable {n m : Nat} {limit : Limit} {r : List Pack × Line π σ}
    (hr : read n limit l = some r) (hle : n ≤ m) : read m limit l = some r := by
  induction hle with
  | refl => exact hr
  | step _ ih => exact read_succ ih

/-- A reader that reads so far gets these packs and leaves a line. -/
def Reads (limit : Limit) (l : Line π σ) (ps : List Pack) (l' : Line π σ) : Prop :=
  ∃ n, read n limit l = some (ps, l')

theorem reads_pack {limit : Limit} {ps : List Pack} (hl : limit ≠ some 0)
    (hp : Pulls l (some p) l₁) (hr : Reads (limit.map (· - 1)) l₁ ps l₂) :
    Reads limit l (p :: ps) l₂ := by
  obtain ⟨n, hn⟩ := hp
  obtain ⟨m, hm⟩ := hr
  refine ⟨max n m + 1, ?_⟩
  rw [read_next _ hl, pull_stable hn (Nat.le_max_left n m)]
  dsimp only
  rw [read_stable hm (Nat.le_max_right n m)]
  rfl

/-- Drawing as many packs as the reader wants is a reading. -/
theorem reads_all {ps : List Pack} (hd : Draws l ps l₁) : Reads (some ps.length) l ps l₁ := by
  induction ps generalizing l with
  | nil => exact draws_nil hd ▸ ⟨1, read_done 0 _⟩
  | cons p ps ih =>
    obtain ⟨l₂, hp, hd⟩ := draws_uncons hd
    exact reads_pack (by simp) hp (ih hd)

/-- Drawing fewer packs than the reader wants, and finding the end, is a reading. -/
theorem reads_to_end {limit : Limit} {ps : List Pack} (hd : DrawsThen l ps none l')
    (hl : ∀ d, limit = some d → ps.length < d) : Reads limit l ps l' := by
  obtain ⟨l₁, hd, hp⟩ := hd
  induction ps generalizing l limit with
  | nil =>
    obtain rfl := draws_nil hd
    obtain ⟨n, hn⟩ := hp
    refine ⟨n + 1, ?_⟩
    rw [read_next _ (fun h => absurd (hl 0 h) (Nat.not_lt_zero _)), hn]
  | cons p ps ih =>
    obtain ⟨l₂, hq, hd⟩ := draws_uncons hd
    refine reads_pack (fun h => absurd (hl 0 h) (Nat.not_lt_zero _)) hq (ih ?_ hd)
    intro d h
    obtain ⟨d', rfl, rfl⟩ := Option.map_eq_some_iff.mp h
    have := hl d' rfl
    rw [List.length_cons] at this
    omega

theorem abandon_source (n : Nat) (w : Source π) :
    abandon (n + 1) (⟨w, []⟩ : Line π σ) = (pull n ⟨w, []⟩).map Prod.snd := rfl

theorem abandon_passing (n : Nat) (hx : x.handler = none) :
    abandon (n + 1) (⟨w, x :: front⟩ : Line π σ) =
      (abandon n ⟨w, front⟩).map fun l => l.behind x := by
  simp only [abandon, hx]

theorem abandon_working (n : Nat) (hx : x.handler = some h) :
    abandon (n + 1) (⟨w, x :: front⟩ : Line π σ) =
      match pull n (⟨w, x :: front⟩ : Line π σ) with
      | some (_, ⟨w, x :: front⟩) => (abandon n ⟨w, front⟩).map fun l => l.behind x
      | _ => none := by
  rewrite [abandon, hx]
  rfl

theorem abandon_succ {n : Nat} (hr : abandon n l = some l') : abandon (n + 1) l = some l' := by
  induction n generalizing l l' with
  | zero => simp [abandon] at hr
  | succ n ih =>
    obtain ⟨w, stages⟩ := l
    cases stages with
    | nil =>
      rw [abandon_source, Option.map_eq_some_iff] at hr ⊢
      obtain ⟨r, hr, he⟩ := hr
      exact ⟨r, pull_succ hr, he⟩
    | cons x front =>
      cases hx : x.handler with
      | none =>
        rw [abandon_passing _ hx, Option.map_eq_some_iff] at hr ⊢
        obtain ⟨r, hr, he⟩ := hr
        exact ⟨r, ih hr, he⟩
      | some h =>
        rw [abandon_working _ hx] at hr ⊢
        split at hr
        · rename_i hp
          rw [pull_succ hp]
          obtain ⟨r, hr, he⟩ := Option.map_eq_some_iff.mp hr
          exact Option.map_eq_some_iff.mpr ⟨r, ih hr, he⟩
        · cases hr

theorem abandon_stable {n m : Nat} (hr : abandon n l = some l') (hle : n ≤ m) :
    abandon m l = some l' := by
  induction hle with
  | refl => exact hr
  | step _ ih => exact abandon_succ ih

/-- A line that is abandoned comes to rest as another line. -/
def Abandons (l l' : Line π σ) : Prop := ∃ n, abandon n l = some l'

theorem abandons_source (hp : Pulls ⟨w, []⟩ item l) : Abandons ⟨w, []⟩ l := by
  obtain ⟨n, hn⟩ := hp
  exact ⟨n + 1, by rw [abandon_source, hn]; rfl⟩

theorem abandons_passing (hx : x.handler = none) (ha : Abandons ⟨w, front⟩ l) :
    Abandons ⟨w, x :: front⟩ (l.behind x) := by
  obtain ⟨n, hn⟩ := ha
  exact ⟨n + 1, by rw [abandon_passing n hx, hn]; rfl⟩

theorem abandons_working (hx : x.handler = some h)
    (hp : Pulls ⟨w, x :: front⟩ item (l.behind x')) (ha : Abandons l l') :
    Abandons ⟨w, x :: front⟩ (l'.behind x') := by
  obtain ⟨n, hn⟩ := hp
  obtain ⟨m, hm⟩ := ha
  refine ⟨max n m + 1, ?_⟩
  rw [abandon_working _ hx, pull_stable hn (Nat.le_max_left n m)]
  change (abandon (max n m) l).map _ = _
  rw [abandon_stable hm (Nat.le_max_right n m)]
  rfl

end StagedPipeline.Pull
