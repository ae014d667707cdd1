import StagedPipeline.Proofs.Pull.Relations

/-!
# How a line settles

Here the pulling is taken apart. What a stage has left of the packs given to it depends
on nothing else, and a line is pulled as its parts are: the packs that the stages in front
give, and what the last stage makes of them. So the state in which a line comes to rest
can be told stage by stage, from the producer on, which is how `Settles` is built up.
-/
namespace StagedPipeline.Pull

variable {π σ : Type} {w₀ w : Source π} {x₀ x : Stage σ} {front : List (Stage σ)}
  {l l' l₁ l₂ : Line π σ} {item : Option Pack} {h : Handler σ} {ps qs : List Pack}
  {p q : Pack} {held : Option Pack}

/-- A producer asked several times, and the packs that it has yielded. -/
inductive Source.Asks (w₀ : Source π) : List Pack → Source π → Prop where
  | nil : Asks w₀ [] w₀
  | ask {ps : List Pack} {w : Source π} (before : Asks w₀ ps w) (goes : w.ended = false) :
      Asks w₀ (ps ++ w.ask.2.toList) w.ask.1

/-- A producer asked several times, where the last pack that it has yielded may be held
back and is then told apart from the others. -/
inductive Source.Holds (w₀ : Source π) : List Pack → Option Pack → Source π → Prop where
  | nothing {ps : List Pack} {w : Source π} (asked : w₀.Asks ps w) : Holds w₀ ps none w
  | pack {ps : List Pack} {w : Source π} {q : Pack} (before : w₀.Asks ps w)
      (goes : w.ended = false) (yielded : w.ask.2 = some q) : Holds w₀ ps (some q) w.ask.1

/-- Packs given to a stage, what its handler has left of them, and the stage afterwards. -/
inductive Stage.Takes (h : Handler σ) (x₀ : Stage σ) :
    List Pack → List Pack → Stage σ → Prop where
  | nil : Takes h x₀ [] [] x₀
  | take {ps qs : List Pack} {x : Stage σ} (p : Pack) (before : Takes h x₀ ps qs x)
      (goes : x.ended = false) :
      Takes h x₀ (ps ++ [p]) (qs ++ (x.take h p).2.toList) (x.take h p).1

/-- Packs given to a stage, where what was left of the last one may be held back. -/
inductive Stage.Holds (h : Handler σ) (x₀ : Stage σ) :
    List Pack → List Pack → Option Pack → Stage σ → Prop where
  | nothing {ps qs : List Pack} {x : Stage σ} (taken : x₀.Takes h ps qs x) :
      Holds h x₀ ps qs none x
  | pack {ps qs : List Pack} {x : Stage σ} {p q : Pack} (before : x₀.Takes h ps qs x)
      (goes : x.ended = false) (left : (x.take h p).2 = some q) :
      Holds h x₀ (ps ++ [p]) qs (some q) (x.take h p).1

theorem source_holds_ask (hs : w₀.Holds ps none w) (goes : w.ended = false)
    (none' : w.ask.2 = none) : w₀.Holds ps none w.ask.1 := by
  cases hs with
  | nothing asked => simpa [none'] using Source.Holds.nothing (asked.ask goes)

theorem source_holds_yield (hs : w₀.Holds ps none w) (goes : w.ended = false)
    (yielded : w.ask.2 = some q) : w₀.Holds ps (some q) w.ask.1 := by
  cases hs with
  | nothing asked => exact .pack asked goes yielded

theorem source_holds_sent (hs : w₀.Holds ps (some q) w) : w₀.Holds (ps ++ [q]) none w := by
  cases hs with
  | pack before goes yielded => simpa [yielded] using Source.Holds.nothing (before.ask goes)

theorem stage_holds_take (hs : x₀.Holds h ps qs none x) (goes : x.ended = false)
    (none' : (x.take h p).2 = none) : x₀.Holds h (ps ++ [p]) qs none (x.take h p).1 := by
  cases hs with
  | nothing taken => simpa [none'] using Stage.Holds.nothing (taken.take p goes)

theorem stage_holds_left (hs : x₀.Holds h ps qs none x) (goes : x.ended = false)
    (left : (x.take h p).2 = some q) : x₀.Holds h (ps ++ [p]) qs (some q) (x.take h p).1 := by
  cases hs with
  | nothing taken => exact .pack taken goes left

theorem stage_holds_sent (hs : x₀.Holds h ps qs (some q) x) :
    x₀.Holds h ps (qs ++ [q]) none x := by
  cases hs with
  | @pack _ _ _ p _ before goes left =>
    simpa [left] using Stage.Holds.nothing (before.take p goes)

theorem take_handler (x : Stage σ) (p : Pack) : (x.take h p).1.handler = x.handler := by
  unfold Stage.take
  split
  · rfl
  · dsimp only
    split <;> rfl

theorem takes_handler (ht : x₀.Takes h ps qs x) : x.handler = x₀.handler := by
  induction ht with
  | nil => rfl
  | take p _ _ ih => rw [take_handler, ih]

/-- What is pulled out of a producer once it has been asked several times. -/
theorem draws_asks (ha : w₀.Asks ps w) (hp : Pulls (⟨w, []⟩ : Line π σ) item l) :
    DrawsThen ⟨w₀, []⟩ ps item l := by
  -- asking is told from the front, pulling from the back: each pull skips the empty answers
  induction ha generalizing item l with
  | nil => exact ⟨_, .nil, hp⟩
  | @ask ps w _ goes ih =>
    cases hy : w.ask.2 with
    | none =>
      rw [Option.toList_none, List.append_nil]
      exact ih (pulls_source_again goes hy hp)
    | some q =>
      obtain ⟨l₁, hd, hq⟩ := ih (pulls_source_pack goes hy)
      exact ⟨_, .snoc hd hq, hp⟩

/-- What is pulled out of a line once its last stage has been given the packs that the
rest of the line has yielded. -/
theorem draws_takes (hx : x₀.handler = some h) (ht : x₀.Takes h ps qs x)
    (hd : Draws ⟨w, front⟩ ps l) (hp : Pulls (l.behind x) item l') :
    DrawsThen ⟨w, x₀ :: front⟩ qs item l' := by
  induction ht generalizing l item l' with
  | nil =>
    obtain rfl := draws_nil hd
    exact ⟨_, .nil, hp⟩
  | @take ps qs x p before goes ih =>
    obtain ⟨l₁, hd, hfront⟩ := draws_snoc hd
    have hx' : x.handler = some h := (takes_handler before).trans hx
    cases hy : (x.take h p).2 with
    | none =>
      rw [Option.toList_none, List.append_nil]
      exact ih hd (pulls_again hx' goes hfront hy hp)
    | some q =>
      obtain ⟨l₂, hd, hq⟩ := ih hd (pulls_pack hx' goes hfront hy)
      exact ⟨_, .snoc hd hq, hp⟩

/-- The handlers of a line, which no pull changes. -/
def Line.handlers (l : Line π σ) : List (Option (Handler σ)) := l.stages.map (·.handler)

theorem pull_handlers {n : Nat} (hr : pull n l = some (item, l')) : l'.handlers = l.handlers := by
  induction n generalizing l l' item with
  | zero => cases l; simp [pull] at hr
  | succ n ih =>
    obtain ⟨w, stages⟩ := l
    cases stages with
    | nil =>
      rw [pull_source] at hr
      split at hr
      · cases hr; rfl
      · split at hr
        · cases hr; rfl
        · exact (ih hr).trans rfl
    | cons x front =>
      cases hx : x.handler with
      | none =>
        rw [pull_passing _ hx, Option.map_eq_some_iff] at hr
        obtain ⟨⟨_, l₁⟩, hr, he⟩ := hr
        cases he
        exact congrArg (x.handler :: ·) (ih hr)
      | some h =>
        rw [pull_working _ hx] at hr
        split at hr
        · cases hr; rfl
        · split at hr
          · cases hr
          · rename_i l₁ hl
            cases hr
            exact congrArg (x.handler :: ·) (ih hl)
          · rename_i p l₁ hl
            have hfront : l₁.handlers = Line.handlers ⟨w, front⟩ := ih hl
            have hhead := take_handler (h := h) x p
            split at hr
            · rename_i x' q ht
              cases hr
              rw [ht] at hhead
              exact congrArg₂ List.cons hhead hfront
            · rename_i x' ht
              rw [ht] at hhead
              exact (ih hr).trans (congrArg₂ List.cons hhead hfront)

theorem draws_handlers (hd : Draws l ps l') : l'.handlers = l.handlers := by
  induction hd with
  | nil => rfl
  | snoc _ last ih => exact (pull_handlers last.choose_spec).trans ih

/-- A reader has drawn packs out of a line, has then found its end or not, and was done;
`l'` is how the line comes to rest. -/
def Settles (l : Line π σ) (ps : List Pack) (saw : Bool) (l' : Line π σ) : Prop :=
  ∃ l₁ l₂, Draws l ps l₁ ∧ (if saw then Pulls l₁ none l₂ else l₂ = l₁) ∧ Abandons l₂ l'

theorem settles_passing (hx : x.handler = none) {saw : Bool}
    (hs : Settles ⟨w, front⟩ ps saw l') : Settles ⟨w, x :: front⟩ ps saw (l'.behind x) := by
  obtain ⟨l₁, l₂, hd, hsaw, ha⟩ := hs
  refine ⟨l₁.behind x, l₂.behind x, draws_passing hx hd, ?_, abandons_passing hx ha⟩
  cases saw with
  | true => exact pulls_passing hx hsaw
  | false => exact congrArg (·.behind x) hsaw

/-- A producer whose next pull comes to some item, and is the last one. -/
theorem abandons_source_drawn (hd : Draws (⟨w₀, []⟩ : Line π σ) ps l₁)
    (hp : Pulls l₁ item ⟨w, []⟩) : Abandons l₁ ⟨w, []⟩ := by
  have hn : l₁.stages = [] := by simpa [Line.handlers] using draws_handlers hd
  obtain ⟨w₁, _⟩ := l₁
  obtain rfl : _ = [] := hn
  exact abandons_source hp

/-- A stage whose next pull comes to some item, and is the last one. -/
theorem abandons_stage_drawn (hx : x₀.handler = some h)
    (hd : Draws (⟨w, x₀ :: front⟩ : Line π σ) ps l₁) (hp : Pulls l₁ item (l.behind x))
    (ha : Abandons l l') : Abandons l₁ (l'.behind x) := by
  have hh : l₁.handlers = x₀.handler :: front.map (·.handler) := draws_handlers hd
  obtain ⟨w₁, stages⟩ := l₁
  cases stages with
  | nil => simp [Line.handlers] at hh
  | cons x₁ front₁ =>
    have hx₁ : x₁.handler = some h := (List.cons.inj hh).1.trans hx
    exact abandons_working hx₁ hp ha

/-- A producer that holds nothing back has ended. -/
theorem settles_source_ended (hs : w₀.Holds ps none w) (he : w.ended = true) (saw : Bool) :
    Settles (⟨w₀, []⟩ : Line π σ) ps saw ⟨w, []⟩ := by
  cases hs with
  | nothing asked =>
    have hp : Pulls (⟨w, []⟩ : Line π σ) none ⟨w, []⟩ := pulls_source_ended he
    obtain ⟨l₁, hd, hq⟩ := draws_asks asked hp
    cases saw with
    | true => exact ⟨l₁, ⟨w, []⟩, hd, hq, abandons_source hp⟩
    | false => exact ⟨l₁, l₁, hd, rfl, abandons_source_drawn hd hq⟩

/-- A producer that holds a pack back has yielded it to nobody. -/
theorem settles_source_held (hs : w₀.Holds ps (some q) w) :
    Settles (⟨w₀, []⟩ : Line π σ) ps false ⟨w, []⟩ := by
  cases hs with
  | pack before goes yielded =>
    obtain ⟨l₁, hd, hq⟩ := draws_asks before (pulls_source_pack goes yielded)
    exact ⟨l₁, l₁, hd, rfl, abandons_source_drawn hd hq⟩

/-- A stage that holds a pack back has left it to nobody, and was not at the end of what
it reads. -/
theorem settles_stage_held (hx : x₀.handler = some h) (hs : x₀.Holds h ps qs (some q) x)
    (hl : Settles ⟨w, front⟩ ps false l') : Settles ⟨w, x₀ :: front⟩ qs false (l'.behind x) := by
  obtain ⟨l₁, l₂, hd, rfl, ha⟩ := hl
  cases hs with
  | @pack ps _ x p _ before goes left =>
    obtain ⟨l₀, hd, hfront⟩ := draws_snoc hd
    have hx' : x.handler = some h := (takes_handler before).trans hx
    obtain ⟨l₃, hd', hq⟩ := draws_takes hx before hd (pulls_pack hx' goes hfront left)
    exact ⟨l₃, l₃, hd', rfl, abandons_stage_drawn hx hd' hq ha⟩

/-- A stage whose handler has failed gives nothing more. -/
theorem settles_stage_failed (hx : x₀.handler = some h) (hs : x₀.Holds h ps qs none x)
    (he : x.ended = true) (hl : Settles ⟨w, front⟩ ps false l') (saw : Bool) :
    Settles ⟨w, x₀ :: front⟩ qs saw (l'.behind x) := by
  obtain ⟨l₁, l₂, hd, rfl, ha⟩ := hl
  cases hs with
  | nothing taken =>
    have hx' : x.handler = some h := (takes_handler taken).trans hx
    have hp : Pulls (l₂.behind x) none (l₂.behind x) := pulls_ended hx' he
    obtain ⟨l₃, hd', hq⟩ := draws_takes hx taken hd hp
    cases saw with
    | true => exact ⟨l₃, l₂.behind x, hd', hq, abandons_working hx' hp ha⟩
    | false => exact ⟨l₃, l₃, hd', rfl, abandons_stage_drawn hx hd' hq ha⟩

/-- A stage that was at the end of what it reads gives nothing more. -/
theorem settles_stage_ended (hx : x₀.handler = some h) (hs : x₀.Holds h ps qs none x)
    (he : x.ended = false) (hl : Settles ⟨w, front⟩ ps true l') (saw : Bool) :
    Settles ⟨w, x₀ :: front⟩ qs saw (l'.behind { x with ended := true }) := by
  obtain ⟨l₁, l₂, hd, hend, ha⟩ := hl
  cases hs with
  | nothing taken =>
    have hx' : x.handler = some h := (takes_handler taken).trans hx
    have hp : Pulls (l₁.behind x) none (l₂.behind { x with ended := true }) :=
      pulls_end hx' he hend
    have hp' : Pulls (l₂.behind { x with ended := true }) none
        (l₂.behind { x with ended := true }) := pulls_ended hx' rfl
    obtain ⟨l₃, hd', hq⟩ := draws_takes hx taken hd hp
    cases saw with
    | true => exact ⟨l₃, l₂.behind { x with ended := true }, hd', hq, abandons_working hx' hp' ha⟩
    | false => exact ⟨l₃, l₃, hd', rfl, abandons_stage_drawn hx hd' hq ha⟩

/-- A reader that has stopped after as many packs as it wanted, or has found the end before
that, has read the line. -/
theorem reads_of_settles {limit : Limit} {saw : Bool} (hs : Settles l ps saw l')
    (stopped : saw = false → limit = some ps.length)
    (found : saw = true → ∀ d, limit = some d → ps.length < d) :
    ∃ l₁, Reads limit l ps l₁ ∧ Abandons l₁ l' := by
  obtain ⟨l₁, l₂, hd, hsaw, ha⟩ := hs
  cases saw with
  | true => exact ⟨l₂, reads_to_end ⟨l₁, hd, hsaw⟩ (found rfl), ha⟩
  | false => exact ⟨l₂, stopped rfl ▸ (show l₂ = l₁ from hsaw) ▸ reads_all hd, ha⟩

end StagedPipeline.Pull
