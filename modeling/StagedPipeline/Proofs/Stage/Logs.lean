import StagedPipeline.Stage.Finalization
import Mathlib.Data.List.Basic

/-!
# Reading a log

What a party has done is read off the list of its events, each time through one of the
projections below, all of which leave out the lines that were written to the log and the
calls of a finalizer.
-/
namespace StagedPipeline

namespace Event

/-- The place of a write that has found its reader. -/
@[simp] def sent? : Event → Option (Option Pack)
  | .wrote p true => some p
  | _ => none

/-- The place of a write that has found the channel closed. -/
@[simp] def lost? : Event → Option (Option Pack)
  | .wrote p false => some p
  | _ => none

/-- An error that was put and has entered the channel. -/
@[simp] def accepted? : Event → Option Error
  | .put e .accepted => some e
  | _ => none

/-- An error that was put and has found the channel closed. -/
@[simp] def dropped? : Event → Option Error
  | .put e .dropped => some e
  | _ => none

@[simp] def polled? : Event → Option Error
  | .polled e => some e
  | _ => none

/-- A pack that was given to the handler. -/
@[simp] def handed? : Event → Option Pack
  | .handled p _ => some p
  | _ => none

/-- How a call of the handler has ended. -/
@[simp] def verdict? : Event → Option Handler.Verdict
  | .handled _ v => some v
  | _ => none

/-- A call of the handler that has not succeeded. -/
@[simp] def failure? : Event → Option Handler.Verdict
  | .handled _ .success => none
  | .handled _ v => some v
  | _ => none

/-- An answer of the producer. -/
@[simp] def answer? : Event → Option Production
  | .asked a => some a
  | _ => none

/-- Whether a stage stops on its own account: its handler has not succeeded, or its
reader has gone. -/
@[simp] def stops : Event → Bool
  | .handled _ .success => false
  | .handled _ _ => true
  | .wrote _ taken => !taken
  | _ => false

attribute [simp] received?

/-- A line, a call of a finalizer, or a putting of what cannot be put. -/
def isSilent : Event → Bool
  | .said _ | .finalized _ | .put _ (.rejected _) => true
  | _ => false

/-- A log of such events alone. -/
def Silent (events : List Event) : Prop := ∀ e ∈ events, e.isSilent = true

/-- A projection that leaves them out. -/
class Skips {β : Type} (f : Event → Option β) : Prop where
  said : ∀ e, f (.said e) = none
  finalized : ∀ s, f (.finalized s) = none
  rejected : ∀ e w, f (.put e (.rejected w)) = none

instance : Skips sent? := ⟨fun _ => rfl, fun _ => rfl, fun _ _ => rfl⟩
instance : Skips lost? := ⟨fun _ => rfl, fun _ => rfl, fun _ _ => rfl⟩
instance : Skips accepted? := ⟨fun _ => rfl, fun _ => rfl, fun _ _ => rfl⟩
instance : Skips dropped? := ⟨fun _ => rfl, fun _ => rfl, fun _ _ => rfl⟩
instance : Skips polled? := ⟨fun _ => rfl, fun _ => rfl, fun _ _ => rfl⟩
instance : Skips handed? := ⟨fun _ => rfl, fun _ => rfl, fun _ _ => rfl⟩
instance : Skips verdict? := ⟨fun _ => rfl, fun _ => rfl, fun _ _ => rfl⟩
instance : Skips failure? := ⟨fun _ => rfl, fun _ => rfl, fun _ _ => rfl⟩
instance : Skips answer? := ⟨fun _ => rfl, fun _ => rfl, fun _ _ => rfl⟩
instance : Skips received? := ⟨fun _ => rfl, fun _ => rfl, fun _ _ => rfl⟩

theorem Skips.silent {β : Type} {f : Event → Option β} [Skips f] {e : Event}
    (he : e.isSilent = true) : f e = none := by
  unfold isSilent at he
  split at he
  · exact Skips.said _
  · exact Skips.finalized _
  · exact Skips.rejected _ _
  · cases he

theorem silent_nil : Silent [] := by
  intro e he
  cases he

theorem silent_saying (es : List Log.Entry) : Silent (saying es) := by
  intro e he
  obtain ⟨_, _, rfl⟩ := List.mem_map.mp he
  rfl

theorem silent_append {log more : List Event} (hl : Silent log) (hm : Silent more) :
    Silent (log ++ more) := by
  intro e he
  exact (List.mem_append.mp he).elim (hl e) (hm e)

theorem silent_rejected (e : Error) (w : Fault) : Silent (putting e (.rejected w)) := by
  intro x hx
  rcases List.mem_cons.mp hx with rfl | hx
  · rfl
  · exact silent_saying _ x hx

/-- Whether a stage with this log has stopped on its own account. -/
def anyStops (log : List Event) : Bool := log.any stops

variable {β : Type} {f : Event → Option β}

@[simp] theorem collect_nil : collect f [] = [] := rfl

@[simp] theorem collect_append (log more : List Event) :
    collect f (log ++ more) = collect f log ++ collect f more := List.filterMap_append

@[simp] theorem collect_cons (e : Event) (log : List Event) :
    collect f (e :: log) = (f e).toList ++ collect f log := by
  unfold collect
  rw [List.filterMap_cons]
  cases f e <;> rfl

theorem collect_silent [Skips f] {log : List Event} (hs : Silent log) : collect f log = [] :=
  List.filterMap_eq_nil_iff.mpr fun e he => Skips.silent (hs e he)

theorem collect_append_silent [Skips f] (log : List Event) {more : List Event}
    (hs : Silent more) : collect f (log ++ more) = collect f log := by
  rw [collect_append, collect_silent hs, List.append_nil]

@[simp] theorem collect_saying [Skips f] (es : List Log.Entry) : collect f (saying es) = [] :=
  collect_silent (silent_saying es)

@[simp] theorem collect_putting [Skips f] (e : Error) (how : Reports.Putting) :
    collect f (putting e how) = (f (.put e how)).toList := by
  rw [putting, collect_cons, collect_saying, List.append_nil]

/-- Nothing of a kind is in a log where the projection of that kind finds nothing. -/
theorem not_mem_of_collect_nil {log : List Event} {e : Event} {b : β} (h : collect f log = [])
    (he : f e = some b) : e ∉ log := by
  intro hm
  have hb : b ∈ collect f log := List.mem_filterMap.mpr ⟨e, hm, he⟩
  rw [h] at hb
  cases hb

@[simp] theorem anyStops_nil : anyStops [] = false := rfl

@[simp] theorem anyStops_append (log more : List Event) :
    anyStops (log ++ more) = (anyStops log || anyStops more) := List.any_append

@[simp] theorem anyStops_cons (e : Event) (log : List Event) :
    anyStops (e :: log) = (e.stops || anyStops log) := rfl

theorem anyStops_silent {log : List Event} (hs : Silent log) : anyStops log = false := by
  refine List.any_eq_false.mpr fun e he => ?_
  have silent := hs e he
  unfold isSilent at silent
  split at silent
  · simp
  · simp
  · simp
  · cases silent

theorem anyStops_append_silent (log : List Event) {more : List Event} (hs : Silent more) :
    anyStops (log ++ more) = anyStops log := by
  rw [anyStops_append, anyStops_silent hs, Bool.or_false]

@[simp] theorem anyStops_saying (es : List Log.Entry) : anyStops (saying es) = false :=
  anyStops_silent (silent_saying es)

@[simp] theorem anyStops_putting (e : Error) (how : Reports.Putting) :
    anyStops (putting e how) = false := anyStops_saying (how.entries e)

/-- Once an event has stopped something, no event goes on with it. -/
def NeverAfter (stop go : Event → Bool) (log : List Event) : Prop :=
  log.Pairwise fun e e' => stop e = true → go e' = false

variable {stop go : Event → Bool} {log more : List Event}

theorem neverAfter_quiet (hl : NeverAfter stop go log) (quiet : ∀ e ∈ more, go e = false) :
    NeverAfter stop go (log ++ more) := by
  refine List.pairwise_append.mpr ⟨hl, ?_, fun _ _ e he _ => quiet e he⟩
  exact List.pairwise_of_forall_mem_list fun _ _ e he _ => quiet e he

theorem neverAfter_cons (hl : NeverAfter stop go log) {e : Event}
    (quiet : ∀ e' ∈ more, go e' = false) (going : go e = true → log.any stop = false) :
    NeverAfter stop go (log ++ e :: more) := by
  have one : NeverAfter stop go (log ++ [e]) := by
    refine List.pairwise_append.mpr ⟨hl, List.pairwise_singleton _ _, ?_⟩
    intro e' he' e'' he'' stopped
    obtain rfl := List.mem_singleton.mp he''
    by_contra goes
    exact List.any_eq_false.mp (going (by simpa using goes)) e' he' stopped
  rw [List.append_cons]
  exact neverAfter_quiet one quiet

end Event

namespace Finalization

open Event

theorem silent_run (x : Finalization) (sight : Sighting) : Silent (x.run sight).2 := by
  unfold run
  split
  · exact silent_nil
  · cases x.finalizer with
    | none => exact silent_nil
    | some g =>
      intro e he
      rcases List.mem_cons.mp he with rfl | he
      · rfl
      · exact silent_saying _ e he

@[simp] theorem collect_run {β : Type} {f : Event → Option β} [Skips f] (x : Finalization)
    (sight : Sighting) : collect f (x.run sight).2 = [] :=
  collect_silent (silent_run x sight)

@[simp] theorem anyStops_run (x : Finalization) (sight : Sighting) :
    anyStops (x.run sight).2 = false :=
  anyStops_silent (silent_run x sight)

end Finalization
end StagedPipeline
