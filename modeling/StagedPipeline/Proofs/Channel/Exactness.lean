import StagedPipeline.Channel.Handoff.Exchange
import StagedPipeline.Proofs.Channel.Sides
import Mathlib.Data.List.Nodup

/-!
# Exactness of the hand-off

One writer and one reader at a hand-off channel, with calls of `close` at any time. Whatever
the order of their sections, the reader gets the items whose writes say that they were taken,
in the order of the writes. It may be ahead of the writer by one item, whose write has not come
to its second section yet. A write that says that the channel was closed has not been read.
-/
namespace StagedPipeline.Handoff

variable {α : Type} {c c' : Handoff α} {sent taken : List α}

/-- A write that ends leaves the counters as they are. -/
theorem settle_counts {t : Nat} {taken : Bool} (done : c.settle? t = some (taken, c')) :
    c'.offered = c.offered ∧ c'.taken = c.taken ∧ c'.closed = c.closed := by
  unfold settle? at done
  split at done
  · cases done
    exact ⟨rfl, rfl, rfl⟩
  · split at done
    · cases done
      exact ⟨rfl, rfl, rfl⟩
    · cases done

theorem offer_placed {a : α} {t : Nat}
    (done : c.offer? a = some (.placed t, c')) :
    c.closed = false ∧ c'.offered = c.offered + 1 ∧ c'.taken = c.taken := by
  unfold offer? at done
  split at done
  · cases done
  · rename_i hc
    split at done
    · cases done
    · cases done
      exact ⟨by simpa using hc, rfl, rfl⟩

theorem offer_closed {a : α} {how : Reception} (done : c.offer? a = some (how, c')) :
    c'.closed = c.closed := by
  cases how with
  | refused => rw [(offer_refused done).2]
  | placed t =>
    unfold offer? at done
    split at done
    · cases done
    · split at done
      · cases done
      · cases done
        rfl

theorem take_item {a : α} (done : c.take? = some (some a, c')) :
    c.slot = some a ∧ c'.offered = c.offered ∧ c'.taken = c.taken + 1 := by
  unfold take? at done
  split at done
  · cases done
  · split at done
    · rename_i hs
      cases done
      exact ⟨hs, rfl, rfl⟩
    · cases done

theorem take_closed {item : Option α} (done : c.take? = some (item, c')) :
    c'.closed = c.closed := by
  unfold take? at done
  split at done
  · cases done
    rfl
  · split at done
    · cases done
      rfl
    · cases done

/-- An open channel without a write that waits has had all its items taken. -/
theorem between_free (h : c.Between sent none taken)
    (open' : c.closed = false) : c.offered = c.taken := by
  cases h with
  | rest _ _ offered => exact offered open'

theorem between_rest (h : c.Between sent none taken) : taken = sent := by
  cases h with
  | rest _ _ _ => rfl

/-- The item of a write that waits may have been taken, and then its ticket was reached. -/
theorem between_taken {a : α} {t : Nat} (h : c.Between sent (some (a, t)) taken) :
    taken = sent ∨ taken = sent ++ [a] ∧ t ≤ c.taken := by
  cases h with
  | offered _ _ _ _ => exact .inl rfl
  | taken _ _ _ last => exact .inr ⟨rfl, Nat.le_of_eq last⟩

theorem between_held {pending : Option (α × Nat)} {a : α}
    (h : c.Between sent pending taken) (hs : c.slot = some a) :
    c.offered = c.taken + 1 ∧ pending = some (a, c.offered) ∧ taken = sent := by
  cases h with
  | rest slot _ _ => simp [slot] at hs
  | offered slot _ offered next =>
    obtain rfl := Option.some.inj (slot.symm.trans hs)
    exact ⟨offered.trans next, by rw [offered], rfl⟩
  | taken slot _ _ _ => simp [slot] at hs

namespace Deed

/-- The item of a write that has ended. -/
def ended? : Deed α → Option α
  | .wrote a _ => some a
  | .read _ => none

/-- The item of a write that has found its reader. -/
def kept? : Deed α → Option α
  | .wrote a true => some a
  | _ => none

def got? : Deed α → Option α
  | .read item => item
  | .wrote _ _ => none

theorem kept_sublist (deeds : List (Deed α)) :
    (deeds.filterMap kept?).Sublist (deeds.filterMap ended?) := by
  induction deeds with
  | nil => exact List.Sublist.refl _
  | cons d deeds ih =>
    cases d with
    | read item => exact ih
    | wrote a taken =>
      cases taken with
      | false => exact ih.cons a
      | true => exact ih.cons_cons a

/-- A write that was given up is told from one that was taken by its item, if the items of all
writes differ. -/
theorem not_mem_of_lost {deeds : List (Deed α)} {a : α} (hn : (deeds.filterMap ended?).Nodup)
    (hl : .wrote a false ∈ deeds) : a ∉ deeds.filterMap kept? := by
  intro hk
  obtain ⟨d, hd, he⟩ := List.mem_filterMap.mp hk
  obtain ⟨a', taken⟩ | item := d
  · cases taken with
    | false => cases he
    | true =>
      cases he
      obtain ⟨before, after, rfl⟩ := List.append_of_mem hl
      rw [List.filterMap_append, List.filterMap_cons_some (show ended? _ = some a from rfl),
        List.nodup_middle, List.nodup_cons] at hn
      -- the taken write is another deed than the one given up, and has the same item
      refine hn.1 ?_
      rw [← List.filterMap_append]
      refine List.mem_filterMap.mpr ⟨.wrote a true, ?_, rfl⟩
      rw [List.mem_append, List.mem_cons] at hd
      rcases hd with hd | hd | hd
      · exact List.mem_append_left _ hd
      · cases hd
      · exact List.mem_append_right _ hd
  · cases he

end Deed

namespace Writer

/-- The item of the write that has begun and not ended. -/
def item? : Writer α → Option α
  | .idle => none
  | .offering a => some a
  | .awaiting a _ => some a

/-- The write whose item has been offered, with its ticket. -/
def pending : Writer α → Option (α × Nat)
  | .awaiting a t => some (a, t)
  | _ => none

end Writer

namespace Exchange

/-- The items of the writes that have ended, in order. -/
def ended (x : Exchange α) : List α := x.history.reverse.filterMap Deed.ended?

/-- The items whose writes say that they were taken, in order. -/
def kept (x : Exchange α) : List α := x.history.reverse.filterMap Deed.kept?

/-- The items that the reads have returned, in order. -/
def got (x : Exchange α) : List α := x.history.reverse.filterMap Deed.got?

/-- Carries out acts one after the other, if each of them is possible. -/
def run? : List (Act α) → Exchange α → Option (Exchange α)
  | [], x => some x
  | act :: acts, x => (x.step? act).bind (run? acts)

/-- The items of the writes that begin in some acts. -/
def begun (acts : List (Act α)) : List α :=
  acts.filterMap fun
    | .write a => some a
    | _ => none

/-! ## What can happen -/

/-- Everything that an act can do. -/
inductive Happens (x : Exchange α) : Act α → Exchange α → Prop where
  | write {a} (idle : x.writer = .idle) : Happens x (.write a) { x with writer := .offering a }
  | read (free : x.reading = false) : Happens x .read { x with reading := true }
  | close : Happens x .close { x with channel := x.channel.close }
  | refuse {a channel} (at' : x.writer = .offering a)
      (done : x.channel.offer? a = some (.refused, channel)) :
      Happens x .writer (x.wrote channel a false)
  | place {a t channel} (at' : x.writer = .offering a)
      (done : x.channel.offer? a = some (.placed t, channel)) :
      Happens x .writer { x with channel, writer := .awaiting a t }
  | settle {a t taken channel} (at' : x.writer = .awaiting a t)
      (done : x.channel.settle? t = some (taken, channel)) :
      Happens x .writer (x.wrote channel a taken)
  | take {item channel} (done : x.channel.take? = some (item, channel)) :
      Happens x .reader
        { x with channel, reading := false, history := .read item :: x.history }

variable {x y : Exchange α} {act : Act α} {acts later : List (Act α)}

theorem happens_of_step (hs : x.step? act = some y) : x.Happens act y := by
  cases act with
  | write a =>
    simp only [step?] at hs
    split at hs
    · rename_i idle
      cases hs
      refine .write ?_
      cases hw : x.writer <;> simp_all
    · cases hs
  | read =>
    simp only [step?] at hs
    split at hs
    · cases hs
    · rename_i free
      cases hs
      exact .read (by simpa using free)
  | close =>
    cases hs
    exact .close
  | writer =>
    simp only [step?] at hs
    split at hs
    · cases hs
    · rename_i a at'
      simp only [Option.map_eq_some_iff, Prod.exists] at hs
      obtain ⟨r, channel, done, rfl⟩ := hs
      cases r with
      | refused => exact .refuse at' done
      | placed t => exact .place at' done
    · rename_i a t at'
      simp only [Option.map_eq_some_iff, Prod.exists] at hs
      obtain ⟨taken, channel, done, rfl⟩ := hs
      exact .settle at' done
  | reader =>
    simp only [step?] at hs
    split at hs
    · simp only [Option.map_eq_some_iff, Prod.exists] at hs
      obtain ⟨item, channel, done, rfl⟩ := hs
      exact .take done
    · cases hs

/-! ## The invariant -/

/-- What is true after the acts `acts`. -/
structure Sound (acts : List (Act α)) (x : Exchange α) : Prop where
  between : x.channel.Between x.kept x.writer.pending x.got
  /-- One ticket at most is ahead of the items taken. -/
  untaken : x.channel.taken ≤ x.channel.offered ∧ x.channel.offered ≤ x.channel.taken + 1
  begun : begun acts = x.ended ++ x.writer.item?.toList
  tickets : x.channel.offered ≤ x.ended.length + x.writer.pending.toList.length

theorem sound_fresh : Sound [] ({} : Exchange α) :=
  ⟨between_fresh, ⟨Nat.le_refl _, Nat.le_succ _⟩, rfl, Nat.le_refl _⟩

theorem ended_wrote (channel : Handoff α) (a : α) (taken : Bool) :
    (x.wrote channel a taken).ended = x.ended ++ [a] := by
  simp [ended, wrote, Deed.ended?]

theorem kept_wrote (channel : Handoff α) (a : α) (taken : Bool) :
    (x.wrote channel a taken).kept = x.kept ++ if taken then [a] else [] := by
  cases taken <;> simp [kept, wrote, Deed.kept?]

theorem got_wrote (channel : Handoff α) (a : α) (taken : Bool) :
    (x.wrote channel a taken).got = x.got := by
  simp [got, wrote, Deed.got?]

/-- A read ends no write. -/
theorem ended_read {item : Option α} (hy : y.history = .read item :: x.history) :
    y.ended = x.ended ∧ y.kept = x.kept := by
  simp [ended, kept, hy, List.filterMap_append, Deed.ended?, Deed.kept?]

theorem got_read {item : Option α} (hy : y.history = .read item :: x.history) :
    y.got = x.got ++ item.toList := by
  cases item <;> simp [got, hy, List.filterMap_append, Deed.got?]

theorem begun_snoc (acts : List (Act α)) (act : Act α) :
    begun (acts ++ [act]) = begun acts ++ begun [act] := List.filterMap_append

theorem sound_step (hx : Sound acts x) (hs : x.step? act = some y) :
    Sound (acts ++ [act]) y := by
  obtain ⟨between, ⟨le, ge⟩, begins, tickets⟩ := hx
  have same : begun [act] = [] → begun (acts ++ [act]) = x.ended ++ x.writer.item?.toList := by
    intro none'
    rw [begun_snoc, none', List.append_nil, begins]
  cases happens_of_step hs with
  | @write a idle =>
    rw [idle] at between begins tickets
    refine ⟨between, ⟨le, ge⟩, ?_, tickets⟩
    rw [begun_snoc, begins]
    simp [begun, Writer.item?, ended]
  | read free => exact ⟨between, ⟨le, ge⟩, same rfl, tickets⟩
  | close => exact ⟨between_close between, ⟨le, ge⟩, same rfl, tickets⟩
  | @refuse a channel at' done =>
    obtain ⟨_, rfl⟩ := offer_refused done
    have begins := same rfl
    rw [at'] at between begins tickets
    refine ⟨?_, ⟨le, ge⟩, ?_, ?_⟩
    · rw [kept_wrote, got_wrote, if_neg Bool.false_ne_true, List.append_nil]
      exact between
    · rw [begins, ended_wrote]
      simp [wrote, Writer.item?]
    · rw [ended_wrote, List.length_append]
      simp only [Writer.pending, Option.toList_none, List.length_nil] at tickets
      show x.channel.offered ≤ _
      omega
  | @place a t channel at' done =>
    have begins := same rfl
    obtain ⟨open', offered, taken⟩ := offer_placed done
    rw [at'] at between begins tickets
    have count := between_free between open'
    refine ⟨(between_place between done).1, ?_, begins, ?_⟩
    · show channel.taken ≤ channel.offered ∧ channel.offered ≤ channel.taken + 1
      omega
    · simp only [Writer.pending, Option.toList_none, List.length_nil] at tickets
      show channel.offered ≤ x.ended.length + 1
      omega
  | @settle a t taken channel at' done =>
    have begins := same rfl
    obtain ⟨offered, count, _⟩ := settle_counts done
    rw [at'] at between begins tickets
    refine ⟨?_, ?_, ?_, ?_⟩
    · rw [kept_wrote, got_wrote]
      cases taken with
      | true =>
        obtain ⟨rfl, after⟩ := between_settle_taken between done
        exact after
      | false =>
        rw [if_neg Bool.false_ne_true, List.append_nil]
        exact (between_settle_lost between done).2.2
    · show channel.taken ≤ channel.offered ∧ channel.offered ≤ channel.taken + 1
      omega
    · rw [begins, ended_wrote]
      simp [wrote, Writer.item?]
    · rw [ended_wrote, List.length_append]
      have before : x.channel.offered ≤ x.ended.length + 1 := tickets
      show channel.offered ≤ x.ended.length + 1 + 0
      omega
  | @take item channel done =>
    have after : ({ x with channel, reading := false, history := .read item :: x.history } :
        Exchange α).history = .read item :: x.history := rfl
    obtain ⟨ends, keeps⟩ := ended_read after
    have gets := got_read after
    have begins := same rfl
    cases item with
    | none =>
      obtain ⟨_, rfl⟩ := take_end done
      refine ⟨?_, ⟨le, ge⟩, ?_, ?_⟩
      · rw [keeps, gets, Option.toList_none, List.append_nil]
        exact between
      · rw [begins, ends]
      · rw [ends]
        exact tickets
    | some a =>
      obtain ⟨slot, offered, taken⟩ := take_item done
      have ahead := between_held between slot
      refine ⟨?_, ?_, ?_, ?_⟩
      · rw [keeps, gets]
        exact (between_take between done).1
      · show channel.taken ≤ channel.offered ∧ channel.offered ≤ channel.taken + 1
        omega
      · rw [begins, ends]
      · rw [ends]
        show channel.offered ≤ x.ended.length + x.writer.pending.toList.length
        rw [offered]
        exact tickets

/-! ## Runs -/

theorem sound_run (hx : Sound acts x) (hr : x.run? later = some y) : Sound (acts ++ later) y := by
  induction later generalizing acts x with
  | nil =>
    cases hr
    rwa [List.append_nil]
  | cons act later ih =>
    obtain ⟨z, hz, hr⟩ := Option.bind_eq_some_iff.mp hr
    have whole := ih (sound_step hx hz) hr
    rwa [List.append_assoc] at whole

/-- What the calls have come to is never taken back. -/
theorem history_step (hs : x.step? act = some y) : x.history <:+ y.history := by
  cases happens_of_step hs with
  | write _ | read _ | close | place _ _ => exact List.suffix_refl _
  | refuse _ _ | settle _ _ | take _ => exact List.suffix_cons _ _

theorem history_run (hr : x.run? acts = some y) : x.history <:+ y.history := by
  induction acts generalizing x with
  | nil =>
    cases hr
    exact List.suffix_refl _
  | cons act acts ih =>
    obtain ⟨z, hz, hr⟩ := Option.bind_eq_some_iff.mp hr
    exact (history_step hz).trans (ih hr)

theorem kept_run (hr : x.run? acts = some y) : x.kept <+: y.kept :=
  (List.reverse_prefix.mpr (history_run hr)).filterMap _

/-- Nothing is read once the channel is closed. -/
theorem got_closed (hc : x.channel.closed = true) (hs : x.step? act = some y) :
    y.channel.closed = true ∧ y.got = x.got := by
  cases happens_of_step hs with
  | write _ | read _ => exact ⟨hc, rfl⟩
  | close => exact ⟨rfl, rfl⟩
  | refuse _ done =>
    obtain ⟨_, rfl⟩ := offer_refused done
    exact ⟨hc, got_wrote _ _ _⟩
  | place _ done =>
    have open' := (offer_placed done).1
    rw [hc] at open'
    cases open'
  | settle _ done =>
    refine ⟨?_, got_wrote _ _ _⟩
    exact (settle_counts done).2.2.trans hc
  | @take item channel done =>
    cases item with
    | none =>
      obtain ⟨_, rfl⟩ := take_end done
      exact ⟨hc, (got_read rfl).trans (List.append_nil _)⟩
    | some a => simp [take?, hc] at done

theorem got_closed_run (hc : x.channel.closed = true) (hr : x.run? acts = some y) :
    y.got = x.got := by
  induction acts generalizing x with
  | nil =>
    cases hr
    rfl
  | cons act acts ih =>
    obtain ⟨z, hz, hr⟩ := Option.bind_eq_some_iff.mp hr
    obtain ⟨closed, same⟩ := got_closed hc hz
    exact (ih closed hr).trans same

/-- The reader is ahead of the writer by one item at most, and the write of that item has only
to find out that the item was taken. -/
theorem got_cases (hx : Sound acts x) :
    x.got = x.kept ∨ ∃ a t, x.writer = .awaiting a t ∧ x.got = x.kept ++ [a] ∧
      ∃ y, x.step? .writer = some y ∧ y.kept = x.got := by
  have between := hx.between
  cases hw : x.writer with
  | idle | offering a =>
    rw [hw] at between
    exact .inl (between_rest between)
  | awaiting a t =>
    rw [hw] at between
    rcases between_taken between with same | ⟨ahead, reached⟩
    · exact .inl same
    · refine .inr ⟨a, t, rfl, ahead, x.wrote x.channel a true, ?_, ?_⟩
      · simp [step?, hw, settle?, reached]
      · rw [kept_wrote, ahead]
        rfl

theorem got_sublist (hx : Sound acts x) : x.got.Sublist (begun acts) := by
  have inside : x.kept.Sublist x.ended := Deed.kept_sublist _
  rw [hx.begun]
  rcases got_cases hx with same | ⟨a, t, at', ahead, _⟩
  · rw [same]
    exact inside.trans (List.sublist_append_left _ _)
  · rw [ahead, at']
    exact inside.append (List.Sublist.refl _)

theorem offered_le (hx : Sound acts x) : x.channel.offered ≤ (begun acts).length := by
  have tickets := hx.tickets
  rw [hx.begun, List.length_append]
  have one : x.writer.pending.toList.length ≤ x.writer.item?.toList.length := by
    cases x.writer <;> simp [Writer.pending, Writer.item?]
  omega

/-- An item whose write was given up is not read, if the items of all writes differ. -/
theorem not_got {a : α} (hx : Sound acts x) (distinct : (begun acts).Nodup)
    (lost : .wrote a false ∈ x.history) : a ∉ x.got := by
  have lost' : .wrote a false ∈ x.history.reverse := List.mem_reverse.mpr lost
  have ends : a ∈ x.ended := List.mem_filterMap.mpr ⟨_, lost', rfl⟩
  rw [hx.begun, List.nodup_append] at distinct
  obtain ⟨distinct, _, apart⟩ := distinct
  have unkept : a ∉ x.kept := Deed.not_mem_of_lost distinct lost'
  rcases got_cases hx with same | ⟨b, t, at', ahead, _⟩
  · rwa [same]
  · rw [ahead, List.mem_append, List.mem_singleton]
    rintro (inside | rfl)
    · exact unkept inside
    · refine apart a ends a ?_ rfl
      rw [at']
      exact List.mem_singleton_self a

/-- Between two states with the same reads, only the write of the item that the reader is ahead
by can have ended as taken. -/
theorem kept_closed (hx : Sound acts x) (hy : Sound (acts ++ later) y) (grown : x.kept <+: y.kept)
    (same : y.got = x.got) : y.kept = x.kept ∨
      ∃ a t, x.writer = .awaiting a t ∧ y.kept = x.kept ++ [a] ∧ y.kept = x.got := by
  rcases got_cases hx with level | ⟨a, t, at', ahead, _⟩
  · left
    rcases got_cases hy with level' | ⟨b, u, _, ahead', _⟩
    · rw [← level', same, level]
    · have lengths := congrArg List.length ahead'
      rw [same, level, List.length_append, List.length_singleton] at lengths
      have le := grown.length_le
      omega
  · rcases got_cases hy with level' | ⟨b, u, _, ahead', _⟩
    · right
      have whole : y.kept = x.got := level'.symm.trans same
      exact ⟨a, t, at', whole.trans ahead, whole⟩
    · left
      rw [same, ahead] at ahead'
      exact (List.append_inj_left' ahead' rfl).symm

/-- The hand-off is exact. What was read is what the writes say was taken, up to one item whose
write has yet to return, and it comes in the order of the writes. The item of a write that
finds the channel closed is never read, neither before nor later. The slot holds nothing but
the item of the write under way, and no counter passes the number of writes. After the channel
was closed nothing is read, and no write ends as taken but the one whose item was read before. -/
theorem handoff_exact (hr : run? acts ({} : Exchange α) = some x) :
    (x.got = x.kept ∨ ∃ a t, x.writer = .awaiting a t ∧ x.got = x.kept ++ [a] ∧
      ∃ y, x.step? .writer = some y ∧ y.kept = x.got) ∧
    (begun acts = x.ended ++ x.writer.item?.toList ∧ x.got.Sublist (begun acts)) ∧
    (∀ later y a, x.run? later = some y → (begun (acts ++ later)).Nodup →
      .wrote a false ∈ x.history → a ∉ y.got) ∧
    ((∀ a, x.channel.slot = some a → x.writer = .awaiting a x.channel.offered ∧ x.got = x.kept) ∧
      x.channel.taken ≤ x.channel.offered ∧ x.channel.offered ≤ x.channel.taken + 1 ∧
      x.channel.offered ≤ (begun acts).length) ∧
    (x.channel.closed = true → ∀ later y, x.run? later = some y →
      y.got = x.got ∧ (y.kept = x.kept ∨
        ∃ a t, x.writer = .awaiting a t ∧ y.kept = x.kept ++ [a] ∧ y.kept = x.got)) := by
  have sound : Sound acts x := by simpa using sound_run sound_fresh hr
  refine ⟨got_cases sound, ⟨sound.begun, got_sublist sound⟩, ?_, ⟨?_, sound.untaken.1,
    sound.untaken.2, offered_le sound⟩, ?_⟩
  · intro later y a hy distinct lost
    exact not_got (sound_run sound hy) distinct ((history_run hy).subset lost)
  · intro a hs
    obtain ⟨_, waits, same⟩ := between_held sound.between hs
    refine ⟨?_, same⟩
    cases hw : x.writer <;> simp_all [Writer.pending]
  · intro hc later y hy
    have same := got_closed_run hc hy
    exact ⟨same, kept_closed sound (sound_run sound hy) (kept_run hy) same⟩

/-- The item 1 is taken, then the channel is closed, and only then does its write go on. The
write of the item 2, which begins later, and the read after it find the channel closed. -/
theorem handoff_exact_sample : ∃ x y : Exchange Nat,
    run? [.write 1, .writer, .read, .reader, .close] {} = some x ∧
    x.run? [.writer, .write 2, .writer, .read, .reader] = some y ∧
    x.channel.closed = true ∧ x.got = [1] ∧ x.kept = [] ∧
    (∃ z, x.step? .writer = some z ∧ z.kept = [1]) ∧
    y.got = [1] ∧ .wrote 2 false ∈ y.history := by
  have first : run? [.write 1, .writer, .read, .reader, .close] ({} : Exchange Nat) = some
      { channel := { offered := 1, taken := 1, closed := true }
        writer := .awaiting 1 1, history := [.read (some 1)] } := rfl
  have second : run? [.writer, .write 2, .writer, .read, .reader]
      { channel := { offered := 1, taken := 1, closed := true }
        writer := .awaiting 1 1, history := [.read (some 1)] } = some
      { channel := { offered := 1, taken := 1, closed := true }
        history := [.read none, .wrote 2 false, .wrote 1 true, .read (some 1)] } := rfl
  obtain ⟨ahead, _, _, _, past⟩ := handoff_exact first
  refine ⟨_, _, first, second, rfl, rfl, rfl, ?_, (past rfl _ _ second).1, by decide⟩
  rcases ahead with same | ⟨a, t, _, _, returns⟩
  · exact absurd same (by decide)
  · exact returns

end Exchange
end StagedPipeline.Handoff
