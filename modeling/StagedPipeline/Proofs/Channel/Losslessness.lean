import StagedPipeline.Channel.Fifo.Traffic
import StagedPipeline.Proofs.Channel.Sides

/-!
# No loss in a buffered channel

Any number of senders, receivers and closers at one buffered channel. Whatever the order of
their sections, what was received and what is still inside are together the items whose sends
say that they have entered, in the order in which they entered. A sender that waited for room
looks at the channel again before its item enters, so nothing enters after the channel was
closed, not even where a receiver has made room in between. Closing takes nothing out.
-/
namespace StagedPipeline.Fifo

variable {α : Type}

namespace Deed

/-- The item of a send that has entered the queue. -/
def entered? : Deed α → Option α
  | .sent a true => some a
  | _ => none

/-- The item that a receive has brought. -/
def item? : Deed α → Option α
  | .received item => item
  | _ => none

/-- What a call can come to in a section that finds the channel as it is here. -/
def Fits (c : Fifo α) : Deed α → Prop
  | .sent _ entered => entered = !c.closed
  | .received (some a) => c.queue.head? = some a
  | .received none => c.queue = []

end Deed

/-- The queue is within its bound, if it has one. -/
def Bounded (c : Fifo α) : Prop := c.capacity ≠ 0 → c.queue.length ≤ c.capacity.toNat

theorem bounded_push {c : Fifo α} (room : c.isFull = false) (a : α) :
    Bounded { c with queue := c.queue ++ [a] } := by
  intro bounded
  have less : ¬ c.capacity.toNat ≤ c.queue.length := by simpa [isFull, bounded] using room
  simp only [List.length_append, List.length_singleton]
  omega

namespace Traffic

/-- The items that were received, in order. -/
def received (x : Traffic α) : List α := x.history.reverse.filterMap Deed.item?

/-- The items whose sends say that they have entered, in the order in which they did. -/
def entered (x : Traffic α) : List α := x.history.reverse.filterMap Deed.entered?

def run? : List (Act α) → Traffic α → Option (Traffic α)
  | [], x => some x
  | act :: acts, x => (x.step? act).bind (run? acts)

variable {capacity : UInt64} {x y : Traffic α} {act : Act α} {acts : List (Act α)}

/-! ## What can happen -/

/-- Everything that an act can do. -/
inductive Happens (x : Traffic α) : Act α → Traffic α → Prop where
  | send {a} : Happens x (.send a) { x with waiting := x.waiting ++ [a] }
  | enter {i a} (waits : x.waiting[i]? = some a) (open' : x.channel.closed = false)
      (room : x.channel.isFull = false) :
      Happens x (.sender i)
        { channel := { x.channel with queue := x.channel.queue ++ [a] }
          waiting := x.waiting.eraseIdx i
          history := .sent a true :: x.history }
  | refuse {i a} (waits : x.waiting[i]? = some a) (closed : x.channel.closed = true) :
      Happens x (.sender i)
        { x with waiting := x.waiting.eraseIdx i, history := .sent a false :: x.history }
  | receive {a rest} (first : x.channel.queue = a :: rest) :
      Happens x .receive
        { x with
          channel := { x.channel with queue := rest }
          history := .received (some a) :: x.history }
  | receiveEnd (empty : x.channel.queue = []) :
      Happens x .receive { x with history := .received none :: x.history }
  | expire (empty : x.channel.queue = []) :
      Happens x .expire { x with history := .received none :: x.history }
  | close : Happens x .close { x with channel := x.channel.close }

theorem happens_of_step (hs : x.step? act = some y) : x.Happens act y := by
  cases act with
  | send a =>
    cases hs
    exact .send
  | sender i =>
    simp only [step?, Option.bind_eq_some_iff, Option.map_eq_some_iff, Prod.exists] at hs
    obtain ⟨a, waits, entered, channel, done, rfl⟩ := hs
    cases entered with
    | true =>
      obtain ⟨open', room, rfl⟩ := send_entered done
      exact .enter waits open' room
    | false =>
      obtain ⟨closed, rfl⟩ := send_refused done
      exact .refuse waits closed
  | receive =>
    simp only [step?, Option.map_eq_some_iff, Prod.exists] at hs
    obtain ⟨item, channel, done, rfl⟩ := hs
    cases item with
    | some a =>
      obtain ⟨rest, first, rfl⟩ := receive_item done
      exact .receive first
    | none =>
      obtain ⟨_, empty, rfl⟩ := receive_end done
      exact .receiveEnd empty
  | expire =>
    simp only [step?, Option.ite_none_right_eq_some, Option.some.injEq] at hs
    obtain ⟨empty, rfl⟩ := hs
    exact .expire (List.isEmpty_iff.mp empty)
  | close =>
    cases hs
    exact .close

/-! ## The account -/

/-- What is true of all traffic through a channel of some capacity. -/
structure Sound (capacity : UInt64) (x : Traffic α) : Prop where
  account : x.received ++ x.channel.queue = x.entered
  capacity : x.channel.capacity = capacity
  bounded : x.channel.Bounded

theorem sound_fresh (capacity : UInt64) :
    Sound capacity ({ channel := { capacity } } : Traffic α) :=
  ⟨rfl, rfl, fun _ => Nat.zero_le _⟩

theorem received_cons {d : Deed α} (hy : y.history = d :: x.history) :
    y.received = x.received ++ d.item?.toList := by
  rw [received, received, hy, List.reverse_cons, List.filterMap_append]
  cases h : d.item? <;> simp [h]

theorem entered_cons {d : Deed α} (hy : y.history = d :: x.history) :
    y.entered = x.entered ++ d.entered?.toList := by
  rw [entered, entered, hy, List.reverse_cons, List.filterMap_append]
  cases h : d.entered? <;> simp [h]

/-- The end of a call that moves no item. -/
theorem sound_idle {d : Deed α} {waiting : List α} (hx : Sound capacity x) (item : d.item? = none)
    (entry : d.entered? = none) : Sound capacity { x with waiting, history := d :: x.history } := by
  refine ⟨?_, hx.capacity, hx.bounded⟩
  rw [received_cons (x := x) rfl, entered_cons (x := x) rfl, item, entry, Option.toList_none,
    List.append_nil, List.append_nil]
  exact hx.account

theorem sound_step (hx : Sound capacity x) (hs : x.step? act = some y) : Sound capacity y := by
  obtain ⟨account, same, bounded⟩ := hx
  -- an item is put at the end of the account when it enters, and only moves along it later
  cases happens_of_step hs with
  | send | close => exact ⟨account, same, bounded⟩
  | refuse _ _ | receiveEnd _ | expire _ => exact sound_idle ⟨account, same, bounded⟩ rfl rfl
  | enter waits open' room =>
    refine ⟨?_, same, bounded_push room _⟩
    rw [received_cons (x := x) rfl, entered_cons (x := x) rfl, ← account]
    simp [Deed.item?, Deed.entered?]
  | receive first =>
    refine ⟨?_, same, fun limit => ?_⟩
    · rw [received_cons (x := x) rfl, entered_cons (x := x) rfl, ← account, first]
      simp [Deed.item?, Deed.entered?]
    · have length := bounded limit
      rw [first, List.length_cons] at length
      exact Nat.le_of_succ_le length

theorem sound_run (hx : Sound capacity x) (hr : x.run? acts = some y) : Sound capacity y := by
  induction acts generalizing x with
  | nil => exact Option.some.inj hr ▸ hx
  | cons act acts ih =>
    obtain ⟨z, hz, hr⟩ := Option.bind_eq_some_iff.mp hr
    exact ih (sound_step hx hz) hr

/-! ## From a moment on -/

/-- What every act keeps, once it holds, and what deeds it admits from then on. -/
theorem since_run {P : Fifo α → Prop} {Admits : Deed α → Prop}
    (keeps : ∀ {x y : Traffic α} {act}, P x.channel → x.step? act = some y →
      P y.channel ∧ ∃ since, y.history = since ++ x.history ∧ ∀ d ∈ since, Admits d)
    (hx : P x.channel) (hr : x.run? acts = some y) :
    P y.channel ∧ ∃ since, y.history = since ++ x.history ∧ ∀ d ∈ since, Admits d := by
  induction acts generalizing x with
  | nil => exact ⟨Option.some.inj hr ▸ hx, [], by rw [Option.some.inj hr]; rfl, by simp⟩
  | cons act acts ih =>
    obtain ⟨z, hz, hr⟩ := Option.bind_eq_some_iff.mp hr
    obtain ⟨there, first, hz, admitted⟩ := keeps hx hz
    obtain ⟨there, more, hy, admitted'⟩ := ih there hr
    refine ⟨there, more ++ first, by rw [hy, hz, List.append_assoc], fun d hd => ?_⟩
    exact (List.mem_append.mp hd).elim (admitted' d) (admitted d)

/-- An act adds one deed to the history, or none. -/
theorem history_step (hs : x.step? act = some y) :
    ∃ d : Option (Deed α), y.history = d.toList ++ x.history ∧ ∀ e ∈ d, e.Fits x.channel := by
  cases happens_of_step hs with
  | send | close => exact ⟨none, rfl, by simp⟩
  | enter _ open' _ => exact ⟨some _, rfl, by simp [Deed.Fits, open']⟩
  | refuse _ closed => exact ⟨some _, rfl, by simp [Deed.Fits, closed]⟩
  | receive first => exact ⟨some _, rfl, by simp [Deed.Fits, first]⟩
  | receiveEnd empty | expire empty => exact ⟨some _, rfl, by simp [Deed.Fits, empty]⟩

/-- The deed by which a history has grown fits the channel before the act. -/
theorem fits_step {d : Deed α} (hs : x.step? act = some y) (hy : y.history = d :: x.history) :
    d.Fits x.channel := by
  obtain ⟨e, grows, fits⟩ := history_step hs
  rw [hy] at grows
  cases e with
  | none => exact absurd (congrArg List.length grows) (by simp)
  | some e =>
    obtain rfl := (List.cons.inj grows).1
    exact fits d rfl

theorem closed_step (closed : x.channel.closed = true) (hs : x.step? act = some y) :
    y.channel.closed = true ∧ ∃ since, y.history = since ++ x.history ∧
      ∀ d ∈ since, d.entered? = none := by
  have still : y.channel.closed = true := by
    cases happens_of_step hs with
    | close => rfl
    | _ => exact closed
  obtain ⟨d, hy, fits⟩ := history_step hs
  refine ⟨still, d.toList, hy, fun e he => ?_⟩
  have fits := fits e (Option.mem_toList.mp he)
  cases e with
  | received item => rfl
  | sent a entered =>
    have refused : entered = false := by
      rw [show entered = !x.channel.closed from fits, closed]
      rfl
    rw [refused]
    rfl

/-- A channel that is closed and empty stays so, and nothing is received from it. -/
theorem drained_step (drained : x.channel.isDrained = true) (hs : x.step? act = some y) :
    y.channel.isDrained = true ∧ ∃ since, y.history = since ++ x.history ∧
      ∀ d ∈ since, d.item? = none := by
  obtain ⟨closed, empty⟩ := isDrained_iff.mp drained
  have still : y.channel.isDrained = true := by
    cases happens_of_step hs with
    | enter _ open' _ =>
      rw [closed] at open'
      cases open'
    | receive first =>
      rw [empty] at first
      cases first
    | close => exact isDrained_iff.mpr ⟨rfl, empty⟩
    | send | refuse _ _ | receiveEnd _ | expire _ => exact drained
  obtain ⟨d, hy, fits⟩ := history_step hs
  refine ⟨still, d.toList, hy, fun e he => ?_⟩
  have fits := fits e (Option.mem_toList.mp he)
  cases e with
  | sent a entered => rfl
  | received item =>
    cases item with
    | none => rfl
    | some a => simp [Deed.Fits, empty] at fits

/-- Nothing is lost in a buffered channel, and nothing enters it out of bounds: what was
received and what is inside are the items whose sends say that they have entered; the queue
keeps to its capacity; a send enters if and only if the channel is open in that section, and
none does after the channel was closed; closing takes nothing out; a receive is without an item
only where the queue is empty; and once closed and empty, the channel stays so for ever. -/
theorem traffic_lossless
    (hr : ({ channel := { capacity } } : Traffic α).run? acts = some x) :
    x.received ++ x.channel.queue = x.entered ∧
      (capacity ≠ 0 → x.channel.queue.length ≤ capacity.toNat) ∧
      (∀ act y a entered, x.step? act = some y → y.history = .sent a entered :: x.history →
        entered = !x.channel.closed) ∧
      (x.channel.closed = true → ∀ later z, x.run? later = some z →
        ∃ since, z.history = since ++ x.history ∧ ∀ d ∈ since, d.entered? = none) ∧
      (∀ y, x.step? .close = some y → y.channel = { x.channel with closed := true } ∧
        y.waiting = x.waiting ∧ y.history = x.history) ∧
      (∀ act y, x.step? act = some y → y.history = .received none :: x.history →
        x.channel.queue = []) ∧
      (x.channel.isDrained = true → ∀ later z, x.run? later = some z →
        z.channel.isDrained = true ∧
          ∃ since, z.history = since ++ x.history ∧ ∀ d ∈ since, d.item? = none) := by
  have hx : Sound capacity x := sound_run (sound_fresh capacity) hr
  refine ⟨hx.account, hx.capacity ▸ hx.bounded, ?_, ?_, ?_, ?_, ?_⟩
  · intro act y a entered hs hy
    exact fits_step hs hy
  · intro closed later z hz
    exact (since_run (P := fun c => c.closed = true) closed_step closed hz).2
  · intro y hs
    cases hs
    exact ⟨rfl, rfl, rfl⟩
  · intro act y hs hy
    exact fits_step hs hy
  · intro drained later z hz
    exact since_run (P := fun c => c.isDrained = true) drained_step drained hz

/-- The second item waits for room when the channel is closed. A receiver has taken the first
one before the second sender looks again, so there is room by then, and still it is refused. The
channel is drained at that moment, and a third send brings nothing into it either. -/
theorem traffic_lossless_blocked : ∃ x : Traffic Nat,
    ({ channel := { capacity := 1 } } : Traffic Nat).run?
      [.send 7, .send 8, .sender 0, .close, .receive, .sender 0, .expire] = some x ∧
    x.history = [.received none, .sent 8 false, .received (some 7), .sent 7 true] ∧
    x.received = [7] ∧ x.entered = [7] ∧ x.channel.isDrained = true ∧
    ∃ z, x.run? [.send 9, .sender 0, .receive] = some z ∧ z.channel.isDrained = true ∧
      ∃ since, z.history = since ++ x.history ∧ ∀ d ∈ since, d.item? = none := by
  have run : ({ channel := { capacity := 1 } } : Traffic Nat).run?
      [.send 7, .send 8, .sender 0, .close, .receive, .sender 0, .expire] = some
      { channel := { capacity := 1, closed := true }
        history := [.received none, .sent 8 false, .received (some 7), .sent 7 true] } := rfl
  obtain ⟨account, _, _, _, _, _, atEnd⟩ := traffic_lossless run
  refine ⟨_, run, rfl, rfl, account.symm.trans rfl, rfl, ?_⟩
  have later : ({ channel := { capacity := 1, closed := true }
                  history := [.received none, .sent 8 false, .received (some 7), .sent 7 true] } :
      Traffic Nat).run? [.send 9, .sender 0, .receive] = some
      { channel := { capacity := 1, closed := true }
        history := [.received none, .sent 9 false, .received none, .sent 8 false,
          .received (some 7), .sent 7 true] } := rfl
  exact ⟨_, later, atEnd rfl _ _ later⟩

end Traffic
end StagedPipeline.Fifo
