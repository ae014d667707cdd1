import StagedPipeline.Channel.Reports.Session
import StagedPipeline.Proofs.Channel.Sides

/-!
# Completeness of polls and drains

Parties put errors into a channel and close it, and one reader polls or drains it. The second
section of a poll that has brought nothing asks whether the channel is closed *and* empty. An
error that enters between the two sections makes it say that there is more, so the reader is
told of the end only when it has got every error that was accepted. Once the channel is closed
and empty it stays so.
-/
namespace StagedPipeline.Reports

namespace Deed

/-- What a call has given to the reader. -/
def returned : Deed → List Error
  | .put _ _ => []
  | .checked e _ => e.toList
  | .drained es => es

/-- The error of a putting that was accepted. -/
def accepted? : Deed → Option Error
  | .put e .accepted => some e
  | _ => none

/-- What a deed can be once the channel is closed and empty. -/
def Final (d : Deed) : Prop :=
  d.accepted? = none ∧ ∀ answer, d.checked? = some answer → answer = (none, true)

end Deed

/-- What a drain that is under way has gathered. -/
def Reader.got : Reader → List Error
  | .draining got | .confirming got => got
  | _ => []

theorem isDrained_iff {r : Reports} :
    r.isDrained = true ↔ r.queue.closed = true ∧ r.queue.queue = [] := Fifo.isDrained_iff

/-- Nothing enters a closed channel, and what is inside it stays. -/
theorem put_closed {e : Error} {how : Putting} {r r' : Reports} (hc : r.queue.closed = true)
    (done : r.put? e = some (how, r')) : how ≠ .accepted ∧ r' = r := by
  rcases put_cases done with ⟨_, entered⟩ | other
  · have open' := (forward_accepted entered).1
    rw [hc] at open'
    cases open'
  · exact other

namespace Session

/-- The errors that the reader was given by calls that have ended, in order. -/
def returned (x : Session) : List Error := x.history.reverse.flatMap Deed.returned

/-- The errors whose putting was accepted, in the order of their acceptance. -/
def accepted (x : Session) : List Error := x.history.reverse.filterMap Deed.accepted?

/-- Carries out acts one after the other, if each of them is possible. -/
def run? : List Act → Session → Option Session
  | [], x => some x
  | act :: acts, x => (x.step? act).bind (run? acts)

/-! ## What can happen -/

/-- Everything that an act can do. -/
inductive Happens (x : Session) : Act → Session → Prop where
  | put {e} : Happens x (.put e) { x with waiting := x.waiting ++ [e] }
  | putter {i e how channel} (waits : x.waiting[i]? = some e)
      (done : x.channel.put? e = some (how, channel)) :
      Happens x (.putter i)
        { x with channel, waiting := x.waiting.eraseIdx i, history := .put e how :: x.history }
  | check (idle : x.reader = .idle) : Happens x .check { x with reader := .checking }
  | drain (idle : x.reader = .idle) : Happens x .drain { x with reader := .draining [] }
  | get {e channel} (at' : x.reader = .checking)
      (done : x.channel.receive? = some (some e, channel)) :
      Happens x .reader (x.ended channel (.checked (some e) false))
  | miss (at' : x.reader = .checking) : Happens x .reader { x with reader := .confirmingCheck }
  | answer (at' : x.reader = .confirmingCheck) :
      Happens x .reader (x.ended x.channel (.checked none x.channel.isDrained))
  | gather {got e channel} (at' : x.reader = .draining got)
      (done : x.channel.receive? = some (some e, channel)) :
      Happens x .reader { x with channel, reader := .draining (got ++ [e]) }
  | pause {got} (at' : x.reader = .draining got) :
      Happens x .reader { x with reader := .confirming got }
  | finish {got} (at' : x.reader = .confirming got) (drained : x.channel.isDrained = true) :
      Happens x .reader (x.ended x.channel (.drained got))
  | resume {got} (at' : x.reader = .confirming got) :
      Happens x .reader { x with reader := .draining got }
  | timeout (at' : x.reader = .checking) :
      Happens x .expire { x with reader := .confirmingCheck }
  | timeoutDrain {got} (at' : x.reader = .draining got) :
      Happens x .expire { x with reader := .confirming got }
  | close : Happens x .close { x with channel := x.channel.close }

variable {x y z : Session} {act : Act} {acts later : List Act}

theorem happens_of_step (hs : x.step? act = some y) : x.Happens act y := by
  cases act with
  | put e =>
    cases hs
    exact .put
  | putter i =>
    simp only [step?, Option.bind_eq_some_iff, Option.map_eq_some_iff, Prod.exists] at hs
    obtain ⟨e, waits, how, channel, done, rfl⟩ := hs
    exact .putter waits done
  | check =>
    simp only [step?, Option.ite_none_right_eq_some, Option.some.injEq] at hs
    obtain ⟨idle, rfl⟩ := hs
    exact .check idle
  | drain =>
    simp only [step?, Option.ite_none_right_eq_some, Option.some.injEq] at hs
    obtain ⟨idle, rfl⟩ := hs
    exact .drain idle
  | reader =>
    simp only [step?, advanceReader?] at hs
    split at hs
    · cases hs
    · rename_i at'
      simp only [Option.map_eq_some_iff, Prod.exists] at hs
      obtain ⟨item, channel, done, rfl⟩ := hs
      cases item with
      | some e => exact .get at' done
      | none =>
        obtain ⟨_, _, rfl⟩ := receive_end done
        exact .miss at'
    · rename_i at'
      cases hs
      exact .answer at'
    · rename_i got at'
      simp only [Option.map_eq_some_iff, Prod.exists] at hs
      obtain ⟨item, channel, done, rfl⟩ := hs
      cases item with
      | some e => exact .gather at' done
      | none =>
        obtain ⟨_, _, rfl⟩ := receive_end done
        exact .pause at'
    · rename_i got at'
      split at hs
      · rename_i drained
        cases hs
        exact .finish at' drained
      · cases hs
        exact .resume at'
  | expire =>
    simp only [step?, Option.ite_none_right_eq_some] at hs
    obtain ⟨_, hs⟩ := hs
    split at hs
    · rename_i at'
      cases hs
      exact .timeout at'
    · rename_i got at'
      cases hs
      exact .timeoutDrain at'
    · cases hs
  | close =>
    cases hs
    exact .close

/-! ## The account -/

/-- What is true of every session. -/
structure Sound (x : Session) : Prop where
  account : x.returned ++ x.reader.got ++ x.channel.queue.queue = x.accepted
  real : ∀ e ∈ x.accepted, e.isNull = false
  apart : ∀ e, .checked (some e) true ∉ x.history

theorem sound_fresh {capacity : UInt64} {interval : Int} {channel : Reports}
    (hc : create capacity interval = .ok channel) : Sound { channel } := by
  have empty : channel.queue.queue = [] := by
    unfold create at hc
    split at hc
    · cases hc
    · cases hc
      rfl
  exact ⟨empty, by simp [accepted], by simp⟩

/-- A deed of the reader adds what it returns, and is no putting. -/
theorem returned_cons {d : Deed} (hy : y.history = d :: x.history) :
    y.returned = x.returned ++ d.returned := by
  simp [returned, hy]

theorem accepted_cons {d : Deed} (hy : y.history = d :: x.history) :
    y.accepted = x.accepted ++ d.accepted?.toList := by
  rw [accepted, accepted, hy, List.reverse_cons, List.filterMap_append]
  cases h : d.accepted? <;> simp [h]

/-- A section of the reader that leaves its history as it is. -/
theorem sound_moves {reader : Reader} {channel : Reports} (hx : Sound x)
    (same : reader.got ++ channel.queue.queue = x.reader.got ++ x.channel.queue.queue) :
    Sound { x with channel, reader } := by
  refine ⟨?_, hx.real, hx.apart⟩
  have account := hx.account
  rw [List.append_assoc] at account ⊢
  rw [same]
  exact account

/-- The end of a call of the reader. -/
theorem sound_ended {channel : Reports} {d : Deed} (hx : Sound x) (own : d.accepted? = none)
    (same : d.returned ++ channel.queue.queue = x.reader.got ++ x.channel.queue.queue)
    (apart : ∀ e, d ≠ .checked (some e) true) : Sound (x.ended channel d) := by
  have returns : (x.ended channel d).returned = x.returned ++ d.returned := returned_cons rfl
  have accepts : (x.ended channel d).accepted = x.accepted := by
    rw [accepted_cons rfl, own, Option.toList_none, List.append_nil]
  refine ⟨?_, ?_, ?_⟩
  · have account := hx.account
    rw [List.append_assoc] at account
    rw [returns, accepts, ← account, ← same]
    simp [ended, Reader.got]
  · rw [accepts]
    exact hx.real
  · intro e he
    rcases List.mem_cons.mp he with rfl | he
    · exact apart e rfl
    · exact hx.apart e he

theorem sound_putter {i : Nat} {e : Error} {how : Putting} {channel : Reports} (hx : Sound x)
    (done : x.channel.put? e = some (how, channel)) :
    Sound { x with channel, waiting := x.waiting.eraseIdx i, history := .put e how :: x.history } := by
  obtain ⟨account, real, apart⟩ := hx
  have apart' : ∀ e', Deed.checked (some e') true ∉ Deed.put e how :: x.history := by
    intro e' he
    rcases List.mem_cons.mp he with he | he
    · cases he
    · exact apart e' he
  rcases put_cases done with ⟨rfl, entered⟩ | ⟨other, rfl⟩
  · have nonnull : e.isNull = false := by
      cases null : e.isNull with
      | true => simp [put?, null] at done
      | false => rfl
    obtain ⟨_, rfl⟩ := forward_accepted entered
    refine ⟨?_, ?_, apart'⟩
    · rw [returned_cons rfl, accepted_cons rfl, ← account]
      simp [Deed.returned, Deed.accepted?]
    · rw [accepted_cons rfl]
      intro e' he
      rcases List.mem_append.mp he with he | he
      · exact real e' he
      · obtain rfl := List.mem_singleton.mp he
        exact nonnull
  · have none' : (Deed.put e how).accepted? = none := by
      cases how with
      | accepted => exact absurd rfl other
      | dropped | rejected f => rfl
    refine ⟨?_, ?_, apart'⟩
    · rw [returned_cons rfl, accepted_cons rfl, none']
      simpa [Deed.returned] using account
    · rw [accepted_cons rfl, none', Option.toList_none, List.append_nil]
      exact real

theorem sound_step (hx : Sound x) (hs : x.step? act = some y) : Sound y := by
  cases happens_of_step hs with
  | put => exact ⟨hx.account, hx.real, hx.apart⟩
  | putter waits done => exact sound_putter hx done
  | check idle | drain idle | miss at' | timeout at' =>
    exact sound_moves hx (by simp [Reader.got, *])
  | pause at' | resume at' | timeoutDrain at' => exact sound_moves hx (by simp [Reader.got, at'])
  | gather at' done =>
    obtain ⟨rest, queue, rfl⟩ := receive_error done
    exact sound_moves hx (by simp [Reader.got, at', queue])
  | get at' done =>
    obtain ⟨rest, queue, rfl⟩ := receive_error done
    exact sound_ended hx rfl (by simp [Deed.returned, Reader.got, at', queue]) (by simp)
  | answer at' => exact sound_ended hx rfl (by simp [Deed.returned, Reader.got, at']) (by simp)
  | finish at' _ => exact sound_ended hx rfl (by simp [Deed.returned, Reader.got, at']) (by simp)
  | close => exact ⟨hx.account, hx.real, hx.apart⟩

theorem sound_run (hx : Sound x) (hr : x.run? acts = some y) : Sound y := by
  induction acts generalizing x with
  | nil => exact Option.some.inj hr ▸ hx
  | cons act acts ih =>
    obtain ⟨z, hz, hr⟩ := Option.bind_eq_some_iff.mp hr
    exact ih (sound_step hx hz) hr

/-! ## The end -/

/-- A closed and empty channel stays so, and polls find nothing but the end. -/
theorem over_step (drained : x.channel.isDrained = true) (hs : x.step? act = some y) :
    y.channel.isDrained = true ∧ ∃ since, y.history = since ++ x.history ∧
      ∀ d ∈ since, d.Final := by
  have still : ∀ {y : Session}, y.channel = x.channel → y.history = x.history →
      y.channel.isDrained = true ∧ ∃ since, y.history = since ++ x.history ∧
        ∀ d ∈ since, d.Final := by
    intro y hc hh
    exact ⟨hc ▸ drained, [], hh, by simp⟩
  obtain ⟨closed, empty⟩ := isDrained_iff.mp drained
  cases happens_of_step hs with
  | put | check _ | drain _ | miss _ | pause _ | resume _ | timeout _ | timeoutDrain _ =>
    exact still rfl rfl
  | @putter i e how channel waits done =>
    obtain ⟨other, rfl⟩ := put_closed closed done
    refine ⟨drained, [.put e how], rfl, ?_⟩
    intro d hd
    obtain rfl := List.mem_singleton.mp hd
    cases how with
    | accepted => exact absurd rfl other
    | dropped | rejected f => exact ⟨rfl, by simp [Deed.checked?]⟩
  | get at' done | gather at' done =>
    obtain ⟨_, queue, _⟩ := receive_error done
    rw [empty] at queue
    cases queue
  | answer at' =>
    refine ⟨drained, [.checked none x.channel.isDrained], rfl, ?_⟩
    intro d hd
    obtain rfl := List.mem_singleton.mp hd
    rw [drained]
    exact ⟨rfl, by simp [Deed.checked?]⟩
  | @finish got at' _ =>
    refine ⟨drained, [.drained got], rfl, ?_⟩
    intro d hd
    obtain rfl := List.mem_singleton.mp hd
    exact ⟨rfl, by simp [Deed.checked?]⟩
  | close => exact ⟨isDrained_iff.mpr ⟨rfl, empty⟩, [], rfl, by simp⟩

theorem over_run (drained : x.channel.isDrained = true) (hr : x.run? acts = some y) :
    ∃ since, y.history = since ++ x.history ∧ ∀ d ∈ since, d.Final := by
  induction acts generalizing x with
  | nil => exact ⟨[], by rw [Option.some.inj hr]; rfl, by simp⟩
  | cons act acts ih =>
    obtain ⟨z, hz, hr⟩ := Option.bind_eq_some_iff.mp hr
    obtain ⟨drained', first, hz', final⟩ := over_step drained hz
    obtain ⟨more, hy, final'⟩ := ih drained' hr
    refine ⟨more ++ first, by rw [hy, hz', List.append_assoc], fun d hd => ?_⟩
    exact (List.mem_append.mp hd).elim (final' d) (final d)

theorem answered {e : Option Error} (hs : x.step? act = some y)
    (hy : y.history = .checked e true :: x.history) :
    e = none ∧ y.reader = .idle ∧ y.channel.isDrained = true := by
  have grows : ∀ d : Deed, d :: x.history ≠ x.history := fun d h => by
    simpa using congrArg List.length h
  cases happens_of_step hs with
  | put | check _ | drain _ | miss _ | gather _ _ | pause _ | resume _ | timeout _
  | timeoutDrain _ | close => exact absurd hy.symm (grows _)
  | putter _ _ | get _ _ | finish _ _ => simp [ended] at hy
  | answer _ =>
    simp only [ended, List.cons.injEq, Deed.checked.injEq, and_true] at hy
    exact ⟨hy.1.symm, rfl, hy.2⟩

theorem emptied {es : List Error} (hs : x.step? act = some y)
    (hy : y.history = .drained es :: x.history) :
    x.reader = .confirming es ∧ x.channel.isDrained = true := by
  have grows : ∀ d : Deed, d :: x.history ≠ x.history := fun d h => by
    simpa using congrArg List.length h
  cases happens_of_step hs with
  | put | check _ | drain _ | miss _ | gather _ _ | pause _ | resume _ | timeout _
  | timeoutDrain _ | close => exact absurd hy.symm (grows _)
  | putter _ _ | get _ _ | answer _ => simp [ended] at hy
  | finish at' drained =>
    simp only [ended, List.cons.injEq, Deed.drained.injEq, and_true] at hy
    exact ⟨hy ▸ at', drained⟩

/-- A poll says that there is no more only when all the errors that were accepted were returned,
a drain returns what was accepted and not returned before, and the null error never enters. -/
theorem polls_complete {capacity : UInt64} {interval : Int} {channel : Reports}
    (hc : create capacity interval = .ok channel)
    (hr : ({ channel } : Session).run? acts = some x) :
    x.returned ++ x.reader.got ++ x.channel.queue.queue = x.accepted ∧
      (∀ act y e, x.step? act = some y → y.history = .checked e true :: x.history →
        e = none ∧ y.channel.queue.closed = true ∧ y.returned = y.accepted ∧
          ∀ later z, y.run? later = some z → ∃ since, z.history = since ++ y.history ∧
            ∀ answer ∈ since.filterMap Deed.checked?, answer = (none, true)) ∧
      (∀ e, .checked (some e) true ∉ x.history) ∧
      (∀ act y es, x.step? act = some y → y.history = .drained es :: x.history →
        x.returned ++ es = x.accepted ∧ x.channel.queue.closed = true) ∧
      ∀ e, e.isNull = true → e ∉ x.accepted ∧ e ∉ x.channel.queue.queue ∧
        ∀ i, x.waiting[i]? = some e → x.step? (.putter i) =
          some { x with
            waiting := x.waiting.eraseIdx i, history := .put e (.rejected nullFault) :: x.history } := by
  have hx : Sound x := sound_run (sound_fresh hc) hr
  refine ⟨hx.account, ?_, hx.apart, ?_, ?_⟩
  · intro act y e hs hy
    obtain ⟨none', idle, drained⟩ := answered hs hy
    obtain ⟨closed, empty⟩ := isDrained_iff.mp drained
    refine ⟨none', closed, ?_, fun later z hz => ?_⟩
    · -- the reader is between two calls, so that no drain holds anything back
      simpa [idle, Reader.got, empty] using (sound_step hx hs).account
    · obtain ⟨since, hz, final⟩ := over_run drained hz
      refine ⟨since, hz, fun answer ha => ?_⟩
      obtain ⟨d, hd, he⟩ := List.mem_filterMap.mp ha
      exact (final d hd).2 answer he
  · intro act y es hs hy
    obtain ⟨at', drained⟩ := emptied hs hy
    obtain ⟨closed, empty⟩ := isDrained_iff.mp drained
    refine ⟨?_, closed⟩
    simpa [at', Reader.got, empty] using hx.account
  · intro e null
    have out : e ∉ x.accepted := fun he => by simp [hx.real e he] at null
    refine ⟨out, fun he => out ?_, fun i waits => ?_⟩
    · rw [← hx.account]
      exact List.mem_append_right _ he
    · simp [step?, waits, put?, null]

/-- Between the sections of the first poll an error enters and the channel is closed, so the
poll says that there is more. The drain then brings the error; the one that waited for room is
dropped, the null error is rejected, and the last poll says that there is no more. -/
theorem polls_complete_late_put : ∃ x y : Session,
    let late := Error.of .streamError []
    let other := Error.of .streamReading []
    ({ channel := { queue := { capacity := 1 }, interval := 10 } } : Session).run?
      [.put late, .put other, .check, .expire, .putter 0, .close, .reader, .drain, .reader,
        .put .null, .putter 1, .putter 0, .reader, .reader, .check, .reader] = some x ∧
    x.step? .reader = some y ∧ y.returned = [late] ∧ y.accepted = [late] ∧
    y.history = [.checked none true, .drained [late], .put other .dropped,
      .put .null (.rejected nullFault), .checked none false, .put late .accepted] ∧
    ∀ later z, y.run? later = some z → ∃ since, z.history = since ++ y.history ∧
      ∀ answer ∈ since.filterMap Deed.checked?, answer = (none, true) := by
  let late := Error.of .streamError []
  let other := Error.of .streamReading []
  have created : create 1 10 = .ok { queue := { capacity := 1 }, interval := 10 } := rfl
  have run : ({ channel := { queue := { capacity := 1 }, interval := 10 } } : Session).run?
      [.put late, .put other, .check, .expire, .putter 0, .close, .reader, .drain, .reader,
        .put .null, .putter 1, .putter 0, .reader, .reader, .check, .reader] = some
      { channel := { queue := { capacity := 1, closed := true }, interval := 10 }
        reader := .confirmingCheck
        history := [.drained [late], .put other .dropped, .put .null (.rejected nullFault),
          .checked none false, .put late .accepted] } := rfl
  obtain ⟨_, ends, _⟩ := polls_complete created run
  obtain ⟨_, _, same, final⟩ := ends .reader _ none rfl rfl
  exact ⟨_, _, run, rfl, same.trans rfl, rfl, rfl, final⟩

end Session
end StagedPipeline.Reports
