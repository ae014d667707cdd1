import StagedPipeline.Channel.Conduit
import Mathlib.Data.List.Basic

/-!
# The two sides of a conduit

A conduit has one writer and one reader. What each of them has done with it so far is
a side, and `Conduit.Links` says which conduits fit two sides. The steps of a writer
keep the fit whatever the reader has done, and the steps of a reader keep it whatever
the writer has done. A party of a pipeline is understood by showing that its sections
are such steps; nothing here speaks of stages.
-/
namespace StagedPipeline

namespace Handoff

variable {α : Type} {c c' : Handoff α} {sent taken : List α} {pending : Option (α × Nat)}

/-- How a hand-off channel stands between the items whose writes have found their reader,
the write that has not ended, with its ticket, and the items taken. -/
inductive Between (c : Handoff α) : List α → Option (α × Nat) → List α → Prop where
  | rest {items} (slot : c.slot = none) (count : c.taken = items.length)
      (offered : c.closed = false → c.offered = c.taken) : Between c items none items
  | offered {items a ticket} (slot : c.slot = some a) (count : c.taken = items.length)
      (offered : c.offered = ticket) (next : ticket = c.taken + 1) :
      Between c items (some (a, ticket)) items
  | taken {items a ticket} (slot : c.slot = none) (count : c.taken = items.length + 1)
      (offered : c.offered = ticket) (last : ticket = c.taken) :
      Between c items (some (a, ticket)) (items ++ [a])

theorem between_fresh : Between ({} : Handoff α) [] none [] := .rest rfl rfl fun _ => rfl

theorem between_close (h : Between c sent pending taken) : Between c.close sent pending taken := by
  cases h with
  | rest slot count _ => exact .rest slot count fun hc => Bool.noConfusion hc
  | offered slot count offered next => exact .offered slot count offered next
  | taken slot count offered last => exact .taken slot count offered last

theorem between_place {a : α} {t : Nat} (h : Between c sent none taken)
    (ho : c.offer? a = some (.placed t, c')) :
    Between c' sent (some (a, t)) taken ∧ c'.closed = c.closed := by
  cases h with
  | rest slot count offered =>
    cases hc : c.closed with
    | true => simp [offer?, hc] at ho
    | false =>
      simp only [offer?, hc, Bool.false_eq_true, ↓reduceIte, slot, Option.some.injEq,
        Prod.mk.injEq, Reception.placed.injEq] at ho
      obtain ⟨rfl, rfl⟩ := ho
      exact ⟨.offered rfl count rfl (by rw [offered hc]), rfl⟩

theorem offer_refused {a : α} (ho : c.offer? a = some (.refused, c')) :
    c.closed = true ∧ c' = c := by
  unfold offer? at ho
  split at ho
  · rename_i hc
    simp only [Option.some.injEq, Prod.mk.injEq, true_and] at ho
    exact ⟨hc, ho.symm⟩
  · split at ho <;> simp at ho

/-- A write whose ticket was reached has found its reader. -/
theorem between_settle_taken {a : α} {t : Nat} (h : Between c sent (some (a, t)) taken)
    (hs : c.settle? t = some (true, c')) : c' = c ∧ Between c (sent ++ [a]) none taken := by
  unfold settle? at hs
  split at hs
  · rename_i ht
    simp only [Option.some.injEq, Prod.mk.injEq, true_and] at hs
    cases h with
    | offered slot count offered next => omega
    | taken slot count offered last =>
      exact ⟨hs.symm, .rest slot (by simpa using count) fun _ => offered.trans last⟩
  · split at hs <;> simp at hs

/-- A write that is given up was not taken, and never will be. -/
theorem between_settle_lost {a : α} {t : Nat} (h : Between c sent (some (a, t)) taken)
    (hs : c.settle? t = some (false, c')) :
    c.closed = true ∧ c'.closed = true ∧ Between c' sent none taken := by
  unfold settle? at hs
  split at hs
  · simp at hs
  · rename_i ht
    split at hs
    · rename_i hc
      simp only [Option.some.injEq, Prod.mk.injEq, true_and] at hs
      subst hs
      cases h with
      | offered slot count offered next =>
        exact ⟨hc, hc, .rest rfl count fun hf => absurd hc (by simp [show c.closed = false from hf])⟩
      | taken slot count offered last => omega
    · simp at hs

theorem between_take {a : α} (h : Between c sent pending taken)
    (ht : c.take? = some (some a, c')) :
    Between c' sent pending (taken ++ [a]) ∧ c'.closed = c.closed := by
  cases hc : c.closed with
  | true => simp [take?, hc] at ht
  | false =>
    cases h with
    | rest slot count offered => simp [take?, hc, slot] at ht
    | offered slot count offered next =>
      simp only [take?, hc, Bool.false_eq_true, ↓reduceIte, slot, Option.some.injEq,
        Prod.mk.injEq] at ht
      obtain ⟨rfl, rfl⟩ := ht
      exact ⟨.taken rfl (congrArg (· + 1) count) offered next, rfl⟩
    | taken slot count offered last => simp [take?, hc, slot] at ht

theorem take_end (ht : c.take? = some (none, c')) : c.closed = true ∧ c' = c := by
  unfold take? at ht
  split at ht
  · rename_i hc
    simp only [Option.some.injEq, Prod.mk.injEq, true_and] at ht
    exact ⟨hc, ht.symm⟩
  · split at ht <;> simp at ht

/-- What was taken is what was sent, with the item of the write under way at most. -/
theorem between_prefix (h : Between c sent pending taken) :
    sent <+: taken ∧ taken <+: sent ++ (pending.map Prod.fst).toList := by
  cases h with
  | rest => exact ⟨List.prefix_refl _, List.prefix_append _ _⟩
  | offered => exact ⟨List.prefix_refl _, List.prefix_append _ _⟩
  | taken => exact ⟨List.prefix_append _ _, List.prefix_refl _⟩

end Handoff

namespace Fifo

variable {α : Type} {a : α} {c c' : Fifo α}

/-- An item enters an open channel that is not full, at the end of the queue. -/
theorem send_entered (h : c.send? a = some (true, c')) :
    c.closed = false ∧ c.isFull = false ∧ c' = { c with queue := c.queue ++ [a] } := by
  unfold send? at h
  split at h
  · simp at h
  · rename_i open'
    split at h
    · simp at h
    · rename_i room
      simp only [Option.some.injEq, Prod.mk.injEq, true_and] at h
      exact ⟨by simpa using open', by simpa using room, h.symm⟩

/-- An item is refused only where the channel is closed, which changes nothing. -/
theorem send_refused (h : c.send? a = some (false, c')) : c.closed = true ∧ c' = c := by
  unfold send? at h
  split at h
  · rename_i closed
    simp only [Option.some.injEq, Prod.mk.injEq, true_and] at h
    exact ⟨closed, h.symm⟩
  · split at h <;> simp at h

theorem receive_item (h : c.receive? = some (some a, c')) :
    ∃ rest, c.queue = a :: rest ∧ c' = { c with queue := rest } := by
  unfold receive? at h
  split at h
  · rename_i b rest queue
    simp only [Option.some.injEq, Prod.mk.injEq] at h
    obtain ⟨rfl, rfl⟩ := h
    exact ⟨rest, queue, rfl⟩
  · split at h <;> simp at h

theorem receive_end (h : c.receive? = some (none, c')) :
    c.closed = true ∧ c.queue = [] ∧ c' = c := by
  unfold receive? at h
  split at h
  · simp at h
  · rename_i empty
    split at h
    · rename_i closed
      simp only [Option.some.injEq, Prod.mk.injEq, true_and] at h
      exact ⟨closed, empty, h.symm⟩
    · simp at h

theorem isDrained_iff : c.isDrained = true ↔ c.closed = true ∧ c.queue = [] := by
  simp [isDrained]

end Fifo

namespace Reports

theorem forward_eq_some {e : Error} {how : Putting} {q q' : Reports} :
    q.forward? e = some (how, q') ↔ ∃ entered queue, q.queue.send? e = some (entered, queue) ∧
      (if entered then .accepted else .dropped) = how ∧ { q with queue } = q' := by
  simp [forward?, Option.map_eq_some_iff]

theorem receive_eq_some {e : Option Error} {q q' : Reports} :
    q.receive? = some (e, q') ↔ ∃ queue, q.queue.receive? = some (e, queue) ∧
      { q with queue } = q' := by
  simp [receive?, Option.map_eq_some_iff]

/-- An error has entered the channel, or the channel is closed and stays as it is. -/
theorem forward_cases {e : Error} {how : Putting} {q q' : Reports}
    (h : q.forward? e = some (how, q')) :
    (how = .accepted ∧ q.queue.closed = false ∧
      q' = { q with queue := { q.queue with queue := q.queue.queue ++ [e] } }) ∨
    (how = .dropped ∧ q.queue.closed = true ∧ q' = q) := by
  obtain ⟨entered, queue, done, rfl, rfl⟩ := forward_eq_some.mp h
  cases entered with
  | true =>
    obtain ⟨open', _, rfl⟩ := Fifo.send_entered done
    exact .inl ⟨rfl, open', rfl⟩
  | false =>
    obtain ⟨closed, rfl⟩ := Fifo.send_refused done
    exact .inr ⟨rfl, closed, rfl⟩

theorem forward_not_rejected (e : Error) (q : Reports) (f : Fault) (q' : Reports) :
    q.forward? e ≠ some (.rejected f, q') := by
  intro h
  rcases forward_cases h with ⟨how, _⟩ | ⟨how, _⟩ <;> cases how

theorem forward_accepted {e : Error} {q q' : Reports}
    (h : q.forward? e = some (.accepted, q')) :
    q.queue.closed = false ∧ q' = { q with queue := { q.queue with queue := q.queue.queue ++ [e] } } := by
  rcases forward_cases h with ⟨_, entered⟩ | ⟨how, _⟩
  · exact entered
  · cases how

theorem accepted_of_forward {e : Error} {how : Putting} {q q' : Reports}
    (hc : q.queue.closed = false) (h : q.forward? e = some (how, q')) : how = .accepted := by
  rcases forward_cases h with ⟨accepted, _⟩ | ⟨_, closed, _⟩
  · exact accepted
  · rw [hc] at closed
    cases closed

theorem receive_error {e : Error} {q q' : Reports} (h : q.receive? = some (some e, q')) :
    ∃ rest, q.queue.queue = e :: rest ∧ q' = { q with queue := { q.queue with queue := rest } } := by
  obtain ⟨queue, done, rfl⟩ := receive_eq_some.mp h
  obtain ⟨rest, first, rfl⟩ := Fifo.receive_item done
  exact ⟨rest, first, rfl⟩

theorem receive_end {q q' : Reports} (h : q.receive? = some (none, q')) :
    q.queue.closed = true ∧ q.queue.queue = [] ∧ q' = q := by
  obtain ⟨queue, done, rfl⟩ := receive_eq_some.mp h
  obtain ⟨closed, empty, rfl⟩ := Fifo.receive_end done
  exact ⟨closed, empty, rfl⟩

/-- An error that is put has entered the channel, or the channel is as it was. -/
theorem put_cases {e : Error} {how : Putting} {q q' : Reports}
    (h : q.put? e = some (how, q')) :
    (how = .accepted ∧ q.forward? e = some (.accepted, q')) ∨ (how ≠ .accepted ∧ q' = q) := by
  cases null : e.isNull with
  | true =>
    simp only [put?, null, ↓reduceIte, Option.some.injEq, Prod.mk.injEq] at h
    obtain ⟨rfl, rfl⟩ := h
    exact .inr ⟨by simp, rfl⟩
  | false =>
    simp only [put?, null, Bool.false_eq_true, ↓reduceIte] at h
    rcases forward_cases h with ⟨rfl, _⟩ | ⟨rfl, _, same⟩
    · exact .inl ⟨rfl, h⟩
    · exact .inr ⟨by simp, same⟩

end Reports

/-- What the writer of a conduit has done with it. -/
structure WriterSide where
  /-- The places whose writes have found their reader. -/
  sent : List (Option Pack) := []
  /-- The place whose write has not ended, with its ticket. -/
  pending : Option (Option Pack × Nat) := none
  /-- The places whose writes have found the channel closed. -/
  lost : List (Option Pack) := []
  /-- The errors that were put. -/
  put : List Error := []
  errorsClosed : Bool := false
  dataClosed : Bool := false

/-- What the reader of a conduit has done with it. -/
structure ReaderSide where
  taken : List (Option Pack) := []
  polled : List Error := []
  /-- Whether it has closed the data channel. -/
  shut : Bool := false
  /-- Whether it has found the end of the data that the writer has set. -/
  ended : Bool := false
  /-- Whether it has found the errors closed and empty. -/
  drained : Bool := false

namespace Conduit

/-- How a conduit stands between its two sides. Only the two of them close it, and a
write is lost only on a reader who has closed the data. -/
structure Links (c : Conduit) (w : WriterSide) (r : ReaderSide) : Prop where
  data : c.data.Between w.sent w.pending r.taken
  closed : c.data.closed = (w.dataClosed || r.shut)
  errors : w.put = r.polled ++ c.errors.queue.queue
  errorsClosed : c.errors.queue.closed = w.errorsClosed
  ended : r.ended = true → w.dataClosed = true ∧ w.lost = []
  lost : w.lost ≠ [] → r.shut = true
  drained : r.drained = true → w.errorsClosed = true ∧ c.errors.queue.queue = []

/-- A fresh conduit lies between two sides that have done nothing. -/
theorem links_fresh {capacity : UInt64} {interval : Int} {c : Conduit}
    (h : Conduit.create capacity interval = .ok c) : c.Links {} {} := by
  unfold Conduit.create Reports.create at h
  split at h
  · cases h
  · cases h
    exact ⟨Handoff.between_fresh, rfl, rfl, rfl, by simp, by simp, by simp⟩

/-- The steps of a writer at its conduit. It puts and writes only what it has not closed. -/
inductive WriterStep (c : Conduit) (w : WriterSide) : Conduit → WriterSide → Prop where
  | idle : WriterStep c w c w
  | place {p t data} (free : w.pending = none) (done : c.data.offer? p = some (.placed t, data)) :
      WriterStep c w { c with data } { w with pending := some (p, t) }
  | refuse {p data} (free : w.pending = none) (open' : w.dataClosed = false)
      (done : c.data.offer? p = some (.refused, data)) :
      WriterStep c w { c with data } { w with lost := w.lost ++ [p] }
  | settle {p t data} (waits : w.pending = some (p, t))
      (done : c.data.settle? t = some (true, data)) :
      WriterStep c w { c with data } { w with pending := none, sent := w.sent ++ [p] }
  | lose {p t data} (waits : w.pending = some (p, t)) (open' : w.dataClosed = false)
      (done : c.data.settle? t = some (false, data)) :
      WriterStep c w { c with data } { w with pending := none, lost := w.lost ++ [p] }
  | put {e errors} (open' : w.errorsClosed = false)
      (done : c.errors.forward? e = some (.accepted, errors)) :
      WriterStep c w { c with errors } { w with put := w.put ++ [e] }
  | closeErrors : WriterStep c w c.closeErrors { w with errorsClosed := true }
  | closeData : WriterStep c w c.closeData { w with dataClosed := true }

/-- The steps of a reader at its conduit. -/
inductive ReaderStep (c : Conduit) (r : ReaderSide) : Conduit → ReaderSide → Prop where
  | idle : ReaderStep c r c r
  | take {p data} (done : c.data.take? = some (some p, data)) :
      ReaderStep c r { c with data } { r with taken := r.taken ++ [p] }
  | meetEnd {data} (open' : r.shut = false) (done : c.data.take? = some (none, data)) :
      ReaderStep c r { c with data } { r with ended := true }
  | shut : ReaderStep c r c.closeData { r with shut := true }
  | poll {e errors} (done : c.errors.receive? = some (some e, errors)) :
      ReaderStep c r { c with errors } { r with polled := r.polled ++ [e] }
  | drained (done : c.errors.isDrained = true) : ReaderStep c r c { r with drained := true }

/-- The steps of a writer fit every reader that the conduit fits. -/
theorem links_writerStep {c c' : Conduit} {w w' : WriterSide} {r : ReaderSide}
    (hl : c.Links w r) (hs : WriterStep c w c' w') : c'.Links w' r := by
  obtain ⟨data, closed, errors, errorsClosed, ended, lost, drained⟩ := hl
  cases hs with
  | idle => exact ⟨data, closed, errors, errorsClosed, ended, lost, drained⟩
  | place free done =>
    rw [free] at data
    obtain ⟨hb, hc⟩ := Handoff.between_place data done
    exact ⟨hb, hc.trans closed, errors, errorsClosed, ended, lost, drained⟩
  | refuse free open' done =>
    obtain ⟨hc, rfl⟩ := Handoff.offer_refused done
    -- the writer has not closed the channel, so the reader has
    have shut : r.shut = true := by simpa [hc, open'] using closed
    exact ⟨data, closed, errors, errorsClosed, fun he => absurd (ended he).1 (by simp [open']),
      fun _ => shut, drained⟩
  | settle waits done =>
    rw [waits] at data
    obtain ⟨rfl, hb⟩ := Handoff.between_settle_taken data done
    exact ⟨hb, closed, errors, errorsClosed, ended, lost, drained⟩
  | lose waits open' done =>
    rw [waits] at data
    obtain ⟨hc, hc', hb⟩ := Handoff.between_settle_lost data done
    have shut : r.shut = true := by simpa [hc, open'] using closed
    exact ⟨hb, by simp [hc', shut], errors, errorsClosed,
      fun he => absurd (ended he).1 (by simp [open']), fun _ => shut, drained⟩
  | put open' done =>
    obtain ⟨_, rfl⟩ := Reports.forward_accepted done
    exact ⟨data, closed, by simp [errors], errorsClosed, ended, lost,
      fun hd => absurd (drained hd).1 (by simp [open'])⟩
  | closeErrors =>
    exact ⟨data, closed, errors, rfl, ended, lost, fun hd => ⟨rfl, (drained hd).2⟩⟩
  | closeData =>
    exact ⟨Handoff.between_close data, rfl, errors, errorsClosed,
      fun he => ⟨rfl, (ended he).2⟩, lost, drained⟩

/-- The steps of a reader fit every writer that the conduit fits. -/
theorem links_readerStep {c c' : Conduit} {w : WriterSide} {r r' : ReaderSide}
    (hl : c.Links w r) (hs : ReaderStep c r c' r') : c'.Links w r' := by
  obtain ⟨data, closed, errors, errorsClosed, ended, lost, drained⟩ := hl
  cases hs with
  | idle => exact ⟨data, closed, errors, errorsClosed, ended, lost, drained⟩
  | take done =>
    obtain ⟨hb, hc⟩ := Handoff.between_take data done
    exact ⟨hb, hc.trans closed, errors, errorsClosed, ended, lost, drained⟩
  | meetEnd open' done =>
    obtain ⟨hc, rfl⟩ := Handoff.take_end done
    have set : w.dataClosed = true := by simpa [hc, open'] using closed
    have kept : w.lost = [] := by
      by_contra hne
      exact absurd (lost hne) (by simp [open'])
    exact ⟨data, closed, errors, errorsClosed, fun _ => ⟨set, kept⟩, lost, drained⟩
  | shut =>
    exact ⟨Handoff.between_close data, by simp [closeData, Handoff.close], errors, errorsClosed,
      ended, fun _ => rfl, drained⟩
  | poll done =>
    obtain ⟨rest, hq, rfl⟩ := Reports.receive_error done
    exact ⟨data, closed, by simp [errors, hq], errorsClosed, ended, lost,
      fun hd => absurd (drained hd).2 (by simp [hq])⟩
  | drained done =>
    have hd : c.errors.queue.closed = true ∧ c.errors.queue.queue = [] := by
      simpa [Reports.isDrained, Fifo.isDrained] using done
    exact ⟨data, closed, errors, errorsClosed, ended, lost, fun _ => ⟨errorsClosed ▸ hd.1, hd.2⟩⟩

theorem capacity_writerStep {c c' : Conduit} {w w' : WriterSide} (hs : WriterStep c w c' w') :
    c'.errors.capacity = c.errors.capacity := by
  cases hs with
  | put _ done => rw [(Reports.forward_accepted done).2]; rfl
  | _ => rfl

theorem capacity_readerStep {c c' : Conduit} {r r' : ReaderSide} (hs : ReaderStep c r c' r') :
    c'.errors.capacity = c.errors.capacity := by
  cases hs with
  | poll done => obtain ⟨_, _, rfl⟩ := Reports.receive_error done; rfl
  | _ => rfl

/-! ## A writer that closes at any moment -/

/-- What is left of the fit of a conduit with its two sides when its writer closes it at any
moment: what was taken comes from what was written, and what was polled from what was put. -/
structure Feeds (c : Conduit) (w : WriterSide) (r : ReaderSide) : Prop where
  data : c.data.Between w.sent w.pending r.taken
  errors : w.put = r.polled ++ c.errors.queue.queue
  drained : r.drained = true → c.errors.isDrained = true

theorem feeds_fresh {capacity : UInt64} {interval : Int} {c : Conduit}
    (h : Conduit.create capacity interval = .ok c) : c.Feeds {} {} := by
  have links := links_fresh h
  exact ⟨links.data, links.errors, by simp⟩

theorem feeds_writerStep {c c' : Conduit} {w w' : WriterSide} {r : ReaderSide}
    (hf : c.Feeds w r) (hs : WriterStep c w c' w') : c'.Feeds w' r := by
  obtain ⟨data, errors, drained⟩ := hf
  cases hs with
  | idle => exact ⟨data, errors, drained⟩
  | place free done =>
    rw [free] at data
    exact ⟨(Handoff.between_place data done).1, errors, drained⟩
  | refuse free open' done =>
    obtain ⟨_, rfl⟩ := Handoff.offer_refused done
    exact ⟨data, errors, drained⟩
  | settle waits done =>
    rw [waits] at data
    obtain ⟨rfl, hb⟩ := Handoff.between_settle_taken data done
    exact ⟨hb, errors, drained⟩
  | lose waits open' done =>
    rw [waits] at data
    exact ⟨(Handoff.between_settle_lost data done).2.2, errors, drained⟩
  | put _ done =>
    obtain ⟨open', rfl⟩ := Reports.forward_accepted done
    refine ⟨data, by simp [errors], fun hd => ?_⟩
    -- nothing enters the errors after they were found closed
    have closed := drained hd
    simp [Reports.isDrained, Fifo.isDrained, open'] at closed
  | closeErrors =>
    refine ⟨data, errors, fun hd => ?_⟩
    have closed := drained hd
    simp only [Reports.isDrained, Fifo.isDrained, Bool.and_eq_true] at closed
    simpa [closeErrors, Reports.close, Fifo.close, Reports.isDrained, Fifo.isDrained] using closed.2
  | closeData => exact ⟨Handoff.between_close data, errors, drained⟩

theorem feeds_readerStep {c c' : Conduit} {w : WriterSide} {r r' : ReaderSide}
    (hf : c.Feeds w r) (hs : ReaderStep c r c' r') : c'.Feeds w r' := by
  obtain ⟨data, errors, drained⟩ := hf
  cases hs with
  | idle => exact ⟨data, errors, drained⟩
  | take done => exact ⟨(Handoff.between_take data done).1, errors, drained⟩
  | meetEnd open' done =>
    obtain ⟨_, rfl⟩ := Handoff.take_end done
    exact ⟨data, errors, drained⟩
  | shut => exact ⟨Handoff.between_close data, errors, drained⟩
  | poll done =>
    obtain ⟨rest, hq, rfl⟩ := Reports.receive_error done
    refine ⟨data, by simp [errors, hq], fun hd => ?_⟩
    have empty := drained hd
    simp [Reports.isDrained, Fifo.isDrained, hq] at empty
  | drained done => exact ⟨data, errors, fun _ => done⟩

end Conduit
end StagedPipeline
