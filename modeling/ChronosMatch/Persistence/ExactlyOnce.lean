import ChronosMatch.Persistence.Accounting
import ChronosMatch.Persistence.Repository

/-!
# Retries store a trade once

A save that raises may have stored its batch all the same, and the retry replays the batch over it. The
table is always the first occurrences of what was saved followed by what such a save stored of the
batches not yet saved, and replaying absorbs the latter.
-/

namespace ChronosMatch

open FirstOccurrence

/-! ### A save and the table -/

theorem saveEvents_eq (call : SaveCall) {batch : List TradeEvent} (hbatch : batch ≠ []) (r : SQLiteTradeRepository) :
    ∃ rows, rows.map TradeRecord.content = batch.map TradeEvent.content ∧ saveEvents call batch r =
      SQLiteTradeRepository.saveAttempts rows call.attempts r.maxRetries 0 r := by
  rw [saveEvents, SQLiteTradeRepository.saveTradesBatch, if_neg (by simpa using hbatch)]
  refine ⟨_, ?_, rfl⟩
  apply List.ext_getElem
  · simp
  · intro n hn hn'
    simp [TradeRecord.content, TradeEvent.content, TradeEvent.toRecord, TradeRecord.postInit]

theorem saveEvents_effect (call : SaveCall) (batch : List TradeEvent) (r : SQLiteTradeRepository) :
    ∃ rows, rows.map TradeRecord.content = batch.map TradeEvent.content ∧
      SQLiteTradeRepository.SaveEffect r rows (saveEvents call batch r).1 (saveEvents call batch r).2 := by
  by_cases hbatch : batch = []
  · rw [hbatch]
    exact ⟨[], rfl, .returned rfl rfl⟩
  · obtain ⟨rows, hrows, hsave⟩ := saveEvents_eq call hbatch r
    rw [hsave]
    exact ⟨rows, hrows, SQLiteTradeRepository.saveAttempts_effect _ _ _ _ _⟩

theorem contents_saveEvents {call : SaveCall} {batch : List TradeEvent} {r r' : SQLiteTradeRepository}
    {result : Option (Nat × Nat)} (hsave : saveEvents call batch r = (result, r'))
    (hstorable : ∀ ev ∈ batch, ev.Storable) :
    (result = none ∧ r'.contents = r.contents) ∨
      r'.contents = absorb TradeRecord.tradeId r.contents (batch.map TradeEvent.content) := by
  obtain ⟨rows, hrows, heffect⟩ := saveEvents_effect call batch r
  have hstored : (r.insertAll rows).contents =
      absorb TradeRecord.tradeId r.contents (batch.map TradeEvent.content) :=
    SQLiteTradeRepository.contents_insertAll hrows hstorable r
  rw [hsave] at heffect
  cases heffect with
  | raised htable => exact .inl ⟨rfl, by rw [SQLiteTradeRepository.contents, htable]; rfl⟩
  | raisedAfterStoring htable =>
      refine .inr ?_
      rw [← hstored, SQLiteTradeRepository.contents, htable]
      rfl
  | returned htable hcount =>
      refine .inr ?_
      rw [← hstored, SQLiteTradeRepository.contents, htable]
      rfl

/-! ### The ledger under the thread -/

/-- The table holds the first occurrences of what was saved and of some beginning of what was not. -/
structure Ledgered (pc : Pc TradeEvent) (s : Shared SQLiteTradeRepository TradeEvent) : Prop where
  storable : ∀ ev ∈ s.journal.popped ++ s.queue.queue, ev.Storable
  stored : ∃ early, early <+: s.journal.abandoned ++ inHand pc s ∧ s.repository.contents =
    firsts TradeRecord.tradeId ((s.journal.saved.flatten ++ early).map TradeEvent.content)
  counted : s.worker.metrics.tradesPersisted + s.worker.metrics.duplicateCount = s.worker.metrics.tradesReceived

/-- A save of the whole batch leaves no trace of an earlier save of its beginning. -/
theorem absorb_contents {saved early hand : List TradeEvent} (hearly : early <+: hand) :
    absorb TradeRecord.tradeId (firsts TradeRecord.tradeId ((saved ++ early).map TradeEvent.content))
        (hand.map TradeEvent.content) =
      firsts TradeRecord.tradeId ((saved ++ hand).map TradeEvent.content) := by
  obtain ⟨late, rfl⟩ := hearly
  simp only [List.map_append]
  exact absorb_replay TradeRecord.tradeId _ _ _

theorem Accounted.hand_subset {ρ ε : Type} {pc : Pc ε} {s : Shared ρ ε} (h : Accounted pc s) :
    inHand pc s ⊆ s.journal.popped := by
  rw [h.popped]
  exact List.subset_append_right _ _

theorem ThreadEffect.reported {move : Move SaveCall} {pc pc' : Pc TradeEvent}
    {s s' : Shared SQLiteTradeRepository TradeEvent} (heffect : ThreadEffect saveEvents move pc s pc' s')
    (h : s.worker.metrics.tradesPersisted + s.worker.metrics.duplicateCount = s.worker.metrics.tradesReceived) :
    s'.worker.metrics.tradesPersisted + s'.worker.metrics.duplicateCount = s'.worker.metrics.tradesReceived := by
  cases heffect.onRepository with
  | untouched hrepository hsaved hreceived hpersisted hduplicates => omega
  | raised call hmove hnone hsave hsaved hreceived hpersisted hduplicates => omega
  | returned call hmove hnone inserted duplicates hsave hsaved hreceived hpersisted hduplicates =>
      obtain ⟨rows, hrows, hreturned⟩ := saveEvents_effect call (inHand pc s) s.repository
      rw [hsave] at hreturned
      have hlength := congrArg List.length hrows
      rw [List.length_map, List.length_map] at hlength
      cases hreturned with
      | returned htable hcount => omega

theorem Ledgered.step {move : Move SaveCall} {pc pc' : Pc TradeEvent} {s s' : Shared SQLiteTradeRepository TradeEvent}
    (heffect : ThreadEffect saveEvents move pc s pc' s') (haccount : Accounted pc s) (h : Ledgered pc s) :
    Ledgered pc' s' := by
  obtain ⟨hstorable, ⟨early, hearly, hcontents⟩, hcounted⟩ := h
  have hhandStorable : ∀ ev ∈ inHand pc s, ev.Storable := fun ev hev =>
    hstorable ev (List.mem_append_left _ (haccount.hand_subset hev))
  refine ⟨by rwa [heffect.popped_queue], ?_, heffect.reported hcounted⟩
  cases heffect with
  | quiet hqueue hjournal hrepository hcounts hhand =>
      refine ⟨early, ?_, ?_⟩
      · rw [hjournal, hhand]
        exact hearly
      · rw [hrepository, hjournal]
        exact hcontents
  | took batch hpop hempty hjournal hrepository hcounts hhand =>
      refine ⟨early, ?_, ?_⟩
      · rw [hempty, List.append_nil] at hearly
        rw [hjournal]
        exact hearly.trans (List.prefix_append _ _)
      · rw [hrepository, hjournal]
        exact hcontents
  | discarded batch hpop hempty hjournal hrepository hcounts hhand =>
      refine ⟨early, ?_, ?_⟩
      · rw [hempty, List.append_nil] at hearly
        rw [hjournal, hhand, List.append_nil]
        exact hearly.trans (List.prefix_append _ _)
      · rw [hrepository, hjournal]
        exact hcontents
  | saved hqueue outcome hmove inserted duplicates hnone hsave hjournal hcounts hhand =>
      rw [hnone, List.nil_append] at hearly
      obtain ⟨hraised, -⟩ | habsorbed := contents_saveEvents hsave hhandStorable
      · cases hraised
      · refine ⟨[], List.nil_prefix, ?_⟩
        rw [habsorbed, hcontents, absorb_contents hearly, hjournal, List.flatten_concat, List.append_nil]
  | failed hqueue outcome hmove hnone hsave hjournal hcounts hhand =>
      rw [hnone, List.nil_append] at hearly
      obtain ⟨-, hsame⟩ | habsorbed := contents_saveEvents hsave hhandStorable
      · exact ⟨early, by rwa [hjournal, hnone, hhand], by rw [hsame, hjournal, hcontents]⟩
      · refine ⟨inHand pc s, ?_, ?_⟩
        · simp only [hjournal, hnone, hhand, List.nil_append, List.prefix_rfl]
        · rw [habsorbed, hcontents, absorb_contents hearly, hjournal]
  | gaveUp hqueue outcome hmove hnone hsave hjournal hcounts hhand =>
      rw [hnone, List.nil_append] at hearly
      obtain ⟨-, hsame⟩ | habsorbed := contents_saveEvents hsave hhandStorable
      · exact ⟨early, by rwa [hjournal, hhand, List.append_nil], by rw [hsame, hjournal, hcontents]⟩
      · refine ⟨inHand pc s, ?_, ?_⟩
        · simp only [hjournal, hhand, List.append_nil, List.prefix_rfl]
        · rw [habsorbed, hcontents, absorb_contents hearly, hjournal]

/-! ### Runs -/

/-- The account of the worker together with the ledger. -/
structure ExactlyOnceInvariant (st : Pc TradeEvent × Shared SQLiteTradeRepository TradeEvent) : Prop where
  worker : WorkerInvariant st
  ledger : Ledgered st.1 st.2

/-- Only storable trades are pushed. -/
def WorkerAction.PushesStorable : WorkerAction TradeEvent SaveCall → Prop
  | .push event => event.Storable
  | _ => True

theorem TradeEventQueue.mem_push {ε : Type} {event ev : ε} {q : TradeEventQueue ε}
    (h : ev ∈ (q.push event).2.queue) : ev ∈ q.queue ∨ ev = event := by
  have happend : ∀ rest ⊆ q.queue, ev ∈ rest ++ [event] → ev ∈ q.queue ∨ ev = event := by
    intro rest hrest hev
    rcases List.mem_append.mp hev with hold | hnew
    · exact .inl (hrest hold)
    · exact .inr (List.mem_singleton.mp hnew)
  have heffect := q.push_effect event
  rcases hpush : q.push event with ⟨result, q'⟩
  rw [hpush] at heffect h
  cases heffect with
  | closed hclosed => exact .inl h
  | refused hopen hfull hpolicy => exact .inl h
  | evicted hopen hfull hpolicy oldest rest hqueue =>
      exact happend rest (by rw [hqueue]; exact List.subset_cons_self _ _) h
  | accepted hopen hroom => exact happend q.queue (List.Subset.refl _) h

theorem Ledgered.push {pc : Pc TradeEvent} {s : Shared SQLiteTradeRepository TradeEvent} (h : Ledgered pc s)
    {event : TradeEvent} (hevent : event.Storable) :
    Ledgered pc { s with queue := (s.queue.push event).2 } := by
  refine ⟨?_, ?_, h.counted⟩
  · intro ev hev
    rcases List.mem_append.mp hev with hpopped | hqueued
    · exact h.storable ev (List.mem_append_left _ hpopped)
    · rcases TradeEventQueue.mem_push hqueued with hold | rfl
      · exact h.storable ev (List.mem_append_right _ hold)
      · exact hevent
  · have hhand := inHand_surroundings pc s (s.queue.push event).2 s.worker.stopEvent
    obtain ⟨early, hearly, hcontents⟩ := h.stored
    exact ⟨early, hhand ▸ hearly, hcontents⟩

theorem Ledgered.signalStop {pc : Pc TradeEvent} {s : Shared SQLiteTradeRepository TradeEvent}
    (h : Ledgered pc s) : Ledgered pc s.signalStop := by
  refine ⟨h.storable, ?_, h.counted⟩
  have hhand := inHand_surroundings pc s s.queue true
  obtain ⟨early, hearly, hcontents⟩ := h.stored
  exact ⟨early, hhand ▸ hearly, hcontents⟩

theorem ExactlyOnceInvariant.step {action : WorkerAction TradeEvent SaveCall}
    {st st' : Pc TradeEvent × Shared SQLiteTradeRepository TradeEvent} (hpush : action.PushesStorable)
    (hstep : action.step saveEvents st = some st') (h : ExactlyOnceInvariant st) : ExactlyOnceInvariant st' := by
  refine ⟨h.worker.step hstep, ?_⟩
  cases action with
  | thread move => exact h.ledger.step (h.worker.control.effect hstep) h.worker.account
  | push event =>
      cases hstep
      exact h.ledger.push hpush
  | stop =>
      cases hstep
      exact h.ledger.signalStop

theorem ExactlyOnceInvariant.started (batchSize shutdownRetryAttempts maxRetries : Int)
    {queue : TradeEventQueue TradeEvent} (hqueue : ∀ ev ∈ queue.queue, ev.Storable) :
    ExactlyOnceInvariant (started (.create batchSize shutdownRetryAttempts) queue (.create maxRetries)) := by
  refine ⟨.started _ _ _ _, ?_, ⟨[], List.nil_prefix, rfl⟩, rfl⟩
  exact hqueue

/-- The table of a ledger has the first occurrence of every trade saved, and of nothing but trades popped. -/
theorem Ledgered.records {pc : Pc TradeEvent} {s : Shared SQLiteTradeRepository TradeEvent} (h : Ledgered pc s)
    (haccount : Accounted pc s) : s.repository.contents <+:
        firsts TradeRecord.tradeId (s.journal.popped.map TradeEvent.content) ∧
      ∀ ev ∈ s.journal.saved.flatten, ∃ first, s.journal.popped.find? (fun ev' => ev'.tradeId = ev.tradeId) =
        some first ∧ first.content ∈ s.repository.contents := by
  obtain ⟨early, ⟨late, hearly⟩, hcontents⟩ := h.stored
  have hpopped : s.journal.popped = (s.journal.saved.flatten ++ early) ++ late := by
    rw [haccount.popped, List.append_assoc, ← hearly, List.append_assoc]
  constructor
  · have hextends : s.journal.saved.flatten ++ early <+: s.journal.popped := ⟨late, hpopped.symm⟩
    rw [hcontents]
    exact firsts_prefix _ (hextends.map _)
  · intro ev hev
    have hfound : ((s.journal.saved.flatten ++ early).find? fun ev' => ev'.tradeId = ev.tradeId).isSome := by
      rw [List.find?_isSome]
      exact ⟨ev, List.mem_append_left _ hev, decide_eq_true rfl⟩
    obtain ⟨first, hfirst⟩ := Option.isSome_iff_exists.mp hfound
    refine ⟨first, ?_, ?_⟩
    · rw [hpopped, List.find?_append, hfirst, Option.some_or]
    · have hkey := find?_firsts TradeRecord.tradeId ((s.journal.saved.flatten ++ early).map TradeEvent.content)
        ev.tradeId
      rw [List.find?_map] at hkey
      refine List.mem_of_find?_eq_some (p := fun row => row.tradeId = ev.tradeId) ?_
      rw [hcontents, hkey]
      exact congrArg (Option.map TradeEvent.content) hfirst

/-- At every point of a run the ids in the table are distinct, its rows are first occurrences of popped
trades in the order of popping, every trade popped that is not in hand or abandoned is there as its first
occurrence, and the counters agree. -/
theorem worker_run_exactlyOnce (batchSize shutdownRetryAttempts maxRetries : Int)
    (queue : TradeEventQueue TradeEvent) (hqueue : ∀ ev ∈ queue.queue, ev.Storable)
    (actions : List (WorkerAction TradeEvent SaveCall)) (hpushes : ∀ action ∈ actions, action.PushesStorable)
    (pc : Pc TradeEvent) (s : Shared SQLiteTradeRepository TradeEvent)
    (hrun : Transition.run (WorkerAction.step saveEvents) actions
      (started (.create batchSize shutdownRetryAttempts) queue (.create maxRetries)) = some (pc, s)) :
    (s.repository.table.map TradeRecord.tradeId).Nodup ∧
      s.repository.contents.Sublist (firsts TradeRecord.tradeId (s.journal.popped.map TradeEvent.content)) ∧
      (∃ settled, s.journal.popped = settled ++ s.journal.abandoned ++ inHand pc s ∧
        ∀ ev ∈ settled, ∃ first, s.journal.popped.find? (fun ev' => ev'.tradeId = ev.tradeId) = some first ∧
          first.content ∈ s.repository.contents) ∧
      s.worker.metrics.tradesPersisted + s.worker.metrics.duplicateCount = s.worker.metrics.tradesReceived := by
  obtain ⟨⟨-, haccount⟩, hledger⟩ :=
    Transition.invariant_throughout ExactlyOnceInvariant.step hrun (.of_forall hpushes _) (.started _ _ _ hqueue)
  obtain ⟨hextends, hsettled⟩ := hledger.records haccount
  refine ⟨?_, hextends.sublist, ⟨s.journal.saved.flatten, haccount.popped, hsettled⟩, hledger.counted⟩
  obtain ⟨early, -, hcontents⟩ := hledger.stored
  have hids : s.repository.table.map TradeRecord.tradeId = s.repository.contents.map TradeRecord.tradeId := by
    rw [SQLiteTradeRepository.contents, List.map_map]
    rfl
  rw [hids, hcontents]
  exact nodup_firsts _ _

/-- A trade of 5 at 100. -/
def sampleTrade (tradeId : String) : TradeEvent where
  tradeId
  buyOrderId := 1
  sellOrderId := 2
  price := Binary64.ofInt 100
  quantity := 5
  notional := Binary64.ofInt 500
  timestampNs := 7

/-- A batch that repeats an id is stored by a save that raises, and retried. -/
def storedThenRetried : List (WorkerAction TradeEvent SaveCall) :=
  [.push (sampleTrade "T1"), .push (sampleTrade "T1"), .push (sampleTrade "T2"), .thread .go, .thread .go,
    .thread (.save ⟨fun _ => ("a", "b"), "n", fun _ => .fails false true 0⟩), .thread .go,
    .thread (.wait false), .thread (.save ⟨fun _ => ("c", "d"), "n", fun _ => .commits⟩)]

theorem worker_run_exactlyOnce_storedThenRetried :
    ∃ s, Transition.run (WorkerAction.step saveEvents) storedThenRetried
        (started (.create 3 2) (.create 10 .dropOldest) (.create 3)) = some (.loopTop, s) ∧
      s.worker.metrics.duplicateCount = 3 ∧ (s.repository.table.map TradeRecord.tradeId).Nodup ∧
      s.repository.contents.Sublist (firsts TradeRecord.tradeId (s.journal.popped.map TradeEvent.content)) ∧
      (∃ settled, s.journal.popped = settled ++ s.journal.abandoned ++ inHand .loopTop s ∧
        ∀ ev ∈ settled, ∃ first, s.journal.popped.find? (fun ev' => ev'.tradeId = ev.tradeId) = some first ∧
          first.content ∈ s.repository.contents) ∧
      s.worker.metrics.tradesPersisted + s.worker.metrics.duplicateCount = s.worker.metrics.tradesReceived := by
  refine ⟨_, rfl, rfl, worker_run_exactlyOnce 3 2 3 (.create 10 .dropOldest) ?_ storedThenRetried ?_ .loopTop _ rfl⟩
  · exact fun ev hev => by cases hev
  · intro action haction
    simp only [storedThenRetried, List.mem_cons, List.not_mem_nil, or_false] at haction
    rcases haction with rfl | rfl | rfl | rfl | rfl | rfl | rfl | rfl | rfl
    all_goals first | exact trivial | exact ⟨by decide, by decide⟩

end ChronosMatch
