import ChronosMatch.Monitor.Handoff
import ChronosMatch.Persistence.Rollback

/-!
# From the engine to the ledger

A monitor with its queue, its worker and its database. The caller makes calls and then shuts down; each
trade that a call hands over is pushed by a step of its own, between which the worker runs. Every trade of
the engine's log ends in the table, in the drop count of the queue, or among the abandoned, unless the call
that matched it raised and no later one returned.
-/

namespace ChronosMatch

/-- `get_matching_engine` -/
def getMatchingEngine (hasCythonEngine : Bool) : Engine :=
  if hasCythonEngine then .compiled .empty else .reference .empty

theorem getTrades_getMatchingEngine (hasCythonEngine : Bool) : (getMatchingEngine hasCythonEngine).getTrades = [] := by
  cases hasCythonEngine <;> rfl

/-- `outbox` are the trades that the call in progress has still to push. `interrupted` says that a call has
raised after its orders were matched, and none has returned since. -/
structure MonitorSystem where
  monitor : LatencyMonitor
  outbox : List TradeDict := []
  pc : Pc TradeEvent
  shared : Shared SQLiteTradeRepository TradeEvent
  interrupted : Bool := false

inductive MonitorAction
  | call (made : MonitorCall)
  | push (now : Int)
  | worker (move : Move SaveCall)
  | shutdown

namespace MonitorSystem

/-- A monitor with persistence on a fresh database, as `_init_persistence` sets it up. -/
def created (hasCythonEngine relative : Bool) (whaleThreshold sweepMinLevels queueCapacity : Int)
    (rollingWindow : Nat) : MonitorSystem :=
  let (pc, shared) := started (.create 100 3) (.create queueCapacity .dropOldest) (.create 3)
  { monitor := { engine := getMatchingEngine hasCythonEngine, whaleThreshold, relative, sweepMinLevels, rollingWindow }
    pc
    shared }

end MonitorSystem

/-- Calls are made one at a time and before the shutdown. -/
def MonitorAction.step : MonitorAction → MonitorSystem → Option MonitorSystem
  | .call made, s =>
      if s.outbox ≠ [] ∨ s.shared.worker.stopEvent then none
      else
        let (raised, pushed, monitor) := made.perform s.monitor
        let matched := decide (s.monitor.engine.getTrades.length < monitor.engine.getTrades.length)
        some { s with
          monitor
          outbox := pushed
          interrupted := raised.isSome && (s.interrupted || matched) }
  | .push now, s =>
      match s.outbox with
      | [] => none
      | trade :: outbox =>
          let queue := (s.shared.queue.pushDict (TradeEvent.fromEngineDict now) trade).2
          some { s with outbox, shared := { s.shared with queue } }
  | .worker move, s => do
      let (pc, shared) ← Thread.step saveEvents move (s.pc, s.shared)
      some { s with pc, shared }
  | .shutdown, s => if s.outbox ≠ [] then none else some { s with shared := s.shared.signalStop }

/-- A step of the system, with what it has found. -/
inductive MonitorStep (s : MonitorSystem) : MonitorAction → MonitorSystem → Prop
  | call (made : MonitorCall) (houtbox : s.outbox = []) (hrunning : s.shared.worker.stopEvent = false) :
      MonitorStep s (.call made) { s with
        monitor := (made.perform s.monitor).2.2
        outbox := (made.perform s.monitor).2.1
        interrupted := (made.perform s.monitor).1.isSome && (s.interrupted ||
          decide (s.monitor.engine.getTrades.length < (made.perform s.monitor).2.2.engine.getTrades.length)) }
  | push (now : Int) (trade : TradeDict) (outbox : List TradeDict) (houtbox : s.outbox = trade :: outbox) :
      MonitorStep s (.push now) { s with
        outbox
        shared := { s.shared with
          queue := (s.shared.queue.pushDict (TradeEvent.fromEngineDict now) trade).2 } }
  | worker (move : Move SaveCall) (pc : Pc TradeEvent) (shared : Shared SQLiteTradeRepository TradeEvent)
      (hthread : Thread.step saveEvents move (s.pc, s.shared) = some (pc, shared)) :
      MonitorStep s (.worker move) { s with pc, shared }
  | shutdown (houtbox : s.outbox = []) : MonitorStep s .shutdown { s with shared := s.shared.signalStop }

theorem MonitorAction.step_cases {action : MonitorAction} {s s' : MonitorSystem} (hstep : action.step s = some s') :
    MonitorStep s action s' := by
  cases action with
  | call made =>
      rw [MonitorAction.step] at hstep
      split at hstep
      · cases hstep
      · next hidle =>
          cases hstep
          obtain ⟨houtbox, hrunning⟩ := not_or.mp hidle
          exact .call made (not_not.mp houtbox) (Bool.not_eq_true _ ▸ hrunning)
  | push now =>
      rw [MonitorAction.step] at hstep
      split at hstep
      · cases hstep
      · next trade outbox houtbox =>
          cases hstep
          exact .push now trade outbox houtbox
  | worker move =>
      obtain ⟨⟨pc, shared⟩, hthread, hstep⟩ := Option.bind_eq_some_iff.mp hstep
      cases hstep
      exact .worker move pc shared hthread
  | shutdown =>
      rw [MonitorAction.step] at hstep
      split at hstep
      · cases hstep
      · next houtbox =>
          cases hstep
          exact .shutdown (not_not.mp houtbox)

/-! ### What has been handed over -/

/-- The events made of the trades handed over, each with the reading of the clock at its push. -/
def handedEvents (handed : List (Int × TradeDict)) : List TradeEvent :=
  handed.mapIdx fun i trade => TradeEvent.fromEngineDict trade.1 trade.2 (i + 1)

/-- A row or an event as the engine shows its trade. -/
def TradeEvent.toDict (ev : TradeEvent) : TradeDict := ⟨ev.buyOrderId, ev.sellOrderId, ev.price, ev.quantity⟩

def TradeRecord.toDict (row : TradeRecord) : TradeDict := ⟨row.buyOrderId, row.sellOrderId, row.price, row.quantity⟩

theorem handedEvents_concat (handed : List (Int × TradeDict)) (trade : Int × TradeDict) :
    handedEvents (handed ++ [trade]) =
      handedEvents handed ++ [TradeEvent.fromEngineDict trade.1 trade.2 (handed.length + 1)] :=
  List.mapIdx_concat

theorem length_handedEvents (handed : List (Int × TradeDict)) : (handedEvents handed).length = handed.length :=
  List.length_mapIdx

theorem toDict_handedEvents (handed : List (Int × TradeDict)) :
    (handedEvents handed).map TradeEvent.toDict = handed.map Prod.snd := by
  apply List.ext_getElem
  · simp [handedEvents]
  · intro n hn hn'
    simp [handedEvents, TradeEvent.toDict, TradeEvent.fromEngineDict]

theorem mem_handedEvents {handed : List (Int × TradeDict)} {ev : TradeEvent} (h : ev ∈ handedEvents handed) :
    ∃ now d k, d ∈ handed.map Prod.snd ∧ 1 ≤ k ∧ k ≤ handed.length ∧ ev = TradeEvent.fromEngineDict now d k := by
  obtain ⟨i, hi, rfl⟩ := List.mem_mapIdx.mp h
  exact ⟨handed[i].1, handed[i].2, i + 1, List.mem_map_of_mem (List.getElem_mem hi), by omega, by omega, rfl⟩

theorem nodup_handedEvents (handed : List (Int × TradeDict)) :
    ((handedEvents handed).map TradeEvent.tradeId).Nodup := by
  induction handed using List.reverseRecOn with
  | nil => exact List.nodup_nil
  | append_singleton handed trade ih =>
      rw [handedEvents_concat, List.map_append, List.map_singleton, List.nodup_append]
      refine ⟨ih, List.nodup_singleton _, ?_⟩
      intro id hid id' hid'
      rw [List.mem_singleton.mp hid']
      rintro rfl
      obtain ⟨ev, hev, heq⟩ := List.mem_map.mp hid
      obtain ⟨now, d, k, -, -, hk, rfl⟩ := mem_handedEvents hev
      have := TradeEvent.tradeId_injective heq
      omega

/-! ### The invariant -/

/-- What has been handed over is the log up to the index but for the outbox; what was dropped of it is
counted, and the rest is popped or queued, in order. -/
structure HandedOver (s : MonitorSystem) (handed : List (Int × TradeDict)) : Prop where
  dicts : handed.map Prod.snd ++ s.outbox = s.monitor.engine.getTrades.take s.monitor.lastProcessedTradeIdx
  sequence : s.shared.queue.sequence = handed.length
  kept : (s.shared.journal.popped ++ s.shared.queue.queue).Sublist (handedEvents handed)
  dropped : handed.length =
    (s.shared.journal.popped ++ s.shared.queue.queue).length + s.shared.queue.droppedCount

/-- What the calls keep of the monitor. -/
structure Synced (s : MonitorSystem) : Prop where
  sound : s.monitor.engine.Sound
  persistence : s.monitor.enablePersistence = true
  index : s.monitor.lastProcessedTradeIdx ≤ s.monitor.engine.getTrades.length
  synced : s.interrupted = false → s.monitor.lastProcessedTradeIdx = s.monitor.engine.getTrades.length

/-- How the shutdown goes. -/
structure ShuttingDown (s : MonitorSystem) : Prop where
  draining : s.pc.draining → s.shared.worker.stopEvent = true
  stopped : s.shared.worker.stopEvent = true → s.outbox = []
  exited : s.pc = .exited → s.shared.queue.queue = []

structure LedgerInvariant (s : MonitorSystem) : Prop where
  worker : WorkerInvariant (s.pc, s.shared)
  verbatim : Verbatim s.shared
  handed : ∃ handed, HandedOver s handed
  queueOpen : s.shared.queue.backpressure = .dropOldest ∧ s.shared.queue.closed = false
  monitor : Synced s
  shutdown : ShuttingDown s

theorem HandedOver.storable {s : MonitorSystem} {handed : List (Int × TradeDict)} (h : HandedOver s handed)
    (hsound : s.monitor.engine.Sound) : ∀ ev ∈ s.shared.journal.popped, ev.Storable := by
  intro ev hev
  obtain ⟨now, d, k, hd, -, -, rfl⟩ := mem_handedEvents (h.kept.subset (List.mem_append_left _ hev))
  have hlog : d ∈ s.monitor.engine.getTrades := by
    refine List.mem_of_mem_take (i := s.monitor.lastProcessedTradeIdx) ?_
    rw [← h.dicts]
    exact List.mem_append_left _ hd
  exact (hsound.getTrades d hlog).fromEngineDict now k

theorem HandedOver.nodup_popped {s : MonitorSystem} {handed : List (Int × TradeDict)} (h : HandedOver s handed) :
    (s.shared.journal.popped.map TradeEvent.tradeId).Nodup :=
  (nodup_handedEvents handed).sublist (((List.sublist_append_left _ _).trans h.kept).map _)

/-! ### Calls -/

theorem HandedOver.call {s : MonitorSystem} {handed : List (Int × TradeDict)} (h : HandedOver s handed)
    (hmonitor : Synced s) (houtbox : s.outbox = []) {made : MonitorCall} {raised : Option PyError}
    {pushed : List TradeDict} {monitor : LatencyMonitor} (heffect : CallEffect made s.monitor raised pushed monitor)
    (interrupted : Bool) : HandedOver { s with monitor, outbox := pushed, interrupted } handed := by
  have hdicts := h.dicts
  rw [houtbox, List.append_nil] at hdicts
  refine ⟨?_, h.sequence, h.kept, h.dropped⟩
  show handed.map Prod.snd ++ pushed = monitor.engine.getTrades.take monitor.lastProcessedTradeIdx
  rw [hdicts]
  exact heffect.handed hmonitor.persistence hmonitor.index

theorem Synced.call {s : MonitorSystem} (h : Synced s) {made : MonitorCall} (hbounded : made.Bounded)
    {raised : Option PyError} {pushed : List TradeDict} {monitor : LatencyMonitor}
    (heffect : CallEffect made s.monitor raised pushed monitor) : Synced { s with
      monitor
      outbox := pushed
      interrupted := raised.isSome && (s.interrupted ||
        decide (s.monitor.engine.getTrades.length < monitor.engine.getTrades.length)) } := by
  have hlength := heffect.log.length_le
  refine ⟨heffect.sound hbounded h.sound, heffect.persistence.trans h.persistence, heffect.index_le h.index, ?_⟩
  intro hnot
  show monitor.lastProcessedTradeIdx = monitor.engine.getTrades.length
  by_cases hraised : raised = none
  · exact (heffect.returned hraised).2
  · -- the call raised, but its orders matched nothing
    have hsome : raised.isSome = true := Option.isSome_iff_ne_none.mpr hraised
    simp only [hsome, Bool.true_and, Bool.or_eq_false_iff, decide_eq_false_iff_not] at hnot
    rw [(heffect.interrupted hraised).2, h.synced hnot.1]
    omega

theorem LedgerInvariant.call {s : MonitorSystem} (h : LedgerInvariant s) (houtbox : s.outbox = [])
    (hrunning : s.shared.worker.stopEvent = false) {made : MonitorCall} (hbounded : made.Bounded)
    {raised : Option PyError} {pushed : List TradeDict} {monitor : LatencyMonitor}
    (heffect : CallEffect made s.monitor raised pushed monitor) : LedgerInvariant { s with
      monitor
      outbox := pushed
      interrupted := raised.isSome && (s.interrupted ||
        decide (s.monitor.engine.getTrades.length < monitor.engine.getTrades.length)) } := by
  obtain ⟨handed, hhanded⟩ := h.handed
  refine ⟨h.worker, h.verbatim, ⟨handed, hhanded.call h.monitor houtbox heffect _⟩, h.queueOpen,
    h.monitor.call hbounded heffect, ⟨h.shutdown.draining, ?_, h.shutdown.exited⟩⟩
  intro hstop
  have hstop' : s.shared.worker.stopEvent = true := hstop
  rw [hrunning] at hstop'
  cases hstop'

/-! ### Pushes -/

/-- A push to a queue that drops its oldest event takes the new one and counts what it drops. -/
theorem TradeEventQueue.push_dropOldest {ε : Type} (event : ε) {q : TradeEventQueue ε}
    (hpolicy : q.backpressure = .dropOldest) (hopen : q.closed = false) :
    ∃ rest, (q.push event).2.queue = rest ++ [event] ∧ rest.Sublist q.queue ∧
      rest.length + (q.push event).2.droppedCount = q.queue.length + q.droppedCount ∧
      (q.push event).2.sequence = q.sequence ∧ (q.push event).2.backpressure = .dropOldest ∧
      (q.push event).2.closed = false := by
  have heffect := q.push_effect event
  generalize q.push event = pushed at heffect ⊢
  obtain ⟨result, q'⟩ := pushed
  cases heffect with
  | closed hclosed =>
      rw [hopen] at hclosed
      cases hclosed
  | refused hnot hfull hother => exact absurd hpolicy hother
  | evicted hnot hfull hsame oldest rest hqueue =>
      refine ⟨rest, rfl, by rw [hqueue]; exact List.sublist_cons_self _ _, ?_, rfl, hpolicy, hopen⟩
      rw [hqueue, List.length_cons]
      show rest.length + (q.droppedCount + 1) = rest.length + 1 + q.droppedCount
      omega
  | accepted hnot hroom => exact ⟨q.queue, rfl, List.Sublist.refl _, rfl, rfl, hpolicy, hopen⟩

theorem LedgerInvariant.push {s : MonitorSystem} (h : LedgerInvariant s) {trade : TradeDict} {outbox : List TradeDict}
    (houtbox : s.outbox = trade :: outbox) (now : Int) : LedgerInvariant { s with
      outbox
      shared := { s.shared with
        queue := (s.shared.queue.pushDict (TradeEvent.fromEngineDict now) trade).2 } } := by
  obtain ⟨handed, hdicts, hsequence, hkept, hdropped⟩ := h.handed
  obtain ⟨rest, hqueue, hrest, hlength, hnumber, hpolicy, hopen⟩ := TradeEventQueue.push_dropOldest
    (TradeEvent.fromEngineDict now trade (handed.length + 1))
    (q := { s.shared.queue with sequence := s.shared.queue.sequence + 1 }) h.queueOpen.1 h.queueOpen.2
  rw [TradeEventQueue.pushDict]
  dsimp only
  rw [hsequence] at hqueue hlength hnumber hpolicy hopen ⊢
  generalize (TradeEventQueue.push (TradeEvent.fromEngineDict now trade (handed.length + 1))
    { s.shared.queue with sequence := handed.length + 1 }).2 = queue at *
  refine ⟨h.worker.surroundings queue s.shared.worker.stopEvent, ⟨h.verbatim.contents, h.verbatim.duplicates⟩,
    ⟨handed ++ [(now, trade)], ?_, ?_, ?_, ?_⟩, ⟨hpolicy, hopen⟩,
    ⟨h.monitor.sound, h.monitor.persistence, h.monitor.index, h.monitor.synced⟩, ?_⟩
  · show (handed ++ [(now, trade)]).map Prod.snd ++ outbox = _
    rw [List.map_append, List.append_assoc, ← hdicts, houtbox]
    rfl
  · show queue.sequence = _
    rw [hnumber, List.length_append, List.length_singleton]
  · show (s.shared.journal.popped ++ queue.queue).Sublist _
    rw [hqueue, handedEvents_concat, ← List.append_assoc]
    exact ((List.Sublist.append_left hrest _).trans hkept).append_right _
  · show (handed ++ [(now, trade)]).length = (s.shared.journal.popped ++ queue.queue).length + queue.droppedCount
    have hlength' : rest.length + queue.droppedCount = s.shared.queue.queue.length + s.shared.queue.droppedCount :=
      hlength
    rw [hqueue]
    simp only [List.length_append, List.length_singleton] at hdropped ⊢
    omega
  · -- there is nothing left to push once the thread may have ended
    have hrunning : s.shared.worker.stopEvent ≠ true := by
      intro hstop
      have hempty := h.shutdown.stopped hstop
      rw [houtbox] at hempty
      cases hempty
    refine ⟨h.shutdown.draining, fun hstop => absurd hstop hrunning, fun hexited => absurd ?_ hrunning⟩
    have hpc : s.pc = .exited := hexited
    exact h.shutdown.draining (by rw [hpc]; rfl)

/-! ### The worker -/

theorem LedgerInvariant.thread {s : MonitorSystem} (h : LedgerInvariant s) {move : Move SaveCall}
    (hrollback : move.RollsBack) {pc : Pc TradeEvent} {shared : Shared SQLiteTradeRepository TradeEvent}
    (hstep : Thread.step saveEvents move (s.pc, s.shared) = some (pc, shared)) :
    LedgerInvariant { s with pc, shared } := by
  obtain ⟨handed, hhanded⟩ := h.handed
  have heffect := h.worker.control.effect hstep
  have hqueue := heffect.popped_queue
  have hframe := heffect.queue_frame
  have hcases := Thread.step_cases hstep
  have hstop := hcases.stopEvent
  have hworker : WorkerInvariant (pc, shared) := WorkerInvariant.step
    (show WorkerAction.step saveEvents (.thread move) (s.pc, s.shared) = some (pc, shared) from hstep) h.worker
  refine ⟨hworker, ?_, ⟨handed, hhanded.dicts, ?_, ?_, ?_⟩, ?_,
    ⟨h.monitor.sound, h.monitor.persistence, h.monitor.index, h.monitor.synced⟩, ?_, ?_, ?_⟩
  · exact h.verbatim.step heffect hrollback h.worker.account (hhanded.storable h.monitor.sound) hhanded.nodup_popped
  · show shared.queue.sequence = _
    rw [hframe]
    exact hhanded.sequence
  · show (shared.journal.popped ++ shared.queue.queue).Sublist _
    rw [hqueue]
    exact hhanded.kept
  · show handed.length = (shared.journal.popped ++ shared.queue.queue).length + shared.queue.droppedCount
    rw [hqueue, hframe]
    exact hhanded.dropped
  · show shared.queue.backpressure = _ ∧ shared.queue.closed = _
    rw [hframe]
    exact h.queueOpen
  · intro hpc
    show shared.worker.stopEvent = true
    rw [hstop]
    rcases hcases.draining hpc with hbefore | hset
    · exact h.shutdown.draining hbefore
    · exact hset
  · intro hset
    exact h.shutdown.stopped (hstop ▸ hset)
  · intro hexited
    have hpc : pc = .exited := hexited
    rw [hpc] at hcases
    exact hcases.queue_of_exited

/-! ### Runs -/

/-- Finite prices and bounded quantities in the calls, and no save that raises after storing. -/
def MonitorAction.Admissible : MonitorAction → Prop
  | .call made => made.Bounded
  | .worker move => move.RollsBack
  | _ => True

theorem LedgerInvariant.step {action : MonitorAction} {s s' : MonitorSystem} (hadmissible : action.Admissible)
    (hstep : action.step s = some s') (h : LedgerInvariant s) : LedgerInvariant s' := by
  cases MonitorAction.step_cases hstep with
  | call made houtbox hrunning =>
      exact h.call houtbox hrunning hadmissible (made.perform_effect h.monitor.index)
  | push now trade outbox houtbox => exact h.push houtbox now
  | worker move pc shared hthread => exact h.thread hadmissible hthread
  | shutdown houtbox =>
      obtain ⟨handed, hhanded⟩ := h.handed
      refine ⟨h.worker.surroundings s.shared.queue true, ⟨h.verbatim.contents, h.verbatim.duplicates⟩,
        ⟨handed, ⟨hhanded.dicts, hhanded.sequence, hhanded.kept, hhanded.dropped⟩⟩, h.queueOpen,
        ⟨h.monitor.sound, h.monitor.persistence, h.monitor.index, h.monitor.synced⟩,
        ⟨fun _ => rfl, fun _ => houtbox, h.shutdown.exited⟩⟩

theorem LedgerInvariant.created (hasCythonEngine relative : Bool)
    (whaleThreshold sweepMinLevels queueCapacity : Int) (rollingWindow : Nat) : LedgerInvariant
      (.created hasCythonEngine relative whaleThreshold sweepMinLevels queueCapacity rollingWindow) := by
  have hsound : (getMatchingEngine hasCythonEngine).Sound := by
    cases hasCythonEngine with
    | false => exact ⟨fun _ h => (by cases h), fun _ h => (by cases h), fun _ h => (by cases h)⟩
    | true => trivial
  refine ⟨.started 100 3 _ _, ⟨rfl, rfl⟩, ⟨[], rfl, rfl, List.Sublist.refl _, rfl⟩, ⟨rfl, rfl⟩,
    ⟨hsound, rfl, Nat.zero_le _, fun _ => ?_⟩, ⟨fun h => (by cases h), fun _ => rfl, fun h => (by cases h)⟩⟩
  show 0 = (getMatchingEngine hasCythonEngine).getTrades.length
  rw [getTrades_getMatchingEngine]
  rfl

/-- After a shutdown whose drain is done, the table holds trades of the engine's log in its order, none was
taken for a duplicate, and unless a call was interrupted the log has as many trades as are in the table,
were dropped by the queue and were abandoned. -/
theorem monitor_run_accounted (hasCythonEngine relative : Bool) (whaleThreshold sweepMinLevels queueCapacity : Int)
    (rollingWindow : Nat) (actions : List MonitorAction) (hadmissible : ∀ action ∈ actions, action.Admissible)
    (s : MonitorSystem) (hrun : Transition.run MonitorAction.step actions
      (.created hasCythonEngine relative whaleThreshold sweepMinLevels queueCapacity rollingWindow) = some s)
    (hexited : s.pc = .exited) :
    (s.shared.repository.table.map TradeRecord.toDict).Sublist s.monitor.engine.getTrades ∧
      s.shared.worker.metrics.duplicateCount = 0 ∧
      (s.interrupted = false → s.monitor.engine.getTrades.length = s.shared.repository.table.length +
        s.shared.queue.droppedCount + s.shared.worker.metrics.tradesAbandoned) := by
  have h := Transition.invariant_throughout LedgerInvariant.step hrun (.of_forall hadmissible _)
    (.created _ _ _ _ _ _)
  obtain ⟨handed, hhanded⟩ := h.handed
  have hqueue := h.shutdown.exited hexited
  have houtbox := h.shutdown.stopped (h.shutdown.draining (by rw [hexited]; rfl))
  have haccount : Accounted s.pc s.shared := h.worker.account
  obtain ⟨hpopped, -, habandoned⟩ := haccount
  have hhand : inHand s.pc s.shared = [] := by
    have hphase := h.worker.control.phase
    simp only [hexited] at hphase ⊢
    rw [inHand, hphase.1, Option.getD_none]
    simp
  rw [hhand, List.append_nil] at hpopped
  have htable : s.shared.repository.table.map TradeRecord.toDict =
      s.shared.journal.saved.flatten.map TradeEvent.toDict := by
    have hcontents := congrArg (List.map TradeRecord.toDict) h.verbatim.contents
    rw [SQLiteTradeRepository.contents, List.map_map, List.map_map] at hcontents
    exact hcontents
  have hdicts := hhanded.dicts
  rw [houtbox, List.append_nil, ← toDict_handedEvents] at hdicts
  refine ⟨?_, h.verbatim.duplicates, fun hnot => ?_⟩
  · have hkept := hhanded.kept
    rw [hqueue, List.append_nil, hpopped] at hkept
    rw [htable]
    refine List.Sublist.trans ?_ (List.take_sublist s.monitor.lastProcessedTradeIdx _)
    rw [← hdicts]
    exact ((List.sublist_append_left _ _).trans hkept).map _
  · have hlength := congrArg List.length hdicts
    rw [List.length_map, length_handedEvents, List.length_take, h.monitor.synced hnot, Nat.min_self] at hlength
    have hrows := congrArg List.length htable
    rw [List.length_map, List.length_map] at hrows
    have hdropped := hhanded.dropped
    rw [hqueue, List.append_nil, hpopped, List.length_append] at hdropped
    rw [habandoned, hrows, ← hlength]
    omega

/-- Sell 5 at 100, buy 5 at 100, and the shutdown after the batch is saved. -/
def soldAndStopped : List MonitorAction :=
  let d : Dispatch := ⟨Growth.unlimited, 1⟩
  let save : SaveCall := ⟨fun _ => ("a", "b"), "n", fun _ => .commits⟩
  [.call (.addCustomOrder d (fun _ => 0) 1 (.code 1) (Binary64.ofInt 100) 5 1),
    .call (.addCustomOrder d (fun _ => 0) 2 (.code 0) (Binary64.ofInt 100) 5 2), .push 3, .shutdown,
    .worker .go, .worker .go, .worker .go, .worker (.save save), .worker .go]

theorem monitor_run_accounted_soldAndStopped :
    ∃ s, Transition.run MonitorAction.step soldAndStopped (.created true false 500 2 10 100) = some s ∧
      (s.shared.repository.table.map TradeRecord.toDict).Sublist s.monitor.engine.getTrades ∧
      s.shared.worker.metrics.duplicateCount = 0 ∧
      (s.interrupted = false → s.monitor.engine.getTrades.length = s.shared.repository.table.length +
        s.shared.queue.droppedCount + s.shared.worker.metrics.tradesAbandoned) := by
  refine ⟨_, rfl, monitor_run_accounted true false 500 2 10 100 soldAndStopped ?_ _ rfl rfl⟩
  intro action haction
  simp only [soldAndStopped, List.mem_cons, List.not_mem_nil, or_false] at haction
  rcases haction with rfl | rfl | rfl | rfl | rfl | rfl | rfl | rfl | rfl
  all_goals first | exact trivial | exact ⟨by decide, by decide⟩ | exact fun _ _ _ _ h => by cases h

/-- The buy is matched, but there is no memory for its remainder. -/
def interruptedBuy : List MonitorAction :=
  let d : Dispatch := ⟨fun buffer _ => buffer ≠ .buyOrders, 1⟩
  [.call (.addCustomOrder d (fun _ => 0) 1 (.code 1) (Binary64.ofInt 100) 5 1),
    .call (.addCustomOrder d (fun _ => 0) 2 (.code 0) (Binary64.ofInt 100) 8 2), .shutdown,
    .worker .go, .worker .go, .worker .go]

/-- The trade of a call that raised is in the engine's log and nowhere else. -/
theorem not_accounted_interruptedBuy : (∀ action ∈ interruptedBuy, action.Admissible) ∧
    ∃ s, Transition.run MonitorAction.step interruptedBuy (.created true false 500 2 10 100) = some s ∧
      s.pc = .exited ∧ s.monitor.engine.getTrades.length ≠ s.shared.repository.table.length +
        s.shared.queue.droppedCount + s.shared.worker.metrics.tradesAbandoned := by
  refine ⟨?_, _, rfl, rfl, by decide⟩
  intro action haction
  simp only [interruptedBuy, List.mem_cons, List.not_mem_nil, or_false] at haction
  rcases haction with rfl | rfl | rfl | rfl | rfl | rfl
  all_goals first | exact trivial | exact ⟨by decide, by decide⟩

end ChronosMatch
