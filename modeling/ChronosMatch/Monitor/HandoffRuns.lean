import ChronosMatch.Monitor.Ledger
import ChronosMatch.Monitor.WhaleEvents

/-!
# Every trade is handed off once

A monitor over calls and resets, with everything that it has pushed, processed and recorded since it was last
reset. What has been pushed is always the log up to `_last_processed_trade_idx`, and a call that returns leaves
the index at the end of the log.
-/

namespace ChronosMatch

/-! ### The events of new trades -/

/-- The monitor when the orders of a call have been dispatched, which a call that returns then syncs. -/
def MonitorCall.dispatched : MonitorCall → LatencyMonitor → LatencyMonitor
  | .step numOrders feed _, m => (m.stepLoop ((List.range (max 1 numOrders).toNat).map feed) []).2
  | .addCustomOrder d _ orderId side price quantity timestampNs, m =>
      (m.submitOrder d ⟨orderId, side.name, price, quantity, timestampNs⟩).2

/-- The event is the one recorded for the trade. -/
def Records (event : WhaleEvent) (tr : TradeDict) : Prop := ∃ now, event = LatencyMonitor.matchedTrade now tr

namespace LatencyMonitor

theorem records_matchedEvents (thresh : Int) (clock : Nat → Int) (trades : List TradeDict) :
    List.Forall₂ Records (matchedEvents thresh clock trades) (trades.filter fun tr => thresh ≤ tr.qty) := by
  have htrades : trades.filter (fun tr => thresh ≤ tr.qty) =
      (trades.zipIdx.filter fun entry => thresh ≤ entry.1.qty).map Prod.fst := by
    calc trades.filter (fun tr => thresh ≤ tr.qty)
        = (trades.zipIdx.map Prod.fst).filter fun tr => thresh ≤ tr.qty := by rw [List.zipIdx_map_fst]
      _ = (trades.zipIdx.filter fun entry => thresh ≤ entry.1.qty).map Prod.fst := List.filter_map
  rw [htrades, matchedEvents, List.forall₂_map_left_iff, List.forall₂_map_right_iff, List.forall₂_same]
  exact fun entry _ => ⟨clock entry.2, rfl⟩

theorem syncEvents_eq (clock : Nat → Int) {m : LatencyMonitor}
    (hindex : m.lastProcessedTradeIdx ≤ m.engine.getTrades.length) : m.syncEvents clock =
      matchedEvents m.getCurrentWhaleThreshold clock (m.engine.getTrades.drop m.lastProcessedTradeIdx) := by
  rw [syncEvents, newTrades_eq hindex]
  dsimp only
  split
  · rfl
  · next hnone =>
      rw [List.drop_eq_nil_of_le (not_lt.mp hnone)]
      rfl

theorem matchedTrades_orderEvents (d : Dispatch) (info : OrderInfo) (m : LatencyMonitor) :
    ofType .matchedTrade (m.orderEvents d info) = [] := by
  rw [orderEvents, ofType_append, ofType_eq_nil eventType_submittedEvents (by decide), List.nil_append]
  split
  · rfl
  · exact ofType_eq_nil eventType_sweepEvents (by decide)

theorem matchedTrades_loopEvents (orders : List (OrderInfo × Dispatch)) (m : LatencyMonitor) :
    ofType .matchedTrade (m.loopEvents orders) = [] := by
  induction orders generalizing m with
  | nil => rfl
  | cons order orders ih =>
      obtain ⟨info, d⟩ := order
      rw [loopEvents, ofType_append, matchedTrades_orderEvents, List.nil_append]
      split
      · rfl
      · exact ih _

end LatencyMonitor

/-- The `MATCHED_TRADE` events of a call are those of the trades that it pushes, at the threshold it syncs with. -/
theorem MonitorCall.matchedTrades_events (call : MonitorCall) {m : LatencyMonitor}
    (hpersistence : m.enablePersistence = true)
    (hindex : m.lastProcessedTradeIdx ≤ m.engine.getTrades.length) :
    ∃ clock, ofType .matchedTrade (call.events m) =
      LatencyMonitor.matchedEvents (call.dispatched m).getCurrentWhaleThreshold clock (call.perform m).2.1 := by
  have hsync : ∀ {orders m'} (clock : Nat → Int),
      LatencyMonitor.SameCursor { m with engine := m.engine.addAll orders } m' →
      ofType .matchedTrade (m'.syncEvents clock) = LatencyMonitor.matchedEvents m'.getCurrentWhaleThreshold clock
        (m'.syncMatchedTradesToPersistence clock).1 := by
    intro orders m' clock hcursor
    have hindex' : m'.lastProcessedTradeIdx ≤ m'.engine.getTrades.length := by
      rw [hcursor.index, hcursor.engine]
      exact le_trans hindex (m.engine.getTrades_addAll orders).length_le
    have hpersistence' : m'.enablePersistence = true := hcursor.persistence.trans hpersistence
    rw [ofType_eq_self LatencyMonitor.eventType_syncEvents, LatencyMonitor.syncEvents_eq clock hindex',
      (LatencyMonitor.sync_effect clock hindex').1, if_pos hpersistence']
  cases call with
  | step numOrders feed clock =>
      refine ⟨clock, ?_⟩
      obtain ⟨added, -, hcursor⟩ := LatencyMonitor.stepLoop_effect ((List.range (max 1 numOrders).toNat).map feed) [] m
      rw [events, ofType_append, LatencyMonitor.matchedTrades_loopEvents, List.nil_append, perform,
        LatencyMonitor.step, dispatched]
      rcases hresult : m.stepLoop ((List.range (max 1 numOrders).toNat).map feed) [] with ⟨result, m'⟩
      rw [hresult] at hcursor
      cases result with
      | error err => rfl
      | ok latencies => exact hsync clock hcursor
  | addCustomOrder d clock orderId side price quantity timestampNs =>
      refine ⟨clock, ?_⟩
      have hcursor := LatencyMonitor.submitOrder_effect d ⟨orderId, side.name, price, quantity, timestampNs⟩ m
      rw [events, ofType_append, LatencyMonitor.matchedTrades_orderEvents, List.nil_append, perform,
        LatencyMonitor.addCustomOrder, dispatched]
      rcases hresult : m.submitOrder d ⟨orderId, side.name, price, quantity, timestampNs⟩ with ⟨result, m'⟩
      rw [hresult] at hcursor
      cases result with
      | error err => rfl
      | ok res => exact hsync clock hcursor

/-! ### Runs -/

inductive HandoffAction
  | call (made : MonitorCall)
  | reset (hasCythonEngine : Bool)

/-- A monitor with what it has done since it was last reset: the trades it has pushed, the trades it has
processed with the threshold in force at that time, and the events it has appended. -/
structure MonitorHistory where
  monitor : LatencyMonitor
  pushed : List TradeDict := []
  processed : List (Int × TradeDict) := []
  events : List WhaleEvent := []

namespace MonitorHistory

/-- A new monitor, with persistence. -/
def created (hasCythonEngine relative : Bool) (whaleThreshold sweepMinLevels : Int) (rollingWindow : Nat) :
    MonitorHistory :=
  { monitor := { engine := getMatchingEngine hasCythonEngine, whaleThreshold, relative, sweepMinLevels, rollingWindow } }

/-- A call that raises counts for what it has done before. -/
def step (h : MonitorHistory) : HandoffAction → MonitorHistory
  | .call made =>
      let (_, pushed, monitor) := made.perform h.monitor
      let thresh := (made.dispatched h.monitor).getCurrentWhaleThreshold
      { monitor
        pushed := h.pushed ++ pushed
        processed := h.processed ++ pushed.map fun tr => (thresh, tr)
        events := h.events ++ made.events h.monitor }
  | .reset hasCythonEngine => { monitor := h.monitor.reset (getMatchingEngine hasCythonEngine) }

/-- The trades that reached the threshold in force when they were processed. -/
def reached (h : MonitorHistory) : List TradeDict :=
  (h.processed.filter fun entry => entry.1 ≤ entry.2.qty).map Prod.snd

structure HandedOff (h : MonitorHistory) : Prop where
  persistence : h.monitor.enablePersistence = true
  index : h.monitor.lastProcessedTradeIdx ≤ h.monitor.engine.getTrades.length
  pushed : h.pushed = h.monitor.engine.getTrades.take h.monitor.lastProcessedTradeIdx
  processed : h.processed.map Prod.snd = h.pushed
  recorded : List.Forall₂ Records (ofType .matchedTrade h.events) h.reached
  appended : h.monitor.whaleEvents = appendEvents [] h.events

theorem reached_append (h : MonitorHistory) (thresh : Int) (trades : List TradeDict) :
    reached { h with processed := h.processed ++ trades.map fun tr => (thresh, tr) } =
      h.reached ++ trades.filter fun tr => thresh ≤ tr.qty := by
  rw [reached, List.filter_append, List.map_append, List.filter_map, List.map_map]
  congr 1
  exact List.map_id _

theorem HandedOff.call {h : MonitorHistory} (hinv : h.HandedOff) (made : MonitorCall) :
    (h.step (.call made)).HandedOff := by
  have heffect := made.perform_effect hinv.index
  have hhanded := heffect.handed hinv.persistence hinv.index
  obtain ⟨clock, hevents⟩ := made.matchedTrades_events hinv.persistence hinv.index
  have hdeque := made.whaleEvents_perform h.monitor
  have hrecorded := LatencyMonitor.records_matchedEvents (made.dispatched h.monitor).getCurrentWhaleThreshold clock
    (made.perform h.monitor).2.1
  rw [← hevents] at hrecorded
  refine ⟨heffect.persistence.trans hinv.persistence, heffect.index_le hinv.index, ?_, ?_, ?_, ?_⟩
  · show h.pushed ++ (made.perform h.monitor).2.1 = _
    rw [hinv.pushed]
    exact hhanded
  · show (h.processed ++ (made.perform h.monitor).2.1.map _).map Prod.snd = h.pushed ++ (made.perform h.monitor).2.1
    rw [List.map_append, hinv.processed, List.map_map]
    congr 1
    exact List.map_id _
  · show List.Forall₂ Records (ofType .matchedTrade (h.events ++ made.events h.monitor)) (reached
      { h with processed := h.processed ++ (made.perform h.monitor).2.1.map fun tr => (_, tr) })
    rw [ofType_append, reached_append]
    exact List.rel_append hinv.recorded hrecorded
  · show (made.perform h.monitor).2.2.whaleEvents = appendEvents [] (h.events ++ made.events h.monitor)
    rw [hdeque, hinv.appended, appendEvents_append]

theorem HandedOff.reset {h : MonitorHistory} (hinv : h.HandedOff) (hasCythonEngine : Bool) :
    (h.step (.reset hasCythonEngine)).HandedOff :=
  ⟨hinv.persistence, Nat.zero_le _, List.take_zero.symm, rfl, .nil, rfl⟩

theorem HandedOff.created (hasCythonEngine relative : Bool) (whaleThreshold sweepMinLevels : Int)
    (rollingWindow : Nat) :
    HandedOff (.created hasCythonEngine relative whaleThreshold sweepMinLevels rollingWindow) :=
  ⟨rfl, Nat.zero_le _, List.take_zero.symm, rfl, .nil, rfl⟩

theorem HandedOff.run {h : MonitorHistory} (hinv : h.HandedOff) (actions : List HandoffAction) :
    (actions.foldl step h).HandedOff := by
  induction actions generalizing h with
  | nil => exact hinv
  | cons action actions ih =>
      apply ih
      cases action with
      | call made => exact hinv.call made
      | reset hasCythonEngine => exact hinv.reset hasCythonEngine

/-- What a call that returns leaves behind: the trades pushed since the last reset are the whole log of the
engine, and the `MATCHED_TRADE` events since then are those of the trades that reached the threshold in force
when they were processed. -/
structure ExactlyOnce (h : MonitorHistory) : Prop where
  pushed : h.pushed = h.monitor.engine.getTrades
  processed : h.processed.map Prod.snd = h.monitor.engine.getTrades
  recorded : List.Forall₂ Records (ofType .matchedTrade h.events) h.reached
  appended : h.monitor.whaleEvents = appendEvents [] h.events

end MonitorHistory

/-- The hand-off is exactly-once on either engine. -/
theorem handoff_exactlyOnce (hasCythonEngine relative : Bool) (whaleThreshold sweepMinLevels : Int)
    (rollingWindow : Nat) (actions : List HandoffAction) (made : MonitorCall) (h : MonitorHistory)
    (hrun : h = actions.foldl MonitorHistory.step
      (.created hasCythonEngine relative whaleThreshold sweepMinLevels rollingWindow))
    (hreturned : (made.perform h.monitor).1 = none) : (h.step (.call made)).ExactlyOnce := by
  have hinv : h.HandedOff := by
    rw [hrun]
    exact MonitorHistory.HandedOff.run (.created _ _ _ _ _) actions
  obtain ⟨-, -, hpushed, hprocessed, hrecorded, happended⟩ := hinv.call made
  have hindex : (h.step (.call made)).monitor.lastProcessedTradeIdx =
      (h.step (.call made)).monitor.engine.getTrades.length :=
    ((made.perform_effect hinv.index).returned hreturned).2
  rw [hindex, List.take_length] at hpushed
  exact ⟨hpushed, hprocessed.trans hpushed, hrecorded, happended⟩

/-- A sell of 5 at 100, and a buy of 8 that is matched and then finds no memory for its remainder. -/
def brokenOffBuy : List HandoffAction :=
  [.call (.addCustomOrder ⟨.unlimited, 1⟩ (fun _ => 0) 1 (.code 1) (Binary64.ofInt 100) 5 1),
    .call (.addCustomOrder ⟨fun buffer _ => buffer ≠ .buyOrders, 1⟩ (fun _ => 0) 2 (.code 0) (Binary64.ofInt 100) 8 2)]

/-- The next call hands off the trade of the call that raised. -/
theorem handoff_exactlyOnce_brokenOffBuy :
    ((brokenOffBuy.foldl MonitorHistory.step (.created true false 500 2 100)).step (.call
      (.addCustomOrder ⟨.unlimited, 1⟩ (fun _ => 0) 3 (.code 1) (Binary64.ofInt 101) 1 3))).ExactlyOnce :=
  handoff_exactlyOnce true false 500 2 100 brokenOffBuy _ _ rfl rfl

end ChronosMatch
