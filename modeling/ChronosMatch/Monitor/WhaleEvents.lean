import ChronosMatch.Monitor.Handoff

/-!
# The events a call appends

`whale_events` keeps the newest fifty events, so what a call appended cannot be read off it afterwards. The
events of a call are listed here in the order in which the code appends them; pushing them one by one is what
the call does to the deque.
-/

namespace ChronosMatch

/-- Append events to `whale_events`. -/
def appendEvents (deque events : List WhaleEvent) : List WhaleEvent := events.foldl (pushBounded 50) deque

theorem appendEvents_append (deque events events' : List WhaleEvent) :
    appendEvents deque (events ++ events') = appendEvents (appendEvents deque events) events' :=
  List.foldl_append

/-- The events of one type. -/
def ofType (eventType : WhaleEventType) (events : List WhaleEvent) : List WhaleEvent :=
  events.filter fun event => event.eventType = eventType

theorem ofType_append (eventType : WhaleEventType) (events events' : List WhaleEvent) :
    ofType eventType (events ++ events') = ofType eventType events ++ ofType eventType events' :=
  List.filter_append ..

theorem ofType_eq_self {eventType : WhaleEventType} {events : List WhaleEvent}
    (h : ∀ event ∈ events, event.eventType = eventType) : ofType eventType events = events :=
  List.filter_eq_self.mpr fun event hevent => decide_eq_true (h event hevent)

theorem ofType_eq_nil {eventType eventType' : WhaleEventType} {events : List WhaleEvent}
    (h : ∀ event ∈ events, event.eventType = eventType') (hne : eventType' ≠ eventType) :
    ofType eventType events = [] := by
  apply List.filter_eq_nil_iff.mpr
  intro event hevent htype
  exact hne ((h event hevent).symm.trans (of_decide_eq_true htype))

namespace LatencyMonitor

/-! ### An order -/

def restingOrder (info : OrderInfo) : WhaleEvent where
  eventType := .restingOrder
  side := info.side
  price := info.price
  quantity := info.quantity
  notional := info.price * Binary64.ofInt info.quantity
  orderId := info.orderId
  timestampNs := info.timestampNs

def whaleSweep (info : OrderInfo) (sweep : Sweep) : WhaleEvent where
  eventType := .whaleSweep
  side := info.side
  price := sweep.levels.headD Binary64.zero
  quantity := sweep.executed
  notional := sweep.notional
  orderId := info.orderId
  timestampNs := info.timestampNs
  levelsCleared := sweep.levels.length
  priceEnd := sweep.levels.getLast?

/-- What `_on_order_submitted` appends; the threshold is the one with the size of the order recorded. -/
def submittedEvents (info : OrderInfo) (m : LatencyMonitor) : List WhaleEvent :=
  if (m.onOrderSubmitted info).getCurrentWhaleThreshold ≤ info.quantity then [restingOrder info] else []

/-- The trades that `_detect_sweep` looks at. -/
def tradesFrom (nBefore : Nat) (m : LatencyMonitor) : List TradeDict :=
  match m.engine.getTradesSince with
  | some since => since nBefore
  | none => (m.engine.getTrades.take m.engineTradeCount).drop nBefore

/-- What `_detect_sweep` appends. -/
def sweepEvents (info : OrderInfo) (nBefore : Nat) (m : LatencyMonitor) : List WhaleEvent :=
  let sweep := (m.tradesFrom nBefore).foldl Sweep.add {}
  if m.sweepMinLevels < 1 ∨ (m.engineTradeCount : Int) - nBefore < m.sweepMinLevels then []
  else if m.sweepMinLevels ≤ sweep.levels.length ∧ m.getCurrentWhaleThreshold ≤ sweep.executed then
    [whaleSweep info sweep]
  else []

theorem threshold_congr {m m' : LatencyMonitor} (hthreshold : m'.whaleThreshold = m.whaleThreshold)
    (hrelative : m'.relative = m.relative) (hquantities : m'.rollingOrderQuantities = m.rollingOrderQuantities) :
    m'.getCurrentWhaleThreshold = m.getCurrentWhaleThreshold := by
  rw [getCurrentWhaleThreshold, getCurrentWhaleThreshold, hthreshold, hrelative, hquantities]

theorem threshold_recordWhale (event : WhaleEvent) (m : LatencyMonitor) :
    (m.recordWhale event).getCurrentWhaleThreshold = m.getCurrentWhaleThreshold :=
  threshold_congr rfl rfl rfl

theorem threshold_onOrderSubmitted (info : OrderInfo) (m : LatencyMonitor) :
    (m.onOrderSubmitted info).getCurrentWhaleThreshold =
      getCurrentWhaleThreshold
        { m with rollingOrderQuantities := pushBounded 200 m.rollingOrderQuantities info.quantity } := by
  rw [onOrderSubmitted]
  split
  · exact threshold_recordWhale _ _
  · rfl

theorem whaleEvents_onOrderSubmitted (info : OrderInfo) (m : LatencyMonitor) :
    (m.onOrderSubmitted info).whaleEvents = appendEvents m.whaleEvents (m.submittedEvents info) := by
  rw [submittedEvents, threshold_onOrderSubmitted, onOrderSubmitted]
  split
  · rfl
  · rfl

theorem whaleEvents_detectSweep (info : OrderInfo) (nBefore : Nat) (m : LatencyMonitor) :
    (m.detectSweep info nBefore).whaleEvents = appendEvents m.whaleEvents (m.sweepEvents info nBefore) := by
  rw [detectSweep, sweepEvents]
  by_cases hoff : m.sweepMinLevels < 1
  · rw [if_pos hoff, if_pos (.inl hoff)]
    rfl
  · rw [if_neg hoff]
    dsimp only
    by_cases hfew : (m.engineTradeCount : Int) - nBefore < m.sweepMinLevels
    · rw [if_pos hfew, if_pos (.inr hfew)]
      rfl
    · rw [if_neg hfew, if_neg (not_or.mpr ⟨hoff, hfew⟩)]
      show (if m.sweepMinLevels ≤ ((m.tradesFrom nBefore).foldl Sweep.add {}).levels.length ∧
          m.getCurrentWhaleThreshold ≤ ((m.tradesFrom nBefore).foldl Sweep.add {}).executed
        then m.recordWhale (whaleSweep info ((m.tradesFrom nBefore).foldl Sweep.add {})) else m).whaleEvents = _
      split
      · rfl
      · rfl

theorem eventType_submittedEvents {info : OrderInfo} {m : LatencyMonitor} :
    ∀ event ∈ m.submittedEvents info, event.eventType = .restingOrder := by
  rw [submittedEvents]
  split
  · simp [restingOrder]
  · simp

theorem eventType_sweepEvents {info : OrderInfo} {nBefore : Nat} {m : LatencyMonitor} :
    ∀ event ∈ m.sweepEvents info nBefore, event.eventType = .whaleSweep := by
  rw [sweepEvents]
  split
  · simp
  · split
    · simp [whaleSweep]
    · simp

/-- What the dispatch of an order appends. -/
def orderEvents (d : Dispatch) (info : OrderInfo) (m : LatencyMonitor) : List WhaleEvent :=
  let m := { m with lastOrderInfo := info }
  let submitted := m.onOrderSubmitted info
  m.submittedEvents info ++
    match submitted.engine.addOrder d.grow info.args with
    | (.error _, _) => []
    | (.ok _, engine) =>
        sweepEvents info submitted.engineTradeCount ({ submitted with engine }.recordLatency (max 1 d.elapsedNs))

theorem whaleEvents_submitOrder (d : Dispatch) (info : OrderInfo) (m : LatencyMonitor) :
    (m.submitOrder d info).2.whaleEvents = appendEvents m.whaleEvents (m.orderEvents d info) := by
  rw [submitOrder, orderEvents]
  dsimp only
  rw [appendEvents_append, ← whaleEvents_onOrderSubmitted info { m with lastOrderInfo := info }]
  generalize ({ m with lastOrderInfo := info } : LatencyMonitor).onOrderSubmitted info = submitted
  rcases submitted.engine.addOrder d.grow info.args with ⟨result, engine⟩
  cases result with
  | error err => rfl
  | ok res => exact whaleEvents_detectSweep info _ _

def loopEvents : List (OrderInfo × Dispatch) → LatencyMonitor → List WhaleEvent
  | [], _ => []
  | (info, d) :: orders, m => m.orderEvents d info ++
      match m.submitOrder d info with
      | (.error _, _) => []
      | (.ok _, m) => loopEvents orders m

theorem whaleEvents_stepLoop (orders : List (OrderInfo × Dispatch)) (latencies : List Int) (m : LatencyMonitor) :
    (m.stepLoop orders latencies).2.whaleEvents = appendEvents m.whaleEvents (m.loopEvents orders) := by
  induction orders generalizing latencies m with
  | nil => rfl
  | cons order orders ih =>
      obtain ⟨info, d⟩ := order
      rw [loopEvents, appendEvents_append, ← whaleEvents_submitOrder, stepLoop]
      rcases m.submitOrder d info with ⟨result, m'⟩
      cases result with
      | error err => rfl
      | ok res => exact ih _ m'

/-! ### New trades -/

def matchedTrade (now : Int) (tr : TradeDict) : WhaleEvent where
  eventType := .matchedTrade
  side := "TRADE"
  price := tr.price
  quantity := tr.qty
  notional := tr.price * Binary64.ofInt tr.qty
  buyId := tr.buyId
  sellId := tr.sellId
  timestampNs := now

/-- The events of the trades that reach a threshold; `clock` gives the time at which each is processed. -/
def matchedEvents (thresh : Int) (clock : Nat → Int) (trades : List TradeDict) : List WhaleEvent :=
  (trades.zipIdx.filter fun entry => thresh ≤ entry.1.qty).map fun entry => matchedTrade (clock entry.2) entry.1

/-- What a sync appends. -/
def syncEvents (clock : Nat → Int) (m : LatencyMonitor) : List WhaleEvent :=
  if m.lastProcessedTradeIdx < m.newTrades.2 then
    matchedEvents m.getCurrentWhaleThreshold clock m.newTrades.1
  else []

theorem eventType_syncEvents {clock : Nat → Int} {m : LatencyMonitor} :
    ∀ event ∈ m.syncEvents clock, event.eventType = .matchedTrade := by
  intro event hevent
  rw [syncEvents] at hevent
  split at hevent
  · obtain ⟨entry, -, rfl⟩ := List.mem_map.mp hevent
    rfl
  · cases hevent

theorem whaleEvents_recordMatchedTrades (thresh : Int) (clock : Nat → Int) (trades : List (TradeDict × Nat))
    (m : LatencyMonitor) :
    (trades.foldl (fun m (tr, i) => m.recordMatchedTrade thresh (clock i) tr) m).whaleEvents =
      appendEvents m.whaleEvents ((trades.filter fun entry => thresh ≤ entry.1.qty).map
        fun entry => matchedTrade (clock entry.2) entry.1) := by
  induction trades generalizing m with
  | nil => rfl
  | cons entry trades ih =>
      obtain ⟨tr, i⟩ := entry
      rw [List.foldl_cons, ih, List.filter_cons]
      dsimp only
      rw [recordMatchedTrade]
      by_cases hreached : thresh ≤ tr.qty
      · rw [if_pos hreached, if_pos (decide_eq_true hreached)]
        rfl
      · rw [if_neg hreached, if_neg (by simpa using hreached)]

theorem whaleEvents_sync (clock : Nat → Int) (m : LatencyMonitor) :
    (m.syncMatchedTradesToPersistence clock).2.whaleEvents = appendEvents m.whaleEvents (m.syncEvents clock) := by
  rw [syncMatchedTradesToPersistence, syncEvents]
  rcases m.newTrades with ⟨newTrades, totalTrades⟩
  dsimp only
  split
  · exact whaleEvents_recordMatchedTrades m.getCurrentWhaleThreshold clock newTrades.zipIdx m
  · rfl

end LatencyMonitor

/-! ### Calls -/

/-- What a call appends. -/
def MonitorCall.events : MonitorCall → LatencyMonitor → List WhaleEvent
  | .step numOrders feed clock, m =>
      let orders := (List.range (max 1 numOrders).toNat).map feed
      m.loopEvents orders ++
        match m.stepLoop orders [] with
        | (.error _, _) => []
        | (.ok _, m) => m.syncEvents clock
  | .addCustomOrder d clock orderId side price quantity timestampNs, m =>
      let info : OrderInfo := ⟨orderId, side.name, price, quantity, timestampNs⟩
      m.orderEvents d info ++
        match m.submitOrder d info with
        | (.error _, _) => []
        | (.ok _, m) => m.syncEvents clock

/-- A call does nothing to the deque but append its events. -/
theorem MonitorCall.whaleEvents_perform (call : MonitorCall) (m : LatencyMonitor) :
    (call.perform m).2.2.whaleEvents = appendEvents m.whaleEvents (call.events m) := by
  cases call with
  | step numOrders feed clock =>
      have hloop := LatencyMonitor.whaleEvents_stepLoop ((List.range (max 1 numOrders).toNat).map feed) [] m
      rw [events, appendEvents_append, ← hloop, perform, LatencyMonitor.step]
      rcases m.stepLoop ((List.range (max 1 numOrders).toNat).map feed) [] with ⟨result, m'⟩
      cases result with
      | error err => rfl
      | ok latencies => exact LatencyMonitor.whaleEvents_sync clock m'
  | addCustomOrder d clock orderId side price quantity timestampNs =>
      have hsubmit := LatencyMonitor.whaleEvents_submitOrder d ⟨orderId, side.name, price, quantity, timestampNs⟩ m
      rw [events, appendEvents_append, ← hsubmit, perform, LatencyMonitor.addCustomOrder]
      rcases m.submitOrder d ⟨orderId, side.name, price, quantity, timestampNs⟩ with ⟨result, m'⟩
      cases result with
      | error err => rfl
      | ok res => exact LatencyMonitor.whaleEvents_sync clock m'

end ChronosMatch
