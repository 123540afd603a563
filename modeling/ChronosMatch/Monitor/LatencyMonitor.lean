import ChronosMatch.DataProcessing.Processor
import ChronosMatch.Ipc.TradeQueue
import ChronosMatch.Monitor.TopOfBook

/-!
# The dashboard's coordinator

`LatencyMonitor` of `src/monitor/latency_monitor.py`: what it does when an order is dispatched to the
engine, and how it hands new trades to the persistence queue. The orders that the simulator draws, the
readings of the clock and the memory the engine finds are inputs. A call returns the trades it pushes; the
pushes themselves are steps of their own, since the worker runs between them.
-/

namespace ChronosMatch

/-! ### The engine behind the monitor -/

namespace Engine

def addOrder (grow : Growth) (args : OrderArgs) : Engine → Except PyError Int × Engine
  | compiled e =>
      let (result, e) := e.addOrder grow args
      (result.map Int.ofNat, compiled e)
  | reference e =>
      let (orderId, e) := e.addOrder args
      (.ok orderId, reference e)

def getTrades : Engine → List TradeDict
  | compiled e => e.getTrades
  | reference e => e.getTrades

/-- `getattr(engine, "get_trade_count", None)` -/
def getTradeCount : Engine → Option Nat
  | compiled e => some e.getTradeCount
  | reference _ => none

/-- `getattr(engine, "get_trades_since", None)` -/
def getTradesSince : Engine → Option (Nat → List TradeDict)
  | compiled e => some e.getTradesSince
  | reference _ => none

end Engine

/-! ### What the monitor records -/

inductive WhaleEventType
  | restingOrder
  | matchedTrade
  | whaleSweep
deriving DecidableEq

structure WhaleEvent where
  eventType : WhaleEventType
  side : String
  price : Binary64
  quantity : Int
  notional : Binary64
  orderId : Option Int := none
  buyId : Option Int := none
  sellId : Option Int := none
  timestampNs : Int := 0
  levelsCleared : Nat := 0
  priceEnd : Option Binary64 := none
deriving DecidableEq

/-- `_last_order_info`. The side is the text under which the order is shown. -/
structure OrderInfo where
  orderId : Int
  side : String
  price : Binary64
  quantity : Int
  timestampNs : Int
deriving DecidableEq

/-- The order as it is dispatched. -/
def OrderInfo.args (info : OrderInfo) : OrderArgs :=
  let sideVal := if info.side = "BUY" then Side.buy.code else Side.sell.code
  ⟨info.orderId, sideVal, info.price, info.quantity, info.timestampNs⟩

/-- What a dispatch to the engine meets: the memory it finds and the time it takes. -/
structure Dispatch where
  grow : Growth
  elapsedNs : Int

/-- `append` on a `deque(maxlen=...)`. -/
def pushBounded {α : Type} (maxlen : Nat) (l : List α) (a : α) : List α :=
  (l ++ [a]).drop (l.length + 1 - maxlen)

/-- Linear interpolation percentile (0 to 100). -/
def calculatePercentile {K : Type} [Add K] [Sub K] [Mul K] [Div K] [IntCast K] [LT K] [DecidableLT K]
    (truncate : K → Int) (sortedValues : List K) (pct : K) : K :=
  match sortedValues with
  | [] => (0 : Int)
  | [value] => value
  | _ =>
      let pct := if pct < (100 : Int) then pct else (100 : Int)
      let pct := if ((0 : Int) : K) < pct then pct else (0 : Int)
      let last : Int := sortedValues.length - 1
      let rank := pct / (100 : Int) * last
      let low := truncate rank
      let high := min (low + 1) last
      let frac := rank - low
      sortedValues.getD low.toNat (0 : Int) * ((1 : Int) - frac) + sortedValues.getD high.toNat (0 : Int) * frac

structure LatencyMonitor where
  engine : Engine
  whaleThreshold : Int := 500
  /-- `whale_mode == "relative"` -/
  relative : Bool := false
  sweepMinLevels : Int := 2
  rollingWindow : Nat := 100
  enablePersistence : Bool := true
  allLatenciesNs : List Int := []
  rollingLatenciesNs : List Int := []
  rollingOrderQuantities : List Int := []
  lastOrderInfo : Option OrderInfo := none
  lastLatencyNs : Int := 0
  lastProcessedTradeIdx : Nat := 0
  whaleEvents : List WhaleEvent := []

namespace LatencyMonitor

def recordLatency (lat : Int) (m : LatencyMonitor) : LatencyMonitor :=
  { m with
    lastLatencyNs := lat
    allLatenciesNs := m.allLatenciesNs ++ [lat]
    rollingLatenciesNs := pushBounded m.rollingWindow m.rollingLatenciesNs lat }

def recordWhale (event : WhaleEvent) (m : LatencyMonitor) : LatencyMonitor :=
  { m with whaleEvents := pushBounded 50 m.whaleEvents event }

def getCurrentWhaleThreshold (m : LatencyMonitor) : Int :=
  if m.relative ∧ 20 ≤ m.rollingOrderQuantities.length then
    let sorted := m.rollingOrderQuantities.insertionSort (· ≤ ·)
    let q95 := calculatePercentile Binary64.truncate (sorted.map Binary64.ofInt) (Binary64.ofInt 95)
    max 100 q95.truncate
  else m.whaleThreshold

def onOrderSubmitted (info : OrderInfo) (m : LatencyMonitor) : LatencyMonitor :=
  let m := { m with rollingOrderQuantities := pushBounded 200 m.rollingOrderQuantities info.quantity }
  if m.getCurrentWhaleThreshold ≤ info.quantity then
    m.recordWhale {
      eventType := .restingOrder
      side := info.side
      price := info.price
      quantity := info.quantity
      notional := info.price * Binary64.ofInt info.quantity
      orderId := info.orderId
      timestampNs := info.timestampNs }
  else m

def engineTradeCount (m : LatencyMonitor) : Nat := m.engine.getTradeCount.getD m.engine.getTrades.length

/-- What the loop of `_detect_sweep` adds up: the distinct prices in the order seen, the quantity and the
notional. -/
structure Sweep where
  levels : List Binary64 := []
  executed : Int := 0
  notional : Binary64 := Binary64.zero

def Sweep.add (sweep : Sweep) (tr : TradeDict) : Sweep where
  levels := if sweep.levels.any (fun level => Binary64.SameValue level tr.price) then sweep.levels
    else sweep.levels ++ [tr.price]
  executed := sweep.executed + tr.qty
  notional := sweep.notional + tr.price * Binary64.ofInt tr.qty

def detectSweep (info : OrderInfo) (nBefore : Nat) (m : LatencyMonitor) : LatencyMonitor :=
  if m.sweepMinLevels < 1 then m
  else
    let nAfter := m.engineTradeCount
    if (nAfter : Int) - nBefore < m.sweepMinLevels then m
    else
      let newTrades := match m.engine.getTradesSince with
        | some since => since nBefore
        | none => (m.engine.getTrades.take nAfter).drop nBefore
      let sweep := newTrades.foldl Sweep.add {}
      if m.sweepMinLevels ≤ sweep.levels.length ∧ m.getCurrentWhaleThreshold ≤ sweep.executed then
        m.recordWhale {
          eventType := .whaleSweep
          side := info.side
          price := sweep.levels.headD Binary64.zero
          quantity := sweep.executed
          notional := sweep.notional
          orderId := info.orderId
          timestampNs := info.timestampNs
          levelsCleared := sweep.levels.length
          priceEnd := sweep.levels.getLast? }
      else m

/-- The event for a trade whose quantity reaches the threshold. -/
def recordMatchedTrade (thresh : Int) (now : Int) (tr : TradeDict) (m : LatencyMonitor) : LatencyMonitor :=
  if thresh ≤ tr.qty then
    m.recordWhale {
      eventType := .matchedTrade
      side := "TRADE"
      price := tr.price
      quantity := tr.qty
      notional := tr.price * Binary64.ofInt tr.qty
      buyId := tr.buyId
      sellId := tr.sellId
      timestampNs := now }
  else m

/-- The trades not processed yet, and how many trades there are in all. -/
def newTrades (m : LatencyMonitor) : List TradeDict × Nat :=
  match m.engine.getTradesSince with
  | some since =>
      let newTrades := since m.lastProcessedTradeIdx
      (newTrades, m.lastProcessedTradeIdx + newTrades.length)
  | none =>
      let trades := m.engine.getTrades
      ((trades.take trades.length).drop m.lastProcessedTradeIdx, trades.length)

/-- Returns the trades it pushes. -/
def syncMatchedTradesToPersistence (clock : Nat → Int) (m : LatencyMonitor) : List TradeDict × LatencyMonitor :=
  let (newTrades, totalTrades) := m.newTrades
  if m.lastProcessedTradeIdx < totalTrades then
    let thresh := m.getCurrentWhaleThreshold
    let m := newTrades.zipIdx.foldl (fun m (tr, i) => m.recordMatchedTrade thresh (clock i) tr) m
    (if m.enablePersistence then newTrades else [], { m with lastProcessedTradeIdx := totalTrades })
  else ([], m)

/-- `reset` but for the queue; `engine` is the one that `get_matching_engine` returns. -/
def reset (engine : Engine) (m : LatencyMonitor) : LatencyMonitor :=
  { m with
    engine
    allLatenciesNs := []
    rollingLatenciesNs := []
    rollingOrderQuantities := []
    lastOrderInfo := none
    lastLatencyNs := 0
    lastProcessedTradeIdx := 0
    whaleEvents := [] }

/-! ### Orders -/

/-- What `step` and `add_custom_order` do alike with an order. -/
def submitOrder (d : Dispatch) (info : OrderInfo) (m : LatencyMonitor) : Except PyError Int × LatencyMonitor :=
  let m := { m with lastOrderInfo := info }.onOrderSubmitted info
  let nBefore := m.engineTradeCount
  match m.engine.addOrder d.grow info.args with
  | (.error err, engine) => (.error err, { m with engine })
  | (.ok res, engine) =>
      let m := { m with engine }.recordLatency (max 1 d.elapsedNs)
      (.ok res, m.detectSweep info nBefore)

/-- The loop of `step`, over the orders drawn. -/
def stepLoop : List (OrderInfo × Dispatch) → List Int → LatencyMonitor → Except PyError (List Int) × LatencyMonitor
  | [], latencies, m => (.ok latencies, m)
  | (info, d) :: orders, latencies, m =>
      match m.submitOrder d info with
      | (.error err, m) => (.error err, m)
      | (.ok _, m) => stepLoop orders (latencies ++ [max 1 d.elapsedNs]) m

/-- `feed` are the orders that the simulator draws, with what each meets. -/
def step (numOrders : Int) (feed : Nat → OrderInfo × Dispatch) (clock : Nat → Int) (m : LatencyMonitor) :
    Except PyError (List Int) × List TradeDict × LatencyMonitor :=
  match m.stepLoop ((List.range (max 1 numOrders).toNat).map feed) [] with
  | (.error err, m) => (.error err, [], m)
  | (.ok latencies, m) =>
      let (pushed, m) := m.syncMatchedTradesToPersistence clock
      (.ok latencies, pushed, m)

/-- The `side` argument of `add_custom_order`. -/
inductive SideArg
  | text (side : String)
  | code (side : Int)

/-- `side_str`, which is `"BUY"` exactly when the order is dispatched as a buy. -/
def SideArg.name : SideArg → String
  | text side => DataProcessor.upper side
  | code side => if side = Side.buy.code then "BUY" else "SELL"

def addCustomOrder (d : Dispatch) (clock : Nat → Int) (orderId : Int) (side : SideArg) (price : Binary64)
    (quantity timestampNs : Int) (m : LatencyMonitor) : Except PyError Int × List TradeDict × LatencyMonitor :=
  match m.submitOrder d ⟨orderId, side.name, price, quantity, timestampNs⟩ with
  | (.error err, m) => (.error err, [], m)
  | (.ok res, m) =>
      let (pushed, m) := m.syncMatchedTradesToPersistence clock
      (.ok res, pushed, m)

end LatencyMonitor

end ChronosMatch
