import Mathlib.Data.Option.NAry
import ChronosMatch.Engine.Depth
import ChronosMatch.Engine.Reference

/-!
# The dashboard's view of the book

`LatencyMonitor.get_top_of_book` of `src/monitor/latency_monitor.py`. The best prices are the engine's own
snapshot. The levels come from `get_book_depth` where the engine has it; otherwise they are aggregated from
the engine's lists in a dict and sorted.
-/

namespace ChronosMatch

/-- The engine that `src/engine/matching_engine.py` provides, compiled or not. -/
inductive Engine
  | compiled (e : MatchingEngine)
  | reference (e : ReferenceEngine)

def Engine.getOrderBookSnapshot : Engine → Option Binary64 × Option Binary64
  | compiled e => e.getOrderBookSnapshot
  | reference e => e.getOrderBookSnapshot

/-- `depth_map[price] += qty` on a `defaultdict(int)`, whose items keep their order. -/
def addDepth (price : Binary64) (qty : Int) : List (Binary64 × Int) → List (Binary64 × Int)
  | [] => [(price, qty)]
  | (p, q) :: rest => if Binary64.SameValue p price then (p, q + qty) :: rest else (p, q) :: addDepth price qty rest

def depthMap (orders : List COrderObj) : List (Binary64 × Int) :=
  orders.foldl (fun depth order => addDepth order.price order.quantity depth) []

/-- `sorted(items, key=...)` with a float key. -/
def sortedBy (key : Binary64 × Int → Binary64) (items : List (Binary64 × Int)) : List (Binary64 × Int) :=
  items.insertionSort fun a b => ¬ key b < key a

structure OrderBookTop where
  bestBid : Option Binary64
  bestAsk : Option Binary64
  spread : Option Binary64
  spreadBps : Option Binary64
  midPrice : Option Binary64
  bidLevels : List (Binary64 × Int)
  askLevels : List (Binary64 × Int)
  totalBidQty : Int
  totalAskQty : Int
  bidOrderCount : Nat
  askOrderCount : Nat
  isCrossed : Bool
deriving DecidableEq

/-- The sorted levels of both sides, before they are cut to the depth, and the totals. -/
structure DepthView where
  sortedBids : List (Binary64 × Int)
  sortedAsks : List (Binary64 × Int)
  totalBidQty : Int
  totalAskQty : Int
  bidOrderCount : Nat
  askOrderCount : Nat

def Engine.depthView (depth : Int) : Engine → Except PyError DepthView
  | compiled e => do
      let d ← e.getBookDepth depth
      return {
        sortedBids := d.bidLevels.map fun level => (level.1, (level.2 : Int))
        sortedAsks := d.askLevels.map fun level => (level.1, (level.2 : Int))
        totalBidQty := d.totalBidQty
        totalAskQty := d.totalAskQty
        bidOrderCount := d.bidOrderCount
        askOrderCount := d.askOrderCount }
  | reference e =>
      let bidDepthMap := depthMap e.buyOrders
      let askDepthMap := depthMap e.sellOrders
      .ok {
        sortedBids := sortedBy (fun level => level.1.neg) bidDepthMap
        sortedAsks := sortedBy (fun level => level.1) askDepthMap
        totalBidQty := (bidDepthMap.map Prod.snd).sum
        totalAskQty := (askDepthMap.map Prod.snd).sum
        bidOrderCount := e.buyOrders.length
        askOrderCount := e.sellOrders.length }

def getTopOfBook (depth : Int) (engine : Engine) : Except PyError OrderBookTop := do
  if depth < 0 then throw (.valueError "depth must be non-negative")
  let (bestBid, bestAsk) := engine.getOrderBookSnapshot
  let view ← engine.depthView depth
  let spread := Option.map₂ (fun bid ask => ask.sub bid) bestBid bestAsk
  let midPrice := Option.map₂ (fun bid ask => (bid.add ask).div (Binary64.ofInt 2)) bestBid bestAsk
  let spreadBps := (Option.map₂ Prod.mk spread midPrice).bind fun (spread, mid) =>
    if mid > Binary64.zero then some ((spread.div mid).mul (Binary64.ofInt 10000)) else none
  let isCrossed := (Option.map₂ (fun bid ask => decide (bid ≥ ask)) bestBid bestAsk).getD false
  return {
    bestBid, bestAsk, spread, spreadBps, midPrice
    bidLevels := view.sortedBids.take depth.toNat
    askLevels := view.sortedAsks.take depth.toNat
    totalBidQty := view.totalBidQty
    totalAskQty := view.totalAskQty
    bidOrderCount := view.bidOrderCount
    askOrderCount := view.askOrderCount
    isCrossed }

end ChronosMatch
