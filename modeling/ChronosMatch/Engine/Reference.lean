import Mathlib.Data.List.Sort
import ChronosMatch.Engine.Order

/-!
# The Python engines

The reference engine of `src/engine/matching_engine.py`, which `src/monitor/latency_monitor.py` repeats
as its fallback, and the baseline `OrderBook` of `src/model/baseline_matcher.py`. They run the same code
on order objects with different attribute names, so the code is written once over `OrderFields`. Neither
validates what it is given.
-/

namespace ChronosMatch

/-- The attributes of an order object that a Python engine reads and writes. -/
structure OrderFields (α : Type) where
  orderId : α → Int
  price : α → Binary64
  quantity : α → Int
  timestamp : α → Int
  setQuantity : α → Int → α

/-- `<` on a pair of a float and an integer: the first difference decides. -/
def keyLt (a b : Binary64 × Int) : Bool :=
  if Binary64.SameValue a.1 b.1 then a.2 < b.2 else a.1 < b.1

/-- `list.sort(key=...)`, which is stable. -/
def listSort {α : Type} (key : α → Binary64 × Int) (l : List α) : List α :=
  l.insertionSort fun a b => keyLt (key b) (key a) = false

/-- The lists of a Python engine. -/
structure PyBook (α : Type) where
  buyOrders : List α := []
  sellOrders : List α := []
  trades : List TradeDict := []

namespace PyBook

variable {α : Type} (F : OrderFields α)

/-- The resting buys sorted by `(-price, timestamp)`. -/
def sortedBuys (b : PyBook α) : List α :=
  listSort (fun order => ((F.price order).neg, F.timestamp order)) b.buyOrders

/-- The resting sells sorted by `(price, timestamp)`. -/
def sortedSells (b : PyBook α) : List α :=
  listSort (fun order => (F.price order, F.timestamp order)) b.sellOrders

/-- The `while` loop of a match. The first resting order is popped when it is filled; when it keeps a
remainder the incoming order has none, so the loop test fails next. -/
def matchLoop (crosses : α → α → Bool) (trade : α → α → Int → TradeDict) :
    α → List α → List TradeDict → α × List α × List TradeDict
  | order, [], trades => (order, [], trades)
  | order, best :: rest, trades =>
      if 0 < F.quantity order ∧ crosses best order then
        let matchedQty := min (F.quantity order) (F.quantity best)
        let trades := trades ++ [trade order best matchedQty]
        let order := F.setQuantity order (F.quantity order - matchedQty)
        let best := F.setQuantity best (F.quantity best - matchedQty)
        if F.quantity best = 0 then matchLoop crosses trade order rest trades
        else (order, best :: rest, trades)
      else (order, best :: rest, trades)

def matchBuy (order : α) (b : PyBook α) : PyBook α :=
  let (order, sellOrders, trades) := matchLoop F (fun bestSell order => F.price bestSell ≤ F.price order)
    (fun order bestSell matchedQty => ⟨F.orderId order, F.orderId bestSell, F.price bestSell, matchedQty⟩)
    order (b.sortedSells F) b.trades
  { buyOrders := if 0 < F.quantity order then b.buyOrders ++ [order] else b.buyOrders, sellOrders, trades }

def matchSell (order : α) (b : PyBook α) : PyBook α :=
  let (order, buyOrders, trades) := matchLoop F (fun bestBuy order => F.price bestBuy ≥ F.price order)
    (fun order bestBuy matchedQty => ⟨F.orderId bestBuy, F.orderId order, F.price bestBuy, matchedQty⟩)
    order (b.sortedBuys F) b.trades
  { sellOrders := if 0 < F.quantity order then b.sellOrders ++ [order] else b.sellOrders, buyOrders, trades }

end PyBook

/-! ### The reference engine -/

structure COrderObj where
  orderId : Int
  side : Int
  price : Binary64
  quantity : Int
  timestamp : Int
deriving DecidableEq

def COrderObj.fields : OrderFields COrderObj where
  orderId := COrderObj.orderId
  price := COrderObj.price
  quantity := COrderObj.quantity
  timestamp := COrderObj.timestamp
  setQuantity order quantity := { order with quantity }

structure ReferenceEngine extends PyBook COrderObj where
  orderCount : Nat := 0

namespace ReferenceEngine

def empty : ReferenceEngine := {}

/-- `add_order`, which returns `order_id` for every call. -/
def addOrder (args : OrderArgs) (e : ReferenceEngine) : Int × ReferenceEngine :=
  let wrapped : COrderObj := ⟨args.orderId, args.side, args.price, args.quantity, args.timestamp⟩
  let book := if args.side = Side.buy.code then e.matchBuy COrderObj.fields wrapped
    else e.matchSell COrderObj.fields wrapped
  (args.orderId, { toPyBook := book, orderCount := e.orderCount + 1 })

def getOrderCount (e : ReferenceEngine) : Nat := e.orderCount

def getTrades (e : ReferenceEngine) : List TradeDict := e.trades

/-- `[best_bid, best_ask]` -/
def getOrderBookSnapshot (e : ReferenceEngine) : Option Binary64 × Option Binary64 :=
  (e.buyOrders.head?.map (·.price), e.sellOrders.head?.map (·.price))

end ReferenceEngine

/-! ### The baseline -/

namespace Baseline

structure Order where
  orderId : Int
  side : String
  price : Binary64
  qty : Int
  timestamp : Int
deriving DecidableEq

def Order.fields : OrderFields Order where
  orderId := Order.orderId
  price := Order.price
  quantity := Order.qty
  timestamp := Order.timestamp
  setQuantity order qty := { order with qty }

abbrev OrderBook := PyBook Order

def OrderBook.addOrder (order : Order) (b : OrderBook) : OrderBook :=
  if order.side = "buy" then b.matchBuy Order.fields order else b.matchSell Order.fields order

end Baseline

end ChronosMatch
