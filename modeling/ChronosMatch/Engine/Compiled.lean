import ChronosMatch.Base.ArrayShift
import ChronosMatch.Engine.Order

/-!
# The compiled engine

`MatchingEngine` of `src/engine/matching_engine.pyx`. A buffer and its count are one list, and its
capacity stands beside it. Each mirrored pair of C functions is one definition with a parameter for what
differs. A call that raises returns the exception together with the engine as it was left.
-/

namespace ChronosMatch

inductive Buffer
  | buyOrders
  | sellOrders
  | trades
deriving DecidableEq

/-- Whether `realloc` finds the memory for a buffer of a new capacity. A call grows a buffer to any
one capacity at most once, so a `Growth` covers every pattern of failures within the call. -/
abbrev Growth := Buffer → Nat → Bool

def Growth.unlimited : Growth := fun _ _ => true

structure MatchingEngine where
  orderCount : Nat := 0
  buyOrders : List COrder := []
  sellOrders : List COrder := []
  buyCapacity : Nat := 0
  sellCapacity : Nat := 0
  trades : List CTrade := []
  tradeCapacity : Nat := 0
deriving DecidableEq

namespace MatchingEngine

/-- `__cinit__` -/
def empty : MatchingEngine := {}

/-- The resting orders of a side. -/
def resting (e : MatchingEngine) : Side → List COrder
  | .buy => e.buyOrders
  | .sell => e.sellOrders

def withResting (e : MatchingEngine) (side : Side) (orders : List COrder) : MatchingEngine :=
  match side with
  | .buy => { e with buyOrders := orders }
  | .sell => { e with sellOrders := orders }

/-! ### Capacity management -/

def ensureCapacity (overflow allocation : String) (realloc : Nat → Bool) (count capacity : Nat) :
    Except PyError Nat :=
  let allocate (newCapacity : Nat) : Except PyError Nat :=
    if realloc newCapacity then .ok newCapacity else .error (.memoryError allocation)
  if count < capacity then .ok capacity
  else if capacity = 0 then allocate 16
  else if (2 ^ 64 - 1) / 2 < capacity then .error (.memoryError overflow)
  else allocate (capacity * 2)

def ensureBuyCapacity (grow : Growth) (e : MatchingEngine) : Except PyError Nat :=
  ensureCapacity "Buy order capacity overflow" "Unable to allocate buy order buffer"
    (grow .buyOrders) e.buyOrders.length e.buyCapacity

def ensureSellCapacity (grow : Growth) (e : MatchingEngine) : Except PyError Nat :=
  ensureCapacity "Sell order capacity overflow" "Unable to allocate sell order buffer"
    (grow .sellOrders) e.sellOrders.length e.sellCapacity

def ensureTradeCapacity (grow : Growth) (trades : List CTrade) (tradeCapacity : Nat) : Except PyError Nat :=
  ensureCapacity "Trade capacity overflow" "Unable to allocate trade buffer"
    (grow .trades) trades.length tradeCapacity

/-! ### Insertion -/

/-- The scan for the first order the new one goes before, then the shift of everything from there on. -/
def insertSorted (goesBefore : COrder → COrder → Bool) (order : COrder) (orders : List COrder) : List COrder :=
  ArrayShift.insertAt orders (orders.findIdx (goesBefore order)) order

def insertBuy (grow : Growth) (order : COrder) (e : MatchingEngine) : Except PyError MatchingEngine := do
  let buyCapacity ← e.ensureBuyCapacity grow
  let goesBefore (order other : COrder) : Bool :=
    order.price > other.price || (order.price = other.price && order.timestamp < other.timestamp)
  return { e with buyCapacity, buyOrders := insertSorted goesBefore order e.buyOrders }

def insertSell (grow : Growth) (order : COrder) (e : MatchingEngine) : Except PyError MatchingEngine := do
  let sellCapacity ← e.ensureSellCapacity grow
  let goesBefore (order other : COrder) : Bool :=
    order.price < other.price || (order.price = other.price && order.timestamp < other.timestamp)
  return { e with sellCapacity, sellOrders := insertSorted goesBefore order e.sellOrders }

/-! ### Matching -/

/-- What the match loop works on: the incoming order, the opposite side, and the trade buffer. -/
structure MatchState where
  order : COrder
  resting : List COrder
  trades : List CTrade
  tradeCapacity : Nat

/-- The `while` loop of a match. The first resting order is removed when it is filled; when it keeps
a remainder the incoming order has none, so the loop test fails next. `matchLoop_eq` states the loop
with its test and its array shift. -/
def matchLoop (grow : Growth) (crosses : COrder → COrder → Bool) (trade : COrder → COrder → Nat → CTrade) :
    COrder → List COrder → List CTrade → Nat → Except PyError Unit × MatchState
  | order, [], trades, tradeCapacity => (.ok (), ⟨order, [], trades, tradeCapacity⟩)
  | order, best :: rest, trades, tradeCapacity =>
      if 0 < order.quantity ∧ crosses best order then
        let matchedQuantity := if order.quantity < best.quantity then order.quantity else best.quantity
        match ensureTradeCapacity grow trades tradeCapacity with
        | .error err => (.error err, ⟨order, best :: rest, trades, tradeCapacity⟩)
        | .ok tradeCapacity =>
            let trades := trades ++ [trade order best matchedQuantity]
            let order := { order with quantity := order.quantity - matchedQuantity }
            let best := { best with quantity := best.quantity - matchedQuantity }
            if best.quantity = 0 then matchLoop grow crosses trade order rest trades tradeCapacity
            else (.ok (), ⟨order, best :: rest, trades, tradeCapacity⟩)
      else (.ok (), ⟨order, best :: rest, trades, tradeCapacity⟩)

/-- Match an incoming order of a side against the opposite side, then let its remainder rest. -/
def matchOrder (grow : Growth) (side : Side) (crosses : COrder → COrder → Bool)
    (trade : COrder → COrder → Nat → CTrade) (insert : COrder → MatchingEngine → Except PyError MatchingEngine)
    (order : COrder) (e : MatchingEngine) : Except PyError Unit × MatchingEngine :=
  let (result, st) := matchLoop grow crosses trade order (e.resting side.opposite) e.trades e.tradeCapacity
  let e := { e.withResting side.opposite st.resting with trades := st.trades, tradeCapacity := st.tradeCapacity }
  match result with
  | .error err => (.error err, e)
  | .ok () =>
      if 0 < st.order.quantity then
        match insert st.order e with
        | .error err => (.error err, e)
        | .ok e => (.ok (), e)
      else (.ok (), e)

def matchBuy (grow : Growth) : COrder → MatchingEngine → Except PyError Unit × MatchingEngine :=
  matchOrder grow .buy (fun bestSell order => bestSell.price ≤ order.price)
    (fun order bestSell matchedQuantity => ⟨order.orderId, bestSell.orderId, bestSell.price, matchedQuantity⟩)
    (insertBuy grow)

def matchSell (grow : Growth) : COrder → MatchingEngine → Except PyError Unit × MatchingEngine :=
  matchOrder grow .sell (fun bestBuy order => bestBuy.price ≥ order.price)
    (fun order bestBuy matchedQuantity => ⟨bestBuy.orderId, order.orderId, bestBuy.price, matchedQuantity⟩)
    (insertSell grow)

/-! ### Adding orders -/

/-- Conversion of a Python integer to an unsigned C integer of the given width. -/
def toUInt (width : Nat) (n : Int) : Except PyError Nat :=
  if n < 0 then .error (.overflowError "can't convert negative value to an unsigned integer")
  else if n < 2 ^ width then .ok n.toNat
  else .error (.overflowError "value too large to convert to an unsigned integer")

def checkSide (side : Int) : Except PyError Side :=
  if side = Side.buy.code then .ok .buy
  else if side = Side.sell.code then .ok .sell
  else .error (.valueError "side must be BUY (0) or SELL (1)")

def checkPrice (price : Binary64) : Except PyError Price :=
  if h : price.isFinite = true ∧ ¬ price ≤ Binary64.zero then .ok ⟨price, h.1, h.2⟩
  else .error (.valueError "price must be finite and greater than zero")

def checkQuantity (quantity : Nat) : Except PyError Nat :=
  if quantity = 0 then .error (.valueError "quantity must be greater than zero") else .ok quantity

/-- The argument conversions of the `cpdef` signature, then the checks of the body of `add_order`. -/
def parseOrder (args : OrderArgs) : Except PyError COrder := do
  let orderId ← toUInt 64 args.orderId
  let side ← toUInt 8 args.side
  let quantity ← toUInt 64 args.quantity
  let timestamp ← toUInt 64 args.timestamp
  let side ← checkSide side
  let price ← checkPrice args.price
  let quantity ← checkQuantity quantity
  return { orderId, side, price, quantity, timestamp }

/-- What `add_order` and `add_orders_batch` do with an order that passed validation. -/
def submit (grow : Growth) (order : COrder) (e : MatchingEngine) : Except PyError Unit × MatchingEngine :=
  if e.orderCount = 2 ^ 64 - 1 then (.error (.overflowError "Order count limit reached"), e)
  else
    let (result, e) := if order.side = .buy then matchBuy grow order e else matchSell grow order e
    match result with
    | .error err => (.error err, e)
    | .ok () => (.ok (), { e with orderCount := e.orderCount + 1 })

def addOrder (grow : Growth) (args : OrderArgs) (e : MatchingEngine) : Except PyError Nat × MatchingEngine :=
  match parseOrder args with
  | .error err => (.error err, e)
  | .ok order =>
      match submit grow order e with
      | (.error err, e) => (.error err, e)
      | (.ok (), e) => (.ok order.orderId, e)

/-- An element of the list passed to `add_orders_batch`. -/
inductive BatchItem
  | tuple (args : OrderArgs)
  | wrongLength

/-- The checks of the batch loop, in its own order: integers are converted after side and price. -/
def parseItem : BatchItem → Except PyError COrder
  | .wrongLength => .error (.valueError
      "Each order must contain 5 values: (order_id, side, price, quantity, timestamp)")
  | .tuple args => do
      let side ← checkSide args.side
      let price ← checkPrice args.price
      let orderId ← toUInt 64 args.orderId
      let quantity ← toUInt 64 args.quantity
      let timestamp ← toUInt 64 args.timestamp
      let quantity ← checkQuantity quantity
      return { orderId, side, price, quantity, timestamp }

def batchLoop (grow : Growth) : List BatchItem → (processed : Nat) → MatchingEngine →
    Except PyError Nat × MatchingEngine
  | [], processed, e => (.ok processed, e)
  | item :: items, processed, e =>
      match parseItem item with
      | .error err => (.error err, e)
      | .ok order =>
          match submit grow order e with
          | (.error err, e) => (.error err, e)
          | (.ok (), e) => batchLoop grow items (processed + 1) e

def addOrdersBatch (grow : Growth) (orders : List BatchItem) (e : MatchingEngine) :
    Except PyError Nat × MatchingEngine :=
  batchLoop grow orders 0 e

/-! ### Read accessors -/

def getOrderCount (e : MatchingEngine) : Nat := e.orderCount

def getTradeCount (e : MatchingEngine) : Nat := e.trades.length

def getTrades (e : MatchingEngine) : List TradeDict := e.trades.map CTrade.toDict

def getTradesSince (e : MatchingEngine) (start : Nat) : List TradeDict := (e.trades.drop start).map CTrade.toDict

/-- `[best_bid, best_ask]` -/
def getOrderBookSnapshot (e : MatchingEngine) : Option Binary64 × Option Binary64 :=
  (e.buyOrders.head?.map (·.price.value), e.sellOrders.head?.map (·.price.value))

def getOrderBookCounts (e : MatchingEngine) : Nat × Nat := (e.buyOrders.length, e.sellOrders.length)

end MatchingEngine

end ChronosMatch
