import ChronosMatch.Base.CArray
import ChronosMatch.Engine.Depth
import ChronosMatch.Engine.Runs

/-!
# The engine in C memory

`MatchingEngine` of `src/engine/matching_engine.pyx` with its three buffers as the blocks of memory they
are: every array access of the source is a load or a store that fails outside its block, a count is a
64-bit word, and `realloc` is asked for a number of bytes, computed in 64 bits. `run_memory_safe` says that a run
from `__cinit__` has no access outside a block and none to a cell that was never written, and that
the calls return what the calls of the list model return.
-/

namespace ChronosMatch

/-- Whether `realloc` finds a block of a number of bytes for a buffer. -/
abbrev Realloc := Buffer → Nat → Bool

/-- `sizeof(COrder)` and `sizeof(CTrade)` -/
def Buffer.elementSize : Buffer → Nat
  | .buyOrders => 40
  | .sellOrders => 40
  | .trades => 32

/-- A pointer with its count and capacity. `NULL` is a block without cells. -/
structure CBuffer (α : Type) where
  cells : List (Option α) := []
  count : Nat := 0
  capacity : Nat := 0

namespace CBuffer

variable {α : Type}

/-- The buffer in the block `realloc` has given for `new_capacity * sizeof(...)` bytes. -/
def grown (size newCapacity : Nat) (b : CBuffer α) : CBuffer α :=
  { b with
    cells := CArray.realloc b.cells (newCapacity * size % 2 ^ 64 / size)
    capacity := newCapacity }

def ensureCapacity (overflow allocation : String) (size : Nat) (realloc : Nat → Bool) (b : CBuffer α) :
    Except PyError (CBuffer α) :=
  let allocate (newCapacity : Nat) : Except PyError (CBuffer α) :=
    if realloc (newCapacity * size % 2 ^ 64) then .ok (b.grown size newCapacity)
    else .error (.memoryError allocation)
  if b.count < b.capacity then .ok b
  else if b.capacity = 0 then allocate 16
  else if (2 ^ 64 - 1) / 2 < b.capacity then .error (.memoryError overflow)
  else allocate (b.capacity * 2)

/-- `buffer[count] = x; count += 1` -/
def append (x : α) (b : CBuffer α) : Option (CBuffer α) := do
  let cells ← CArray.store b.cells b.count x
  return { b with
    cells
    count := (b.count + 1) % 2 ^ 64 }

/-- The scan for the position, the shift and the store of `_insert_buy` and `_insert_sell`. -/
def insertSorted (goesBefore : α → Bool) (x : α) (b : CBuffer α) : Option (CBuffer α) := do
  let position ← CArray.scan goesBefore b.cells 0 b.count
  let cells ← CArray.shiftUp position b.cells b.count
  let cells ← CArray.store cells position x
  return { b with
    cells
    count := (b.count + 1) % 2 ^ 64 }

/-- `buffer[0] = x` -/
def setFirst (x : α) (b : CBuffer α) : Option (CBuffer α) := do
  let cells ← CArray.store b.cells 0 x
  return { b with cells }

/-- `for i in range(1, count): buffer[i - 1] = buffer[i]`, then `count -= 1`. -/
def removeFirst (b : CBuffer α) : Option (CBuffer α) := do
  let cells ← CArray.shiftDown b.cells 1 (b.count - 1)
  return { b with
    cells
    count := b.count - 1 }

/-- The buffer holds a list, in a block that is as large as its capacity says. -/
structure Represents (size : Nat) (b : CBuffer α) (xs : List α) (capacity : Nat) : Prop where
  holds : CArray.Holds b.cells xs
  allocated : b.cells.length = capacity
  bytes : capacity * size < 2 ^ 63
  count : b.count = xs.length
  capacity : b.capacity = capacity

theorem represents_empty (size : Nat) : Represents size ({} : CBuffer α) [] 0 where
  holds := CArray.holds_nil _
  count := rfl
  capacity := rfl
  allocated := rfl
  bytes := by simp

namespace Represents

variable {size capacity : Nat} {b : CBuffer α} {xs : List α}

theorem length_le (h : b.Represents size xs capacity) : xs.length ≤ capacity :=
  h.allocated ▸ h.holds.length_le

/-- The next capacity in bytes fits a 64-bit word, so the block has the cells that were asked for. -/
theorem grown (h : b.Represents size xs capacity) (hsize : 0 < size) {newCapacity : Nat}
    (hle : capacity ≤ newCapacity) (hbytes : newCapacity * size < 2 ^ 63) :
    (b.grown size newCapacity).Represents size xs newCapacity := by
  have hcells : newCapacity * size % 2 ^ 64 / size = newCapacity := by
    rw [Nat.mod_eq_of_lt (by omega), Nat.mul_div_cancel _ hsize]
  rw [CBuffer.grown, hcells]
  exact {
    holds := h.holds.realloc (h.allocated ▸ hle)
    count := h.count
    capacity := rfl
    allocated := CArray.length_realloc _ _
    bytes := hbytes }

/-- Growing gives a represented buffer with a free cell, or fails exactly where the list model does. -/
theorem ensureCapacity (h : b.Represents size xs capacity) (hsize : 0 < size) (hsmall : 16 * size < 2 ^ 63)
    (overflow allocation : String) {realloc : Nat → Bool}
    (hlimit : ∀ bytes, realloc bytes = true → bytes < 2 ^ 63) :
    let high := MatchingEngine.ensureCapacity overflow allocation (fun n => realloc (n * size % 2 ^ 64)) xs.length
      capacity
    let low := b.ensureCapacity overflow allocation size realloc
    (∃ err, high = .error err ∧ low = .error err) ∨
      ∃ newCapacity b', high = .ok newCapacity ∧ low = .ok b' ∧ xs.length < newCapacity ∧
        b'.Represents size xs newCapacity := by
  intro high low
  have hlen := h.length_le
  have hbytes := h.bytes
  simp only [high, low, MatchingEngine.ensureCapacity, CBuffer.ensureCapacity, h.count, h.capacity]
  by_cases hroom : xs.length < capacity
  · rw [if_pos hroom, if_pos hroom]
    exact .inr ⟨capacity, b, rfl, rfl, hroom, h⟩
  rw [if_neg hroom, if_neg hroom]
  by_cases hzero : capacity = 0
  · rw [if_pos hzero, if_pos hzero]
    by_cases hrealloc : realloc (16 * size % 2 ^ 64) = true
    · rw [if_pos hrealloc, if_pos hrealloc]
      exact .inr ⟨_, _, rfl, rfl, by omega, h.grown hsize (by omega) hsmall⟩
    · rw [if_neg hrealloc, if_neg hrealloc]
      exact .inl ⟨_, rfl, rfl⟩
  rw [if_neg hzero, if_neg hzero]
  by_cases hoverflow : (2 ^ 64 - 1) / 2 < capacity
  · rw [if_pos hoverflow, if_pos hoverflow]
    exact .inl ⟨_, rfl, rfl⟩
  rw [if_neg hoverflow, if_neg hoverflow]
  have hdouble : capacity * 2 * size = 2 * (capacity * size) := by rw [Nat.mul_right_comm, Nat.mul_comm]
  have hmod : capacity * 2 * size % 2 ^ 64 = capacity * 2 * size := Nat.mod_eq_of_lt (by omega)
  by_cases hrealloc : realloc (capacity * 2 * size % 2 ^ 64) = true
  · have hfound := hlimit _ hrealloc
    rw [if_pos hrealloc, if_pos hrealloc]
    exact .inr ⟨_, _, rfl, rfl, by omega, h.grown hsize (by omega) (hmod ▸ hfound)⟩
  · rw [if_neg hrealloc, if_neg hrealloc]
    exact .inl ⟨_, rfl, rfl⟩

theorem count_lt (h : b.Represents size xs capacity) (hsize : 0 < size) : xs.length < 2 ^ 63 :=
  lt_of_le_of_lt (h.length_le.trans (Nat.le_mul_of_pos_right _ hsize)) h.bytes

theorem append (h : b.Represents size xs capacity) (hsize : 0 < size) (hroom : xs.length < capacity) (x : α) :
    ∃ b', b.append x = some b' ∧ b'.Represents size (xs ++ [x]) capacity := by
  obtain ⟨cells, hstore, hlength, hholds⟩ := h.holds.push (h.allocated ▸ hroom) x
  have hcount := h.count_lt hsize
  refine ⟨{ b with cells, count := (b.count + 1) % 2 ^ 64 }, ?_, ?_⟩
  · rw [CBuffer.append, h.count, hstore]
    rfl
  · exact {
      holds := hholds
      count := by
        rw [List.length_append, List.length_singleton, h.count]
        exact Nat.mod_eq_of_lt (by omega)
      capacity := h.capacity
      allocated := hlength.trans h.allocated
      bytes := h.bytes }

theorem insertSorted (h : b.Represents size xs capacity) (hsize : 0 < size) (hroom : xs.length < capacity)
    (goesBefore : α → Bool) (x : α) :
    ∃ b', b.insertSorted goesBefore x = some b' ∧
      b'.Represents size (ArrayShift.insertAt xs (xs.findIdx goesBefore) x) capacity := by
  obtain ⟨shifted, cells, hshift, hstore, hlength, hholds⟩ :=
    h.holds.insert (h.allocated ▸ hroom) (xs.findIdx goesBefore) List.findIdx_le_length x
  have hcount := h.count_lt hsize
  refine ⟨{ b with cells, count := (b.count + 1) % 2 ^ 64 }, ?_, ?_⟩
  · rw [CBuffer.insertSorted, h.count, h.holds.scan, Option.bind_eq_bind, Option.bind_some, hshift,
      Option.bind_eq_bind, Option.bind_some, hstore]
    rfl
  · rw [ArrayShift.insertAt_eq List.findIdx_le_length]
    exact {
      holds := hholds
      count := by
        simp only [List.length_append, List.length_cons, List.length_take, List.length_drop, h.count]
        have hle : xs.findIdx goesBefore ≤ xs.length := List.findIdx_le_length
        omega
      capacity := h.capacity
      allocated := hlength.trans h.allocated
      bytes := h.bytes }

theorem setFirst {x : α} (h : b.Represents size (x :: xs) capacity) (y : α) :
    ∃ b', b.setFirst y = some b' ∧ b'.Represents size (y :: xs) capacity := by
  obtain ⟨cells, hstore, hlength, hholds⟩ := h.holds.setHead y
  refine ⟨{ b with cells }, ?_, ?_⟩
  · rw [CBuffer.setFirst, hstore]
    rfl
  · exact {
      holds := hholds
      count := h.count
      capacity := h.capacity
      allocated := hlength.trans h.allocated
      bytes := h.bytes }

theorem removeFirst {x : α} (h : b.Represents size (x :: xs) capacity) :
    ∃ b', b.removeFirst = some b' ∧ b'.Represents size xs capacity := by
  obtain ⟨cells, hshift, hlength, hholds⟩ := h.holds.removeFirst
  refine ⟨{ b with cells, count := b.count - 1 }, ?_, ?_⟩
  · rw [CBuffer.removeFirst, h.count, List.length_cons, Nat.add_sub_cancel, hshift]
    rfl
  · exact {
      holds := hholds
      count := by rw [h.count, List.length_cons, Nat.add_sub_cancel]
      capacity := h.capacity
      allocated := hlength.trans h.allocated
      bytes := h.bytes }

end Represents

end CBuffer

/-! ### The functions of the source -/

/-- The fields of the object. -/
structure CEngine where
  orderCount : Nat := 0
  buyOrders : CBuffer COrder := {}
  sellOrders : CBuffer COrder := {}
  trades : CBuffer CTrade := {}

namespace CEngine

def resting (m : CEngine) : Side → CBuffer COrder
  | .buy => m.buyOrders
  | .sell => m.sellOrders

def withResting (m : CEngine) (side : Side) (orders : CBuffer COrder) : CEngine :=
  match side with
  | .buy => { m with buyOrders := orders }
  | .sell => { m with sellOrders := orders }

/-- `_record_trade` -/
def recordTrade (realloc : Realloc) (trade : CTrade) (trades : CBuffer CTrade) :
    Option (Except PyError (CBuffer CTrade)) :=
  match trades.ensureCapacity "Trade capacity overflow" "Unable to allocate trade buffer"
    Buffer.trades.elementSize (realloc .trades) with
  | .error err => some (.error err)
  | .ok trades => (trades.append trade).map .ok

def insertBuy (realloc : Realloc) (order : COrder) (m : CEngine) : Option (Except PyError CEngine) :=
  match m.buyOrders.ensureCapacity "Buy order capacity overflow" "Unable to allocate buy order buffer"
    Buffer.buyOrders.elementSize (realloc .buyOrders) with
  | .error err => some (.error err)
  | .ok buyOrders =>
      let goesBefore (other : COrder) : Bool :=
        order.price > other.price || (order.price = other.price && order.timestamp < other.timestamp)
      (buyOrders.insertSorted goesBefore order).map fun buyOrders => .ok { m with buyOrders }

def insertSell (realloc : Realloc) (order : COrder) (m : CEngine) : Option (Except PyError CEngine) :=
  match m.sellOrders.ensureCapacity "Sell order capacity overflow" "Unable to allocate sell order buffer"
    Buffer.sellOrders.elementSize (realloc .sellOrders) with
  | .error err => some (.error err)
  | .ok sellOrders =>
      let goesBefore (other : COrder) : Bool :=
        order.price < other.price || (order.price = other.price && order.timestamp < other.timestamp)
      (sellOrders.insertSorted goesBefore order).map fun sellOrders => .ok { m with sellOrders }

structure CMatchState where
  order : COrder
  resting : CBuffer COrder
  trades : CBuffer CTrade

/-- The `while` loop of a match, for at most so many rounds. -/
def matchLoop (realloc : Realloc) (crosses : COrder → COrder → Bool) (trade : COrder → COrder → Nat → CTrade) :
    (rounds : Nat) → CMatchState → Option (Except PyError Unit × CMatchState)
  | 0, _ => none
  | rounds + 1, st =>
      if 0 < st.order.quantity ∧ 0 < st.resting.count then do
        let best ← CArray.load st.resting.cells 0
        if crosses best st.order then
          let matchedQuantity := if st.order.quantity < best.quantity then st.order.quantity else best.quantity
          let recorded ← recordTrade realloc (trade st.order best matchedQuantity) st.trades
          match recorded with
          | .error err => return (.error err, st)
          | .ok trades =>
              let order := { st.order with quantity := st.order.quantity - matchedQuantity }
              let best := { best with quantity := best.quantity - matchedQuantity }
              let resting ← st.resting.setFirst best
              if best.quantity = 0 then
                let resting ← resting.removeFirst
                matchLoop realloc crosses trade rounds ⟨order, resting, trades⟩
              else matchLoop realloc crosses trade rounds ⟨order, resting, trades⟩
        else return (.ok (), st)
      else return (.ok (), st)

/-- `_match_buy` and `_match_sell`. The loop ends before it has taken more rounds than there are
resting orders, and one. -/
def matchOrder (realloc : Realloc) (side : Side) (crosses : COrder → COrder → Bool)
    (trade : COrder → COrder → Nat → CTrade) (insert : COrder → CEngine → Option (Except PyError CEngine))
    (order : COrder) (m : CEngine) : Option (Except PyError Unit × CEngine) := do
  let (result, st) ← matchLoop realloc crosses trade ((m.resting side.opposite).count + 1)
    ⟨order, m.resting side.opposite, m.trades⟩
  let m := { m.withResting side.opposite st.resting with trades := st.trades }
  match result with
  | .error err => return (.error err, m)
  | .ok () =>
      if 0 < st.order.quantity then
        let inserted ← insert st.order m
        match inserted with
        | .error err => return (.error err, m)
        | .ok m => return (.ok (), m)
      else return (.ok (), m)

def matchBuy (realloc : Realloc) : COrder → CEngine → Option (Except PyError Unit × CEngine) :=
  matchOrder realloc .buy (fun bestSell order => bestSell.price ≤ order.price)
    (fun order bestSell matchedQuantity => ⟨order.orderId, bestSell.orderId, bestSell.price, matchedQuantity⟩)
    (insertBuy realloc)

def matchSell (realloc : Realloc) : COrder → CEngine → Option (Except PyError Unit × CEngine) :=
  matchOrder realloc .sell (fun bestBuy order => bestBuy.price ≥ order.price)
    (fun order bestBuy matchedQuantity => ⟨bestBuy.orderId, order.orderId, bestBuy.price, matchedQuantity⟩)
    (insertSell realloc)

def submit (realloc : Realloc) (order : COrder) (m : CEngine) : Option (Except PyError Unit × CEngine) :=
  if m.orderCount = 2 ^ 64 - 1 then some (.error (.overflowError "Order count limit reached"), m)
  else
    (if order.side = .buy then matchBuy realloc order m else matchSell realloc order m).map fun
      | (.error err, m) => (.error err, m)
      | (.ok (), m) => (.ok (), { m with orderCount := (m.orderCount + 1) % 2 ^ 64 })

def addOrder (realloc : Realloc) (args : OrderArgs) (m : CEngine) : Option (Except PyError Nat × CEngine) :=
  match MatchingEngine.parseOrder args with
  | .error err => some (.error err, m)
  | .ok order =>
      (submit realloc order m).map fun
        | (.error err, m) => (.error err, m)
        | (.ok (), m) => (.ok order.orderId, m)

def batchLoop (realloc : Realloc) : List MatchingEngine.BatchItem → (processed : Nat) → CEngine →
    Option (Except PyError Nat × CEngine)
  | [], processed, m => some (.ok processed, m)
  | item :: items, processed, m =>
      match MatchingEngine.parseItem item with
      | .error err => some (.error err, m)
      | .ok order =>
          (submit realloc order m).bind fun
            | (.error err, m) => some (.error err, m)
            | (.ok (), m) => batchLoop realloc items (processed + 1) m

def addOrdersBatch (realloc : Realloc) (orders : List MatchingEngine.BatchItem) (m : CEngine) :
    Option (Except PyError Nat × CEngine) :=
  batchLoop realloc orders 0 m

def getTrades (m : CEngine) : Option (List TradeDict) := CArray.collect CTrade.toDict m.trades.cells 0 m.trades.count

def getTradesSince (m : CEngine) (start : Nat) : Option (List TradeDict) :=
  CArray.collect CTrade.toDict m.trades.cells start (m.trades.count - start)

/-- `buffer[0].price` where the buffer has an order. -/
def bestPrice (orders : CBuffer COrder) : Option (Option Binary64) :=
  if 0 < orders.count then (CArray.load orders.cells 0).map fun order => some order.price.value else some none

def getOrderBookSnapshot (m : CEngine) : Option (Option Binary64 × Option Binary64) := do
  let bestBid ← bestPrice m.buyOrders
  let bestAsk ← bestPrice m.sellOrders
  return (bestBid, bestAsk)

/-- The loop of `get_book_depth` over one side. -/
def scanLevels (maxLevels : Int) (orders : CBuffer COrder) : Option MatchingEngine.LevelScan :=
  (CArray.fold (MatchingEngine.LevelScan.step maxLevels) orders.cells 0 orders.count {}).map
    MatchingEngine.LevelScan.finish

def getBookDepth (maxLevels : Int) (m : CEngine) : Option (Except PyError BookDepth) :=
  if -2 ^ 31 ≤ maxLevels ∧ maxLevels < 2 ^ 31 then do
    let bids ← scanLevels maxLevels m.buyOrders
    let asks ← scanLevels maxLevels m.sellOrders
    return .ok {
      bidLevels := bids.levels
      askLevels := asks.levels
      totalBidQty := bids.total
      totalAskQty := asks.total
      bidOrderCount := m.buyOrders.count
      askOrderCount := m.sellOrders.count }
  else some (.error (.overflowError "value too large to convert to int"))

/-- The loop of `get_order_book_depth` over one side. -/
def priceMap (orders : CBuffer COrder) : Option (List (Binary64 × Nat)) :=
  CArray.fold (fun depth order => MatchingEngine.addToMap order.price.value order.quantity depth) orders.cells 0
    orders.count []

def getOrderBookDepth (depth : Int) (m : CEngine) :
    Option (Except PyError (List (Binary64 × Nat) × List (Binary64 × Nat))) :=
  if -2 ^ 31 ≤ depth ∧ depth < 2 ^ 31 then
    if depth < 0 then some (.error (.valueError "depth must be non-negative"))
    else do
      let bidMap ← priceMap m.buyOrders
      let askMap ← priceMap m.sellOrders
      let bids := bidMap.insertionSort fun a b => ¬ MatchingEngine.TupleLt a b
      let asks := askMap.insertionSort fun a b => ¬ MatchingEngine.TupleLt b a
      return .ok (bids.take depth.toNat, asks.take depth.toNat)
  else some (.error (.overflowError "value too large to convert to int"))

inductive Call
  | addOrder (realloc : Realloc) (args : OrderArgs)
  | addOrdersBatch (realloc : Realloc) (orders : List MatchingEngine.BatchItem)

def Call.perform : Call → CEngine → Option (Except PyError Nat × CEngine)
  | addOrder realloc args, m => m.addOrder realloc args
  | addOrdersBatch realloc orders, m => m.addOrdersBatch realloc orders

/-- A list of calls: what they return, and the memory afterwards. -/
def run : List Call → CEngine → Option (List (Except PyError Nat) × CEngine)
  | [], m => some ([], m)
  | call :: calls, m => do
      let (result, m) ← call.perform m
      let (results, m) ← run calls m
      return (result :: results, m)

end CEngine

end ChronosMatch
