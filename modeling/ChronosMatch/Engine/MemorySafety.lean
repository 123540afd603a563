import ChronosMatch.Engine.Memory

/-!
# No access outside a block

The engine in memory simulates the list model step by step: where a function of the list model takes one
value to another, the function on memory, run on a representation of the first, does not fail and ends in
a representation of the second. The one thing `realloc` has to keep to is that it never finds a block of
`2 ^ 63` bytes; without that the size in bytes could wrap.
-/

namespace ChronosMatch

/-- No block has more than `PTRDIFF_MAX` bytes. -/
def Realloc.Limited (realloc : Realloc) : Prop := ∀ buffer bytes, realloc buffer bytes = true → bytes < 2 ^ 63

/-- The growth of the list model, which counts elements where `realloc` counts bytes. -/
def Realloc.growth (realloc : Realloc) : Growth :=
  fun buffer capacity => realloc buffer (capacity * buffer.elementSize % 2 ^ 64)

namespace CEngine

structure Represents (m : CEngine) (e : MatchingEngine) : Prop where
  buyOrders : m.buyOrders.Represents Buffer.buyOrders.elementSize e.buyOrders e.buyCapacity
  sellOrders : m.sellOrders.Represents Buffer.sellOrders.elementSize e.sellOrders e.sellCapacity
  trades : m.trades.Represents Buffer.trades.elementSize e.trades e.tradeCapacity
  orderCount : m.orderCount = e.orderCount
  orderCount_lt : e.orderCount < 2 ^ 64

theorem represents_empty : Represents {} MatchingEngine.empty where
  buyOrders := CBuffer.represents_empty _
  sellOrders := CBuffer.represents_empty _
  trades := CBuffer.represents_empty _
  orderCount := rfl
  orderCount_lt := by decide

theorem Represents.resting {m : CEngine} {e : MatchingEngine} (h : m.Represents e) (side : Side) :
    (m.resting side).Represents 40 (e.resting side)
      (match side with
        | .buy => e.buyCapacity
        | .sell => e.sellCapacity) := by
  cases side with
  | buy => exact h.buyOrders
  | sell => exact h.sellOrders

theorem Represents.withMatch {m : CEngine} {e : MatchingEngine} (h : m.Represents e) (side : Side)
    {orders : CBuffer COrder} {xs : List COrder} {trades : CBuffer CTrade} {ts : List CTrade} {tradeCapacity : Nat}
    (horders : orders.Represents 40 xs
      (match side with
        | .buy => e.buyCapacity
        | .sell => e.sellCapacity))
    (htrades : trades.Represents Buffer.trades.elementSize ts tradeCapacity) :
    Represents { m.withResting side orders with trades }
      { e.withResting side xs with
        trades := ts
        tradeCapacity } := by
  cases side with
  | buy => exact { h with
      buyOrders := horders
      trades := htrades }
  | sell => exact { h with
      sellOrders := horders
      trades := htrades }

/-- A computation on memory that gives what the list model gives. -/
def Simulates {ρ : Type} (low : Option (ρ × CEngine)) (high : ρ × MatchingEngine) : Prop :=
  ∃ m, low = some (high.1, m) ∧ m.Represents high.2

variable {realloc : Realloc}

theorem recordTrade_simulates (hlimit : realloc.Limited) {trades : CBuffer CTrade} {ts : List CTrade}
    {capacity : Nat} (h : trades.Represents Buffer.trades.elementSize ts capacity) (trade : CTrade) :
    let high := MatchingEngine.ensureTradeCapacity realloc.growth ts capacity
    let low := recordTrade realloc trade trades
    (∃ err, high = .error err ∧ low = some (.error err)) ∨
      ∃ newCapacity trades', high = .ok newCapacity ∧ low = some (.ok trades') ∧
        trades'.Represents Buffer.trades.elementSize (ts ++ [trade]) newCapacity := by
  intro high low
  dsimp only [low, recordTrade]
  obtain ⟨err, hhigh, hlow⟩ | ⟨newCapacity, trades', hhigh, hlow, hroom, hrep⟩ :=
    h.ensureCapacity (by decide) (by decide) "Trade capacity overflow" "Unable to allocate trade buffer"
      (hlimit .trades)
  · rw [hlow]
    exact .inl ⟨err, hhigh, rfl⟩
  · obtain ⟨trades'', happend, hrep'⟩ := hrep.append (by decide) hroom trade
    rw [hlow]
    dsimp only
    rw [happend]
    exact .inr ⟨newCapacity, trades'', hhigh, rfl, hrep'⟩

theorem matchLoop_simulates (hlimit : realloc.Limited) (crosses : COrder → COrder → Bool)
    (trade : COrder → COrder → Nat → CTrade) (xs : List COrder) {size restingCapacity : Nat} {rounds : Nat}
    (hrounds : xs.length < rounds) (order : COrder) {resting : CBuffer COrder} {trades : CBuffer CTrade}
    {ts : List CTrade} {tradeCapacity : Nat} (hresting : resting.Represents size xs restingCapacity)
    (htrades : trades.Represents Buffer.trades.elementSize ts tradeCapacity) :
    ∃ st, matchLoop realloc crosses trade rounds ⟨order, resting, trades⟩ =
        some ((MatchingEngine.matchLoop realloc.growth crosses trade order xs ts tradeCapacity).1, st) ∧
      let high := (MatchingEngine.matchLoop realloc.growth crosses trade order xs ts tradeCapacity).2
      st.order = high.order ∧ st.resting.Represents size high.resting restingCapacity ∧
        st.trades.Represents Buffer.trades.elementSize high.trades high.tradeCapacity := by
  induction xs generalizing rounds order resting trades ts tradeCapacity with
  | nil =>
      obtain ⟨rounds, rfl⟩ : ∃ n, rounds = n + 1 := ⟨rounds - 1, by omega⟩
      refine ⟨⟨order, resting, trades⟩, ?_, rfl, hresting, htrades⟩
      have hcount : ¬ 0 < resting.count := by simp [hresting.count]
      rw [matchLoop, if_neg (fun h => hcount h.2)]
      rfl
  | cons best rest ih =>
      obtain ⟨rounds, rfl⟩ : ∃ n, rounds = n + 1 := ⟨rounds - 1, by omega⟩
      have hcount : 0 < resting.count := by simp [hresting.count]
      have hload : CArray.load resting.cells 0 = some best := hresting.holds.load 0 (by simp)
      rw [MatchingEngine.matchLoop]
      by_cases htest : 0 < order.quantity ∧ crosses best order = true
      · obtain ⟨hpos, hcross⟩ := htest
        rw [matchLoop, if_pos ⟨hpos, hcount⟩, hload, if_pos ⟨hpos, hcross⟩]
        dsimp only [Option.bind_eq_bind, Option.bind_some]
        rw [if_pos hcross]
        obtain ⟨err, hhigh, hlow⟩ | ⟨capacity, trades', hhigh, hlow, htrades'⟩ :=
          recordTrade_simulates hlimit htrades (trade order best
            (if order.quantity < best.quantity then order.quantity else best.quantity))
        · rw [hhigh, hlow]
          exact ⟨_, rfl, rfl, hresting, htrades⟩
        · rw [hhigh, hlow]
          dsimp only [Option.bind_some]
          generalize hmatched :
            (if order.quantity < best.quantity then order.quantity else best.quantity) = matchedQuantity at *
          obtain ⟨resting', hset, hresting'⟩ :=
            hresting.setFirst { best with quantity := best.quantity - matchedQuantity }
          rw [hset, Option.bind_some]
          by_cases hfilled : best.quantity - matchedQuantity = 0
          · obtain ⟨resting'', hremove, hresting''⟩ := hresting'.removeFirst
            rw [if_pos hfilled, if_pos hfilled, hremove, Option.bind_some]
            exact ih (by simpa using hrounds) _ hresting'' htrades'
          · rw [if_neg hfilled, if_neg hfilled]
            -- the incoming order is used up, so the next round fails its test
            have hnone : ¬ 0 < order.quantity - matchedQuantity := by
              rw [← hmatched] at hfilled ⊢
              split at hfilled <;> split <;> omega
            obtain ⟨rounds, rfl⟩ : ∃ n, rounds = n + 1 := ⟨rounds - 1, by simp at hrounds; omega⟩
            rw [matchLoop, if_neg fun h => hnone h.1]
            exact ⟨_, rfl, rfl, hresting', htrades'⟩
      · rw [if_neg htest]
        refine ⟨⟨order, resting, trades⟩, ?_, rfl, hresting, htrades⟩
        by_cases hpos : 0 < order.quantity
        · rw [matchLoop, if_pos ⟨hpos, hcount⟩, hload]
          dsimp only [Option.bind_eq_bind, Option.bind_some]
          rw [if_neg fun hcross => htest ⟨hpos, hcross⟩]
          rfl
        · rw [matchLoop, if_neg fun h => hpos h.1]
          rfl

theorem insertBuy_simulates (hlimit : realloc.Limited) (order : COrder) {m : CEngine} {e : MatchingEngine}
    (h : m.Represents e) :
    (∃ err, MatchingEngine.insertBuy realloc.growth order e = .error err ∧
        insertBuy realloc order m = some (.error err)) ∨
      ∃ e' m', MatchingEngine.insertBuy realloc.growth order e = .ok e' ∧
        insertBuy realloc order m = some (.ok m') ∧ m'.Represents e' := by
  simp only [MatchingEngine.insertBuy, insertBuy]
  obtain ⟨err, hhigh, hlow⟩ | ⟨buyCapacity, buyOrders, hhigh, hlow, hroom, hrep⟩ :=
    h.buyOrders.ensureCapacity (by decide) (by decide) "Buy order capacity overflow"
      "Unable to allocate buy order buffer" (hlimit .buyOrders)
  · have hhigh : e.ensureBuyCapacity realloc.growth = .error err := hhigh
    rw [hhigh, hlow]
    exact .inl ⟨err, rfl, rfl⟩
  · have hhigh : e.ensureBuyCapacity realloc.growth = .ok buyCapacity := hhigh
    obtain ⟨buyOrders', hinsert, hrep'⟩ := hrep.insertSorted (by decide) hroom (fun other : COrder =>
      order.price > other.price || (order.price = other.price && order.timestamp < other.timestamp)) order
    rw [hhigh, hlow]
    dsimp only
    rw [hinsert]
    refine .inr ⟨_, _, rfl, rfl, ?_⟩
    exact { h with buyOrders := hrep' }

theorem insertSell_simulates (hlimit : realloc.Limited) (order : COrder) {m : CEngine} {e : MatchingEngine}
    (h : m.Represents e) :
    (∃ err, MatchingEngine.insertSell realloc.growth order e = .error err ∧
        insertSell realloc order m = some (.error err)) ∨
      ∃ e' m', MatchingEngine.insertSell realloc.growth order e = .ok e' ∧
        insertSell realloc order m = some (.ok m') ∧ m'.Represents e' := by
  simp only [MatchingEngine.insertSell, insertSell]
  obtain ⟨err, hhigh, hlow⟩ | ⟨sellCapacity, sellOrders, hhigh, hlow, hroom, hrep⟩ :=
    h.sellOrders.ensureCapacity (by decide) (by decide) "Sell order capacity overflow"
      "Unable to allocate sell order buffer" (hlimit .sellOrders)
  · have hhigh : e.ensureSellCapacity realloc.growth = .error err := hhigh
    rw [hhigh, hlow]
    exact .inl ⟨err, rfl, rfl⟩
  · have hhigh : e.ensureSellCapacity realloc.growth = .ok sellCapacity := hhigh
    obtain ⟨sellOrders', hinsert, hrep'⟩ := hrep.insertSorted (by decide) hroom (fun other : COrder =>
      order.price < other.price || (order.price = other.price && order.timestamp < other.timestamp)) order
    rw [hhigh, hlow]
    dsimp only
    rw [hinsert]
    refine .inr ⟨_, _, rfl, rfl, ?_⟩
    exact { h with sellOrders := hrep' }

/-- A match simulates if the insertion of its side does. -/
theorem matchOrder_simulates (hlimit : realloc.Limited) (side : Side) (crosses : COrder → COrder → Bool)
    (trade : COrder → COrder → Nat → CTrade)
    {insertHigh : COrder → MatchingEngine → Except PyError MatchingEngine}
    {insertLow : COrder → CEngine → Option (Except PyError CEngine)}
    (hinsert : ∀ order {m : CEngine} {e : MatchingEngine}, m.Represents e →
      (∃ err, insertHigh order e = .error err ∧ insertLow order m = some (.error err)) ∨
        ∃ e' m', insertHigh order e = .ok e' ∧ insertLow order m = some (.ok m') ∧ m'.Represents e')
    (order : COrder) {m : CEngine} {e : MatchingEngine} (h : m.Represents e) :
    Simulates (matchOrder realloc side crosses trade insertLow order m)
      (MatchingEngine.matchOrder realloc.growth side crosses trade insertHigh order e) := by
  have hresting := h.resting side.opposite
  have hrounds : (e.resting side.opposite).length < (m.resting side.opposite).count + 1 := by
    rw [hresting.count]
    exact Nat.lt_succ_self _
  obtain ⟨st, hloop, horder, hrest, htrades⟩ :=
    matchLoop_simulates hlimit crosses trade (e.resting side.opposite) hrounds order hresting h.trades
  have hmatched := h.withMatch side.opposite hrest htrades
  rw [matchOrder, MatchingEngine.matchOrder, hloop]
  dsimp only [Option.bind_eq_bind, Option.bind_some]
  rcases hhigh : MatchingEngine.matchLoop realloc.growth crosses trade order (e.resting side.opposite) e.trades
    e.tradeCapacity with ⟨result, high⟩
  rw [hhigh] at horder hmatched
  cases result with
  | error err => exact ⟨_, rfl, hmatched⟩
  | ok _ =>
      dsimp only
      rw [horder]
      split
      · obtain ⟨err, hhigh, hlow⟩ | ⟨e', m', hhigh, hlow, hrep⟩ := hinsert high.order hmatched
        · rw [hhigh, hlow]
          exact ⟨_, rfl, hmatched⟩
        · rw [hhigh, hlow]
          exact ⟨m', rfl, hrep⟩
      · exact ⟨_, rfl, hmatched⟩

theorem submit_simulates (hlimit : realloc.Limited) (order : COrder) {m : CEngine} {e : MatchingEngine}
    (h : m.Represents e) : Simulates (submit realloc order m) (MatchingEngine.submit realloc.growth order e) := by
  rw [submit, MatchingEngine.submit, h.orderCount]
  by_cases hlast : e.orderCount = 2 ^ 64 - 1
  · rw [if_pos hlast, if_pos hlast]
    exact ⟨m, rfl, h⟩
  rw [if_neg hlast, if_neg hlast]
  obtain ⟨m', hlow, hrep⟩ : Simulates
      (if order.side = .buy then matchBuy realloc order m else matchSell realloc order m)
      (if order.side = .buy then MatchingEngine.matchBuy realloc.growth order e
        else MatchingEngine.matchSell realloc.growth order e) := by
    split
    · exact matchOrder_simulates hlimit .buy _ _ (fun order _ _ h => insertBuy_simulates hlimit order h) order h
    · exact matchOrder_simulates hlimit .sell _ _ (fun order _ _ h => insertSell_simulates hlimit order h) order h
  rw [hlow]
  rcases hhigh : (if order.side = .buy then MatchingEngine.matchBuy realloc.growth order e
    else MatchingEngine.matchSell realloc.growth order e) with ⟨result, e'⟩
  rw [hhigh] at hrep
  dsimp only at hrep
  cases result with
  | error err => exact ⟨m', rfl, hrep⟩
  | ok _ =>
      refine ⟨{ m' with orderCount := (m'.orderCount + 1) % 2 ^ 64 }, rfl, ?_⟩
      have hsubmit : MatchingEngine.submit realloc.growth order e =
          (.ok (), { e' with orderCount := e'.orderCount + 1 }) := by
        rw [MatchingEngine.submit, if_neg hlast, hhigh]
      have hlt := h.orderCount_lt
      cases MatchingEngine.submit_effect hsubmit with
      | accepted hroom hmatched hstop hown hcount =>
          dsimp only at hcount
          exact { hrep with
            orderCount := by
              rw [hrep.orderCount]
              exact Nat.mod_eq_of_lt (by omega)
            orderCount_lt := by
              dsimp only
              omega }

theorem addOrder_simulates (hlimit : realloc.Limited) (args : OrderArgs) {m : CEngine} {e : MatchingEngine}
    (h : m.Represents e) : Simulates (m.addOrder realloc args) (e.addOrder realloc.growth args) := by
  rw [addOrder, MatchingEngine.addOrder]
  cases MatchingEngine.parseOrder args with
  | error err => exact ⟨m, rfl, h⟩
  | ok order =>
      obtain ⟨m', hlow, hrep⟩ := submit_simulates hlimit order h
      rcases hhigh : MatchingEngine.submit realloc.growth order e with ⟨_ | _, e'⟩
      · rw [hhigh] at hlow hrep
        dsimp only
        rw [hlow, hhigh]
        exact ⟨m', rfl, hrep⟩
      · rw [hhigh] at hlow hrep
        dsimp only
        rw [hlow, hhigh]
        exact ⟨m', rfl, hrep⟩

theorem batchLoop_simulates (hlimit : realloc.Limited) (items : List MatchingEngine.BatchItem) (processed : Nat)
    {m : CEngine} {e : MatchingEngine} (h : m.Represents e) :
    Simulates (batchLoop realloc items processed m)
      (MatchingEngine.batchLoop realloc.growth items processed e) := by
  induction items generalizing processed m e with
  | nil => exact ⟨m, rfl, h⟩
  | cons item items ih =>
      rw [batchLoop, MatchingEngine.batchLoop]
      cases MatchingEngine.parseItem item with
      | error err => exact ⟨m, rfl, h⟩
      | ok order =>
          obtain ⟨m', hlow, hrep⟩ := submit_simulates hlimit order h
          rcases hhigh : MatchingEngine.submit realloc.growth order e with ⟨_ | _, e'⟩
          · rw [hhigh] at hlow hrep
            dsimp only
            rw [hlow, hhigh]
            exact ⟨m', rfl, hrep⟩
          · rw [hhigh] at hlow hrep
            dsimp only
            rw [hlow, hhigh]
            exact ih (processed + 1) hrep

/-! ### Runs -/

/-- The allocator a call meets. -/
def Call.allocator : Call → Realloc
  | .addOrder realloc _ => realloc
  | .addOrdersBatch realloc _ => realloc

/-- The call on the list model. -/
def Call.toCall : Call → MatchingEngine.Call
  | .addOrder realloc args => .addOrder realloc.growth args
  | .addOrdersBatch realloc orders => .addOrdersBatch realloc.growth orders

theorem Call.perform_simulates (call : Call) (hlimit : call.allocator.Limited) {m : CEngine} {e : MatchingEngine}
    (h : m.Represents e) : Simulates (call.perform m) (call.toCall.perform e) := by
  cases call with
  | addOrder realloc args => exact addOrder_simulates hlimit args h
  | addOrdersBatch realloc orders => exact batchLoop_simulates hlimit orders 0 h

theorem run_simulates (calls : List Call) (hlimit : ∀ call ∈ calls, call.allocator.Limited) {m : CEngine}
    {e : MatchingEngine} (h : m.Represents e) :
    Simulates (run calls m)
      (MatchingEngine.results (calls.map Call.toCall) e, MatchingEngine.run (calls.map Call.toCall) e) := by
  induction calls generalizing m e with
  | nil => exact ⟨m, rfl, h⟩
  | cons call calls ih =>
      obtain ⟨m', hlow, hrep⟩ := call.perform_simulates (hlimit call List.mem_cons_self) h
      obtain ⟨m'', hrun, hrep'⟩ := ih (fun call hmem => hlimit call (List.mem_cons_of_mem _ hmem)) hrep
      refine ⟨m'', ?_, hrep'⟩
      rw [run, hlow, Option.bind_eq_bind, Option.bind_some]
      dsimp only
      rw [hrun]
      rfl

theorem getTradesSince_eq {m : CEngine} {e : MatchingEngine} (h : m.Represents e) (start : Nat) :
    m.getTradesSince start = some (e.getTradesSince start) := by
  rw [getTradesSince, h.trades.count, h.trades.holds.collect, MatchingEngine.getTradesSince]

theorem bestPrice_eq {orders : CBuffer COrder} {xs : List COrder} {size capacity : Nat}
    (h : orders.Represents size xs capacity) : bestPrice orders = some (xs.head?.map (·.price.value)) := by
  rw [bestPrice, h.count]
  cases xs with
  | nil => rfl
  | cons best rest =>
      rw [if_pos (by simp), h.holds.load 0 (by simp)]
      rfl

theorem getOrderBookSnapshot_eq {m : CEngine} {e : MatchingEngine} (h : m.Represents e) :
    m.getOrderBookSnapshot = some e.getOrderBookSnapshot := by
  rw [getOrderBookSnapshot, bestPrice_eq h.buyOrders, bestPrice_eq h.sellOrders]
  rfl

theorem scanLevels_eq {orders : CBuffer COrder} {xs : List COrder} {size capacity : Nat}
    (h : orders.Represents size xs capacity) (maxLevels : Int) :
    scanLevels maxLevels orders = some (MatchingEngine.scanLevels maxLevels xs) := by
  rw [scanLevels, h.count, h.holds.fold]
  rfl

theorem getBookDepth_eq {m : CEngine} {e : MatchingEngine} (h : m.Represents e) (maxLevels : Int) :
    m.getBookDepth maxLevels = some (e.getBookDepth maxLevels) := by
  rw [getBookDepth, MatchingEngine.getBookDepth]
  split
  · rw [scanLevels_eq h.buyOrders, scanLevels_eq h.sellOrders, h.buyOrders.count, h.sellOrders.count]
    rfl
  · rfl

theorem priceMap_eq {orders : CBuffer COrder} {xs : List COrder} {size capacity : Nat}
    (h : orders.Represents size xs capacity) : priceMap orders = some (MatchingEngine.priceMap xs) := by
  rw [priceMap, h.count, h.holds.fold]
  rfl

theorem getOrderBookDepth_eq {m : CEngine} {e : MatchingEngine} (h : m.Represents e) (depth : Int) :
    m.getOrderBookDepth depth = some (e.getOrderBookDepth depth) := by
  rw [getOrderBookDepth, MatchingEngine.getOrderBookDepth]
  split
  · split
    · rfl
    · rw [priceMap_eq h.buyOrders, priceMap_eq h.sellOrders]
      rfl
  · rfl

theorem getTrades_eq {m : CEngine} {e : MatchingEngine} (h : m.Represents e) : m.getTrades = some e.getTrades := by
  have hcollect := h.trades.holds.collect CTrade.toDict 0
  rw [Nat.sub_zero, List.drop_zero] at hcollect
  rw [getTrades, h.trades.count, hcollect, MatchingEngine.getTrades]

/-- From `__cinit__` on, no call and no read of the results leaves the blocks or meets an unwritten cell,
and every one returns what the list model returns. -/
theorem run_memory_safe (calls : List Call) (hlimit : ∀ call ∈ calls, call.allocator.Limited) (start : Nat)
    (maxLevels depth : Int) :
    let e := MatchingEngine.run (calls.map Call.toCall) MatchingEngine.empty
    ∃ m, run calls {} = some (MatchingEngine.results (calls.map Call.toCall) .empty, m) ∧
      m.orderCount = e.getOrderCount ∧ m.trades.count = e.getTradeCount ∧
      (m.buyOrders.count, m.sellOrders.count) = e.getOrderBookCounts ∧
      m.getTrades = some e.getTrades ∧ m.getTradesSince start = some (e.getTradesSince start) ∧
      m.getOrderBookSnapshot = some e.getOrderBookSnapshot ∧
      m.getBookDepth maxLevels = some (e.getBookDepth maxLevels) ∧
      m.getOrderBookDepth depth = some (e.getOrderBookDepth depth) := by
  intro e
  obtain ⟨m, hrun, hrep⟩ := run_simulates calls hlimit represents_empty
  have hcounts : (m.buyOrders.count, m.sellOrders.count) = e.getOrderBookCounts :=
    Prod.ext hrep.buyOrders.count hrep.sellOrders.count
  exact ⟨m, hrun, hrep.orderCount, hrep.trades.count, hcounts, getTrades_eq hrep, getTradesSince_eq hrep start,
    getOrderBookSnapshot_eq hrep, getBookDepth_eq hrep maxLevels, getOrderBookDepth_eq hrep depth⟩

/-- A page of memory, and no more. -/
def onePage : Realloc := fun _ bytes => bytes < 4096

theorem run_memory_safe_onePage :
    ∃ m, run [.addOrder onePage ⟨1, 0, Binary64.ofInt 100, 5, 1⟩,
        .addOrdersBatch onePage [.tuple ⟨2, 1, Binary64.ofInt 99, 3, 2⟩, .wrongLength]] {} =
      some ([.ok 1, .error (.valueError
        "Each order must contain 5 values: (order_id, side, price, quantity, timestamp)")], m) ∧
      m.getTradesSince 0 = some [⟨1, 2, Binary64.ofInt 100, 3⟩] ∧
      m.getBookDepth 5 = some (.ok ⟨[(Binary64.ofInt 100, 2)], [], 2, 0, 1, 0⟩) := by
  obtain ⟨m, hrun, -, -, -, -, htrades, -, hdepth, -⟩ := run_memory_safe
    [.addOrder onePage ⟨1, 0, Binary64.ofInt 100, 5, 1⟩,
      .addOrdersBatch onePage [.tuple ⟨2, 1, Binary64.ofInt 99, 3, 2⟩, .wrongLength]]
    (by
      intro call hcall
      simp only [List.mem_cons, List.not_mem_nil, or_false] at hcall
      rcases hcall with rfl | rfl <;> exact fun _ bytes hbytes => by
        have := of_decide_eq_true hbytes
        omega) 0 5 5
  refine ⟨m, hrun.trans (congrArg (fun results => some (results, m)) ?_), htrades.trans (congrArg some ?_),
    hdepth.trans (congrArg some ?_)⟩
  · decide
  · decide
  · decide

end CEngine

end ChronosMatch
