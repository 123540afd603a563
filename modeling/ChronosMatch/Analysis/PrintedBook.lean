import ChronosMatch.Analysis.BookAnalytics
import ChronosMatch.Engine.Agreement
import ChronosMatch.Engine.Conservation
import ChronosMatch.Monitor.DepthLadders

/-!
# The printed book

`render_order_book_text` of `src/analysis/visualizer.py` and `depth_by_price` of `src/analysis/metrics.py`, both
on the baseline book. The printed rows are the orders that an incoming order meets, in the order in which it
meets them. The depth by price is the ladder of the compiled engine. The layout of the text is left out.
-/

namespace ChronosMatch

open Levels PyBook

/-! ### The functions of the source -/

/-- `l[:stop]` -/
def sliceTo {α : Type} (stop : Int) (l : List α) : List α := l.take (if stop < 0 then l.length + stop else stop).toNat

/-- The numbers on the row of an order. -/
structure BookRow where
  price : Binary64
  qty : Int
  orderId : Int
deriving DecidableEq

/-- The numbers on the line between the two sides. -/
structure SpreadLine where
  bestBid : Binary64
  bestAsk : Binary64
  spread : Binary64
  mid : Binary64
deriving DecidableEq

/-- The lines that the text is made of. There is no spread line as long as a side is empty. -/
structure OrderBookText where
  asks : List BookRow
  spreadLine : Option SpreadLine
  bids : List BookRow
deriving DecidableEq

def bookRow (order : Baseline.Order) : BookRow := ⟨order.price, order.qty, order.orderId⟩

def renderOrderBookText (book : Baseline.OrderBook) (depth : Int) : OrderBookText :=
  let buys := listSort (fun order : Baseline.Order => (order.price.neg, order.timestamp)) book.buyOrders
  let sells := listSort (fun order : Baseline.Order => (order.price, order.timestamp)) book.sellOrders
  let bestBid := OrderBookAnalytics.maxFloat (buys.map (·.price))
  let bestAsk := OrderBookAnalytics.minFloat (sells.map (·.price))
  { asks := ((sliceTo depth sells).reverse).map bookRow
    spreadLine := Option.map₂ (fun bid ask =>
      { bestBid := bid
        bestAsk := ask
        spread := ask - bid
        mid := (ask + bid) / Binary64.ofInt 2 }) bestBid bestAsk
    bids := (sliceTo depth buys).map bookRow }

/-- `dict(sorted(depth.items()))`, where `depth` collects the quantities by price. -/
def depthByPrice (orders : List Baseline.Order) : List (Binary64 × Int) :=
  listSort id (orders.foldl (fun depth order => addDepth order.price order.qty depth) [])

/-! ### The rows as a queue -/

namespace OrderBookText

/-- The rows of a side, from the spread outward. -/
def rows (text : OrderBookText) : Side → List BookRow
  | .buy => text.bids
  | .sell => text.asks.reverse

end OrderBookText

/-- Does the row meet the limit of an incoming order of the side? -/
def BookRow.Meets (side : Side) (limit : Binary64) (row : BookRow) : Prop :=
  match side with
  | .buy => row.price ≤ limit
  | .sell => limit ≤ row.price

/-- The order of the side in a trade. -/
def TradeDict.orderIdOn (side : Side) (trade : TradeDict) : Int :=
  match side with
  | .buy => trade.buyId
  | .sell => trade.sellId

/-- The trades take the rows of the other side one by one from the spread outward, whole up to the last and each
at its price, and end where the order is filled or a row does not meet its limit. -/
structure TakesRows (text : OrderBookText) (depth : Nat) (order : COrder) (made : List TradeDict) : Prop where
  row : ∀ k trade, made[k]? = some trade → k < depth → ∃ row, (text.rows order.side.opposite)[k]? = some row ∧
    row.Meets order.side order.price.value ∧ trade.orderIdOn order.side = (order.orderId : Int) ∧
    trade.orderIdOn order.side.opposite = row.orderId ∧ trade.price = row.price ∧ trade.qty ≤ row.qty ∧
    (k + 1 < made.length → trade.qty = row.qty)
  stop : (made.map (·.qty)).sum = (order.quantity : Int) ∨
    ∀ row, (text.rows order.side.opposite)[made.length]? = some row → ¬ row.Meets order.side order.price.value

/-- The fills are the orders in front, each of which meets the limit, and whole up to the last. -/
theorem Fills.getElem? {side : Side} {order remainder : COrder} {resting left : List COrder}
    {fills : List (COrder × Nat)} (h : Fills side order resting fills remainder left) {k : Nat} {fill : COrder × Nat}
    (hfill : fills[k]? = some fill) : resting[k]? = some fill.1 ∧ crosses side fill.1 order = true ∧
      fill.2 ≤ fill.1.quantity ∧ (k + 1 < fills.length → fill.2 = fill.1.quantity) := by
  induction h generalizing k with
  | none => cases hfill
  | whole hcross hpos hle next ih =>
      cases k with
      | zero =>
          cases hfill
          exact ⟨rfl, hcross, le_rfl, fun _ => rfl⟩
      | succ k =>
          obtain ⟨hresting, hmeets, hle', hwhole⟩ := ih hfill
          rw [crosses_withQuantity] at hmeets
          exact ⟨hresting, hmeets, hle', fun hmore => hwhole (by simpa using hmore)⟩
  | part hcross hpos hlt =>
      cases k with
      | zero =>
          cases hfill
          exact ⟨rfl, hcross, hlt.le, fun hmore => absurd hmore (by simp)⟩
      | succ k => cases hfill

/-- Unless the incoming order is used up, the orders behind the fills are as they were. -/
theorem Fills.left_eq_drop {side : Side} {order remainder : COrder} {resting left : List COrder}
    {fills : List (COrder × Nat)} (h : Fills side order resting fills remainder left) (hmore : remainder.quantity ≠ 0) :
    left = resting.drop fills.length := by
  induction h with
  | none => rfl
  | whole hcross hpos hle next ih => exact ih hmore
  | part => exact absurd rfl hmore

theorem sliceTo_natCast {α : Type} (stop : Nat) (l : List α) : sliceTo stop l = l.take stop := by
  rw [sliceTo, if_neg (by omega), Int.toNat_natCast]

/-- The row of an order of the book. -/
def rowOf (order : COrder) : BookRow := ⟨order.price.value, order.quantity, order.orderId⟩

theorem rowOf_meets {side : Side} {order best : COrder} :
    (rowOf best).Meets side order.price.value ↔ crosses side best order = true := by
  cases side with
  | buy => simp [BookRow.Meets, rowOf, crosses]
  | sell => simp [BookRow.Meets, rowOf, crosses]

/-- The line between two rows. -/
def spreadOfRows : Option BookRow → Option BookRow → Option SpreadLine :=
  Option.map₂ fun bid ask => {
    bestBid := bid.price
    bestAsk := ask.price
    spread := ask.price - bid.price
    mid := (ask.price + bid.price) / Binary64.ofInt 2 }

theorem extreme_cons {better : Binary64 → Binary64 → Bool} {x : Binary64} {xs : List Binary64}
    (h : ∀ v ∈ xs, better v x = false) : OrderBookAnalytics.extreme better (x :: xs) = some x := by
  have hfold : xs.foldl (fun best y => if better y best then y else best) x = x := by
    induction xs with
    | nil => rfl
    | cons y ys ih =>
        rw [List.foldl_cons, h y List.mem_cons_self, if_neg Bool.false_ne_true]
        exact ih fun v hv => h v (List.mem_cons_of_mem _ hv)
  rw [OrderBookAnalytics.extreme, hfold]

theorem extreme_resting {side : Side} {better : Binary64 → Binary64 → Bool}
    (hbetter : ∀ p q : Price, better p.value q.value = true → side.Better p q) {orders : List COrder}
    (hsorted : Ranked.Sorted (COrder.rank side) orders) :
    OrderBookAnalytics.extreme better (orders.map fun order => order.price.value) =
      orders.head?.map fun order => order.price.value := by
  cases orders with
  | nil => rfl
  | cons best rest =>
      apply extreme_cons
      intro v hv
      obtain ⟨order, horder, rfl⟩ := List.mem_map.mp hv
      have hnot := COrder.not_better_of_rank_le (hsorted.head_le (List.mem_cons_of_mem _ horder))
      exact Bool.eq_false_iff.mpr fun htrue => hnot (hbetter _ _ htrue)

theorem qty_toDict_tradeBetween (side : Side) (order best : COrder) (quantity : Nat) :
    (tradeBetween side order best quantity).toDict.qty = quantity := by
  cases side <;> rfl

section Rows

variable {book : Book} {b : Baseline.OrderBook} (h : Simulates COrder.toBaseline book b)
include h

theorem rows_renderOrderBookText (depth : Nat) (side : Side) :
    (renderOrderBookText b depth).rows side = ((book.resting side).take depth).map rowOf := by
  have hsorted := h.sorted COrder.toBaseline_embeds side
  cases side with
  | buy =>
      have hbuys : listSort (fun order : Baseline.Order => (order.price.neg, order.timestamp)) b.buyOrders =
          (book.resting .buy).map COrder.toBaseline := hsorted
      simp only [renderOrderBookText, OrderBookText.rows, hbuys, sliceTo_natCast, ← List.map_take, List.map_map]
      rfl
  | sell =>
      have hsells : listSort (fun order : Baseline.Order => (order.price, order.timestamp)) b.sellOrders =
          (book.resting .sell).map COrder.toBaseline := hsorted
      simp only [renderOrderBookText, OrderBookText.rows, hsells, sliceTo_natCast, ← List.map_take, ← List.map_reverse,
        List.reverse_reverse, List.map_map]
      rfl

theorem submit_takesRows (order : COrder) (depth : Nat) : ∃ made,
    (Baseline.OrderBook.addOrder order.toBaseline b).trades = b.trades ++ made ∧
      TakesRows (renderOrderBookText b depth) depth order made := by
  have hsubmit := h.submit COrder.toBaseline_embeds order
  rw [← Baseline.OrderBook.addOrder_toBaseline] at hsubmit
  obtain ⟨hfills, hstop⟩ := fillAll_spec order.side order (book.resting order.side.opposite)
  refine ⟨(book.filling order).fills.map fun fill => (tradeBetween order.side order fill.1 fill.2).toDict, ?_, ?_, ?_⟩
  · rw [hsubmit.trades, h.trades, book.submit_trades, List.map_append, List.map_map]
    rfl
  · intro k trade htrade hk
    rw [List.getElem?_map] at htrade
    obtain ⟨fill, hfill, rfl⟩ := Option.map_eq_some_iff.mp htrade
    obtain ⟨hresting, hmeets, hle, hwhole⟩ := hfills.getElem? hfill
    refine ⟨rowOf fill.1, ?_, rowOf_meets.mpr hmeets, ?_, ?_, ?_, ?_, ?_⟩
    · rw [rows_renderOrderBookText h, List.getElem?_map, List.getElem?_take_of_lt hk, hresting]
      rfl
    · cases order.side <;> rfl
    · cases order.side <;> rfl
    · cases order.side <;> rfl
    · rw [qty_toDict_tradeBetween]
      exact Int.ofNat_le.mpr hle
    · intro hmore
      rw [List.length_map] at hmore
      rw [qty_toDict_tradeBetween]
      exact congrArg Int.ofNat (hwhole hmore)
  · by_cases hfilled : (book.filling order).remainder.quantity = 0
    · left
      have hsum := hfills.sum_eq
      change order.quantity = ((book.filling order).fills.map Prod.snd).sum + (book.filling order).remainder.quantity
        at hsum
      rw [hsum, hfilled, Nat.add_zero, Nat.cast_list_sum, List.map_map, List.map_map]
      congr 1
      apply List.map_congr_left
      intro fill _
      exact qty_toDict_tradeBetween _ _ _ _
    · right
      intro row hrow hmeets
      rw [List.length_map, rows_renderOrderBookText h, List.getElem?_map] at hrow
      obtain ⟨best, hbest, rfl⟩ := Option.map_eq_some_iff.mp hrow
      have hnext : (book.filling order).left.head? = some best := by
        rw [show (book.filling order).left = _ from hfills.left_eq_drop hfilled, List.head?_drop]
        rw [List.getElem?_take] at hbest
        split at hbest
        · exact hbest
        · cases hbest
      have hnot := hstop.resolve_left hfilled best hnext
      rw [hfills.remainder_eq.1, crosses_withQuantity] at hnot
      rw [rowOf_meets, hnot] at hmeets
      cases hmeets

theorem spreadLine_renderOrderBookText {depth : Nat} (hdepth : 1 ≤ depth) :
    (renderOrderBookText b depth).spreadLine = spreadOfRows
      ((renderOrderBookText b depth).rows .buy).head? ((renderOrderBookText b depth).rows .sell).head? := by
  have hbuys : listSort (fun order : Baseline.Order => (order.price.neg, order.timestamp)) b.buyOrders =
      (book.resting .buy).map COrder.toBaseline := h.sorted COrder.toBaseline_embeds .buy
  have hsells : listSort (fun order : Baseline.Order => (order.price, order.timestamp)) b.sellOrders =
      (book.resting .sell).map COrder.toBaseline := h.sorted COrder.toBaseline_embeds .sell
  have hbid : OrderBookAnalytics.maxFloat ((book.resting .buy).map fun order => order.price.value) = _ :=
    extreme_resting (fun p q hlt => by simpa [Side.Better] using hlt) (book.sorted .buy)
  have hask : OrderBookAnalytics.minFloat ((book.resting .sell).map fun order => order.price.value) = _ :=
    extreme_resting (fun p q hlt => by simpa [Side.Better] using hlt) (book.sorted .sell)
  obtain ⟨depth, rfl⟩ := Nat.exists_eq_add_of_le' hdepth
  rw [rows_renderOrderBookText h, rows_renderOrderBookText h]
  have hprices : ((fun order : Baseline.Order => order.price) ∘ COrder.toBaseline) = fun order => order.price.value := by
    funext order
    rfl
  simp only [renderOrderBookText, hbuys, hsells, List.map_map, hprices, hbid, hask]
  cases book.resting .buy <;> cases book.resting .sell <;> rfl

end Rows

/-! ### The printed book -/

/-- What can be read off the text: the spread between the rows next to it, and the trades of any order to come. -/
structure PrintedBook (book : Baseline.OrderBook) (depth : Nat) (text : OrderBookText) : Prop where
  spreadLine : 1 ≤ depth → text.spreadLine = spreadOfRows (text.rows .buy).head? (text.rows .sell).head?
  takesRows : ∀ order : COrder, ∃ made,
    (Baseline.OrderBook.addOrder order.toBaseline book).trades = book.trades ++ made ∧
    TakesRows text depth order made

/-- The book printed after any orders shows what the next one will meet, as far down as rows are shown. -/
theorem renderOrderBookText_sound (orders : List COrder) (depth : Nat) :
    PrintedBook (Baseline.OrderBook.run (orders.map COrder.toArgs) {}) depth
      (renderOrderBookText (Baseline.OrderBook.run (orders.map COrder.toArgs) {}) depth) := by
  have h : Simulates COrder.toBaseline (Book.empty.run orders)
      (Baseline.OrderBook.run (orders.map COrder.toArgs) {}) :=
    Baseline.OrderBook.run_simulates orders Simulates.empty
  exact ⟨fun hdepth => spreadLine_renderOrderBookText h hdepth, fun order => submit_takesRows h order depth⟩

/-! ### The depth by price -/

theorem tupleLe_sell_iff {a b : Price × ℕ} : TupleLe .sell a b ↔
    keyLt (levelItem (castLevel b)) (levelItem (castLevel a)) = false := by
  rw [levelItem, levelItem, keyLt_eq_false_iff (castLevel a).1.isNaN_value (castLevel b).1.isNaN_value]
  simp only [TupleLe, castLevel, Prod.Lex.toLex_le_toLex, Price.lt_iff_key, Nat.cast_le]
  rw [Price.key_injective.eq_iff]

theorem depthByPrice_toBaseline (orders : List COrder) :
    depthByPrice (orders.map COrder.toBaseline) = listSort id (depthMap (orders.map COrder.toObj)) := by
  rw [depthByPrice, depthMap, List.foldl_map, List.foldl_map]
  rfl

/-- The sorted dict lists the levels from the lowest price up. -/
theorem depthByPrice_eq {orders : List COrder} {levels : List (Price × ℕ)}
    (hlevels : IsLevels COrder.price COrder.quantity Side.sell.Better orders levels) :
    depthByPrice (orders.map COrder.toBaseline) = levels.map fun level => levelItem (castLevel level) := by
  have hsort : (tally COrder.price COrder.quantity orders).insertionSort (TupleLe .sell) = levels :=
    (isLevels_sort_tally COrder.price COrder.quantity (TupleLe .sell) (fun _ _ => TupleLe.better) orders).unique hlevels
  rw [depthByPrice_toBaseline, depthMap_map, priceDepth_eq, List.map_map, listSort, ← hsort]
  exact (List.map_insertionSort _ _ _ _ fun a _ b _ => tupleLe_sell_iff).symm

theorem sum_depthByPrice (orders : List COrder) : ((depthByPrice (orders.map COrder.toBaseline)).map Prod.snd).sum =
    ((orders.map COrder.toBaseline).map (·.qty)).sum := by
  rw [depthByPrice_toBaseline, listSort, ((List.perm_insertionSort _ _).map Prod.snd).sum_eq, sum_depthMap, restingTotal,
    Nat.cast_list_sum, List.map_map, List.map_map]
  rfl

/-- What the dicts of the two sides have in common with the compiled engine's ladder and with the snapshot. -/
structure DepthAgrees (depth : ℕ) (e : MatchingEngine) (book : Baseline.OrderBook) : Prop where
  ladder : ∃ bids asks, e.getOrderBookDepth depth = .ok (bids, asks) ∧
    (depthByPrice book.buyOrders).reverse.take depth = bids.map (fun level => (level.1, (level.2 : Int))) ∧
    (depthByPrice book.sellOrders).take depth = asks.map (fun level => (level.1, (level.2 : Int)))
  bidQty : ((depthByPrice book.buyOrders).map Prod.snd).sum = (OrderBookAnalytics.snapshot book).bidQty
  askQty : ((depthByPrice book.sellOrders).map Prod.snd).sum = (OrderBookAnalytics.snapshot book).askQty

section Agreement

variable {book : Book} {b : Baseline.OrderBook} (h : Simulates COrder.toBaseline book b)
include h

/-- The dict of a side holds the levels of the book, and all of its quantity. -/
theorem depthByPrice_resting (side : Side) {levels : List (Price × ℕ)}
    (hlevels : IsLevels COrder.price COrder.quantity Side.sell.Better (book.resting side) levels) :
    depthByPrice (b.resting side) = levels.map (fun level => levelItem (castLevel level)) ∧
      ((depthByPrice (b.resting side)).map Prod.snd).sum = ((b.resting side).map (·.qty)).sum := by
  obtain ⟨orders, hresting, hsort⟩ := h.resting side
  have hperm : (book.resting side).Perm orders := hsort ▸ Ranked.perm_stableSort _ orders
  rw [hresting]
  exact ⟨depthByPrice_eq (hlevels.perm hperm), sum_depthByPrice orders⟩

theorem depthAgrees_of_refines {e : MatchingEngine} (hrefines : Refines e book) {depth : ℕ} (hdepth : depth < 2 ^ 31) :
    DepthAgrees depth e b := by
  have hside : ∀ side, SideLevels side (book.resting side) (runs COrder.price COrder.quantity (book.resting side)) :=
    fun side => isLevels_runs COrder.quantity (keySorted_of_sorted (book.sorted side))
  have hbids := hside .buy
  have hasks := hside .sell
  obtain ⟨hbuys, hbuyQty⟩ := depthByPrice_resting h .buy hbids.reverse
  obtain ⟨hsells, hsellQty⟩ := depthByPrice_resting h .sell hasks
  rw [← hrefines.resting] at hbids hasks
  refine ⟨⟨_, _, getOrderBookDepth_eq hbids hasks hdepth, ?_, ?_⟩, hbuyQty, hsellQty⟩
  · rw [show depthByPrice b.buyOrders = _ from hbuys, List.map_reverse, List.reverse_reverse, ← List.map_take,
      List.map_map, hrefines.resting]
    rfl
  · rw [show depthByPrice b.sellOrders = _ from hsells, ← List.map_take, List.map_map, hrefines.resting]
    rfl

end Agreement

/-- After every prefix of a feed the depth by price is the ladder of the compiled engine, cut to any depth. -/
theorem depthByPrice_agrees (feed : List (Growth × OrderArgs)) (hvalid : ∀ p ∈ feed, p.2.Valid)
    (hcount : feed.length < 2 ^ 64)
    (hmemory : MatchingEngine.Undisturbed (MatchingEngine.submissions (MatchingEngine.addOrders feed) .empty))
    (k : ℕ) {depth : ℕ} (hdepth : depth < 2 ^ 31) :
    DepthAgrees depth (MatchingEngine.run (MatchingEngine.addOrders (feed.take k)) .empty)
      (Baseline.OrderBook.run ((feed.take k).map Prod.snd) {}) := by
  obtain ⟨orders, hargs, hrefines⟩ := refines_prefix feed hvalid hcount hmemory k
  rw [hargs]
  exact depthAgrees_of_refines (Baseline.OrderBook.run_simulates orders Simulates.empty) hrefines hdepth

theorem depthByPrice_agrees_threeLevels :
    DepthAgrees 2 (MatchingEngine.run (MatchingEngine.addOrders (threeLevels.take 4)) .empty)
      (Baseline.OrderBook.run ((threeLevels.take 4).map Prod.snd) {}) := by
  refine depthByPrice_agrees threeLevels ?_ (by decide) (by decide) 4 (by decide)
  intro p hp
  simp only [threeLevels, List.mem_cons, List.not_mem_nil, or_false] at hp
  rcases hp with rfl | rfl | rfl | rfl <;>
    exact ⟨by decide, by decide, by decide, by decide, by decide⟩

end ChronosMatch
