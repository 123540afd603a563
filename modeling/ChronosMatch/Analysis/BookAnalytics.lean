import ChronosMatch.Base.RoundedArithmetic
import ChronosMatch.Engine.BookTotals
import ChronosMatch.Engine.PythonBook
import ChronosMatch.Monitor.BestPrice
import Mathlib.Algebra.BigOperators.Ring.Finset

/-!
# Analytics of the baseline book

`OrderBookAnalytics` of `src/analysis/metrics.py` on the baseline `OrderBook`, whose lists are sorted only while
the other side trades. The snapshot takes the best price by a scan, so it is right in between as well.
-/

namespace ChronosMatch

/-! ### The functions of the source -/

structure BookSnapshot where
  bestBid : Option Binary64 := none
  bestAsk : Option Binary64 := none
  spread : Option Binary64 := none
  mid : Option Binary64 := none
  bidDepth : Nat := 0
  askDepth : Nat := 0
  bidQty : Int := 0
  askQty : Int := 0

/-- What `trade_stats` reports besides the `vwap`. -/
structure TradeStats where
  count : Nat
  totalQty : Int
  minPrice : Option Binary64
  maxPrice : Option Binary64

namespace OrderBookAnalytics

/-- The first of the values that none of the others betters. -/
def extreme (better : Binary64 → Binary64 → Bool) : List Binary64 → Option Binary64
  | [] => none
  | x :: xs => some (xs.foldl (fun best y => if better y best then y else best) x)

/-- `max(values, default=None)` -/
def maxFloat : List Binary64 → Option Binary64 := extreme fun y best => best < y

/-- `min(values, default=None)` -/
def minFloat : List Binary64 → Option Binary64 := extreme fun y best => y < best

def snapshot (book : Baseline.OrderBook) : BookSnapshot :=
  let bestBid := maxFloat (book.buyOrders.map (·.price))
  let bestAsk := minFloat (book.sellOrders.map (·.price))
  { bestBid
    bestAsk
    spread := bestBid.bind fun bid => bestAsk.map fun ask => ask - bid
    mid := bestBid.bind fun bid => bestAsk.map fun ask => (ask + bid) / Binary64.ofInt 2
    bidDepth := book.buyOrders.length
    askDepth := book.sellOrders.length
    bidQty := (book.buyOrders.map (·.qty)).sum
    askQty := (book.sellOrders.map (·.qty)).sum }

def tradeStats (trades : List TradeDict) : TradeStats where
  count := trades.length
  totalQty := (trades.map (·.qty)).sum
  minPrice := minFloat (trades.map (·.price))
  maxPrice := maxFloat (trades.map (·.price))

end OrderBookAnalytics

/-! ### The best price -/

namespace OrderBookAnalytics

theorem foldl_extreme (rank : Binary64 → Int) (better : Binary64 → Binary64 → Bool)
    (hbetter : ∀ p q : Binary64, p.isNaN = false → q.isNaN = false → (better p q = true ↔ rank q < rank p))
    (x : Binary64) (xs : List Binary64) (hnumbers : ∀ v ∈ x :: xs, v.isNaN = false) :
    xs.foldl (fun best y => if better y best then y else best) x ∈ x :: xs ∧
      ∀ v ∈ x :: xs, rank v ≤ rank (xs.foldl (fun best y => if better y best then y else best) x) := by
  induction xs generalizing x with
  | nil => simp
  | cons y xs ih =>
      have hyx := hbetter y x (hnumbers y (by simp)) (hnumbers x (by simp))
      rw [List.foldl_cons]
      obtain ⟨best, hbest, hmem, hx, hy⟩ : ∃ best, (if better y x = true then y else x) = best ∧ best ∈ [x, y] ∧
          rank x ≤ rank best ∧ rank y ≤ rank best := by
        split
        · next h => exact ⟨y, rfl, by simp, (hyx.mp h).le, le_rfl⟩
        · next h => exact ⟨x, rfl, by simp, le_rfl, not_lt.mp (hyx.not.mp h)⟩
      rw [hbest]
      have hsubset : ∀ v ∈ best :: xs, v ∈ x :: y :: xs := by
        intro v hv
        rcases List.mem_cons.mp hv with rfl | hv
        · rcases List.mem_pair.mp hmem with rfl | rfl <;> simp
        · simp [hv]
      obtain ⟨hfold, hranks⟩ := ih best fun v hv => hnumbers v (hsubset v hv)
      refine ⟨hsubset _ hfold, fun v hv => ?_⟩
      have hfirst := hranks best List.mem_cons_self
      rcases List.mem_cons.mp hv with rfl | hv
      · exact hx.trans hfirst
      rcases List.mem_cons.mp hv with rfl | hv
      · exact hy.trans hfirst
      · exact hranks v (List.mem_cons_of_mem _ hv)

theorem maxFloat_isBest (values : List Binary64) (hnumbers : ∀ v ∈ values, v.isNaN = false) :
    IsBest .buy values (maxFloat values) := by
  cases values with
  | nil => rfl
  | cons x xs =>
      obtain ⟨hmem, hranks⟩ := foldl_extreme Binary64.key (fun y best => best < y)
        (fun p q hp hq => by rw [decide_eq_true_eq, Binary64.lt_def]; exact ⟨fun h => h.2.2, fun h => ⟨hq, hp, h⟩⟩)
        x xs hnumbers
      exact ⟨hmem, fun v hv => ⟨hnumbers v hv, hnumbers _ hmem, hranks v hv⟩⟩

theorem minFloat_isBest (values : List Binary64) (hnumbers : ∀ v ∈ values, v.isNaN = false) :
    IsBest .sell values (minFloat values) := by
  cases values with
  | nil => rfl
  | cons x xs =>
      obtain ⟨hmem, hranks⟩ := foldl_extreme (fun v => -v.key) (fun y best => y < best)
        (fun p q hp hq => by
          rw [decide_eq_true_eq, Binary64.lt_def, neg_lt_neg_iff]
          exact ⟨fun h => h.2.2, fun h => ⟨hp, hq, h⟩⟩) x xs hnumbers
      exact ⟨hmem, fun v hv => ⟨hnumbers _ hmem, hnumbers v hv, neg_le_neg_iff.mp (hranks v hv)⟩⟩

/-- What the snapshot of an uncrossed book says. -/
structure SnapshotSound (book : Baseline.OrderBook) (submitted : Int) : Prop where
  bestBid : IsBest .buy (book.buyOrders.map (·.price)) (snapshot book).bestBid
  bestAsk : IsBest .sell (book.sellOrders.map (·.price)) (snapshot book).bestAsk
  spread : ∀ bid ∈ (snapshot book).bestBid, ∀ ask ∈ (snapshot book).bestAsk,
    bid < ask ∧ ∃ spread mid, (snapshot book).spread = some spread ∧ (snapshot book).mid = some mid ∧
      Binary64.zero < spread ∧ ((ask + bid).isFinite = true → bid ≤ mid ∧ mid ≤ ask)
  quantity : 2 * (tradeStats book.trades).totalQty + (snapshot book).bidQty + (snapshot book).askQty = submitted

section Sound

variable {book : Book} {b : Baseline.OrderBook} (h : Simulates COrder.toBaseline book b)
include h

/-- The prices and the total quantity of a Python list are those of the side. -/
theorem exists_side (side : Side) : ∃ orders : List COrder, orders.Perm (book.resting side) ∧
    (b.resting side).map (·.price) = (orders.map COrder.price).map Price.value ∧
      ((b.resting side).map (·.qty)).sum = (quantityTotal (book.resting side) : Int) := by
  obtain ⟨orders, hresting, hsort⟩ := h.resting side
  have hperm : orders.Perm (book.resting side) := hsort ▸ (Ranked.perm_stableSort _ orders).symm
  refine ⟨orders, hperm, ?_, ?_⟩
  · rw [hresting, List.map_map, List.map_map]
    rfl
  · rw [hresting, quantityTotal, ← (hperm.map COrder.quantity).sum_eq, Nat.cast_list_sum, List.map_map, List.map_map]
    rfl

theorem totalQty_eq : (tradeStats b.trades).totalQty = (tradedTotal book.trades : Int) := by
  simp only [tradeStats]
  rw [h.trades, tradedTotal, Nat.cast_list_sum, List.map_map, List.map_map]
  rfl

theorem best_spec {side : Side} {extreme : List Binary64 → Option Binary64}
    (hextreme : ∀ values : List Binary64, (∀ v ∈ values, v.isNaN = false) → IsBest side values (extreme values)) :
    IsBest side ((b.resting side).map (·.price)) (extreme ((b.resting side).map (·.price))) ∧
      ∀ best ∈ extreme ((b.resting side).map (·.price)),
        ∃ order ∈ book.resting side, order.price.value = best := by
  obtain ⟨orders, hperm, hprices, -⟩ := exists_side h side
  rw [hprices]
  have hbest := hextreme ((orders.map COrder.price).map Price.value) fun v hv => by
    obtain ⟨price, -, rfl⟩ := List.mem_map.mp hv
    exact price.isNaN_value
  refine ⟨hbest, fun best hsome => ?_⟩
  rw [Option.mem_def.mp hsome] at hbest
  obtain ⟨price, hprice, hvalue⟩ := List.mem_map.mp hbest.1
  obtain ⟨order, horder, rfl⟩ := List.mem_map.mp hprice
  exact ⟨order, hperm.mem_iff.mp horder, hvalue⟩

end Sound

theorem not_negative_value (p : Price) : p.value.negative = false := by
  by_contra hneg
  have hkey := p.key_pos
  have hnonpos := Binary64.key_nonpos_of_negative (Bool.not_eq_false _ |>.mp hneg)
  omega

/-- The snapshot of the baseline after any orders: the best prices of a book that is not crossed, a spread that
does not round to zero, a middle between the best prices, and all of the quantity that was submitted. -/
theorem snapshot_sound (orders : List COrder) :
    SnapshotSound (Baseline.OrderBook.run (orders.map COrder.toArgs) {}) (quantityTotal orders) := by
  have h : Simulates COrder.toBaseline (Book.empty.run orders)
      (Baseline.OrderBook.run (orders.map COrder.toArgs) {}) :=
    Baseline.OrderBook.run_simulates orders Simulates.empty
  generalize Baseline.OrderBook.run (orders.map COrder.toArgs) {} = b at h ⊢
  obtain ⟨hbid, hbids⟩ := best_spec h maxFloat_isBest
  obtain ⟨hask, hasks⟩ := best_spec h minFloat_isBest
  refine ⟨hbid, hask, ?_, ?_⟩
  · intro bid hbestBid ask hbestAsk
    obtain ⟨buy, hbuy, rfl⟩ := hbids bid hbestBid
    obtain ⟨sell, hsell, rfl⟩ := hasks ask hbestAsk
    have huncrossed := Price.value_lt.mpr (Book.uncrossed orders hbuy hsell)
    have hsome : maxFloat (b.buyOrders.map (·.price)) = some buy.price.value := hbestBid
    have hsome' : minFloat (b.sellOrders.map (·.price)) = some sell.price.value := hbestAsk
    refine ⟨huncrossed, sell.price.value - buy.price.value,
      (sell.price.value + buy.price.value) / Binary64.ofInt 2, ?_, ?_, ?_, ?_⟩
    · simp only [snapshot, hsome, hsome', Option.bind_some, Option.map_some]
    · simp only [snapshot, hsome, hsome', Option.bind_some, Option.map_some]
    · exact Binary64.zero_lt_sub sell.price.finite buy.price.finite huncrossed
    · exact Binary64.midpoint_mem buy.price.finite sell.price.finite (not_negative_value _) (not_negative_value _)
        (Binary64.le_of_lt huncrossed)
  · obtain ⟨-, -, -, hbuyQty⟩ := exists_side h .buy
    obtain ⟨-, -, -, hsellQty⟩ := exists_side h .sell
    have hbuyQty : (snapshot b).bidQty = _ := hbuyQty
    have hsellQty : (snapshot b).askQty = _ := hsellQty
    have htotal := Book.run_total orders Book.empty
    have hempty : 2 * tradedTotal Book.empty.trades + quantityTotal (Book.empty.resting .buy) +
        quantityTotal (Book.empty.resting .sell) = 0 := rfl
    rw [hempty, Nat.zero_add] at htotal
    rw [totalQty_eq h, hbuyQty, hsellQty, ← htotal]
    push_cast
    rfl

end OrderBookAnalytics

end ChronosMatch
