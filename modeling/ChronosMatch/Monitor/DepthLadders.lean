import Mathlib.Algebra.BigOperators.Ring.Finset
import ChronosMatch.Base.Levels
import ChronosMatch.Monitor.BestPrice

/-!
# The depth ladders

Three functions list the price levels of a side: `get_book_depth` in one pass over the sorted book,
`get_order_book_depth` by a dict whose items it sorts as tuples, and `get_top_of_book` by a dict over the
unsorted lists of the reference engine. Each is shown to list the levels of the side, and a side has only one
such list.
-/

namespace ChronosMatch

open Levels

instance (side : Side) : IsStrictOrder Price side.Better := by
  cases side with
  | buy => exact inferInstanceAs (IsStrictOrder Price fun p q => q < p)
  | sell => exact inferInstanceAs (IsStrictOrder Price fun p q => p < q)

/-- The distinct prices of a side, best first, each with the quantity that rests at it. -/
abbrev SideLevels (side : Side) (orders : List COrder) (levels : List (Price × ℕ)) : Prop :=
  IsLevels COrder.price COrder.quantity side.Better orders levels

/-- A level as the compiled engine returns it. -/
def ladderItem (level : Price × ℕ) : Binary64 × ℕ := (level.1.value, level.2)

def restingTotal (orders : List COrder) : ℕ := (orders.map COrder.quantity).sum

/-- The quantity of a level as a Python integer of the monitor. -/
def castLevel (level : Price × ℕ) : Price × Int := (level.1, level.2)

theorem Side.better_of_rank_le {side : Side} {p q : Price} {s t : Int} (h : rank side p s ≤ rank side q t)
    (hne : p ≠ q) : side.Better p q := by
  rcases lt_or_eq_of_le h with hlt | heq
  · exact (rank_lt_iff.mp hlt).resolve_right fun hsame => hne hsame.1
  · exact absurd (rank_eq_iff.mp heq).1 hne

/-! ### The one-pass ladder -/

theorem keySorted_of_sorted {side : Side} {orders : List COrder} (h : Ranked.Sorted (COrder.rank side) orders) :
    KeySorted COrder.price side.Better orders := by
  apply h.imp
  intro a b hle
  by_cases hsame : a.price = b.price
  · exact .inl hsame
  · exact .inr (Side.better_of_rank_le hle hsame)

/-- Nothing wraps as long as the whole side fits. -/
theorem levelsFrom_eq (price : Price) (qty : ℕ) (orders : List COrder) (hfits : qty + restingTotal orders < 2 ^ 64) :
    MatchingEngine.levelsFrom price qty orders =
      (runsFrom COrder.price COrder.quantity price qty orders).map ladderItem := by
  induction orders generalizing price qty with
  | nil => rfl
  | cons order orders ih =>
      rw [restingTotal, List.map_cons, List.sum_cons, ← restingTotal] at hfits
      rw [MatchingEngine.levelsFrom, runsFrom]
      split
      · rw [Nat.mod_eq_of_lt (by omega), ih price _ (by omega)]
      · rw [List.map_cons, ih order.price _ (by omega)]
        rfl

theorem levelsOf_eq (orders : List COrder) (hfits : restingTotal orders < 2 ^ 64) :
    MatchingEngine.levelsOf orders = (runs COrder.price COrder.quantity orders).map ladderItem := by
  cases orders with
  | nil => rfl
  | cons order orders =>
      rw [restingTotal, List.map_cons, List.sum_cons, ← restingTotal] at hfits
      exact levelsFrom_eq order.price order.quantity orders hfits

theorem scanLevels_sideLevels {side : Side} {orders : List COrder} {levels : List (Price × ℕ)}
    (hlevels : SideLevels side orders levels) (hsorted : Ranked.Sorted (COrder.rank side) orders)
    (hfits : restingTotal orders < 2 ^ 64) (depth : ℕ) :
    (MatchingEngine.scanLevels depth orders).levels = (levels.take depth).map ladderItem ∧
      (MatchingEngine.scanLevels depth orders).total = restingTotal orders := by
  have hruns : runs COrder.price COrder.quantity orders = levels :=
    (isLevels_runs COrder.quantity (keySorted_of_sorted hsorted)).unique hlevels
  constructor
  · rw [MatchingEngine.levels_scanLevels, levelsOf_eq orders hfits, hruns, List.map_take]
  · rw [MatchingEngine.total_scanLevels]
    exact Nat.mod_eq_of_lt hfits

/-! ### The ladder of the compiled engine's dict -/

theorem addToMap_map (price : Price) (quantity : ℕ) (items : List (Price × ℕ)) :
    MatchingEngine.addToMap price.value quantity (items.map ladderItem) =
      (addTo price quantity items).map ladderItem := by
  induction items with
  | nil => rfl
  | cons item items ih =>
      rw [List.map_cons, ladderItem, MatchingEngine.addToMap, addTo, ih]
      simp only [Price.sameValue_iff]
      split <;> rfl

theorem priceMap_eq (orders : List COrder) :
    MatchingEngine.priceMap orders = (tally COrder.price COrder.quantity orders).map ladderItem := by
  induction orders using List.reverseRecOn with
  | nil => rfl
  | append_singleton orders order ih =>
      rw [tally_concat, ← addToMap_map, ← ih, MatchingEngine.priceMap, MatchingEngine.priceMap, List.foldl_append]
      rfl

theorem tupleLt_iff {a b : Price × ℕ} :
    MatchingEngine.TupleLt (ladderItem a) (ladderItem b) ↔ toLex a < toLex b := by
  simp only [MatchingEngine.TupleLt, ladderItem, Price.sameValue_iff, Price.value_lt, Prod.Lex.toLex_lt_toLex]
  split
  · next hsame => simp [hsame]
  · next hne => simp [hne]

/-- How `get_order_book_depth` sorts the items of a side. -/
def TupleLe (side : Side) (a b : Price × ℕ) : Prop :=
  match side with
  | .buy => toLex b ≤ toLex a
  | .sell => toLex a ≤ toLex b

instance (side : Side) : DecidableRel (TupleLe side) := fun a b => by
  cases side with
  | buy => exact inferInstanceAs (Decidable (toLex b ≤ toLex a))
  | sell => exact inferInstanceAs (Decidable (toLex a ≤ toLex b))

instance (side : Side) : Std.Total (TupleLe side) := by
  cases side with
  | buy => exact ⟨fun a b => le_total (toLex b) (toLex a)⟩
  | sell => exact ⟨fun a b => le_total (toLex a) (toLex b)⟩

instance (side : Side) : IsTrans (Price × ℕ) (TupleLe side) := by
  cases side with
  | buy => exact ⟨fun a b c hab hbc => le_trans (α := Price ×ₗ ℕ) hbc hab⟩
  | sell => exact ⟨fun a b c hab hbc => le_trans (α := Price ×ₗ ℕ) hab hbc⟩

theorem TupleLe.better {side : Side} {a b : Price × ℕ} (h : TupleLe side a b) (hne : a.1 ≠ b.1) :
    side.Better a.1 b.1 := by
  cases side with
  | buy => exact ((Prod.Lex.toLex_le_toLex).mp h).resolve_right fun hsame => hne hsame.1.symm
  | sell => exact ((Prod.Lex.toLex_le_toLex).mp h).resolve_right fun hsame => hne hsame.1

theorem sort_priceMap {side : Side} {orders : List COrder} {levels : List (Price × ℕ)}
    (hlevels : SideLevels side orders levels) (r : Binary64 × ℕ → Binary64 × ℕ → Prop) [DecidableRel r]
    (hr : ∀ a b, TupleLe side a b ↔ r (ladderItem a) (ladderItem b)) :
    (MatchingEngine.priceMap orders).insertionSort r = levels.map ladderItem := by
  have hsort : (tally COrder.price COrder.quantity orders).insertionSort (TupleLe side) = levels :=
    (isLevels_sort_tally COrder.price COrder.quantity (TupleLe side) (fun _ _ => TupleLe.better) orders).unique hlevels
  rw [priceMap_eq, ← hsort]
  exact (List.map_insertionSort _ _ ladderItem _ fun a _ b _ => hr a b).symm

theorem getOrderBookDepth_eq {e : MatchingEngine} {bids asks : List (Price × ℕ)}
    (hbids : SideLevels .buy e.buyOrders bids) (hasks : SideLevels .sell e.sellOrders asks) {depth : ℕ}
    (hdepth : depth < 2 ^ 31) :
    e.getOrderBookDepth depth = .ok ((bids.take depth).map ladderItem, (asks.take depth).map ladderItem) := by
  have hint : -2 ^ 31 ≤ (depth : Int) ∧ (depth : Int) < 2 ^ 31 := by omega
  have hnonneg : ¬ (depth : Int) < 0 := by omega
  have hbidMap := sort_priceMap hbids (fun a b => ¬ MatchingEngine.TupleLt a b) fun a b => by
    rw [tupleLt_iff, not_lt]
    rfl
  have haskMap := sort_priceMap hasks (fun a b => ¬ MatchingEngine.TupleLt b a) fun a b => by
    rw [tupleLt_iff, not_lt]
    rfl
  rw [MatchingEngine.getOrderBookDepth, if_pos hint, if_neg hnonneg]
  dsimp only
  rw [hbidMap, haskMap, List.map_take, List.map_take, Int.toNat_natCast]

/-! ### The ladder of the reference engine -/

theorem addPriceDepth_eq (price : Price) (quantity : ℕ) (items : List (Price × ℕ)) :
    addPriceDepth price quantity (items.map castLevel) = (addTo price quantity items).map castLevel := by
  induction items with
  | nil => rfl
  | cons item items ih =>
      rw [List.map_cons, castLevel, addPriceDepth, addTo, ih]
      split
      · simp [castLevel]
      · rfl

theorem priceDepth_eq (orders : List COrder) :
    priceDepth orders = (tally COrder.price COrder.quantity orders).map castLevel := by
  induction orders using List.reverseRecOn with
  | nil => rfl
  | append_singleton orders order ih =>
      rw [tally_concat, ← addPriceDepth_eq, ← ih, priceDepth, priceDepth, List.foldl_append]
      rfl

/-- The dict over the lists of the reference engine, sorted by price, lists the levels of the side. -/
theorem sortedBy_depthMap {side : Side} {orders : List COrder} {levels : List (Price × ℕ)}
    (hlevels : SideLevels side orders levels) : sortedBy (levelKey side) (depthMap (orders.map COrder.toObj)) =
      levels.map fun level => levelItem (castLevel level) := by
  have htotal : Std.Total fun a b : Price × ℕ => rank side a.1 0 ≤ rank side b.1 0 :=
    ⟨fun a b => le_total (rank side a.1 0) (rank side b.1 0)⟩
  have htrans : IsTrans (Price × ℕ) fun a b => rank side a.1 0 ≤ rank side b.1 0 := ⟨fun _ _ _ => le_trans⟩
  have hsort := (isLevels_sort_tally COrder.price COrder.quantity
    (fun a b : Price × ℕ => rank side a.1 0 ≤ rank side b.1 0) (fun _ _ => Side.better_of_rank_le) orders).unique
    hlevels
  have hmap : Ranked.stableSort (fun level => rank side level.1 0)
      ((tally COrder.price COrder.quantity orders).map castLevel) = levels.map castLevel := by
    rw [← hsort, Ranked.stableSort]
    exact (List.map_insertionSort _ _ castLevel _ fun _ _ _ _ => Iff.rfl).symm
  rw [depthMap_map, sortedBy_map, priceDepth_eq, hmap, List.map_map]
  rfl

theorem sum_depthMap (orders : List COrder) :
    ((depthMap (orders.map COrder.toObj)).map Prod.snd).sum = (restingTotal orders : Int) := by
  rw [depthMap_map, priceDepth_eq, restingTotal, ← sum_tally COrder.price COrder.quantity, List.map_map,
    List.map_map, Nat.cast_list_sum, List.map_map]
  rfl

theorem getTopOfBook_reference {r : ReferenceEngine} {buys sells : List COrder} {bids asks : List (Price × ℕ)}
    (hbuys : r.buyOrders = buys.map COrder.toObj) (hsells : r.sellOrders = sells.map COrder.toObj)
    (hbids : SideLevels .buy buys bids) (hasks : SideLevels .sell sells asks) (depth : ℕ) :
    ∃ top, getTopOfBook depth (.reference r) = .ok top ∧
      top.bidLevels = (bids.take depth).map (fun level => levelItem (castLevel level)) ∧
      top.askLevels = (asks.take depth).map (fun level => levelItem (castLevel level)) ∧
      top.totalBidQty = restingTotal buys ∧ top.totalAskQty = restingTotal sells ∧
      top.bidOrderCount = buys.length ∧ top.askOrderCount = sells.length := by
  have hdepth : ¬ (depth : Int) < 0 := by omega
  rw [getTopOfBook, if_neg hdepth]
  refine ⟨_, rfl, ?_, ?_, ?_, ?_, ?_, ?_⟩
  · rw [List.map_take, ← sortedBy_depthMap hbids, ← hbuys]
    rfl
  · rw [List.map_take, ← sortedBy_depthMap hasks, ← hsells]
    rfl
  · rw [← sum_depthMap, ← hbuys]
  · rw [← sum_depthMap, ← hsells]
  · rw [hbuys, List.length_map]
  · rw [hsells, List.length_map]

/-! ### All three -/

/-- What the three functions return for a depth, `bids` and `asks` being all levels of the two sides. -/
structure LaddersAgree (depth : ℕ) (e : MatchingEngine) (bids asks : List (Price × ℕ)) (book : BookDepth)
    (ladders : List (Binary64 × ℕ) × List (Binary64 × ℕ)) (top : OrderBookTop) : Prop where
  buyLevels : SideLevels .buy e.buyOrders bids
  sellLevels : SideLevels .sell e.sellOrders asks
  bookBids : book.bidLevels = (bids.take depth).map ladderItem
  bookAsks : book.askLevels = (asks.take depth).map ladderItem
  ladders : ladders = (book.bidLevels, book.askLevels)
  topBids : top.bidLevels = book.bidLevels.map fun level => (level.1, (level.2 : Int))
  topAsks : top.askLevels = book.askLevels.map fun level => (level.1, (level.2 : Int))
  totals : book.totalBidQty = restingTotal e.buyOrders ∧ book.totalAskQty = restingTotal e.sellOrders
  counts : book.bidOrderCount = e.buyOrders.length ∧ book.askOrderCount = e.sellOrders.length
  topTotals : top.totalBidQty = book.totalBidQty ∧ top.totalAskQty = book.totalAskQty
  topCounts : top.bidOrderCount = book.bidOrderCount ∧ top.askOrderCount = book.askOrderCount

/-- Each function returns, and the three ladders are those of the two sides. -/
def ShowLadders (depth : ℕ) (e : MatchingEngine) (r : ReferenceEngine) : Prop :=
  ∃ bids asks book ladders top, e.getBookDepth depth = .ok book ∧ e.getOrderBookDepth depth = .ok ladders ∧
    getTopOfBook depth (.reference r) = .ok top ∧ LaddersAgree depth e bids asks book ladders top

/-- The same orders rest in both engines, in whatever order the reference engine keeps them. -/
def SameOrders (e : MatchingEngine) (r : ReferenceEngine) : Prop :=
  ∀ side, ∃ orders, r.resting side = orders.map COrder.toObj ∧ (e.resting side).Perm orders

/-- Where the book is sorted and nothing wraps, all three show the levels of the resting orders. -/
theorem ladders_of_sorted {e : MatchingEngine} {r : ReferenceEngine}
    (hsorted : ∀ side, Ranked.Sorted (COrder.rank side) (e.resting side)) (hsame : SameOrders e r) {depth : ℕ}
    (hdepth : depth < 2 ^ 31) (hfits : ∀ side, restingTotal (e.resting side) < 2 ^ 64) : ShowLadders depth e r := by
  have hside : ∀ side, SideLevels side (e.resting side) (runs COrder.price COrder.quantity (e.resting side)) :=
    fun side => isLevels_runs COrder.quantity (keySorted_of_sorted (hsorted side))
  have hbids := hside .buy
  have hasks := hside .sell
  obtain ⟨buys, hbuys, hbuyPerm⟩ := hsame .buy
  obtain ⟨sells, hsells, hsellPerm⟩ := hsame .sell
  obtain ⟨top, htop, htopBids, htopAsks, hbidQty, haskQty, hbidCount, haskCount⟩ :=
    getTopOfBook_reference hbuys hsells (hbids.perm hbuyPerm) (hasks.perm hsellPerm) depth
  obtain ⟨hscanBids, hbidTotal⟩ := scanLevels_sideLevels hbids (hsorted .buy) (hfits .buy) depth
  obtain ⟨hscanAsks, haskTotal⟩ := scanLevels_sideLevels hasks (hsorted .sell) (hfits .sell) depth
  have hbuyTotal : restingTotal buys = restingTotal (e.resting .buy) := (hbuyPerm.map COrder.quantity).sum_eq.symm
  have hsellTotal : restingTotal sells = restingTotal (e.resting .sell) :=
    (hsellPerm.map COrder.quantity).sum_eq.symm
  have hint : -2 ^ 31 ≤ (depth : Int) ∧ (depth : Int) < 2 ^ 31 := by omega
  refine ⟨runs COrder.price COrder.quantity (e.resting .buy), runs COrder.price COrder.quantity (e.resting .sell),
    _, _, top, if_pos hint, getOrderBookDepth_eq hbids hasks hdepth, htop, ?_⟩
  exact {
    buyLevels := hbids
    sellLevels := hasks
    bookBids := hscanBids
    bookAsks := hscanAsks
    ladders := congrArg₂ Prod.mk hscanBids.symm hscanAsks.symm
    topBids := by
      change top.bidLevels = (MatchingEngine.scanLevels depth (e.resting .buy)).levels.map _
      rw [htopBids, hscanBids, List.map_map]
      rfl
    topAsks := by
      change top.askLevels = (MatchingEngine.scanLevels depth (e.resting .sell)).levels.map _
      rw [htopAsks, hscanAsks, List.map_map]
      rfl
    totals := ⟨hbidTotal, haskTotal⟩
    counts := ⟨rfl, rfl⟩
    topTotals := by
      change top.totalBidQty = (MatchingEngine.scanLevels depth (e.resting .buy)).total ∧
        top.totalAskQty = (MatchingEngine.scanLevels depth (e.resting .sell)).total
      rw [hbidQty, haskQty, hbidTotal, haskTotal, hbuyTotal, hsellTotal]
      exact ⟨rfl, rfl⟩
    topCounts := by
      rw [hbidCount, haskCount]
      exact ⟨hbuyPerm.length_eq.symm, hsellPerm.length_eq.symm⟩ }

theorem ladders_of_book {book : Book} {e : MatchingEngine} {r : ReferenceEngine} (hrefines : Refines e book)
    (hsimulates : Simulates COrder.toObj book r.toPyBook) {depth : ℕ} (hdepth : depth < 2 ^ 31)
    (hfits : ∀ side, restingTotal (e.resting side) < 2 ^ 64) : ShowLadders depth e r := by
  apply ladders_of_sorted ?_ ?_ hdepth hfits
  · intro side
    rw [hrefines.resting]
    exact book.sorted side
  · intro side
    obtain ⟨orders, hresting, hsort⟩ := hsimulates.resting side
    have hperm := Ranked.perm_stableSort (COrder.rank side) orders
    rw [hsort, ← hrefines.resting] at hperm
    exact ⟨orders, hresting, hperm⟩

/-- After every prefix of a feed the ladders of the two engines are the levels of the book, for every depth. -/
theorem depthLadders_agree (feed : List (Growth × OrderArgs)) (hvalid : ∀ p ∈ feed, p.2.Valid)
    (hcount : feed.length < 2 ^ 64)
    (hmemory : MatchingEngine.Undisturbed (MatchingEngine.submissions (MatchingEngine.addOrders feed) .empty))
    (k : ℕ) (hfits : ∀ side, restingTotal
      ((MatchingEngine.run (MatchingEngine.addOrders (feed.take k)) .empty).resting side) < 2 ^ 64)
    {depth : ℕ} (hdepth : depth < 2 ^ 31) :
    ShowLadders depth (MatchingEngine.run (MatchingEngine.addOrders (feed.take k)) .empty)
      (ReferenceEngine.run ((feed.take k).map Prod.snd) .empty) := by
  obtain ⟨orders, hargs, hrefines⟩ := refines_prefix feed hvalid hcount hmemory k
  rw [hargs]
  exact ladders_of_book hrefines (ReferenceEngine.run_empty_simulates orders) hdepth hfits

/-- Two orders at one price, one level in front of them and one behind, cut to two levels. -/
def threeLevels : List (Growth × OrderArgs) :=
  [(.unlimited, ⟨1, 0, Binary64.ofInt 100, 5, 1⟩), (.unlimited, ⟨2, 0, Binary64.ofInt 101, 4, 2⟩),
    (.unlimited, ⟨3, 0, Binary64.ofInt 99, 7, 3⟩), (.unlimited, ⟨4, 0, Binary64.ofInt 100, 2, 4⟩)]

theorem depthLadders_agree_threeLevels :
    ShowLadders 2 (MatchingEngine.run (MatchingEngine.addOrders (threeLevels.take 4)) .empty)
      (ReferenceEngine.run ((threeLevels.take 4).map Prod.snd) .empty) := by
  refine depthLadders_agree threeLevels ?_ (by decide) (by decide) 4 ?_ (by decide)
  · intro p hp
    simp only [threeLevels, List.mem_cons, List.not_mem_nil, or_false] at hp
    rcases hp with rfl | rfl | rfl | rfl <;>
      exact ⟨by decide, by decide, by decide, by decide, by decide⟩
  · intro side
    cases side <;> decide

theorem ShowLadders.counts {depth : ℕ} {e : MatchingEngine} {r : ReferenceEngine} (h : ShowLadders depth e r) :
    e.buyOrders.length = r.buyOrders.length ∧ e.sellOrders.length = r.sellOrders.length := by
  obtain ⟨bids, asks, book, ladders, top, -, -, htop, hagree⟩ := h
  have hdepth : ¬ (depth : Int) < 0 := by omega
  rw [getTopOfBook, if_neg hdepth] at htop
  have hcounts := hagree.topCounts
  rw [hagree.counts.1, hagree.counts.2] at hcounts
  cases htop
  exact ⟨hcounts.1.symm, hcounts.2.symm⟩

/-- Once the compiled engine has refused an order, for its count or for want of memory, an order rests in one engine
only. -/
theorem not_showLadders_tooManyOrders :
    ((∀ p ∈ tooManyOrders, p.2.Valid) ∧
      MatchingEngine.Undisturbed (MatchingEngine.submissions (MatchingEngine.addOrders tooManyOrders) .empty) ∧
      (∀ side, restingTotal
        ((MatchingEngine.run (MatchingEngine.addOrders tooManyOrders) .empty).resting side) < 2 ^ 64) ∧
      ¬ ShowLadders 5 (MatchingEngine.run (MatchingEngine.addOrders tooManyOrders) .empty)
        (ReferenceEngine.run (tooManyOrders.map Prod.snd) .empty)) ∧
    ((∀ p ∈ noMemory, p.2.Valid) ∧
      (∀ side, restingTotal ((MatchingEngine.run (MatchingEngine.addOrders noMemory) .empty).resting side) < 2 ^ 64) ∧
      ¬ ShowLadders 5 (MatchingEngine.run (MatchingEngine.addOrders noMemory) .empty)
        (ReferenceEngine.run (noMemory.map Prod.snd) .empty)) := by
  have hlast : 2 ^ 63 - 1 + 1 = 2 ^ 63 := Nat.sub_add_cancel (Nat.two_pow_pos 63)
  obtain ⟨hundisturbed, ⟨orderCount, trades, sellCapacity, tradeCapacity, hrun, -⟩, trades', orderCount', hreference,
    -⟩ := states_tooManyOrders hlast
  rw [hlast] at hundisturbed hrun hreference
  have hcompiled : MatchingEngine.run (MatchingEngine.addOrders tooManyOrders) .empty =
    MatchingEngine.sellSided orderCount [crossedSell] trades sellCapacity tradeCapacity := hrun
  have hbook : ReferenceEngine.run (tooManyOrders.map Prod.snd) .empty =
    { buyOrders := [], sellOrders := [], trades := trades', orderCount := orderCount' } := hreference
  refine ⟨⟨valid_crossedPairs _, hundisturbed, ?_, ?_⟩, valid_noMemory, ?_, ?_⟩
  · rw [hcompiled]
    intro side
    cases side with
    | buy => exact (by decide : restingTotal [] < 2 ^ 64)
    | sell => exact (by decide : restingTotal [crossedSell] < 2 ^ 64)
  · rw [hcompiled, hbook]
    intro hshow
    cases hshow.counts.2
  · intro side
    cases side <;> decide
  · intro hshow
    exact absurd hshow.counts.1 (by decide)

end ChronosMatch
