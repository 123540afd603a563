import Mathlib.Data.List.Induction
import ChronosMatch.Engine.Agreement
import ChronosMatch.Monitor.TopOfBook

/-!
# Is the snapshot the best price?

The compiled engine's snapshot reads a sorted book and is always the best price. The reference engine's
reads the first element of a list that is sorted only when the other side trades, so an order that comes
to rest at a better price than the first one goes unseen until then. `Overtakes` is that case, and a run
shows the best prices throughout exactly when no order of it overtakes.
-/

namespace ChronosMatch

/-- `none` for an empty side, otherwise a price of the side that none of its prices betters. -/
def IsBest (side : Side) (prices : List Binary64) : Option Binary64 → Prop
  | none => prices = []
  | some best => best ∈ prices ∧ ∀ price ∈ prices,
      match side with
      | .buy => price ≤ best
      | .sell => best ≤ price

/-- No order of the list betters the first one. -/
def FirstIsBest (side : Side) (orders : List COrder) : Prop :=
  ∀ first ∈ orders.head?, ∀ order ∈ orders, ¬ side.Better order.price first.price

theorem FirstIsBest.of_sorted {side : Side} {orders : List COrder}
    (h : Ranked.Sorted (COrder.rank side) orders) : FirstIsBest side orders := by
  intro first hfirst order horder
  cases orders with
  | nil => cases hfirst
  | cons best rest =>
      cases hfirst
      exact COrder.not_better_of_rank_le (h.head_le horder)

theorem isBest_head? (side : Side) (orders : List COrder) :
    IsBest side (orders.map fun order => order.price.value) (orders.head?.map fun order => order.price.value) ↔
      FirstIsBest side orders := by
  cases orders with
  | nil => simp [IsBest, FirstIsBest]
  | cons first rest =>
      cases side <;> simp [IsBest, FirstIsBest, Side.Better]

/-! ### When an order comes to rest -/

/-- The quantity that an order of the side crosses. -/
def crossingQuantity (side : Side) (order : COrder) (resting : List COrder) : Nat :=
  ((resting.filter fun best => crosses side best order).map COrder.quantity).sum

theorem crossingQuantity_eq_zero {side : Side} {order : COrder} {resting : List COrder}
    (h : ∀ best ∈ resting, crosses side best order = false) : crossingQuantity side order resting = 0 := by
  rw [crossingQuantity, List.filter_eq_nil_iff.mpr]
  · rfl
  · intro best hbest
    simp [h best hbest]

/-- A match takes what it crosses, as far as the order reaches. -/
theorem quantity_remainder_fillAll {side : Side} (order : COrder) {resting : List COrder}
    (hsorted : Ranked.Sorted (COrder.rank side.opposite) resting) :
    (fillAll side order resting).remainder.quantity = order.quantity - crossingQuantity side order resting := by
  induction resting generalizing order with
  | nil => rfl
  | cons best rest ih =>
      rw [fillAll]
      by_cases hcross : crosses side best order = true
      · have hsplit : crossingQuantity side order (best :: rest) =
            best.quantity + crossingQuantity side order rest := by
          rw [crossingQuantity, List.filter_cons, if_pos hcross, List.map_cons, List.sum_cons, crossingQuantity]
        have hrest := ih { order with quantity := order.quantity - best.quantity } hsorted.tail
        simp only [crossingQuantity, crosses_withQuantity] at hrest
        rw [← crossingQuantity] at hrest
        split
        · split
          · dsimp only
            rw [hrest, hsplit]
            omega
          · dsimp only
            omega
        · next hzero =>
            have : order.quantity = 0 := by
              by_contra hne
              exact hzero ⟨Nat.pos_of_ne_zero hne, hcross⟩
            dsimp only
            omega
      · rw [if_neg (fun h => hcross h.2), crossingQuantity_eq_zero]
        · rfl
        · exact fun other hother => crosses_eq_false_of_head hsorted
            (fun first hfirst => by cases hfirst; exact Bool.eq_false_iff.mpr hcross) hother

namespace ReferenceEngine

/-- The quantity resting at prices that meet the limit of an incoming order. -/
def crossingQuantity (args : OrderArgs) (e : ReferenceEngine) : Int :=
  if args.side = Side.buy.code then
    ((e.sellOrders.filter fun order => order.price ≤ args.price).map COrderObj.quantity).sum
  else ((e.buyOrders.filter fun order => order.price ≥ args.price).map COrderObj.quantity).sum

/-- The order exceeds what it crosses, and its price betters that of the first order of its side. -/
def Overtakes (args : OrderArgs) (e : ReferenceEngine) : Prop :=
  e.crossingQuantity args < args.quantity ∧
    if args.side = Side.buy.code then ∃ first ∈ e.buyOrders.head?, first.price < args.price
    else ∃ first ∈ e.sellOrders.head?, args.price < first.price

end ReferenceEngine

theorem sum_map_quantity_toObj (orders : List COrder) :
    ((orders.map COrder.toObj).map COrderObj.quantity).sum = ((orders.map COrder.quantity).sum : Nat) := by
  induction orders with
  | nil => rfl
  | cons order orders ih =>
      rw [List.map_cons, List.map_cons, List.sum_cons, ih, List.map_cons, List.sum_cons, Int.natCast_add]
      rfl

theorem ReferenceEngine.crossingQuantity_toArgs {book : Book} {e : ReferenceEngine}
    (h : Simulates COrder.toObj book e.toPyBook) (order : COrder) : e.crossingQuantity order.toArgs =
      ChronosMatch.crossingQuantity order.side order (book.resting order.side.opposite) := by
  obtain ⟨orders, hresting, hsort⟩ := h.resting order.side.opposite
  have hperm := Ranked.perm_stableSort (COrder.rank order.side.opposite) orders
  rw [hsort] at hperm
  have hsum : ChronosMatch.crossingQuantity order.side order (book.resting order.side.opposite) =
      ChronosMatch.crossingQuantity order.side order orders :=
    ((hperm.filter _).map _).sum_eq
  have hfilter : ∀ crossing : COrderObj → Bool,
      (∀ best : COrder, crossing best.toObj = crosses order.side best order) →
      (((orders.map COrder.toObj).filter crossing).map COrderObj.quantity).sum =
        (ChronosMatch.crossingQuantity order.side order orders : Int) := by
    intro crossing hcrossing
    rw [List.filter_map, sum_map_quantity_toObj, ChronosMatch.crossingQuantity]
    simp only [Function.comp_def, hcrossing]
  rw [hsum]
  cases hside : order.side with
  | buy =>
      rw [hside] at hresting hfilter
      have hcode : order.toArgs.side = Side.buy.code := congrArg Side.code hside
      rw [crossingQuantity, if_pos hcode, show e.sellOrders = _ from hresting]
      exact hfilter _ fun best => by simp [COrder.toObj, COrder.toArgs, crosses]
  | sell =>
      rw [hside] at hresting hfilter
      have hcode : order.toArgs.side = Side.sell.code := congrArg Side.code hside
      rw [crossingQuantity, if_neg (by rw [hcode]; decide), show e.buyOrders = _ from hresting]
      exact hfilter _ fun best => by simp [COrder.toObj, COrder.toArgs, crosses]

theorem ReferenceEngine.overtakes_toArgs {book : Book} {e : ReferenceEngine}
    (h : Simulates COrder.toObj book e.toPyBook) {order : COrder} {orders : List COrder}
    (hresting : e.resting order.side = orders.map COrder.toObj) : e.Overtakes order.toArgs ↔
      0 < (book.filling order).remainder.quantity ∧
        ∃ first ∈ orders.head?, order.side.Better order.price first.price := by
  have hremainder := quantity_remainder_fillAll order (book.sorted order.side.opposite)
  rw [← Book.filling] at hremainder
  have hexceeds : e.crossingQuantity order.toArgs < order.toArgs.quantity ↔
      0 < (book.filling order).remainder.quantity := by
    rw [crossingQuantity_toArgs h, hremainder, COrder.toArgs, Int.ofNat_lt]
    omega
  rw [Overtakes, hexceeds]
  refine and_congr_right fun _ => ?_
  cases hside : order.side with
  | buy =>
      rw [hside] at hresting
      have hcode : order.toArgs.side = Side.buy.code := congrArg Side.code hside
      rw [if_pos hcode, show e.buyOrders = _ from hresting]
      cases orders <;> simp [COrder.toArgs, COrder.toObj, Side.Better]
  | sell =>
      rw [hside] at hresting
      have hcode : order.toArgs.side = Side.sell.code := congrArg Side.code hside
      rw [if_neg (by rw [hcode]; decide), show e.sellOrders = _ from hresting]
      cases orders <;> simp [COrder.toArgs, COrder.toObj, Side.Better]

/-! ### The snapshot of the reference engine -/

/-- On both sides the first order of the list has the best price. -/
def ReferenceEngine.ShowsBest (e : ReferenceEngine) : Prop :=
  ∀ side, ∃ orders, e.resting side = orders.map COrder.toObj ∧ FirstIsBest side orders

theorem COrder.toObj_injective : Function.Injective COrder.toObj := by
  rintro ⟨_, side, ⟨_, _, _⟩, _, _⟩ ⟨_, side', ⟨_, _, _⟩, _, _⟩ h
  simp only [COrder.toObj, COrderObj.mk.injEq, Int.natCast_inj] at h
  obtain ⟨rfl, hside, rfl, rfl, rfl⟩ := h
  cases side <;> cases side' <;> first | rfl | cases hside

theorem ReferenceEngine.ShowsBest.first {e : ReferenceEngine} (h : e.ShowsBest) {side : Side}
    {orders : List COrder} (hresting : e.resting side = orders.map COrder.toObj) : FirstIsBest side orders := by
  obtain ⟨orders', hresting', hbest⟩ := h side
  rw [hresting] at hresting'
  rwa [List.map_injective_iff.mpr COrder.toObj_injective hresting']

/-- An order keeps the best prices in front unless it overtakes. -/
theorem ReferenceEngine.showsBest_addOrder {book : Book} {e : ReferenceEngine}
    (h : Simulates COrder.toObj book e.toPyBook) (hbest : e.ShowsBest) (order : COrder) :
    (e.addOrder order.toArgs).2.ShowsBest ↔ ¬ e.Overtakes order.toArgs := by
  obtain ⟨orders, hresting, hsort⟩ := h.resting order.side
  obtain ⟨hopposite, hown, -⟩ := PyBook.submit_map COrder.toObj_embeds order (h.sorted COrder.toObj_embeds _)
  have hfirst := hbest.first hresting
  have hprice : (book.filling order).remainder.price = order.price := by
    have hfills := (fillAll_spec order.side order (book.resting order.side.opposite)).1
    rw [Book.filling, hfills.remainder_eq.1]
  have hstep : (e.addOrder order.toArgs).2.ShowsBest ↔
      FirstIsBest order.side (if 0 < (book.filling order).remainder.quantity
        then orders ++ [(book.filling order).remainder] else orders) := by
    have hafter : (e.addOrder order.toArgs).2.resting order.side =
        (if 0 < (book.filling order).remainder.quantity
          then orders ++ [(book.filling order).remainder] else orders).map COrder.toObj := by
      rw [addOrder_toArgs, hown, hresting]
      split
      · rw [List.map_append]
        rfl
      · rfl
    refine ⟨fun hshows => hshows.first hafter, fun hownBest => ?_⟩
    refine Side.forall order.side ⟨_, hafter, hownBest⟩ ⟨(book.filling order).left, ?_, ?_⟩
    · rw [addOrder_toArgs, hopposite]
    · rw [← book.submit_resting_opposite]
      exact .of_sorted ((book.submit order).sorted _)
  rw [hstep, overtakes_toArgs h hresting]
  split
  · next hpos =>
      simp only [hpos, true_and]
      cases orders with
      | nil => simp [FirstIsBest, Side.not_better_self]
      | cons first rest =>
          simp only [FirstIsBest, List.cons_append, List.head?_cons, Option.mem_some_iff, forall_eq',
            exists_eq_left'] at hfirst ⊢
          constructor
          · intro hall hbetter
            exact hall (book.filling order).remainder (by simp) (by rwa [hprice])
          · intro hnot other hother
            rw [← List.cons_append, List.mem_append, List.mem_singleton] at hother
            rcases hother with hother | rfl
            · exact hfirst other hother
            · rwa [hprice]
  · next hzero =>
      simp only [hzero, false_and, not_false_iff, iff_true]
      exact hfirst

/-! ### The levels of the reference engine -/

def addPriceDepth (price : Price) (qty : Int) : List (Price × Int) → List (Price × Int)
  | [] => [(price, qty)]
  | (p, q) :: rest => if p = price then (p, q + qty) :: rest else (p, q) :: addPriceDepth price qty rest

/-- The dict of a side, with its keys as prices. -/
def priceDepth (orders : List COrder) : List (Price × Int) :=
  orders.foldl (fun depth order => addPriceDepth order.price order.quantity depth) []

def levelItem (level : Price × Int) : Binary64 × Int := (level.1.value, level.2)

theorem addDepth_map (price : Price) (qty : Int) (items : List (Price × Int)) :
    addDepth price.value qty (items.map levelItem) = (addPriceDepth price qty items).map levelItem := by
  induction items with
  | nil => rfl
  | cons item items ih =>
      rw [List.map_cons, levelItem, addDepth, addPriceDepth, ih]
      simp only [Price.sameValue_iff]
      split <;> rfl

theorem depthMap_map (orders : List COrder) :
    depthMap (orders.map COrder.toObj) = (priceDepth orders).map levelItem := by
  have hfold : ∀ items : List (Price × Int),
      (orders.map COrder.toObj).foldl (fun depth order => addDepth order.price order.quantity depth)
        (items.map levelItem) =
        (orders.foldl (fun depth order => addPriceDepth order.price order.quantity depth) items).map levelItem := by
    induction orders with
    | nil => exact fun items => rfl
    | cons order orders ih =>
        intro items
        rw [List.map_cons, List.foldl_cons, List.foldl_cons, ← ih]
        exact congrArg (fun items => List.foldl _ items (orders.map COrder.toObj))
          (addDepth_map order.price order.quantity items)
  exact hfold []

theorem mem_addPriceDepth {price p : Price} {qty : Int} {items : List (Price × Int)} :
    p ∈ (addPriceDepth price qty items).map Prod.fst ↔ p = price ∨ p ∈ items.map Prod.fst := by
  induction items with
  | nil => simp [addPriceDepth]
  | cons item items ih =>
      rw [addPriceDepth]
      split
      · next heq =>
          simp only [List.map_cons, List.mem_cons, ← heq]
          tauto
      · simp only [List.map_cons, List.mem_cons, ih]
        tauto

theorem mem_priceDepth {orders : List COrder} {p : Price} :
    p ∈ (priceDepth orders).map Prod.fst ↔ ∃ order ∈ orders, order.price = p := by
  have hfold : ∀ items : List (Price × Int),
      p ∈ (orders.foldl (fun depth order => addPriceDepth order.price order.quantity depth) items).map Prod.fst ↔
        (∃ order ∈ orders, order.price = p) ∨ p ∈ items.map Prod.fst := by
    induction orders with
    | nil => simp
    | cons order orders ih =>
        intro items
        rw [List.foldl_cons, ih, mem_addPriceDepth]
        simp only [List.mem_cons, exists_eq_or_imp, eq_comm (a := p)]
        rw [or_left_comm, or_assoc]
  rw [priceDepth, hfold []]
  simp

/-- The key a side is sorted by, `-price` for bids and the price for asks. -/
def levelKey (side : Side) (level : Binary64 × Int) : Binary64 :=
  match side with
  | .buy => level.1.neg
  | .sell => level.1

theorem sortedBy_map (side : Side) (items : List (Price × Int)) : sortedBy (levelKey side) (items.map levelItem) =
    (Ranked.stableSort (fun level => rank side level.1 0) items).map levelItem := by
  rw [sortedBy, Ranked.stableSort]
  refine (List.map_insertionSort _ _ levelItem items fun x _ y _ => ?_).symm
  cases side with
  | buy =>
      simp only [rank, levelKey, levelItem, Binary64.lt_def, Binary64.isNaN_neg, Binary64.key_neg,
        Price.isNaN_value, true_and, Prod.Lex.toLex_le_toLex]
      omega
  | sell =>
      simp only [rank, levelKey, levelItem, Binary64.lt_def, Price.isNaN_value, true_and,
        Prod.Lex.toLex_le_toLex]
      omega

/-- Where the first order of a list has the best price, the first level has that price too. -/
theorem FirstIsBest.head?_levels {side : Side} {orders : List COrder} (h : FirstIsBest side orders) :
    (sortedBy (levelKey side) (depthMap (orders.map COrder.toObj))).head?.map Prod.fst =
      orders.head?.map fun order => order.price.value := by
  rw [depthMap_map, sortedBy_map]
  cases orders with
  | nil => rfl
  | cons first rest =>
      obtain ⟨level, hlevel, hprice⟩ := List.mem_map.mp (mem_priceDepth.mpr ⟨first, List.mem_cons_self, rfl⟩)
      have hmem := (Ranked.mem_stableSort fun level : Price × Int => rank side level.1 0).mpr hlevel
      have hsorted := Ranked.sorted_stableSort (fun level : Price × Int => rank side level.1 0)
        (priceDepth (first :: rest))
      have hkeys : ∀ top ∈ Ranked.stableSort (fun level : Price × Int => rank side level.1 0)
          (priceDepth (first :: rest)), ∃ order ∈ first :: rest, order.price = top.1 := fun top htop =>
        mem_priceDepth.mp (List.mem_map_of_mem ((Ranked.mem_stableSort _).mp htop))
      cases hsort : Ranked.stableSort (fun level : Price × Int => rank side level.1 0)
        (priceDepth (first :: rest)) with
      | nil =>
          rw [hsort] at hmem
          cases hmem
      | cons top others =>
          rw [hsort] at hmem hsorted hkeys
          obtain ⟨order, horder, hkey⟩ := hkeys top List.mem_cons_self
          have hnot := h first rfl order horder
          have hnot' : ¬ side.Better first.price top.1 := by
            intro hbetter
            have hle := hsorted.head_le hmem
            rw [hprice] at hle
            exact hle.not_gt (rank_lt_iff.mpr (.inl hbetter))
          have htop : top.1 = first.price := by
            rw [hkey] at hnot
            cases side with
            | buy => exact le_antisymm (not_lt.mp hnot) (not_lt.mp hnot')
            | sell => exact le_antisymm (not_lt.mp hnot') (not_lt.mp hnot)
          simp only [List.map_cons, List.head?_cons, Option.map_some, levelItem, htop]

/-! ### The dashboard -/

/-- The best prices are those of the first levels. -/
def OrderBookTop.Consistent (top : OrderBookTop) : Prop :=
  top.bestBid = top.bidLevels.head?.map Prod.fst ∧ top.bestAsk = top.askLevels.head?.map Prod.fst

theorem getTopOfBook_ok {depth : Int} {engine : Engine} {top : OrderBookTop}
    (h : getTopOfBook depth engine = .ok top) : ∃ view, engine.depthView depth = .ok view ∧
      (top.bestBid, top.bestAsk) = engine.getOrderBookSnapshot ∧
      top.bidLevels = view.sortedBids.take depth.toNat ∧ top.askLevels = view.sortedAsks.take depth.toNat := by
  rw [getTopOfBook] at h
  split at h
  · cases h
  · cases hview : engine.depthView depth with
    | error err =>
        rw [hview] at h
        cases h
    | ok view =>
        rw [hview] at h
        cases h
        exact ⟨view, rfl, rfl, rfl, rfl⟩

theorem consistent_compiled {depth : Int} (hdepth : 1 ≤ depth) {e : MatchingEngine} {top : OrderBookTop}
    (h : getTopOfBook depth (.compiled e) = .ok top) : top.Consistent := by
  obtain ⟨view, hview, hsnapshot, hbids, hasks⟩ := getTopOfBook_ok h
  obtain ⟨n, rfl⟩ := Int.eq_ofNat_of_zero_le (show 0 ≤ depth by omega)
  have hn : 1 ≤ n := by omega
  rw [Engine.depthView, MatchingEngine.getBookDepth] at hview
  split at hview
  · cases hview
    obtain ⟨hbid, hask⟩ := Prod.mk.injEq .. ▸ hsnapshot
    rw [OrderBookTop.Consistent, hbids, hasks, Int.toNat_natCast, List.head?_take, List.head?_take,
      if_neg (by omega), if_neg (by omega), List.head?_map, List.head?_map, Option.map_map, Option.map_map]
    exact ⟨hbid.trans (MatchingEngine.head?_scanLevels hn _).symm,
      hask.trans (MatchingEngine.head?_scanLevels hn _).symm⟩
  · cases hview

theorem ReferenceEngine.ShowsBest.consistent {e : ReferenceEngine} (hbest : e.ShowsBest) {depth : Int}
    (hdepth : 1 ≤ depth) {top : OrderBookTop} (h : getTopOfBook depth (.reference e) = .ok top) :
    top.Consistent := by
  obtain ⟨view, hview, hsnapshot, hbids, hasks⟩ := getTopOfBook_ok h
  obtain ⟨buys, hbuys, hfirstBuy⟩ := hbest .buy
  obtain ⟨sells, hsells, hfirstSell⟩ := hbest .sell
  change e.buyOrders = _ at hbuys
  change e.sellOrders = _ at hsells
  cases hview
  obtain ⟨hbid, hask⟩ := Prod.mk.injEq .. ▸ hsnapshot
  rw [OrderBookTop.Consistent, hbids, hasks, List.head?_take, List.head?_take, if_neg (by omega), if_neg (by omega),
    hbid, hask, hbuys, hsells, List.head?_map, List.head?_map, Option.map_map, Option.map_map]
  exact ⟨hfirstBuy.head?_levels.symm, hfirstSell.head?_levels.symm⟩

/-! ### Both engines after the same orders -/

/-- The snapshot has the best price of each side. -/
def IsBestSnapshot (buys sells : List Binary64) (snapshot : Option Binary64 × Option Binary64) : Prop :=
  IsBest .buy buys snapshot.1 ∧ IsBest .sell sells snapshot.2

structure TrueTopOfBook (feed : List (Growth × OrderArgs)) (e : MatchingEngine) (r : ReferenceEngine) : Prop where
  compiled : IsBestSnapshot (e.buyOrders.map fun order => order.price.value)
    (e.sellOrders.map fun order => order.price.value) e.getOrderBookSnapshot
  reference : IsBestSnapshot (r.buyOrders.map COrderObj.price) (r.sellOrders.map COrderObj.price)
    r.getOrderBookSnapshot
  same : MatchingEngine.empty.Takes feed → e.getOrderBookSnapshot = r.getOrderBookSnapshot
  dashboard : ∀ engine, engine = .compiled e ∨ engine = .reference r → ∀ depth, 1 ≤ depth →
    ∀ top, getTopOfBook depth engine = .ok top → top.Consistent

theorem MatchingEngine.isBestSnapshot {history : List COrder} {e : MatchingEngine} (h : BookInvariant history e) :
    IsBestSnapshot (e.buyOrders.map fun order => order.price.value)
      (e.sellOrders.map fun order => order.price.value) e.getOrderBookSnapshot := by
  obtain ⟨_, hbuys⟩ := h.ordered .buy
  obtain ⟨_, hsells⟩ := h.ordered .sell
  exact ⟨(isBest_head? .buy _).mpr (.of_sorted hbuys.sorted), (isBest_head? .sell _).mpr (.of_sorted hsells.sorted)⟩

theorem ReferenceEngine.isBestSnapshot_iff {book : Book} {r : ReferenceEngine}
    (h : Simulates COrder.toObj book r.toPyBook) : IsBestSnapshot (r.buyOrders.map COrderObj.price)
      (r.sellOrders.map COrderObj.price) r.getOrderBookSnapshot ↔ r.ShowsBest := by
  obtain ⟨buys, hbuys, -⟩ := h.resting .buy
  obtain ⟨sells, hsells, -⟩ := h.resting .sell
  have hbuy := isBest_head? .buy buys
  have hsell := isBest_head? .sell sells
  have hsnapshot : r.getOrderBookSnapshot =
      (buys.head?.map fun order => order.price.value, sells.head?.map fun order => order.price.value) := by
    rw [getOrderBookSnapshot, show r.buyOrders = _ from hbuys, show r.sellOrders = _ from hsells, List.head?_map,
      List.head?_map, Option.map_map, Option.map_map]
    rfl
  rw [IsBestSnapshot, hsnapshot, show r.buyOrders = _ from hbuys, show r.sellOrders = _ from hsells, List.map_map,
    List.map_map]
  constructor
  · rintro ⟨hbuyBest, hsellBest⟩
    exact Side.forall .buy ⟨buys, hbuys, hbuy.mp hbuyBest⟩ ⟨sells, hsells, hsell.mp hsellBest⟩
  · intro hbest
    exact ⟨hbuy.mpr (hbest.first hbuys), hsell.mpr (hbest.first hsells)⟩

theorem head?_price_of_perm {side : Side} {orders orders' : List COrder} (hperm : orders.Perm orders')
    (h : FirstIsBest side orders) (h' : FirstIsBest side orders') :
    (orders.head?.map fun order => order.price.value) = orders'.head?.map fun order => order.price.value := by
  cases orders with
  | nil => rw [List.nil_perm.mp hperm]
  | cons first rest =>
      cases orders' with
      | nil => cases List.perm_nil.mp hperm
      | cons first' rest' =>
          have hnot := h first rfl first' (hperm.mem_iff.mpr List.mem_cons_self)
          have hnot' := h' first' rfl first (hperm.mem_iff.mp List.mem_cons_self)
          have hprice : first.price = first'.price := by
            cases side with
            | buy => exact le_antisymm (not_lt.mp hnot') (not_lt.mp hnot)
            | sell => exact le_antisymm (not_lt.mp hnot) (not_lt.mp hnot')
          rw [List.head?_cons, List.head?_cons, Option.map_some, Option.map_some, hprice]

theorem ReferenceEngine.ShowsBest.snapshot_eq {book : Book} {e : MatchingEngine} {r : ReferenceEngine}
    (hbest : r.ShowsBest) (h : Simulates COrder.toObj book r.toPyBook) (hrefines : Refines e book) :
    e.getOrderBookSnapshot = r.getOrderBookSnapshot := by
  have hside : ∀ side, ((e.resting side).head?.map fun order => order.price.value) =
      (r.resting side).head?.map COrderObj.price := by
    intro side
    obtain ⟨orders, hresting, hsort⟩ := h.resting side
    have hperm := Ranked.perm_stableSort (COrder.rank side) orders
    rw [hsort] at hperm
    rw [hrefines.resting, hresting, List.head?_map, Option.map_map]
    exact head?_price_of_perm hperm (.of_sorted (book.sorted side)) (hbest.first hresting)
  exact Prod.ext (hside .buy) (hside .sell)

/-- After a feed, everything shown is true exactly when the reference engine shows its best prices. -/
theorem trueTopOfBook_iff {feed : List (Growth × OrderArgs)} (hvalid : ∀ p ∈ feed, p.2.Valid) :
    TrueTopOfBook feed (MatchingEngine.run (MatchingEngine.addOrders feed) .empty)
        (ReferenceEngine.run (feed.map Prod.snd) .empty) ↔
      (ReferenceEngine.run (feed.map Prod.snd) .empty).ShowsBest := by
  obtain ⟨orders, horders, hargs⟩ := MatchingEngine.parseOrders_ok hvalid
  have hbook := (MatchingEngine.run_trace (MatchingEngine.addOrders feed) .empty).bookInvariant
  have hsimulates := ReferenceEngine.run_empty_simulates orders
  rw [← hargs] at hsimulates
  constructor
  · exact fun h => (ReferenceEngine.isBestSnapshot_iff hsimulates).mp h.reference
  · intro hbest
    refine ⟨MatchingEngine.isBestSnapshot hbook, (ReferenceEngine.isBestSnapshot_iff hsimulates).mpr hbest,
      fun htakes => hbest.snapshot_eq hsimulates (Refines.empty.run horders htakes), ?_⟩
    rintro engine (rfl | rfl) depth hdepth top htop
    · exact consistent_compiled hdepth htop
    · exact hbest.consistent hdepth htop

/-- Throughout a run everything shown is true exactly when no order overtakes. -/
theorem trueTopOfBook_run_iff (feed : List (Growth × OrderArgs)) (hvalid : ∀ p ∈ feed, p.2.Valid) :
    (∀ before, before <+: feed → TrueTopOfBook before (MatchingEngine.run (MatchingEngine.addOrders before) .empty)
        (ReferenceEngine.run (before.map Prod.snd) .empty)) ↔
      ∀ before p, before ++ [p] <+: feed →
        ¬ (ReferenceEngine.run (before.map Prod.snd) .empty).Overtakes p.2 := by
  have hbeforeValid : ∀ {before}, before <+: feed → ∀ p ∈ before, p.2.Valid := fun hbefore p hp =>
    hvalid p (hbefore.subset hp)
  have hstep : ∀ before p, before ++ [p] <+: feed → (ReferenceEngine.run (before.map Prod.snd) .empty).ShowsBest →
      ((ReferenceEngine.run ((before ++ [p]).map Prod.snd) .empty).ShowsBest ↔
        ¬ (ReferenceEngine.run (before.map Prod.snd) .empty).Overtakes p.2) := by
    intro before p hbefore hbest
    obtain ⟨order, -, hargs⟩ := MatchingEngine.parseOrder_ok (hbeforeValid hbefore p (by simp))
    obtain ⟨orders, -, hargss⟩ := MatchingEngine.parseOrders_ok
      (hbeforeValid ((List.prefix_append before [p]).trans hbefore))
    have hsimulates := ReferenceEngine.run_empty_simulates orders
    rw [← hargss] at hsimulates
    rw [List.map_append, ReferenceEngine.run_append, List.map_singleton, hargs]
    exact ReferenceEngine.showsBest_addOrder hsimulates hbest order
  constructor
  · intro hall before p hbefore
    have hpre := (List.prefix_append before [p]).trans hbefore
    have hbest := (trueTopOfBook_iff (hbeforeValid hpre)).mp (hall before hpre)
    exact (hstep before p hbefore hbest).mp ((trueTopOfBook_iff (hbeforeValid hbefore)).mp (hall _ hbefore))
  · intro hnone before hbefore
    apply (trueTopOfBook_iff (hbeforeValid hbefore)).mpr
    induction before using List.reverseRecOn with
    | nil => exact Side.forall .buy ⟨[], rfl, fun _ h => by cases h⟩ ⟨[], rfl, fun _ h => by cases h⟩
    | append_singleton before p ih =>
        have hbest := ih ((List.prefix_append before [p]).trans hbefore)
        exact (hstep before p hbefore hbest).mpr (hnone before p hbefore)

/-- A buy at 100, then one at 101. -/
def risingBids : List (Growth × OrderArgs) :=
  [(.unlimited, ⟨1, 0, Binary64.ofInt 100, 5, 1⟩), (.unlimited, ⟨2, 0, Binary64.ofInt 101, 5, 2⟩)]

theorem risingBids_valid : ∀ p ∈ risingBids, p.2.Valid := by
  intro p hp
  simp only [risingBids, List.mem_cons, List.not_mem_nil, or_false] at hp
  rcases hp with rfl | rfl <;> exact ⟨by decide, by decide, by decide, by decide, by decide⟩

theorem trueTopOfBook_run_iff_risingBids :
    (∀ before, before <+: risingBids →
      TrueTopOfBook before (MatchingEngine.run (MatchingEngine.addOrders before) .empty)
        (ReferenceEngine.run (before.map Prod.snd) .empty)) ↔
      ∀ before p, before ++ [p] <+: risingBids →
        ¬ (ReferenceEngine.run (before.map Prod.snd) .empty).Overtakes p.2 :=
  trueTopOfBook_run_iff risingBids risingBids_valid

/-- The reference engine's best bid is still 100. -/
theorem not_trueTopOfBook_risingBids : (∀ p ∈ risingBids, p.2.Valid) ∧
    ¬ TrueTopOfBook risingBids (MatchingEngine.run (MatchingEngine.addOrders risingBids) .empty)
      (ReferenceEngine.run (risingBids.map Prod.snd) .empty) := by
  refine ⟨risingBids_valid, fun h => ?_⟩
  have hbest := h.reference.1
  have hsnapshot : (ReferenceEngine.run (risingBids.map Prod.snd) .empty).getOrderBookSnapshot =
      (some (Binary64.ofInt 100), none) := by decide
  rw [hsnapshot] at hbest
  have hle : Binary64.ofInt 101 ≤ Binary64.ofInt 100 := hbest.2 (Binary64.ofInt 101) (by decide)
  exact absurd hle (by decide)

end ChronosMatch
