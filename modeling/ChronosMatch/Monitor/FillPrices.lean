import ChronosMatch.Monitor.Validation

/-!
# The prices an order fills at

In every state that an engine reaches, an order fills along the opposite side from its best price on. The
compiled engine keeps that side sorted. The reference engine sorts it first, which puts the best price in
front because no price that it holds is a NaN.
-/

namespace ChronosMatch

/-- A finite price above zero and at least one unit, in integers of any size. -/
structure OrderArgs.Positive (args : OrderArgs) : Prop where
  price : args.price.isFinite = true ∧ Binary64.zero < args.price
  quantity : 1 ≤ args.quantity

namespace Engine

/-- The states that valid orders lead to. The compiled engine checks its orders itself. -/
inductive Reached : Engine → Prop
  | compiled (calls : List MatchingEngine.Call) : Reached (compiled (MatchingEngine.run calls .empty))
  | reference (orders : List OrderArgs) (hpositive : ∀ args ∈ orders, args.Positive) :
      Reached (reference (ReferenceEngine.run orders .empty))

def restingPrices (side : Side) : Engine → List Binary64
  | compiled e => (e.resting side).map fun order => order.price.value
  | reference e => (e.resting side).map COrderObj.price

/-- The engine after an order has the fills on its log, and they go along the prices of a side from the best. -/
structure Walked (side : Side) (e e' : Engine) (fills : List TradeDict) (prices : List Price) : Prop where
  trades : e'.getTrades = e.getTrades ++ fills
  walked : fills.map TradeDict.price <+: prices.map Price.value
  resting : (prices.map Price.value).Perm (e.restingPrices side)
  sorted : prices.Pairwise fun p q => ¬ side.Better q p

end Engine

/-! ### The compiled engine -/

namespace MatchingEngine

theorem price_tradeBetween (side : Side) (order best : COrder) (quantity : Nat) :
    (tradeBetween side order best quantity).price = best.price := by
  cases side <;> rfl

theorem Matched.walked {order remainder : COrder} {fills : List (COrder × Nat)} {left history : List COrder}
    {e e' : MatchingEngine} (h : Matched order.side order remainder fills left e e')
    (hbook : BookInvariant history e) : ∃ fills prices,
      Engine.Walked order.side.opposite (.compiled e) (.compiled e') fills prices := by
  obtain ⟨numbered, hnum⟩ := hbook.ordered order.side.opposite
  refine ⟨fills.map fun fill => (tradeBetween order.side order fill.1 fill.2).toDict,
    (e.resting order.side.opposite).map COrder.price, ?_, ?_, ?_, ?_⟩
  · show e'.trades.map CTrade.toDict = e.trades.map CTrade.toDict ++ _
    rw [h.trades, List.map_append, List.map_map]
    rfl
  · have hprices : (fills.map fun fill => (tradeBetween order.side order fill.1 fill.2).toDict).map TradeDict.price =
        ((fills.map Prod.fst).map COrder.price).map Price.value := by
      rw [List.map_map, List.map_map, List.map_map]
      apply List.map_congr_left
      intro fill hfill
      show (tradeBetween order.side order fill.1 fill.2).price.value = fill.1.price.value
      rw [price_tradeBetween]
    rw [hprices]
    exact (h.filled.fills_prefix.map COrder.price).map Price.value
  · rw [List.map_map]
    exact List.Perm.refl _
  · exact List.pairwise_map.mpr (hnum.sorted.imp COrder.not_better_of_rank_le)

theorem addOrder_walked {grow : Growth} {args : OrderArgs} {side : Side} (hside : args.side = side.code)
    {history : List COrder} {e e' : MatchingEngine} {res : Nat} (hbook : BookInvariant history e)
    (hadd : e.addOrder grow args = (.ok res, e')) : ∃ fills prices,
      Engine.Walked side.opposite (.compiled e) (.compiled e') fills prices := by
  rw [addOrder] at hadd
  cases hparse : parseOrder args with
  | error err =>
      rw [hparse] at hadd
      cases hadd
  | ok order =>
      obtain ⟨order', hparse', hargs⟩ := parseOrder_ok (valid_of_parseOrder hparse)
      obtain rfl : order = order' := by
        rw [hparse] at hparse'
        exact Except.ok.inj hparse'
      have hsame : order.side = side := by
        rw [hargs] at hside
        revert hside
        show order.side.code = side.code → _
        cases order.side <;> cases side <;> decide
      rcases hsubmit : submit grow order e with ⟨result, e''⟩
      rw [hparse] at hadd
      dsimp only at hadd
      rw [hsubmit] at hadd
      cases submit_effect hsubmit with
      | refused => cases hadd
      | interrupted => cases hadd
      | accepted hroom hmatched =>
          cases hadd
          rw [← hsame]
          exact hmatched.walked hbook

end MatchingEngine

/-! ### The reference engine -/

namespace ReferenceEngine

def HasPrice (order : COrderObj) : Prop := order.price.isFinite = true ∧ ¬ order.price ≤ Binary64.zero

def priceOf (order : {order : COrderObj // HasPrice order}) : Price := ⟨order.1.price, order.2.1, order.2.2⟩

def rankOf (side : Side) (order : {order : COrderObj // HasPrice order}) : ℤ ×ₗ ℤ :=
  rank side (priceOf order) order.1.timestamp

theorem hasPrice_of_eq {order : COrderObj} {price : Price} (h : order.price = price.value) : HasPrice order := by
  rw [HasPrice, h]
  exact ⟨price.finite, price.positive⟩

/-- The orders that rest have prices. -/
def Priced (b : PyBook COrderObj) : Prop := ∀ side, ∀ order ∈ b.resting side, HasPrice order

/-- The loop trades at the prices of its list from the front, and adds no price to it. -/
theorem matchLoop_prices (crosses : COrderObj → COrderObj → Bool) (trade : COrderObj → COrderObj → Int → TradeDict)
    (htrade : ∀ order best quantity, (trade order best quantity).price = best.price) (order : COrderObj)
    (resting : List COrderObj) (trades : List TradeDict) :
    ∃ remainder left fills, PyBook.matchLoop COrderObj.fields crosses trade order resting trades =
        (remainder, left, trades ++ fills) ∧
      remainder.price = order.price ∧ left.map COrderObj.price ⊆ resting.map COrderObj.price ∧
      fills.map TradeDict.price <+: resting.map COrderObj.price := by
  induction resting generalizing order trades with
  | nil => exact ⟨order, [], [], by rw [PyBook.matchLoop, List.append_nil], rfl, List.Subset.refl _, List.nil_prefix⟩
  | cons best rest ih =>
      rw [PyBook.matchLoop]
      split
      · dsimp only
        generalize min (COrderObj.fields.quantity order) (COrderObj.fields.quantity best) = matchedQty
        split
        · obtain ⟨remainder, left, fills, hloop, hprice, hleft, hfills⟩ := ih
            (COrderObj.fields.setQuantity order (COrderObj.fields.quantity order - matchedQty))
            (trades ++ [trade order best matchedQty])
          refine ⟨remainder, left, trade order best matchedQty :: fills, ?_, hprice, ?_, ?_⟩
          · rw [hloop, List.append_assoc, List.singleton_append]
          · exact List.subset_cons_of_subset _ hleft
          · exact List.cons_prefix_cons.mpr ⟨htrade order best matchedQty, hfills⟩
        · refine ⟨_, _, [trade order best matchedQty], rfl, rfl, List.Subset.refl _, ?_⟩
          exact List.cons_prefix_cons.mpr ⟨htrade order best matchedQty, List.nil_prefix⟩
      · exact ⟨order, best :: rest, [], by rw [List.append_nil], rfl, List.Subset.refl _, List.nil_prefix⟩

theorem submit_prices (side : Side) (order : COrderObj) (b : PyBook COrderObj) : ∃ fills,
    (b.submit COrderObj.fields side order).trades = b.trades ++ fills ∧
      fills.map TradeDict.price <+: (b.sorted COrderObj.fields side.opposite).map COrderObj.price ∧
      (∀ other ∈ (b.submit COrderObj.fields side order).resting side.opposite,
        other.price ∈ (b.sorted COrderObj.fields side.opposite).map COrderObj.price) ∧
      ∀ own ∈ (b.submit COrderObj.fields side order).resting side,
        own ∈ b.resting side ∨ own.price = order.price := by
  obtain ⟨remainder, left, fills, hloop, hprice, hleft, hfills⟩ := matchLoop_prices
    (PyBook.crosses COrderObj.fields side) (PyBook.tradeBetween COrderObj.fields side)
    (fun order best quantity => by cases side <;> rfl) order (b.sorted COrderObj.fields side.opposite) b.trades
  have hsubmit : (b.submit COrderObj.fields side order).trades = b.trades ++ fills ∧
      (b.submit COrderObj.fields side order).resting side.opposite = left ∧
      (b.submit COrderObj.fields side order).resting side =
        if 0 < COrderObj.fields.quantity remainder then b.resting side ++ [remainder] else b.resting side := by
    cases side with
    | buy =>
        change PyBook.matchLoop COrderObj.fields
          (fun bestSell order => COrderObj.fields.price bestSell ≤ COrderObj.fields.price order)
          (fun order bestSell matchedQty => ⟨COrderObj.fields.orderId order, COrderObj.fields.orderId bestSell,
            COrderObj.fields.price bestSell, matchedQty⟩) order (b.sortedSells COrderObj.fields) b.trades = _ at hloop
        simp only [PyBook.submit, PyBook.matchBuy, hloop]
        exact ⟨trivial, rfl, rfl⟩
    | sell =>
        change PyBook.matchLoop COrderObj.fields
          (fun bestBuy order => COrderObj.fields.price bestBuy ≥ COrderObj.fields.price order)
          (fun order bestBuy matchedQty => ⟨COrderObj.fields.orderId bestBuy, COrderObj.fields.orderId order,
            COrderObj.fields.price bestBuy, matchedQty⟩) order (b.sortedBuys COrderObj.fields) b.trades = _ at hloop
        simp only [PyBook.submit, PyBook.matchSell, hloop]
        exact ⟨trivial, rfl, rfl⟩
  obtain ⟨htrades, hopposite, hown⟩ := hsubmit
  refine ⟨fills, htrades, hfills, ?_, ?_⟩
  · rw [hopposite]
    exact fun other hother => hleft (List.mem_map_of_mem hother)
  · rw [hown]
    intro own hmem
    split at hmem
    · rcases List.mem_append.mp hmem with hmem | hmem
      · exact .inl hmem
      · exact .inr (by rw [List.mem_singleton.mp hmem, hprice])
    · exact .inl hmem

theorem Priced.sorted {b : PyBook COrderObj} (h : Priced b) (side : Side) : ∃ prices : List Price,
    (b.sorted COrderObj.fields side).map COrderObj.price = prices.map Price.value ∧
      (prices.map Price.value).Perm ((b.resting side).map COrderObj.price) ∧
      prices.Pairwise fun p q => ¬ side.Better q p := by
  obtain ⟨orders, horders⟩ : ∃ orders : List {order : COrderObj // HasPrice order},
      b.resting side = orders.map Subtype.val :=
    ⟨(b.resting side).attachWith HasPrice (h side), (List.attachWith_map_subtype_val (h side)).symm⟩
  have hsorted : b.sorted COrderObj.fields side = (Ranked.stableSort (rankOf side) orders).map Subtype.val :=
    PyBook.sorted_map_of_price Subtype.val priceOf (fun _ => rfl) b side horders
  refine ⟨(Ranked.stableSort (rankOf side) orders).map priceOf, ?_, ?_, ?_⟩
  · rw [hsorted, List.map_map, List.map_map]
    rfl
  · rw [List.map_map, horders, List.map_map]
    exact (Ranked.perm_stableSort (rankOf side) orders).map _
  · apply List.pairwise_map.mpr
    apply (Ranked.sorted_stableSort (rankOf side) orders).imp
    exact fun hle hbetter => hle.not_gt (rank_lt_iff.mpr (.inl hbetter))

theorem addOrder_eq_submit {args : OrderArgs} {side : Side}
    (hside : side = if args.side = Side.buy.code then .buy else .sell)
    (e : ReferenceEngine) : (e.addOrder args).2.toPyBook =
      e.submit COrderObj.fields side ⟨args.orderId, args.side, args.price, args.quantity, args.timestamp⟩ := by
  subst hside
  rw [addOrder]
  split <;> rfl

theorem Priced.addOrder {e : ReferenceEngine} (h : Priced e.toPyBook) {args : OrderArgs} (hargs : args.Positive) :
    Priced (e.addOrder args).2.toPyBook := by
  rw [addOrder_eq_submit rfl]
  generalize (if args.side = Side.buy.code then Side.buy else .sell) = side
  obtain ⟨-, -, -, hopposite, hown⟩ := submit_prices side
    ⟨args.orderId, args.side, args.price, args.quantity, args.timestamp⟩ e.toPyBook
  refine Side.forall side ?_ ?_
  · intro own hmem
    rcases hown own hmem with hold | hprice
    · exact h side own hold
    · obtain ⟨price, -, heq⟩ := MatchingEngine.checkPrice_ok hargs.price
      exact hasPrice_of_eq (hprice.trans heq)
  · intro other hmem
    obtain ⟨prices, hsorted, -, -⟩ := h.sorted side.opposite
    obtain ⟨price, -, heq⟩ := List.mem_map.mp (hsorted ▸ hopposite other hmem)
    exact hasPrice_of_eq heq.symm

theorem priced_run {orders : List OrderArgs} (hpositive : ∀ args ∈ orders, args.Positive) {e : ReferenceEngine}
    (h : Priced e.toPyBook) : Priced (e.run orders).toPyBook := by
  induction orders generalizing e with
  | nil => exact h
  | cons args orders ih =>
      obtain ⟨hargs, horders⟩ := List.forall_mem_cons.mp hpositive
      exact ih horders (h.addOrder hargs)

theorem Priced.walked {e : ReferenceEngine} (h : Priced e.toPyBook) {args : OrderArgs} {side : Side}
    (hside : args.side = side.code) : ∃ fills prices,
      Engine.Walked side.opposite (.reference e) (.reference (e.addOrder args).2) fills prices := by
  obtain ⟨prices, hsorted, hperm, horder⟩ := h.sorted side.opposite
  have heq : side = if args.side = Side.buy.code then .buy else .sell := by
    rw [hside]
    cases side <;> rfl
  obtain ⟨fills, htrades, hfills, -, -⟩ := submit_prices side
    ⟨args.orderId, args.side, args.price, args.quantity, args.timestamp⟩ e.toPyBook
  rw [← addOrder_eq_submit heq] at htrades
  exact ⟨fills, prices, htrades, hsorted ▸ hfills, hperm, horder⟩

end ReferenceEngine

/-- In every state reached, an order that the engine takes fills along the opposite side from its best price. -/
theorem Engine.Reached.walked {e e' : Engine} (h : e.Reached) {grow : Growth} {args : OrderArgs} {side : Side}
    (hside : args.side = side.code) {res : Int} (hadd : e.addOrder grow args = (.ok res, e')) :
    ∃ fills prices, Walked side.opposite e e' fills prices := by
  cases h with
  | compiled calls =>
      rcases hresult : (MatchingEngine.run calls .empty).addOrder grow args with ⟨result, after⟩
      rw [addOrder, hresult] at hadd
      cases result with
      | error err => cases hadd
      | ok orderId =>
          cases hadd
          exact MatchingEngine.addOrder_walked hside (MatchingEngine.bookInvariant_run calls) hresult
  | reference orders hpositive =>
      cases hadd
      exact (ReferenceEngine.priced_run hpositive fun side order hmem => by cases side <;> cases hmem).walked hside

end ChronosMatch
