import ChronosMatch.Engine.Book
import ChronosMatch.Engine.Reference

/-!
# The Python engines simulate the book

A Python engine leaves its lists unsorted and sorts a side when it is matched. `Simulates` relates it to
the book: its lists hold the orders of the book in some order, and the stable sort of that order is the
side of the book. A submission preserves this because sorting after an append is inserting, and sorting
what is sorted changes nothing.
-/

namespace ChronosMatch

/-- The arguments that an order was made of. -/
def COrder.toArgs (order : COrder) : OrderArgs where
  orderId := order.orderId
  side := order.side.code
  price := order.price.value
  quantity := order.quantity
  timestamp := order.timestamp

/-- A Python order object shows the fields of a C order, and writing a quantity keeps it so. -/
structure Embeds {α : Type} (F : OrderFields α) (f : COrder → α) : Prop where
  orderId : ∀ order, F.orderId (f order) = order.orderId
  price : ∀ order, F.price (f order) = order.price.value
  quantity : ∀ order, F.quantity (f order) = order.quantity
  timestamp : ∀ order, F.timestamp (f order) = order.timestamp
  setQuantity : ∀ (order : COrder) (quantity : Nat),
    F.setQuantity (f order) quantity = f { order with quantity }

def COrder.toObj (order : COrder) : COrderObj where
  orderId := order.orderId
  side := order.side.code
  price := order.price.value
  quantity := order.quantity
  timestamp := order.timestamp

theorem COrder.toObj_embeds : Embeds COrderObj.fields COrder.toObj :=
  ⟨fun _ => rfl, fun _ => rfl, fun _ => rfl, fun _ => rfl, fun _ _ => rfl⟩

/-- The baseline's name of a side, `"buy" if side == 0 else "sell"`. -/
def Baseline.sideName (side : Int) : String := if side = Side.buy.code then "buy" else "sell"

def Baseline.Order.ofArgs (args : OrderArgs) : Baseline.Order where
  orderId := args.orderId
  side := Baseline.sideName args.side
  price := args.price
  qty := args.quantity
  timestamp := args.timestamp

def COrder.toBaseline (order : COrder) : Baseline.Order := Baseline.Order.ofArgs order.toArgs

theorem COrder.toBaseline_embeds : Embeds Baseline.Order.fields COrder.toBaseline :=
  ⟨fun _ => rfl, fun _ => rfl, fun _ => rfl, fun _ => rfl, fun _ _ => rfl⟩

/-! ### The Python sort -/

namespace PyBook

variable {α : Type} {F : OrderFields α} {f : COrder → α}

def resting (b : PyBook α) : Side → List α
  | .buy => b.buyOrders
  | .sell => b.sellOrders

/-- The resting orders of a side as that side's sort leaves them. -/
def sorted (F : OrderFields α) (b : PyBook α) : Side → List α
  | .buy => b.sortedBuys F
  | .sell => b.sortedSells F

theorem keyLt_eq_false_iff {p q : Binary64} {s t : Int} (hp : p.isNaN = false) (hq : q.isNaN = false) :
    keyLt (q, t) (p, s) = false ↔ toLex (p.key, s) ≤ toLex (q.key, t) := by
  simp only [keyLt, Binary64.sameValue_def, Binary64.lt_def, hp, hq, true_and, Prod.Lex.toLex_le_toLex]
  split
  · simp only [decide_eq_false_iff_not]
    omega
  · simp only [decide_eq_false_iff_not]
    omega

/-- Sorting by the Python key is sorting by rank, for orders that have a price. -/
theorem sorted_map_of_price {β : Type} (g : β → α) (price : β → Price)
    (hprice : ∀ order, F.price (g order) = (price order).value) (b : PyBook α) (side : Side) {orders : List β}
    (h : b.resting side = orders.map g) : b.sorted F side =
      (Ranked.stableSort (fun order => rank side (price order) (F.timestamp (g order))) orders).map g := by
  cases side with
  | buy =>
      simp only [sorted, sortedBuys, listSort, show b.buyOrders = _ from h, Ranked.stableSort]
      refine (List.map_insertionSort _ _ g orders fun x _ y _ => ?_).symm
      rw [hprice, hprice, keyLt_eq_false_iff, Binary64.key_neg, Binary64.key_neg]
      · rfl
      · rw [Binary64.isNaN_neg]
        exact (price x).isNaN_value
      · rw [Binary64.isNaN_neg]
        exact (price y).isNaN_value
  | sell =>
      simp only [sorted, sortedSells, listSort, show b.sellOrders = _ from h, Ranked.stableSort]
      refine (List.map_insertionSort _ _ g orders fun x _ y _ => ?_).symm
      rw [hprice, hprice, keyLt_eq_false_iff (price x).isNaN_value (price y).isNaN_value]
      rfl

theorem sorted_map (hf : Embeds F f) (b : PyBook α) (side : Side) {orders : List COrder}
    (h : b.resting side = orders.map f) :
    b.sorted F side = (Ranked.stableSort (COrder.rank side) orders).map f := by
  have hrank : (fun order => rank side order.price (F.timestamp (f order))) = COrder.rank side := by
    funext order
    rw [hf.timestamp, COrder.rank]
  rw [sorted_map_of_price f COrder.price hf.price b side h, hrank]

/-! ### The Python match -/

/-- A match of either side, by the function the engine calls for it. -/
def submit (F : OrderFields α) (side : Side) (order : α) (b : PyBook α) : PyBook α :=
  match side with
  | .buy => b.matchBuy F order
  | .sell => b.matchSell F order

/-- The loop test of a side. -/
def crosses (F : OrderFields α) (side : Side) (best order : α) : Bool :=
  match side with
  | .buy => F.price best ≤ F.price order
  | .sell => F.price best ≥ F.price order

/-- The dict that a match of a side records. -/
def tradeBetween (F : OrderFields α) (side : Side) (order best : α) (matchedQty : Int) : TradeDict :=
  match side with
  | .buy => ⟨F.orderId order, F.orderId best, F.price best, matchedQty⟩
  | .sell => ⟨F.orderId best, F.orderId order, F.price best, matchedQty⟩

theorem crosses_map (hf : Embeds F f) (side : Side) (best order : COrder) :
    crosses F side (f best) (f order) = ChronosMatch.crosses side best order := by
  cases side <;> simp only [crosses, ChronosMatch.crosses, hf.price, Price.value_le, ge_iff_le]

theorem tradeBetween_map (hf : Embeds F f) (side : Side) (order best : COrder) (quantity : Nat) :
    tradeBetween F side (f order) (f best) quantity =
      (ChronosMatch.tradeBetween side order best quantity).toDict := by
  cases side <;> simp only [tradeBetween, ChronosMatch.tradeBetween, CTrade.toDict, hf.orderId, hf.price]

theorem matchLoop_map_cons (hf : Embeds F f) {side : Side} {order best : COrder} (hpos : 0 < order.quantity)
    (hcross : ChronosMatch.crosses side best order = true) (rest : List COrder) (trades : List TradeDict)
    {matched : Nat} (hmatched : matched = min order.quantity best.quantity) :
    matchLoop F (crosses F side) (tradeBetween F side) (f order) ((best :: rest).map f) trades =
      if best.quantity - matched = 0 then
        matchLoop F (crosses F side) (tradeBetween F side) (f { order with quantity := order.quantity - matched })
          (rest.map f) (trades ++ [(ChronosMatch.tradeBetween side order best matched).toDict])
      else (f { order with quantity := order.quantity - matched },
        f { best with quantity := best.quantity - matched } :: rest.map f,
        trades ++ [(ChronosMatch.tradeBetween side order best matched).toDict]) := by
  have hmin : min (order.quantity : Int) best.quantity = matched := by omega
  have horder : (order.quantity : Int) - matched = (order.quantity - matched : Nat) := by omega
  have hbest : (best.quantity : Int) - matched = (best.quantity - matched : Nat) := by omega
  rw [List.map_cons, matchLoop, hf.quantity, hf.quantity, crosses_map hf, if_pos ⟨by omega, hcross⟩]
  simp only [hmin, horder, hbest, hf.setQuantity, tradeBetween_map hf, hf.quantity, Int.natCast_eq_zero]

/-- The Python loop makes the fills of `fillAll`. -/
theorem matchLoop_map (hf : Embeds F f) (side : Side) (order : COrder) (resting : List COrder)
    (trades : List TradeDict) :
    matchLoop F (crosses F side) (tradeBetween F side) (f order) (resting.map f) trades =
      (f (fillAll side order resting).remainder, (fillAll side order resting).left.map f,
        trades ++ (fillAll side order resting).fills.map fun fill =>
          (ChronosMatch.tradeBetween side order fill.1 fill.2).toDict) := by
  induction resting generalizing order trades with
  | nil => simp [matchLoop, fillAll]
  | cons best rest ih =>
      by_cases htest : 0 < order.quantity ∧ ChronosMatch.crosses side best order = true
      · rw [fillAll, if_pos htest]
        split
        · next hle =>
            rw [matchLoop_map_cons hf htest.1 htest.2 rest trades (Nat.min_eq_right hle).symm,
              if_pos (Nat.sub_self _), ih]
            simp only [tradeBetween_withQuantity, List.map_cons, List.append_assoc, List.singleton_append]
        · next hlt =>
            rw [matchLoop_map_cons hf htest.1 htest.2 rest trades (Nat.min_eq_left (not_le.mp hlt).le).symm,
              if_neg (by omega), Nat.sub_self]
            rfl
      · rw [fillAll, if_neg htest, List.map_cons, matchLoop, if_neg]
        · simp
        · rwa [hf.quantity, crosses_map hf, Int.natCast_pos]

/-- A whole match by the Python code, when its sort gives the opposite side of the book. -/
theorem submit_map (hf : Embeds F f) (order : COrder) {b : PyBook α} {book : Book}
    (hsorted : b.sorted F order.side.opposite = (book.resting order.side.opposite).map f) :
    (b.submit F order.side (f order)).resting order.side.opposite = (book.filling order).left.map f ∧
      (b.submit F order.side (f order)).resting order.side = (if 0 < (book.filling order).remainder.quantity
        then b.resting order.side ++ [f (book.filling order).remainder] else b.resting order.side) ∧
      (b.submit F order.side (f order)).trades = b.trades ++
        (book.filling order).fills.map fun fill =>
          (ChronosMatch.tradeBetween order.side order fill.1 fill.2).toDict := by
  have hloop := matchLoop_map hf order.side order (book.resting order.side.opposite) b.trades
  rw [← hsorted, ← Book.filling] at hloop
  have hpos : (0 < F.quantity (f (book.filling order).remainder)) =
      (0 < (book.filling order).remainder.quantity) := by
    rw [hf.quantity, Int.natCast_pos]
  cases hside : order.side with
  | buy =>
      rw [hside] at hloop
      change matchLoop F (fun bestSell order => F.price bestSell ≤ F.price order)
        (fun order bestSell matchedQty => ⟨F.orderId order, F.orderId bestSell, F.price bestSell, matchedQty⟩)
        (f order) (b.sortedSells F) b.trades = _ at hloop
      simp only [submit, matchBuy, hloop, hpos]
      exact ⟨rfl, rfl, trivial⟩
  | sell =>
      rw [hside] at hloop
      change matchLoop F (fun bestBuy order => F.price bestBuy ≥ F.price order)
        (fun order bestBuy matchedQty => ⟨F.orderId bestBuy, F.orderId order, F.price bestBuy, matchedQty⟩)
        (f order) (b.sortedBuys F) b.trades = _ at hloop
      simp only [submit, matchSell, hloop, hpos]
      exact ⟨rfl, rfl, trivial⟩

end PyBook

/-! ### The simulation -/

/-- The Python lists hold the orders of the book, up to the stable sort of each side. -/
structure Simulates {α : Type} (f : COrder → α) (book : Book) (b : PyBook α) : Prop where
  resting : ∀ side, ∃ orders, b.resting side = orders.map f ∧
    Ranked.stableSort (COrder.rank side) orders = book.resting side
  trades : b.trades = book.trades.map CTrade.toDict

section Simulation

variable {α : Type} {F : OrderFields α} {f : COrder → α} {book : Book} {b : PyBook α}

theorem Simulates.empty : Simulates f .empty {} :=
  ⟨fun side => ⟨[], by cases side <;> rfl, rfl⟩, rfl⟩

theorem Simulates.sorted (h : Simulates f book b) (hf : Embeds F f) (side : Side) :
    b.sorted F side = (book.resting side).map f := by
  obtain ⟨orders, hresting, hsort⟩ := h.resting side
  rw [PyBook.sorted_map hf b side hresting, hsort]

theorem Simulates.submit (h : Simulates f book b) (hf : Embeds F f) (order : COrder) :
    Simulates f (book.submit order) (b.submit F order.side (f order)) := by
  obtain ⟨hopposite, hown, htrades⟩ := PyBook.submit_map hf order (h.sorted hf _)
  refine ⟨Side.forall order.side ?_ ?_, ?_⟩
  · obtain ⟨orders, hresting, hsort⟩ := h.resting order.side
    rw [hown, book.submit_resting_same, hresting]
    split
    · refine ⟨orders ++ [(book.filling order).remainder], by rw [List.map_append]; rfl, ?_⟩
      rw [Ranked.stableSort_concat, hsort]
    · exact ⟨orders, rfl, hsort⟩
  · refine ⟨(book.filling order).left, hopposite, ?_⟩
    rw [← book.submit_resting_opposite]
    exact Ranked.stableSort_eq_self _ ((book.submit order).sorted _)
  · rw [htrades, h.trades, book.submit_trades, List.map_append, List.map_map]
    rfl

end Simulation

/-! ### Runs of the Python engines -/

theorem ReferenceEngine.addOrder_toArgs (order : COrder) (e : ReferenceEngine) :
    (e.addOrder order.toArgs).2.toPyBook = e.submit COrderObj.fields order.side order.toObj := by
  cases order with
  | mk orderId side => cases side <;> rfl

theorem Baseline.OrderBook.addOrder_toBaseline (order : COrder) (b : OrderBook) :
    OrderBook.addOrder order.toBaseline b = b.submit Order.fields order.side order.toBaseline := by
  cases order with
  | mk orderId side => cases side <;> rfl

def ReferenceEngine.run : List OrderArgs → ReferenceEngine → ReferenceEngine
  | [], e => e
  | args :: orders, e => run orders (e.addOrder args).2

def Baseline.OrderBook.run : List OrderArgs → Baseline.OrderBook → Baseline.OrderBook
  | [], b => b
  | args :: orders, b => run orders (b.addOrder (.ofArgs args))

theorem ReferenceEngine.run_append (orders orders' : List OrderArgs) (e : ReferenceEngine) :
    e.run (orders ++ orders') = (e.run orders).run orders' := by
  induction orders generalizing e with
  | nil => rfl
  | cons args orders ih => exact ih _

theorem ReferenceEngine.run_simulates (orders : List COrder) {book : Book} {e : ReferenceEngine}
    (h : Simulates COrder.toObj book e.toPyBook) :
    Simulates COrder.toObj (book.run orders) (e.run (orders.map COrder.toArgs)).toPyBook := by
  induction orders generalizing book e with
  | nil => exact h
  | cons order orders ih =>
      apply ih
      rw [addOrder_toArgs]
      exact h.submit COrder.toObj_embeds order

theorem ReferenceEngine.run_empty_simulates (orders : List COrder) :
    Simulates COrder.toObj (Book.empty.run orders) (empty.run (orders.map COrder.toArgs)).toPyBook :=
  run_simulates orders .empty

theorem Baseline.OrderBook.run_simulates (orders : List COrder) {book : Book} {b : OrderBook}
    (h : Simulates COrder.toBaseline book b) :
    Simulates COrder.toBaseline (book.run orders) (b.run (orders.map COrder.toArgs)) := by
  induction orders generalizing book b with
  | nil => exact h
  | cons order orders ih =>
      apply ih
      have hstep := h.submit COrder.toBaseline_embeds order
      rwa [← addOrder_toBaseline] at hstep

end ChronosMatch
