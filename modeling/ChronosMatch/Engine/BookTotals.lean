import ChronosMatch.Engine.BookInvariant
import ChronosMatch.Engine.Conservation

/-!
# Totals of the book

The book itself, without an engine around it, never crosses and loses no quantity. Every unit that was
submitted either rests or has been filled, and a trade fills its quantity on both sides.
-/

namespace ChronosMatch

def quantityTotal (orders : List COrder) : Nat := (orders.map COrder.quantity).sum

def tradedTotal (trades : List CTrade) : Nat := (trades.map CTrade.quantity).sum

theorem quantityTotal_insertAfter (side : Side) (order : COrder) (orders : List COrder) :
    quantityTotal (Ranked.insertAfter (COrder.rank side) order orders) = order.quantity + quantityTotal orders :=
  ((Ranked.perm_insertAfter _ order orders).map COrder.quantity).sum_eq

theorem Fills.quantityTotal_eq {side : Side} {order remainder : COrder} {resting left : List COrder}
    {fills : List (COrder × Nat)} (h : Fills side order resting fills remainder left) :
    quantityTotal resting = (fills.map Prod.snd).sum + quantityTotal left := by
  simp only [quantityTotal]
  induction h with
  | none => simp
  | whole hcross hpos hle next ih =>
      rw [List.map_cons, List.sum_cons, List.map_cons, List.sum_cons, ih]
      omega
  | part hcross hpos hlt =>
      simp only [List.map_cons, List.map_nil, List.sum_cons, List.sum_nil]
      omega

namespace Book

/-- An engine that holds the book. -/
def toEngine (b : Book) : MatchingEngine where
  buyOrders := b.resting .buy
  sellOrders := b.resting .sell
  trades := b.trades

@[simp] theorem toEngine_resting (b : Book) (side : Side) : b.toEngine.resting side = b.resting side := by
  cases side <;> rfl

theorem submit_matched (order : COrder) (b : Book) :
    MatchingEngine.Matched order.side order (b.filling order).remainder (b.filling order).fills
      (b.filling order).left b.toEngine (b.submit order).toEngine where
  filled := by
    rw [toEngine_resting]
    exact (fillAll_spec order.side order (b.resting order.side.opposite)).1
  opposite := by rw [toEngine_resting, submit_resting_opposite]
  trades := submit_trades order b

theorem run_bookInvariant (orders : List COrder) {history : List COrder} {b : Book}
    (h : MatchingEngine.BookInvariant history b.toEngine) :
    MatchingEngine.BookInvariant (history ++ orders) (b.run orders).toEngine := by
  induction orders generalizing history b with
  | nil => rwa [List.append_nil]
  | cons order orders ih =>
      have hnext := h.accepted (submit_matched order b)
        (fillAll_spec order.side order (b.resting order.side.opposite)).2
        (by rw [toEngine_resting, toEngine_resting, submit_resting_same])
      rw [List.append_cons]
      exact ih hnext

theorem bookInvariant (orders : List COrder) :
    MatchingEngine.BookInvariant orders (empty.run orders).toEngine := by
  have hempty : MatchingEngine.BookInvariant [] empty.toEngine := MatchingEngine.BookInvariant.empty
  exact run_bookInvariant orders hempty

theorem uncrossed (orders : List COrder) {bid ask : COrder} (hbid : bid ∈ (empty.run orders).resting .buy)
    (hask : ask ∈ (empty.run orders).resting .sell) : bid.price < ask.price :=
  (bookInvariant orders).uncrossed bid hbid ask hask

/-! ### Quantities -/

/-- What an order brings is traded twice, once for each of its sides, or rests. -/
theorem submit_total (order : COrder) (b : Book) :
    2 * tradedTotal (b.submit order).trades + quantityTotal ((b.submit order).resting .buy) +
        quantityTotal ((b.submit order).resting .sell) =
      2 * tradedTotal b.trades + quantityTotal (b.resting .buy) + quantityTotal (b.resting .sell) +
        order.quantity := by
  have hfilled := (fillAll_spec order.side order (b.resting order.side.opposite)).1
  have htaken : quantityTotal (b.resting order.side.opposite) = ((b.filling order).fills.map Prod.snd).sum +
      quantityTotal (b.filling order).left := hfilled.quantityTotal_eq
  have hsum : order.quantity = ((b.filling order).fills.map Prod.snd).sum + (b.filling order).remainder.quantity :=
    hfilled.sum_eq
  have htrades : tradedTotal (b.submit order).trades =
      tradedTotal b.trades + ((b.filling order).fills.map Prod.snd).sum := by
    rw [submit_trades, tradedTotal, List.map_append, List.sum_append, List.map_map]
    simp only [Function.comp_def, quantity_tradeBetween]
    rfl
  have hown : quantityTotal ((b.submit order).resting order.side) =
      (b.filling order).remainder.quantity + quantityTotal (b.resting order.side) := by
    rw [submit_resting_same]
    split
    · exact quantityTotal_insertAfter _ _ _
    · omega
  have hopposite := congrArg quantityTotal (submit_resting_opposite order b)
  cases hside : order.side with
  | buy =>
      rw [hside] at htaken hown hopposite
      simp only [Side.opposite] at htaken hopposite
      omega
  | sell =>
      rw [hside] at htaken hown hopposite
      simp only [Side.opposite] at htaken hopposite
      omega

theorem run_total (orders : List COrder) (b : Book) :
    2 * tradedTotal (b.run orders).trades + quantityTotal ((b.run orders).resting .buy) +
        quantityTotal ((b.run orders).resting .sell) =
      2 * tradedTotal b.trades + quantityTotal (b.resting .buy) + quantityTotal (b.resting .sell) +
        quantityTotal orders := by
  induction orders generalizing b with
  | nil => rfl
  | cons order orders ih =>
      have hstep := submit_total order b
      have htotal : quantityTotal (order :: orders) = order.quantity + quantityTotal orders := rfl
      rw [run, ih, htotal]
      omega

end Book

end ChronosMatch
