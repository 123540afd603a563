import ChronosMatch.Base.Ranked
import ChronosMatch.Engine.Order

/-!
# The limit order book

What every engine of the repository computes, apart from memory and counting: an incoming order is filled
from the front of the opposite side for as long as that side meets its limit, and what is left of it
rests behind everything of its rank. `Fills` is the relation that also describes a match that breaks off;
`Book.submit` is the match that runs to its end.
-/

namespace ChronosMatch

theorem Side.forall {P : Side → Prop} (side : Side) (hown : P side) (hopposite : P side.opposite) :
    ∀ s, P s := by
  intro s
  cases side <;> cases s <;> assumption

theorem Side.eq_or_eq_opposite (side s : Side) : s = side ∨ s = side.opposite := by
  cases side <;> cases s <;> simp [Side.opposite]

theorem Side.opposite_ne (side : Side) : side.opposite ≠ side := by
  cases side <;> simp [Side.opposite]

/-! ### A single fill -/

/-- Does the best resting order meet the limit of an incoming order of the side? -/
def crosses (side : Side) (best order : COrder) : Bool :=
  match side with
  | .buy => best.price ≤ order.price
  | .sell => best.price ≥ order.price

/-- The trade of an incoming order of the side with a resting one, at the resting order's price. -/
def tradeBetween (side : Side) (order best : COrder) (matchedQuantity : Nat) : CTrade :=
  match side with
  | .buy => ⟨order.orderId, best.orderId, best.price, matchedQuantity⟩
  | .sell => ⟨best.orderId, order.orderId, best.price, matchedQuantity⟩

@[simp] theorem crosses_withQuantity (side : Side) (best order : COrder) (quantity : Nat) :
    crosses side best { order with quantity } = crosses side best order := by
  cases side <;> rfl

@[simp] theorem tradeBetween_withQuantity (side : Side) (order best : COrder) (quantity matched : Nat) :
    tradeBetween side { order with quantity } best matched = tradeBetween side order best matched := by
  cases side <;> rfl

/-- A limit is met unless it would be a better price on the resting side. -/
theorem crosses_eq_false_iff {side : Side} {best order : COrder} :
    crosses side best order = false ↔ side.opposite.Better order.price best.price := by
  cases side <;> simp only [crosses, Side.opposite, Side.Better, ge_iff_le, decide_eq_false_iff_not, not_le]

theorem crosses_congr {side : Side} {a b order order' : COrder} (hprice : a.price = b.price)
    (hlimit : order.price = order'.price) : crosses side a order = crosses side b order' := by
  cases side <;> simp only [crosses, hprice, hlimit]

/-! ### Fills from the front of a side -/

/-- `Fills side order resting fills remainder left`: taking the listed quantities from the front of
`resting` turns the incoming order into `remainder` and the opposite side into `left`. -/
inductive Fills (side : Side) : COrder → List COrder → List (COrder × Nat) → COrder → List COrder → Prop
  | none (order : COrder) (resting : List COrder) : Fills side order resting [] order resting
  | whole {order best remainder : COrder} {rest left : List COrder} {fills : List (COrder × Nat)}
      (hcross : crosses side best order = true) (hpos : 0 < order.quantity)
      (hle : best.quantity ≤ order.quantity)
      (next : Fills side { order with quantity := order.quantity - best.quantity } rest fills remainder left) :
      Fills side order (best :: rest) ((best, best.quantity) :: fills) remainder left
  | part {order best : COrder} {rest : List COrder}
      (hcross : crosses side best order = true) (hpos : 0 < order.quantity)
      (hlt : order.quantity < best.quantity) :
      Fills side order (best :: rest) [(best, order.quantity)] { order with quantity := 0 }
        ({ best with quantity := best.quantity - order.quantity } :: rest)

/-- Why a match ends: the incoming order is filled, or no opposite order meets its limit first. -/
def Exhausted (side : Side) (remainder : COrder) (left : List COrder) : Prop :=
  remainder.quantity = 0 ∨ ∀ best ∈ left.head?, crosses side best remainder = false

theorem Fills.exists_resting {side : Side} {order remainder : COrder} {resting left : List COrder}
    {fills : List (COrder × Nat)} (h : Fills side order resting fills remainder left) {a : COrder}
    (ha : a ∈ left) : ∃ b ∈ resting, a = { b with quantity := a.quantity } := by
  induction h with
  | none => exact ⟨a, ha, rfl⟩
  | whole hcross hpos hle next ih =>
      obtain ⟨b, hb, heq⟩ := ih ha
      exact ⟨b, List.mem_cons_of_mem _ hb, heq⟩
  | part hcross hpos hlt =>
      rcases List.mem_cons.mp ha with rfl | ha
      · exact ⟨_, List.mem_cons_self, rfl⟩
      · exact ⟨a, List.mem_cons_of_mem _ ha, rfl⟩

theorem Fills.exists_price {side : Side} {order remainder : COrder} {resting left : List COrder}
    {fills : List (COrder × Nat)} (h : Fills side order resting fills remainder left) {a : COrder}
    (ha : a ∈ left) : ∃ b ∈ resting, b.price = a.price := by
  obtain ⟨b, hb, heq⟩ := h.exists_resting ha
  exact ⟨b, hb, by rw [heq]⟩

theorem Fills.remainder_eq {side : Side} {order remainder : COrder} {resting left : List COrder}
    {fills : List (COrder × Nat)} (h : Fills side order resting fills remainder left) :
    remainder = { order with quantity := remainder.quantity } ∧ remainder.quantity ≤ order.quantity := by
  induction h with
  | none => exact ⟨rfl, le_rfl⟩
  | whole hcross hpos hle next ih =>
      obtain ⟨heq, hquantity⟩ := ih
      exact ⟨by rw [heq], hquantity.trans (Nat.sub_le _ _)⟩
  | part => exact ⟨rfl, Nat.zero_le _⟩

theorem Fills.length_le {side : Side} {order remainder : COrder} {resting left : List COrder}
    {fills : List (COrder × Nat)} (h : Fills side order resting fills remainder left) :
    left.length ≤ resting.length := by
  induction h with
  | none => exact le_rfl
  | whole hcross hpos hle next ih => exact ih.trans (Nat.le_succ _)
  | part => exact le_rfl

/-- How many orders the fills leave on the opposite side: every fill removes one, but for a last one that fills the
incoming order. -/
theorem Fills.length_eq {side : Side} {order remainder : COrder} {resting left : List COrder}
    {fills : List (COrder × Nat)} (h : Fills side order resting fills remainder left) :
    fills.length + left.length = resting.length ∨
      (fills.length + left.length = resting.length + 1 ∧ remainder.quantity = 0 ∧ 1 ≤ left.length) := by
  induction h with
  | none => simp
  | whole hcross hpos hle next ih =>
      simp only [List.length_cons]
      omega
  | part => simp [Nat.add_comm]

theorem Fills.left_eq {side : Side} {order remainder : COrder} {resting left : List COrder}
    (h : Fills side order resting [] remainder left) : left = resting := by
  cases h
  rfl

theorem Fills.fills_prefix {side : Side} {order remainder : COrder} {resting left : List COrder}
    {fills : List (COrder × Nat)} (h : Fills side order resting fills remainder left) :
    fills.map Prod.fst <+: resting := by
  induction h with
  | none => exact List.nil_prefix
  | whole hcross hpos hle next ih => exact List.cons_prefix_cons.mpr ⟨rfl, ih⟩
  | part => exact List.cons_prefix_cons.mpr ⟨rfl, List.nil_prefix⟩

/-- Where the first order of a sorted side does not meet a limit, none does. -/
theorem crosses_eq_false_of_head {side : Side} {orders : List COrder} {order : COrder}
    (hsorted : Ranked.Sorted (COrder.rank side.opposite) orders)
    (hhead : ∀ best ∈ orders.head?, crosses side best order = false) {a : COrder} (ha : a ∈ orders) :
    crosses side a order = false := by
  cases orders with
  | nil => cases ha
  | cons best rest =>
      have hbest := crosses_eq_false_iff.mp (hhead best rfl)
      exact crosses_eq_false_iff.mpr (hbest.trans_not (COrder.not_better_of_rank_le (hsorted.head_le ha)))

theorem Fills.sorted {side : Side} {order remainder : COrder} {resting left : List COrder}
    {fills : List (COrder × Nat)} (h : Fills side order resting fills remainder left)
    (hsorted : Ranked.Sorted (COrder.rank side.opposite) resting) :
    Ranked.Sorted (COrder.rank side.opposite) left := by
  induction h with
  | none => exact hsorted
  | whole hcross hpos hle next ih => exact ih hsorted.tail
  | part => exact hsorted.replaceHead (COrder.rank_withQuantity _ _ _)

/-! ### Filling to the end -/

structure Filling where
  fills : List (COrder × Nat)
  remainder : COrder
  left : List COrder

/-- Fill an order from the front of the opposite side until one of them is exhausted. -/
def fillAll (side : Side) : COrder → List COrder → Filling
  | order, [] => ⟨[], order, []⟩
  | order, best :: rest =>
      if 0 < order.quantity ∧ crosses side best order then
        if best.quantity ≤ order.quantity then
          let next := fillAll side { order with quantity := order.quantity - best.quantity } rest
          { next with fills := (best, best.quantity) :: next.fills }
        else
          ⟨[(best, order.quantity)], { order with quantity := 0 },
            { best with quantity := best.quantity - order.quantity } :: rest⟩
      else ⟨[], order, best :: rest⟩

theorem fillAll_spec (side : Side) (order : COrder) (resting : List COrder) :
    Fills side order resting (fillAll side order resting).fills (fillAll side order resting).remainder
        (fillAll side order resting).left ∧
      Exhausted side (fillAll side order resting).remainder (fillAll side order resting).left := by
  induction resting generalizing order with
  | nil => exact ⟨.none _ _, .inr (by simp [fillAll])⟩
  | cons best rest ih =>
      rw [fillAll]
      split
      · next htest =>
          obtain ⟨hpos, hcross⟩ := htest
          split
          · next hle =>
              obtain ⟨hfills, hstop⟩ := ih { order with quantity := order.quantity - best.quantity }
              exact ⟨.whole hcross hpos hle hfills, hstop⟩
          · next hlt => exact ⟨.part hcross hpos (not_le.mp hlt), .inl rfl⟩
      · next htest =>
          refine ⟨.none _ _, ?_⟩
          by_cases hzero : order.quantity = 0
          · exact .inl hzero
          · refine .inr fun b hb => ?_
            cases hb
            exact Bool.eq_false_iff.mpr fun hcross => htest ⟨Nat.pos_of_ne_zero hzero, hcross⟩

/-- A match that ran to its end made the fills of `fillAll`. -/
theorem Fills.fillAll_eq {side : Side} {order remainder : COrder} {resting left : List COrder}
    {fills : List (COrder × Nat)} (h : Fills side order resting fills remainder left)
    (hstop : Exhausted side remainder left) : fillAll side order resting = ⟨fills, remainder, left⟩ := by
  induction h with
  | none order resting =>
      cases resting with
      | nil => rfl
      | cons best rest =>
          rw [fillAll, if_neg]
          rintro ⟨hpos, hcross⟩
          rcases hstop with hzero | hhead
          · omega
          · rw [hhead best rfl] at hcross
            cases hcross
  | whole hcross hpos hle next ih => rw [fillAll, if_pos ⟨hpos, hcross⟩, if_pos hle, ih hstop]
  | part hcross hpos hlt => rw [fillAll, if_pos ⟨hpos, hcross⟩, if_neg (not_le.mpr hlt)]

/-! ### The book -/

/-- The resting orders of each side, best first, and the trades so far. -/
structure Book where
  resting : Side → List COrder
  trades : List CTrade
  sorted : ∀ side, Ranked.Sorted (COrder.rank side) (resting side)

namespace Book

def empty : Book where
  resting _ := []
  trades := []
  sorted _ := List.Pairwise.nil

/-- The fills that an order meets. -/
def filling (b : Book) (order : COrder) : Filling := fillAll order.side order (b.resting order.side.opposite)

/-- Fill an order, then let what is left of it rest. -/
def submit (order : COrder) (b : Book) : Book where
  resting side :=
    if side = order.side then
      if 0 < (b.filling order).remainder.quantity
      then Ranked.insertAfter (COrder.rank side) (b.filling order).remainder (b.resting side)
      else b.resting side
    else (b.filling order).left
  trades := b.trades ++ (b.filling order).fills.map fun fill => tradeBetween order.side order fill.1 fill.2
  sorted side := by
    obtain ⟨hfills, -⟩ := fillAll_spec order.side order (b.resting order.side.opposite)
    rcases Side.eq_or_eq_opposite order.side side with rfl | rfl
    · rw [if_pos rfl]
      split
      · exact (b.sorted order.side).insertAfter _
      · exact b.sorted order.side
    · rw [if_neg (Side.opposite_ne _)]
      exact hfills.sorted (b.sorted order.side.opposite)

theorem submit_resting_same (order : COrder) (b : Book) : (b.submit order).resting order.side =
    if 0 < (b.filling order).remainder.quantity
    then Ranked.insertAfter (COrder.rank order.side) (b.filling order).remainder (b.resting order.side)
    else b.resting order.side := if_pos rfl

theorem submit_resting_opposite (order : COrder) (b : Book) :
    (b.submit order).resting order.side.opposite = (b.filling order).left := if_neg (Side.opposite_ne _)

theorem submit_trades (order : COrder) (b : Book) : (b.submit order).trades =
    b.trades ++ (b.filling order).fills.map fun fill => tradeBetween order.side order fill.1 fill.2 := rfl

def run : List COrder → Book → Book
  | [], b => b
  | order :: orders, b => run orders (b.submit order)

theorem run_concat (orders : List COrder) (order : COrder) (b : Book) :
    b.run (orders ++ [order]) = (b.run orders).submit order := by
  induction orders generalizing b with
  | nil => rfl
  | cons first orders ih => exact ih _

/-- The number of trades and resting orders. -/
def size (b : Book) : Nat := b.trades.length + ((b.resting .buy).length + (b.resting .sell).length)

theorem length_resting (side : Side) (b : Book) :
    (b.resting side).length + (b.resting side.opposite).length = (b.resting .buy).length + (b.resting .sell).length := by
  cases side with
  | buy => rfl
  | sell => exact Nat.add_comm _ _

/-- A fill that removes no order is the last one, and then nothing of the incoming order rests. -/
theorem size_submit_le (order : COrder) (b : Book) : (b.submit order).size ≤ b.size + 1 := by
  obtain ⟨hfills, -⟩ := fillAll_spec order.side order (b.resting order.side.opposite)
  change Fills _ _ _ (b.filling order).fills (b.filling order).remainder (b.filling order).left at hfills
  have hbefore := length_resting order.side b
  have hafter := length_resting order.side (b.submit order)
  have hrests : ((b.submit order).resting order.side).length = if 0 < (b.filling order).remainder.quantity
      then (b.resting order.side).length + 1 else (b.resting order.side).length := by
    rw [submit_resting_same]
    split
    · rw [(Ranked.perm_insertAfter _ _ _).length_eq, List.length_cons]
    · rfl
  rw [submit_resting_opposite] at hafter
  rw [size, size, submit_trades, List.length_append, List.length_map]
  rcases hfills.length_eq with hall | ⟨hlast, hzero, -⟩
  · split at hrests <;> omega
  · rw [hzero, if_neg (Nat.lt_irrefl 0)] at hrests
    omega

theorem size_run_le (orders : List COrder) (b : Book) : (b.run orders).size ≤ b.size + orders.length := by
  induction orders generalizing b with
  | nil => exact le_rfl
  | cons order orders ih =>
      have hfirst := b.size_submit_le order
      have hrest := ih (b.submit order)
      rw [List.length_cons]
      exact hrest.trans (by omega)

end Book

end ChronosMatch
