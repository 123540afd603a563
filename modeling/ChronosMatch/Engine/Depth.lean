import Mathlib.Data.List.Sort
import ChronosMatch.Engine.Compiled

/-!
# Aggregated depth of the compiled engine

`get_book_depth` of `src/engine/matching_engine.pyx`, which groups a side into price levels in one pass
over its sorted buffer, and `get_order_book_depth`, which collects the levels in a dict and sorts its items.
The totals and level quantities of the first are `uint64_t` and wrap; those of the second are Python integers.
-/

namespace ChronosMatch

structure BookDepth where
  bidLevels : List (Binary64 × Nat)
  askLevels : List (Binary64 × Nat)
  totalBidQty : Nat
  totalAskQty : Nat
  bidOrderCount : Nat
  askOrderCount : Nat
deriving DecidableEq

namespace MatchingEngine

/-- The local variables of the pass over one side. -/
structure LevelScan where
  levels : List (Binary64 × Nat) := []
  total : Nat := 0
  levelPrice : Binary64 := Binary64.zero
  levelQty : Nat := 0
  openLevel : Bool := false

namespace LevelScan

def close (s : LevelScan) : LevelScan :=
  { s with levels := s.levels ++ [(s.levelPrice, s.levelQty)], openLevel := false }

def openAt (order : COrder) (s : LevelScan) : LevelScan :=
  { s with levelPrice := order.price.value, levelQty := order.quantity, openLevel := true }

/-- One turn of the loop, which goes on over the whole side for the sake of the total. -/
def step (maxLevels : Int) (s : LevelScan) (order : COrder) : LevelScan :=
  let s := { s with total := (s.total + order.quantity) % 2 ^ 64 }
  if maxLevels ≤ s.levels.length ∧ s.openLevel = false then s
  else if s.openLevel = true ∧ Binary64.SameValue order.price.value s.levelPrice then
    { s with levelQty := (s.levelQty + order.quantity) % 2 ^ 64 }
  else if s.openLevel then
    if maxLevels ≤ s.close.levels.length then s.close else s.close.openAt order
  else s.openAt order

/-- The level that is still open after the loop is the last one. -/
def finish (s : LevelScan) : LevelScan := if s.openLevel then s.close else s

end LevelScan

def scanLevels (maxLevels : Int) (orders : List COrder) : LevelScan :=
  (orders.foldl (LevelScan.step maxLevels) {}).finish

def getBookDepth (maxLevels : Int) (e : MatchingEngine) : Except PyError BookDepth :=
  if -2 ^ 31 ≤ maxLevels ∧ maxLevels < 2 ^ 31 then
    let bids := scanLevels maxLevels e.buyOrders
    let asks := scanLevels maxLevels e.sellOrders
    .ok {
      bidLevels := bids.levels
      askLevels := asks.levels
      totalBidQty := bids.total
      totalAskQty := asks.total
      bidOrderCount := e.buyOrders.length
      askOrderCount := e.sellOrders.length }
  else .error (.overflowError "value too large to convert to int")

/-- `depth_map[price] = depth_map.get(price, 0) + quantity` on a dict, whose items keep their order. -/
def addToMap (price : Binary64) (quantity : Nat) : List (Binary64 × Nat) → List (Binary64 × Nat)
  | [] => [(price, quantity)]
  | (p, q) :: rest =>
      if Binary64.SameValue p price then (p, q + quantity) :: rest else (p, q) :: addToMap price quantity rest

def priceMap (orders : List COrder) : List (Binary64 × Nat) :=
  orders.foldl (fun depth order => addToMap order.price.value order.quantity depth) []

/-- `<` of two tuples: the first entries decide where they differ. -/
def TupleLt (a b : Binary64 × Nat) : Prop := if Binary64.SameValue a.1 b.1 then a.2 < b.2 else a.1 < b.1

instance : DecidableRel TupleLt := fun _ _ => inferInstanceAs (Decidable (ite _ _ _))

/-- `[bids[:depth], asks[:depth]]` -/
def getOrderBookDepth (depth : Int) (e : MatchingEngine) :
    Except PyError (List (Binary64 × Nat) × List (Binary64 × Nat)) :=
  if -2 ^ 31 ≤ depth ∧ depth < 2 ^ 31 then
    if depth < 0 then .error (.valueError "depth must be non-negative")
    else
      let bids := (priceMap e.buyOrders).insertionSort fun a b => ¬ TupleLt a b
      let asks := (priceMap e.sellOrders).insertionSort fun a b => ¬ TupleLt b a
      .ok (bids.take depth.toNat, asks.take depth.toNat)
  else .error (.overflowError "value too large to convert to int")

/-! ### The levels of a side -/

/-- The levels from an open one on: runs of equal prices, each with its quantity. -/
def levelsFrom (price : Price) (qty : Nat) : List COrder → List (Binary64 × Nat)
  | [] => [(price.value, qty)]
  | order :: orders =>
      if order.price = price then levelsFrom price ((qty + order.quantity) % 2 ^ 64) orders
      else (price.value, qty) :: levelsFrom order.price order.quantity orders

def levelsOf : List COrder → List (Binary64 × Nat)
  | [] => []
  | order :: orders => levelsFrom order.price order.quantity orders

theorem head?_levelsFrom (price : Price) (qty : Nat) (orders : List COrder) :
    (levelsFrom price qty orders).head?.map Prod.fst = some price.value := by
  induction orders generalizing qty with
  | nil => rfl
  | cons order orders ih =>
      rw [levelsFrom]
      split
      · exact ih _
      · rfl

namespace LevelScan

variable {maxLevels : Nat} {s : LevelScan} {order : COrder}

theorem levels_foldl_of_full (orders : List COrder) (hclosed : s.openLevel = false)
    (hfull : maxLevels ≤ s.levels.length) :
    (orders.foldl (step maxLevels) s).finish.levels = s.levels := by
  induction orders generalizing s with
  | nil => rw [List.foldl_nil, finish, hclosed]; rfl
  | cons order orders ih =>
      have hstep : s.step maxLevels order = { s with total := (s.total + order.quantity) % 2 ^ 64 } :=
        if_pos ⟨Int.ofNat_le.mpr hfull, hclosed⟩
      rw [List.foldl_cons, hstep]
      exact ih hclosed hfull

theorem step_open (hopen : s.openLevel = true) {price : Price} (hprice : s.levelPrice = price.value) :
    s.step maxLevels order =
      let s := { s with total := (s.total + order.quantity) % 2 ^ 64 }
      if order.price = price then { s with levelQty := (s.levelQty + order.quantity) % 2 ^ 64 }
      else if maxLevels ≤ s.levels.length + 1 then s.close else s.close.openAt order := by
  have hlength : ((maxLevels : Int) ≤ (s.levels ++ [(s.levelPrice, s.levelQty)]).length) =
      (maxLevels ≤ s.levels.length + 1) := by
    rw [List.length_append, List.length_singleton, Int.ofNat_le]
  simp only [step, close, hopen, Bool.true_eq_false, and_false, if_false, true_and, if_true, hprice,
    Price.sameValue_iff] at hlength ⊢
  simp only [hlength]

theorem levels_foldl_of_open (orders : List COrder) {price : Price} (hopen : s.openLevel = true)
    (hprice : s.levelPrice = price.value) (hroom : s.levels.length < maxLevels) :
    (orders.foldl (step maxLevels) s).finish.levels =
      s.levels ++ (levelsFrom price s.levelQty orders).take (maxLevels - s.levels.length) := by
  induction orders generalizing s price with
  | nil =>
      rw [List.foldl_nil, finish, if_pos hopen, close, levelsFrom, hprice, List.take_of_length_le]
      rw [List.length_singleton]
      omega
  | cons order orders ih =>
      rw [List.foldl_cons, step_open hopen hprice, levelsFrom]
      dsimp only
      split
      · exact ih hopen hprice hroom
      · split
        · next hlast =>
            have hone : maxLevels - s.levels.length = 1 := by omega
            rw [levels_foldl_of_full orders rfl (by rw [close, List.length_append]; exact hlast), hone,
              List.take_succ_cons, List.take_zero, close, hprice]
        · next hmore =>
            have hgrown : (s.levels ++ [(s.levelPrice, s.levelQty)]).length = s.levels.length + 1 := by
              rw [List.length_append, List.length_singleton]
            have hrest : maxLevels - s.levels.length = maxLevels - (s.levels.length + 1) + 1 := by omega
            rw [ih rfl rfl (by rw [openAt, close, hgrown]; omega)]
            simp only [openAt, close, hgrown]
            rw [hrest, List.take_succ_cons, List.append_assoc, List.singleton_append, hprice]

theorem total_foldl (maxLevels : Int) (orders : List COrder) (s : LevelScan) (hbound : s.total < 2 ^ 64) :
    (orders.foldl (step maxLevels) s).finish.total =
      (s.total + (orders.map COrder.quantity).sum) % 2 ^ 64 := by
  induction orders generalizing s with
  | nil =>
      rw [List.foldl_nil, List.map_nil, List.sum_nil, Nat.add_zero, Nat.mod_eq_of_lt hbound, finish]
      split <;> rfl
  | cons order orders ih =>
      have htotal : (s.step maxLevels order).total = (s.total + order.quantity) % 2 ^ 64 := by
        simp only [step]
        split
        · rfl
        · split
          · rfl
          · split
            · split <;> rfl
            · rfl
      rw [List.foldl_cons, ih _ (by rw [htotal]; exact Nat.mod_lt _ (by decide)), htotal, List.map_cons,
        List.sum_cons, Nat.mod_add_mod, Nat.add_assoc]

end LevelScan

/-- One pass finds the levels of the side, up to the number wanted. -/
theorem levels_scanLevels (maxLevels : Nat) (orders : List COrder) :
    (scanLevels maxLevels orders).levels = (levelsOf orders).take maxLevels := by
  cases orders with
  | nil => rw [levelsOf, List.take_nil]; rfl
  | cons order orders =>
      rw [scanLevels, List.foldl_cons]
      by_cases hzero : maxLevels = 0
      · subst hzero
        have hstep : LevelScan.step (0 : Nat) {} order = { total := (0 + order.quantity) % 2 ^ 64 } := by
          simp [LevelScan.step]
        rw [hstep, LevelScan.levels_foldl_of_full orders rfl (Nat.zero_le _), List.take_zero]
      · have hstep : LevelScan.step maxLevels {} order =
            LevelScan.openAt order { total := (0 + order.quantity) % 2 ^ 64 } := by
          simp [LevelScan.step, hzero]
        rw [hstep, LevelScan.levels_foldl_of_open orders rfl rfl (Nat.pos_of_ne_zero hzero)]
        rfl

theorem total_scanLevels (maxLevels : Int) (orders : List COrder) :
    (scanLevels maxLevels orders).total = (orders.map COrder.quantity).sum % 2 ^ 64 := by
  rw [scanLevels, LevelScan.total_foldl maxLevels orders _ (by decide), Nat.zero_add]

theorem head?_scanLevels {maxLevels : Nat} (hmax : 1 ≤ maxLevels) (orders : List COrder) :
    (scanLevels maxLevels orders).levels.head?.map Prod.fst = orders.head?.map fun order => order.price.value := by
  rw [levels_scanLevels, List.head?_take, if_neg (by omega)]
  cases orders with
  | nil => rfl
  | cons order orders => exact head?_levelsFrom _ _ _

end MatchingEngine

end ChronosMatch
