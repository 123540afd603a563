import ChronosMatch.Base.Binary64
import Mathlib.Algebra.GroupWithZero.Nat
import Mathlib.Algebra.Ring.Int.Defs
import Mathlib.Data.Prod.Lex
import Mathlib.Order.Basic

/-!
# Orders and trades

What the matching engines exchange with their callers, `OrderArgs` in and `TradeDict` out, and the C
structures the compiled engine keeps. A price that passed validation is a `Price`, which carries the
two checks with it, and prices are then linearly ordered.
-/

namespace ChronosMatch

/-- The Python exceptions the models raise, with the message the source gives them. -/
inductive PyError
  | valueError (message : String)
  | overflowError (message : String)
  | memoryError (message : String)
deriving DecidableEq

def PyError.isMemoryError : PyError → Bool
  | memoryError _ => true
  | _ => false

/-- The arguments of `add_order(order_id, side, price, quantity, timestamp)`. -/
structure OrderArgs where
  orderId : Int
  side : Int
  price : Binary64
  quantity : Int
  timestamp : Int
deriving DecidableEq

/-- One entry of `get_trades()`. -/
structure TradeDict where
  buyId : Int
  sellId : Int
  price : Binary64
  qty : Int
deriving DecidableEq

inductive Side
  | buy
  | sell
deriving DecidableEq

namespace Side

def opposite : Side → Side
  | buy => sell
  | sell => buy

/-- `BUY = 0`, `SELL = 1` -/
def code : Side → Int
  | buy => 0
  | sell => 1

end Side

/-! ### Prices -/

/-- A price that passes `isfinite(price)` and not `price <= 0.0`. -/
structure Price where
  value : Binary64
  finite : value.isFinite = true
  positive : ¬ value ≤ Binary64.zero

namespace Price

theorem isNaN_value (p : Price) : p.value.isNaN = false := Binary64.isNaN_of_isFinite p.finite

theorem key_pos (p : Price) : 0 < p.value.key := by
  by_contra hkey
  refine p.positive ⟨p.isNaN_value, by decide, ?_⟩
  have hzero : Binary64.zero.key = 0 := by decide
  rw [hzero]
  omega

theorem toNat_bits (p : Price) : (p.value.bits.toNat : Int) = p.value.key := by
  have hpos := p.key_pos
  have hbits := p.value.bits.isLt
  simp only [Binary64.key, Binary64.negative, Binary64.magnitude, decide_eq_true_eq] at hpos ⊢
  split at hpos <;> omega

theorem key_injective : Function.Injective fun p : Price => p.value.key := by
  rintro ⟨⟨left⟩, hfinite, hpositive⟩ ⟨⟨right⟩, hfinite', hpositive'⟩ hkey
  have hleft := toNat_bits ⟨⟨left⟩, hfinite, hpositive⟩
  have hright := toNat_bits ⟨⟨right⟩, hfinite', hpositive'⟩
  have hbits : left = right := by
    apply BitVec.eq_of_toNat_eq
    dsimp only at hkey hleft hright
    omega
  subst hbits
  rfl

instance : LinearOrder Price := LinearOrder.lift' (fun p : Price => p.value.key) key_injective

theorem lt_iff_key {p q : Price} : p < q ↔ p.value.key < q.value.key := Iff.rfl

theorem le_iff_key {p q : Price} : p ≤ q ↔ p.value.key ≤ q.value.key := Iff.rfl

@[simp] theorem value_lt {p q : Price} : p.value < q.value ↔ p < q := by
  rw [Binary64.lt_def, lt_iff_key]
  exact ⟨fun h => h.2.2, fun h => ⟨p.isNaN_value, q.isNaN_value, h⟩⟩

@[simp] theorem value_le {p q : Price} : p.value ≤ q.value ↔ p ≤ q := by
  rw [Binary64.le_def, le_iff_key]
  exact ⟨fun h => h.2.2, fun h => ⟨p.isNaN_value, q.isNaN_value, h⟩⟩

theorem sameValue_iff {p q : Price} : Binary64.SameValue p.value q.value ↔ p = q := by
  rw [Binary64.sameValue_def]
  exact ⟨fun h => key_injective h.2.2, fun h => ⟨p.isNaN_value, q.isNaN_value, by rw [h]⟩⟩

theorem isNaN_mul_ofInt (p : Price) (n : Int) : (p.value.mul (Binary64.ofInt n)).isNaN = false := by
  by_cases hzero : n = 0
  · rw [hzero]
    exact Binary64.isNaN_mul p.finite (by decide)
  · refine Binary64.isNaN_mul_of_ne_zero p.isNaN_value (Binary64.isNaN_ofInt n) ?_
      (Binary64.magnitude_ofInt_ne_zero hzero)
    intro hmagnitude
    have hkey := p.key_pos
    rw [Binary64.key, hmagnitude] at hkey
    simp at hkey

end Price

/-! ### C structures -/

structure COrder where
  orderId : Nat
  side : Side
  price : Price
  quantity : Nat
  timestamp : Nat
deriving DecidableEq

structure CTrade where
  buyId : Nat
  sellId : Nat
  price : Price
  quantity : Nat
deriving DecidableEq

/-! ### Priority -/

namespace Side

/-- Is one price better than another for an order resting on the side? -/
def Better : Side → Price → Price → Prop
  | buy, p, q => q < p
  | sell, p, q => p < q

theorem Better.trans_not {side : Side} {p q r : Price} (hpq : side.Better p q) (hrq : ¬ side.Better r q) :
    side.Better p r := by
  cases side with
  | buy => exact lt_of_le_of_lt (not_lt.mp hrq) hpq
  | sell => exact lt_of_lt_of_le hpq (not_lt.mp hrq)

theorem not_better_self (side : Side) (p : Price) : ¬ side.Better p p := by
  cases side <;> exact lt_irrefl p

end Side

/-- Where an order stands on a side of the book: best price first, then earliest timestamp. -/
def rank (side : Side) (price : Price) (timestamp : Int) : ℤ ×ₗ ℤ :=
  match side with
  | .buy => toLex (-price.value.key, timestamp)
  | .sell => toLex (price.value.key, timestamp)

theorem rank_lt_iff {side : Side} {p q : Price} {s t : Int} :
    rank side p s < rank side q t ↔ side.Better p q ∨ (p = q ∧ s < t) := by
  cases side with
  | buy =>
      simp only [rank, Side.Better, Prod.Lex.toLex_lt_toLex, Price.lt_iff_key, ← Price.key_injective.eq_iff]
      omega
  | sell =>
      simp only [rank, Side.Better, Prod.Lex.toLex_lt_toLex, Price.lt_iff_key, ← Price.key_injective.eq_iff]

theorem rank_eq_iff {side : Side} {p q : Price} {s t : Int} :
    rank side p s = rank side q t ↔ p = q ∧ s = t := by
  rw [← Price.key_injective.eq_iff]
  cases side with
  | buy =>
      simp only [rank, EmbeddingLike.apply_eq_iff_eq, Prod.mk.injEq]
      omega
  | sell => simp only [rank, EmbeddingLike.apply_eq_iff_eq, Prod.mk.injEq]

namespace COrder

def rank (side : Side) (order : COrder) : ℤ ×ₗ ℤ := ChronosMatch.rank side order.price order.timestamp

@[simp] theorem rank_withQuantity (side : Side) (order : COrder) (quantity : Nat) :
    ({ order with quantity } : COrder).rank side = order.rank side := rfl

theorem rank_lt_iff {side : Side} {a b : COrder} : a.rank side < b.rank side ↔
    side.Better a.price b.price ∨ (a.price = b.price ∧ a.timestamp < b.timestamp) := by
  rw [rank, rank, ChronosMatch.rank_lt_iff, Int.ofNat_lt]

theorem rank_eq_iff {side : Side} {a b : COrder} : a.rank side = b.rank side ↔
    a.price = b.price ∧ a.timestamp = b.timestamp := by
  rw [rank, rank, ChronosMatch.rank_eq_iff, Int.ofNat_inj]

theorem not_better_of_rank_le {side : Side} {a b : COrder} (h : a.rank side ≤ b.rank side) :
    ¬ side.Better b.price a.price :=
  fun hbetter => h.not_gt (rank_lt_iff.mpr (.inl hbetter))

end COrder

/-- The dict that `get_trades` builds of a recorded trade. -/
def CTrade.toDict (trade : CTrade) : TradeDict where
  buyId := trade.buyId
  sellId := trade.sellId
  price := trade.price.value
  qty := trade.quantity

end ChronosMatch
