import Mathlib.Data.List.Infix
import ChronosMatch.Engine.Agreement
import ChronosMatch.Engine.Conservation

/-!
# Price-time priority

What one order does to the book, said of the resting orders and their arrival numbers: it fills those that
meet its limit in the order of their priority, each at its own price, all but the last of them in whole; it
touches nothing else; and what is left of it rests behind everything that has priority over it.
-/

namespace ChronosMatch

/-- The quantity that fills execute. -/
def executed (fills : List ((Nat × COrder) × Nat)) : Nat := (fills.map Prod.snd).sum

section Fills

variable {order : COrder} {opposite opposite' : List (Nat × COrder)} {fills : List ((Nat × COrder) × Nat)}

section Ordered

variable {side : Side} {touched rest : List (Nat × COrder)} {p q : Nat × COrder}

end Ordered

end Fills

/-! ### What rests -/

theorem Numbering.positive {history : List COrder} {side : Side} {orders : List COrder}
    {numbered : List (Nat × COrder)} (h : Numbering history side orders numbered) :
    ∀ p ∈ numbered, 0 < p.2.quantity := by
  intro p hp
  obtain ⟨submitted, -, -, -, hpos, -⟩ := h.rests p hp
  exact hpos

namespace MatchingEngine

theorem Matched.numbered {order remainder : COrder} {fills : List (COrder × Nat)} {left : List COrder}
    {e e' : MatchingEngine} (hmatched : Matched order.side order remainder fills left e e') {history : List COrder}
    {opposite : List (Nat × COrder)}
    (hnum : Numbering history order.side.opposite (e.resting order.side.opposite) opposite) :
    ∃ opposite' numberedFills, NumberedFills order.side order opposite numberedFills opposite' ∧
      e'.resting order.side.opposite = opposite'.map Prod.snd ∧
      e'.trades = e.trades ++ numberedFills.map (fun fill => tradeBetween order.side order fill.1.2 fill.2) ∧
      order.quantity = executed numberedFills + remainder.quantity := by
  obtain ⟨hfilled, hopposite, htrades⟩ := hmatched
  obtain ⟨numberedFills, opposite', hfills, hsame, hleft⟩ := hfilled.numbered hnum.orders_eq
  refine ⟨opposite', numberedFills, hfills, hopposite.trans hleft.symm, ?_, ?_⟩
  · rw [htrades, ← hsame, List.map_map]
    rfl
  · rw [hfilled.sum_eq, ← hsame, List.map_map]
    rfl

end MatchingEngine

end ChronosMatch
