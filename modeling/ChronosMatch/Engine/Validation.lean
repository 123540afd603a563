import ChronosMatch.Engine.Agreement

/-!
# What the compiled engine accepts

The validation of `add_order` accepts nothing but valid orders, and what it raises is never a `MemoryError`. A
call that raises anything else than that leaves the engine as it was.
-/

namespace ChronosMatch

namespace MatchingEngine

theorem toUInt_eq_ok {width : Nat} {n : Int} {m : Nat} (h : toUInt width n = .ok m) :
    0 ≤ n ∧ n < 2 ^ width ∧ n = m := by
  rw [toUInt] at h
  split at h
  · cases h
  · next hnonneg =>
      split at h
      · next hlt =>
          cases h
          exact ⟨by omega, hlt, by omega⟩
      · cases h

theorem checkSide_eq_ok {n : Int} {side : Side} (h : checkSide n = .ok side) :
    n = Side.buy.code ∨ n = Side.sell.code := by
  rw [checkSide] at h
  split at h
  · next hbuy => exact .inl hbuy
  · split at h
    · next hsell => exact .inr hsell
    · cases h

theorem checkPrice_eq_ok {x : Binary64} {price : Price} (h : checkPrice x = .ok price) :
    x.isFinite = true ∧ Binary64.zero < x := by
  rw [checkPrice] at h
  split at h
  · next hchecks =>
      have hpositive := Price.key_pos ⟨x, hchecks.1, hchecks.2⟩
      exact ⟨hchecks.1, (Binary64.lt_def _ _).mpr ⟨by decide, Binary64.isNaN_of_isFinite hchecks.1, hpositive⟩⟩
  · cases h

theorem checkQuantity_eq_ok {quantity checked : Nat} (h : checkQuantity quantity = .ok checked) : quantity ≠ 0 := by
  rw [checkQuantity] at h
  split at h
  · cases h
  · next hpos => exact hpos

theorem bind_eq_ok {ε α β : Type} {x : Except ε α} {f : α → Except ε β} {b : β} :
    x >>= f = .ok b ↔ ∃ a, x = .ok a ∧ f a = .ok b := by
  cases x with
  | error err => exact ⟨fun h => (by cases h), fun ⟨a, ha, _⟩ => (by cases ha)⟩
  | ok a => exact ⟨fun h => ⟨a, rfl, h⟩, fun ⟨a', ha, h⟩ => (by cases ha; exact h)⟩

theorem bind_eq_error {ε α β : Type} {x : Except ε α} {f : α → Except ε β} {err : ε} :
    x >>= f = .error err ↔ x = .error err ∨ ∃ a, x = .ok a ∧ f a = .error err := by
  cases x with
  | error err' =>
      refine ⟨fun h => .inl (by cases h; rfl), ?_⟩
      rintro (h | ⟨a, ha, -⟩)
      · cases h
        rfl
      · cases ha
  | ok a =>
      refine ⟨fun h => .inr ⟨a, rfl, h⟩, ?_⟩
      rintro (h | ⟨a', ha, h⟩)
      · cases h
      · cases ha
        exact h

theorem valid_of_parseOrder {args : OrderArgs} {order : COrder} (h : parseOrder args = .ok order) : args.Valid := by
  rw [parseOrder] at h
  obtain ⟨orderId, horderId, h⟩ := bind_eq_ok.mp h
  obtain ⟨code, hcode, h⟩ := bind_eq_ok.mp h
  obtain ⟨quantity, hquantity, h⟩ := bind_eq_ok.mp h
  obtain ⟨timestamp, htimestamp, h⟩ := bind_eq_ok.mp h
  obtain ⟨side, hside, h⟩ := bind_eq_ok.mp h
  obtain ⟨price, hprice, h⟩ := bind_eq_ok.mp h
  obtain ⟨checked, hchecked, -⟩ := bind_eq_ok.mp h
  obtain ⟨hidNonneg, hidLt, -⟩ := toUInt_eq_ok horderId
  obtain ⟨-, -, hsideCode⟩ := toUInt_eq_ok hcode
  obtain ⟨-, hquantityLt, hquantityCode⟩ := toUInt_eq_ok hquantity
  obtain ⟨htimestampNonneg, htimestampLt, -⟩ := toUInt_eq_ok htimestamp
  have hpos := checkQuantity_eq_ok hchecked
  refine ⟨⟨hidNonneg, hidLt⟩, ?_, checkPrice_eq_ok hprice, ⟨by omega, hquantityLt⟩,
    ⟨htimestampNonneg, htimestampLt⟩⟩
  rw [hsideCode]
  exact checkSide_eq_ok hside

section Raises

variable {err : PyError}

theorem isMemoryError_toUInt {width : Nat} {n : Int} (h : toUInt width n = .error err) : err.isMemoryError = false := by
  rw [toUInt] at h
  split at h
  · cases h
    rfl
  · split at h
    · cases h
    · cases h
      rfl

theorem isMemoryError_checkSide {n : Int} (h : checkSide n = .error err) : err.isMemoryError = false := by
  rw [checkSide] at h
  split at h
  · cases h
  · split at h
    · cases h
    · cases h
      rfl

theorem isMemoryError_checkPrice {x : Binary64} (h : checkPrice x = .error err) : err.isMemoryError = false := by
  rw [checkPrice] at h
  split at h
  · cases h
  · cases h
    rfl

theorem isMemoryError_checkQuantity {quantity : Nat} (h : checkQuantity quantity = .error err) :
    err.isMemoryError = false := by
  rw [checkQuantity] at h
  split at h
  · cases h
    rfl
  · cases h

/-- Everything that validation raises is a `ValueError` or an `OverflowError`. -/
theorem isMemoryError_parseOrder {args : OrderArgs} (h : parseOrder args = .error err) : err.isMemoryError = false := by
  rw [parseOrder] at h
  rcases bind_eq_error.mp h with h | ⟨orderId, -, h⟩
  · exact isMemoryError_toUInt h
  rcases bind_eq_error.mp h with h | ⟨code, -, h⟩
  · exact isMemoryError_toUInt h
  rcases bind_eq_error.mp h with h | ⟨quantity, -, h⟩
  · exact isMemoryError_toUInt h
  rcases bind_eq_error.mp h with h | ⟨timestamp, -, h⟩
  · exact isMemoryError_toUInt h
  rcases bind_eq_error.mp h with h | ⟨side, -, h⟩
  · exact isMemoryError_checkSide h
  rcases bind_eq_error.mp h with h | ⟨price, -, h⟩
  · exact isMemoryError_checkPrice h
  rcases bind_eq_error.mp h with h | ⟨checked, -, h⟩
  · exact isMemoryError_checkQuantity h
  cases h

end Raises

/-- An order that is rejected, other than for want of memory, leaves no trace. -/
theorem addOrder_rejected {grow : Growth} {args : OrderArgs} {e : MatchingEngine} {err : PyError}
    (h : (e.addOrder grow args).1 = .error err) (hmemory : err.isMemoryError = false) :
    (e.addOrder grow args).2 = e := by
  rw [addOrder] at h ⊢
  cases hparse : parseOrder args with
  | error err' => rfl
  | ok order =>
      rw [hparse] at h
      dsimp only at h ⊢
      rcases hsubmit : submit grow order e with ⟨err' | _, e'⟩
      · rw [hsubmit] at h
        cases h
        cases submit_effect hsubmit with
        | refused => rfl
        | interrupted herr =>
            rw [hmemory] at herr
            cases herr
      · rw [hsubmit] at h
        cases h

end MatchingEngine

end ChronosMatch
