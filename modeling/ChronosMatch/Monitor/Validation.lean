import ChronosMatch.Engine.Validation
import ChronosMatch.Monitor.LatencyMonitor

/-!
# Which orders the engines reject

The compiled engine takes the valid orders and leaves itself unchanged when it rejects one. The reference
engine takes whatever it is given, so the two validate a call alike only when there is nothing to reject.
-/

namespace ChronosMatch

/-! ### Rejected calls -/

/-- Does the engine turn the call down with a `ValueError` or an `OverflowError`? -/
def Engine.Rejects (grow : Growth) (args : OrderArgs) (e : Engine) : Prop :=
  ∃ err, (e.addOrder grow args).1 = .error err ∧ err.isMemoryError = false

/-- The two engines validate a call as the compiled one is documented to, and rejecting it changes nothing. -/
structure ValidatedAlike (grow : Growth) (args : OrderArgs) (e : MatchingEngine) (r : ReferenceEngine) : Prop where
  same : (Engine.reference r).Rejects grow args ↔ (Engine.compiled e).Rejects grow args
  invalid : (Engine.compiled e).Rejects grow args ↔ ¬ args.Valid
  compiled : (Engine.compiled e).Rejects grow args → ((Engine.compiled e).addOrder grow args).2 = .compiled e
  reference : (Engine.reference r).Rejects grow args → ((Engine.reference r).addOrder grow args).2 = .reference r

namespace Engine

theorem not_rejects_reference (grow : Growth) (args : OrderArgs) (r : ReferenceEngine) :
    ¬ (Engine.reference r).Rejects grow args := by
  rintro ⟨err, herr, -⟩
  cases herr

/-- What the compiled engine does with a call: it rejects it and stays as it is, or it goes on to match. -/
theorem addOrder_cases (grow : Growth) (args : OrderArgs) (e : MatchingEngine) :
    ((¬ args.Valid ∨ e.orderCount = 2 ^ 64 - 1) ∧
        ∃ err, (compiled e).addOrder grow args = (.error err, compiled e) ∧ err.isMemoryError = false) ∨
      ((args.Valid ∧ e.orderCount ≠ 2 ^ 64 - 1) ∧
        ∀ err, ((compiled e).addOrder grow args).1 = .error err → err.isMemoryError = true) := by
  rw [addOrder, MatchingEngine.addOrder]
  rcases hparse : MatchingEngine.parseOrder args with err | order
  · refine .inl ⟨.inl fun hvalid => ?_, err, rfl, MatchingEngine.isMemoryError_parseOrder hparse⟩
    obtain ⟨order, hok, -⟩ := MatchingEngine.parseOrder_ok hvalid
    rw [hparse] at hok
    cases hok
  · have hvalid := MatchingEngine.valid_of_parseOrder hparse
    by_cases hlimit : e.orderCount = 2 ^ 64 - 1
    · have hsubmit : MatchingEngine.submit grow order e =
          (.error (.overflowError "Order count limit reached"), e) := by
        rw [MatchingEngine.submit, if_pos hlimit]
      refine .inl ⟨.inr hlimit, .overflowError "Order count limit reached", ?_, rfl⟩
      dsimp only
      rw [hsubmit]
      rfl
    · rcases hsubmit : MatchingEngine.submit grow order e with ⟨result, e'⟩
      refine .inr ⟨⟨hvalid, hlimit⟩, ?_⟩
      intro err herr
      dsimp only at herr
      rw [hsubmit] at herr
      cases MatchingEngine.submit_effect hsubmit with
      | refused hcount => exact absurd hcount hlimit
      | interrupted hmemory =>
          cases herr
          exact hmemory
      | accepted => cases herr

/-- Besides invalid orders, the compiled engine rejects all orders once it has reached the limit of its count. -/
theorem rejects_compiled_iff (grow : Growth) (args : OrderArgs) (e : MatchingEngine) :
    (compiled e).Rejects grow args ↔ ¬ args.Valid ∨ e.orderCount = 2 ^ 64 - 1 := by
  rcases addOrder_cases grow args e with ⟨hnot, err, hadd, herr⟩ | ⟨htaken, hmemory⟩
  · exact iff_of_true ⟨err, by rw [hadd], herr⟩ hnot
  · refine iff_of_false ?_ (not_or.mpr ⟨not_not.mpr htaken.1, htaken.2⟩)
    rintro ⟨err, hadd, herr⟩
    rw [hmemory err hadd] at herr
    cases herr

theorem addOrder_of_rejects {grow : Growth} {args : OrderArgs} {e : MatchingEngine}
    (h : (compiled e).Rejects grow args) : ((compiled e).addOrder grow args).2 = compiled e := by
  rcases addOrder_cases grow args e with ⟨-, err, hadd, -⟩ | ⟨-, hmemory⟩
  · rw [hadd]
  · obtain ⟨err, hadd, herr⟩ := h
    rw [hmemory err hadd] at herr
    cases herr

end Engine

/-- The engines validate a call alike if and only if the order is valid and the compiled engine can still count
it. -/
theorem validatedAlike_iff (grow : Growth) (args : OrderArgs) (e : MatchingEngine) (r : ReferenceEngine) :
    ValidatedAlike grow args e r ↔ args.Valid ∧ e.orderCount ≠ 2 ^ 64 - 1 := by
  have hcompiled := Engine.rejects_compiled_iff grow args e
  have hreference := Engine.not_rejects_reference grow args r
  constructor
  · intro h
    have hnot : ¬ (Engine.compiled e).Rejects grow args := fun hrejects => hreference (h.same.mpr hrejects)
    rw [hcompiled, not_or, not_not] at hnot
    exact hnot
  · rintro ⟨hvalid, hroom⟩
    have hnot : ¬ (Engine.compiled e).Rejects grow args := by
      rw [hcompiled]
      exact not_or.mpr ⟨not_not.mpr hvalid, hroom⟩
    exact ⟨iff_of_false hreference hnot, iff_of_false hnot (not_not.mpr hvalid), Engine.addOrder_of_rejects,
      fun hrejects => absurd hrejects hreference⟩

/-- The reference engine takes an order whose price is not a number. -/
theorem not_validatedAlike_nanPrice :
    ¬ ValidatedAlike Growth.unlimited ⟨1, 0, ⟨0x7FF8000000000000⟩, 5, 1⟩ .empty .empty := by
  intro h
  exact Engine.not_rejects_reference _ _ _
    (h.same.mpr ⟨.valueError "price must be finite and greater than zero", rfl, rfl⟩)

end ChronosMatch
