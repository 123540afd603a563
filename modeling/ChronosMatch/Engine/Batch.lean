import ChronosMatch.Engine.Validation

/-!
# Batches of orders

`add_orders_batch` checks its tuples in an order of its own, with conversions of its own, and accepts what
`add_order` accepts. So it does what one `add_order` after the other does, up to the first that is rejected.
-/

namespace ChronosMatch

namespace MatchingEngine

/-! ### The two validations -/

theorem checkSide_toUInt {n : Int} {side : Side} :
    (∃ code : Nat, toUInt 8 n = .ok code ∧ checkSide code = .ok side) ↔ checkSide n = .ok side := by
  constructor
  · rintro ⟨code, hcode, hside⟩
    rw [(toUInt_eq_ok hcode).2.2]
    exact hside
  · intro hside
    have hrange : 0 ≤ n ∧ n < 2 ^ 8 := by
      rcases checkSide_eq_ok hside with rfl | rfl <;> decide
    obtain ⟨code, hcode, heq⟩ := toUInt_ok hrange
    exact ⟨code, hcode, heq ▸ hside⟩

/-- Both validations make the same order of the same tuples. -/
theorem parseItem_eq_ok {args : OrderArgs} {order : COrder} :
    parseItem (.tuple args) = .ok order ↔ parseOrder args = .ok order := by
  simp only [parseItem, parseOrder, bind_eq_ok]
  constructor
  · rintro ⟨side, hside, price, hprice, orderId, horderId, quantity, hquantity, timestamp, htimestamp, hrest⟩
    obtain ⟨code, hcode, hcodeSide⟩ := checkSide_toUInt.mpr hside
    exact ⟨orderId, horderId, code, hcode, quantity, hquantity, timestamp, htimestamp, side, hcodeSide, price,
      hprice, hrest⟩
  · rintro ⟨orderId, horderId, code, hcode, quantity, hquantity, timestamp, htimestamp, side, hside, price, hprice,
      hrest⟩
    exact ⟨side, checkSide_toUInt.mp ⟨code, hcode, hside⟩, price, hprice, orderId, horderId, quantity, hquantity,
      timestamp, htimestamp, hrest⟩

theorem parseItem_eq_error {args : OrderArgs} {err : PyError} (h : parseOrder args = .error err) :
    ∃ err', parseItem (.tuple args) = .error err' := by
  cases hitem : parseItem (.tuple args) with
  | error err' => exact ⟨err', rfl⟩
  | ok order =>
      rw [parseItem_eq_ok.mp hitem] at h
      cases h

/-! ### One after the other -/

/-- `add_order` for one tuple after the other, up to the first that is rejected: its exception, if any, and the
engine. -/
def addOrderEach (grow : Growth) : List OrderArgs → MatchingEngine → Option PyError × MatchingEngine
  | [], e => (none, e)
  | args :: orders, e =>
      match e.addOrder grow args with
      | (.error err, e) => (some err, e)
      | (.ok _, e) => addOrderEach grow orders e

theorem addOrderEach_append (grow : Growth) (orders orders' : List OrderArgs) (e : MatchingEngine)
    (h : (addOrderEach grow orders e).1 = none) :
    addOrderEach grow (orders ++ orders') e = addOrderEach grow orders' (addOrderEach grow orders e).2 := by
  induction orders generalizing e with
  | nil => rfl
  | cons args orders ih =>
      rw [List.cons_append, addOrderEach]
      rw [addOrderEach] at h
      rcases hadd : e.addOrder grow args with ⟨err | orderId, e'⟩
      · simp [hadd] at h
      · rw [hadd] at h
        simp only [addOrderEach, hadd]
        exact ih e' h

/-- The loop of the batch against the single calls, whatever was processed before. -/
theorem batchLoop_tuple (grow : Growth) (orders : List OrderArgs) (processed : Nat) (e : MatchingEngine) :
    (batchLoop grow (orders.map .tuple) processed e).2 = (addOrderEach grow orders e).2 ∧
      match (addOrderEach grow orders e).1 with
      | none => (batchLoop grow (orders.map .tuple) processed e).1 = .ok (processed + orders.length)
      | some _ => ∃ err, (batchLoop grow (orders.map .tuple) processed e).1 = .error err := by
  induction orders generalizing processed e with
  | nil => exact ⟨rfl, rfl⟩
  | cons args orders ih =>
      rw [List.map_cons, batchLoop, addOrderEach, addOrder]
      cases hparse : parseOrder args with
      | error err =>
          obtain ⟨err', hitem⟩ := parseItem_eq_error hparse
          simp [hitem]
      | ok order =>
          rw [parseItem_eq_ok.mpr hparse]
          dsimp only
          rcases submit grow order e with ⟨err | _, e'⟩
          · exact ⟨rfl, err, rfl⟩
          · have hrest := ih (processed + 1) e'
            rwa [Nat.add_right_comm, Nat.add_assoc] at hrest

/-- The batch and the single calls leave the same engine, and the batch returns when no call is rejected. An order
that is rejected, other than for want of memory, leaves no trace. -/
structure BatchedAlike (grow : Growth) (orders : List OrderArgs) (e : MatchingEngine) : Prop where
  state : (e.addOrdersBatch grow (orders.map .tuple)).2 = (addOrderEach grow orders e).2
  returns : (addOrderEach grow orders e).1 = none →
    (e.addOrdersBatch grow (orders.map .tuple)).1 = .ok orders.length
  raises : (∃ err, (e.addOrdersBatch grow (orders.map .tuple)).1 = .error err) ↔
    ∃ err, (addOrderEach grow orders e).1 = some err
  noTrace : ∀ before args after err, orders = before ++ args :: after → (addOrderEach grow before e).1 = none →
    ((addOrderEach grow before e).2.addOrder grow args).1 = .error err → err.isMemoryError = false →
    (e.addOrdersBatch grow (orders.map .tuple)).2 = (addOrderEach grow before e).2

theorem addOrdersBatch_sequential (grow : Growth) (orders : List OrderArgs) (e : MatchingEngine) :
    BatchedAlike grow orders e := by
  obtain ⟨hstate, hresult⟩ := batchLoop_tuple grow orders 0 e
  rw [Nat.zero_add] at hresult
  refine ⟨hstate, fun hnone => ?_, ?_, ?_⟩
  · rw [hnone] at hresult
    exact hresult
  · rw [addOrdersBatch]
    cases heach : (addOrderEach grow orders e).1 with
    | none =>
        rw [heach] at hresult
        dsimp only at hresult
        simp [hresult]
    | some err =>
        rw [heach] at hresult
        exact iff_of_true hresult ⟨err, rfl⟩
  · intro before args after err hsplit haccepted hrejected hmemory
    have huntouched := addOrder_rejected hrejected hmemory
    rcases hadd : (addOrderEach grow before e).2.addOrder grow args with ⟨result, e'⟩
    rw [hadd] at hrejected huntouched
    dsimp only at hrejected huntouched
    rw [addOrdersBatch, hstate, hsplit, addOrderEach_append grow before _ e haccepted, addOrderEach, hadd, hrejected,
      huntouched]

/-- A batch whose second tuple has a wrong side stops between a sell and the buy that would have met it. -/
example : (addOrdersBatch .unlimited [.tuple ⟨1, 1, Binary64.ofInt 100, 5, 1⟩, .tuple ⟨2, 256, Binary64.ofInt 100, 5, 2⟩,
    .tuple ⟨3, 0, Binary64.ofInt 100, 5, 3⟩] empty).2.getOrderCount = 1 := by
  decide

end MatchingEngine

end ChronosMatch
