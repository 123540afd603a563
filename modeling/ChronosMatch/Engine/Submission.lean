import ChronosMatch.Engine.Book
import ChronosMatch.Engine.Compiled

/-!
# What one submission does

`SubmitEffect` says everything `submit` can do to an engine: refuse the order, match it and break off for
want of memory, or match it and rest the remainder. Matching itself is `Fills`, the list of the fills
taken from the front of the opposite side. Every invariant of the engine is proved from these two.
-/

namespace ChronosMatch

namespace MatchingEngine

theorem matchBuy_eq (grow : Growth) :
    matchBuy grow = matchOrder grow .buy (crosses .buy) (tradeBetween .buy) (insertBuy grow) := rfl

theorem matchSell_eq (grow : Growth) :
    matchSell grow = matchOrder grow .sell (crosses .sell) (tradeBetween .sell) (insertSell grow) := rfl

theorem ensureCapacity_unlimited (overflow allocation : String) {count : Nat} (hcount : count < 2 ^ 63)
    (capacity : Nat) :
    ∃ capacity', ensureCapacity overflow allocation (fun _ => true) count capacity = .ok capacity' := by
  rw [ensureCapacity]
  dsimp only
  split
  · exact ⟨_, rfl⟩
  · split
    · exact ⟨_, rfl⟩
    · rw [if_neg (by omega)]
      exact ⟨_, rfl⟩

/-! ### The match loop -/

theorem matchLoop_of_quantity_eq_zero (grow : Growth) (side : Side) (order : COrder) (resting : List COrder)
    (hzero : order.quantity = 0) (trades : List CTrade) (tradeCapacity : Nat) :
    matchLoop grow (crosses side) (tradeBetween side) order resting trades tradeCapacity =
      (.ok (), ⟨order, resting, trades, tradeCapacity⟩) := by
  cases resting with
  | nil => rfl
  | cons best rest => rw [matchLoop, if_neg (fun h => Nat.ne_of_gt h.1 hzero)]

/-- The loop as the source states it: its test, one recorded trade, and the shift of the array when
the best resting order is filled. -/
theorem matchLoop_eq (grow : Growth) (side : Side) (order best : COrder) (rest : List COrder)
    (trades : List CTrade) (tradeCapacity : Nat) :
    let matchedQuantity := if order.quantity < best.quantity then order.quantity else best.quantity
    let best' := { best with quantity := best.quantity - matchedQuantity }
    matchLoop grow (crosses side) (tradeBetween side) order (best :: rest) trades tradeCapacity =
      if 0 < order.quantity ∧ crosses side best order then
        match ensureTradeCapacity grow trades tradeCapacity with
        | .error err => (.error err, ⟨order, best :: rest, trades, tradeCapacity⟩)
        | .ok tradeCapacity => matchLoop grow (crosses side) (tradeBetween side)
            { order with quantity := order.quantity - matchedQuantity }
            (if best'.quantity = 0 then ArrayShift.removeFirst (best' :: rest) else best' :: rest)
            (trades ++ [tradeBetween side order best matchedQuantity]) tradeCapacity
      else (.ok (), ⟨order, best :: rest, trades, tradeCapacity⟩) := by
  intro matchedQuantity best'
  rw [matchLoop]
  by_cases htest : 0 < order.quantity ∧ crosses side best order = true
  · rw [if_pos htest, if_pos htest]
    cases ensureTradeCapacity grow trades tradeCapacity with
    | error err => rfl
    | ok capacity =>
        by_cases hfilled : best'.quantity = 0
        · dsimp only
          rw [if_pos hfilled, if_pos hfilled, ArrayShift.removeFirst_eq]
        · have hnone : order.quantity - matchedQuantity = 0 := by
            dsimp only [best', matchedQuantity] at hfilled ⊢
            split at hfilled <;> split <;> omega
          dsimp only
          rw [if_neg hfilled, if_neg hfilled]
          exact (matchLoop_of_quantity_eq_zero grow side _ _ hnone _ _).symm
  · rw [if_neg htest, if_neg htest]

theorem ensureCapacity_error {overflow allocation : String} {realloc : Nat → Bool} {count capacity : Nat}
    {err : PyError} (h : ensureCapacity overflow allocation realloc count capacity = .error err) :
    err.isMemoryError = true := by
  simp only [ensureCapacity] at h
  split at h
  · cases h
  · split at h
    · split at h
      · cases h
      · cases h
        rfl
    · split at h
      · cases h
        rfl
      · split at h
        · cases h
        · cases h
          rfl

theorem matchLoop_cons (grow : Growth) {side : Side} {order best : COrder}
    (htest : 0 < order.quantity ∧ crosses side best order = true) (rest : List COrder) (trades : List CTrade)
    (tradeCapacity : Nat) :
    matchLoop grow (crosses side) (tradeBetween side) order (best :: rest) trades tradeCapacity =
      match ensureTradeCapacity grow trades tradeCapacity with
      | .error err => (.error err, ⟨order, best :: rest, trades, tradeCapacity⟩)
      | .ok tradeCapacity =>
          if best.quantity ≤ order.quantity then
            matchLoop grow (crosses side) (tradeBetween side)
              { order with quantity := order.quantity - best.quantity } rest
              (trades ++ [tradeBetween side order best best.quantity]) tradeCapacity
          else
            (.ok (), ⟨{ order with quantity := 0 }, { best with quantity := best.quantity - order.quantity } :: rest,
              trades ++ [tradeBetween side order best order.quantity], tradeCapacity⟩) := by
  rw [matchLoop, if_pos htest]
  cases ensureTradeCapacity grow trades tradeCapacity with
  | error err => rfl
  | ok capacity =>
      dsimp only
      by_cases hle : best.quantity ≤ order.quantity
      · rw [if_neg (not_lt.mpr hle), if_pos (Nat.sub_self _), if_pos hle]
      · rw [if_pos (not_le.mp hle), if_neg (by omega), if_neg hle, Nat.sub_self]

theorem matchLoop_fills (grow : Growth) (side : Side) (order : COrder) (resting : List COrder)
    (trades : List CTrade) (tradeCapacity : Nat) {result : Except PyError Unit} {st : MatchState}
    (h : matchLoop grow (crosses side) (tradeBetween side) order resting trades tradeCapacity = (result, st)) :
    ∃ fills, Fills side order resting fills st.order st.resting ∧
      st.trades = trades ++ fills.map (fun fill => tradeBetween side order fill.1 fill.2) ∧
      (result = .ok () → Exhausted side st.order st.resting) ∧
      ∀ err, result = .error err → err.isMemoryError = true := by
  induction resting generalizing order trades tradeCapacity with
  | nil =>
      rw [matchLoop] at h
      cases h
      exact ⟨[], .none _ _, by simp, fun _ => .inr (by simp), by simp⟩
  | cons best rest ih =>
      by_cases htest : 0 < order.quantity ∧ crosses side best order = true
      · obtain ⟨hpos, hcross⟩ := htest
        rw [matchLoop_cons grow ⟨hpos, hcross⟩] at h
        split at h
        · next err hcapacity =>
            cases h
            exact ⟨[], .none _ _, by simp, by simp, fun _ he => by
              cases he
              exact ensureCapacity_error hcapacity⟩
        · next capacity _ =>
            split at h
            · next hle =>
                obtain ⟨fills, hfills, htrades, hstop, herr⟩ := ih _ _ _ h
                refine ⟨(best, best.quantity) :: fills, .whole hcross hpos hle hfills, ?_, hstop, herr⟩
                simpa only [tradeBetween_withQuantity, List.append_assoc, List.singleton_append,
                  List.map_cons] using htrades
            · next hlt =>
                cases h
                exact ⟨[(best, order.quantity)], .part hcross hpos (not_le.mp hlt), rfl, fun _ => .inl rfl, by simp⟩
      · rw [matchLoop, if_neg htest] at h
        cases h
        refine ⟨[], .none _ _, by simp, fun _ => ?_, by simp⟩
        by_cases hzero : order.quantity = 0
        · exact .inl hzero
        · refine .inr fun b hb => ?_
          cases hb
          exact Bool.eq_false_iff.mpr fun hcross => htest ⟨Nat.pos_of_ne_zero hzero, hcross⟩

/-! ### Insertion -/

theorem insertSorted_eq {side : Side} {goesBefore : COrder → COrder → Bool}
    (hbefore : ∀ order other, goesBefore order other = true ↔ order.rank side < other.rank side)
    (order : COrder) (orders : List COrder) :
    insertSorted goesBefore order orders = Ranked.insertAfter (COrder.rank side) order orders := by
  have hscan : goesBefore order = fun other => decide (order.rank side < other.rank side) := by
    funext other
    rw [Bool.eq_iff_iff, hbefore, decide_eq_true_eq]
  rw [insertSorted, hscan, ArrayShift.insertAt_eq List.findIdx_le_length, Ranked.insertAfter_eq_take_drop]

/-- `_insert_buy` or `_insert_sell`. -/
def insertInto (grow : Growth) (side : Side) : COrder → MatchingEngine → Except PyError MatchingEngine :=
  match side with
  | .buy => insertBuy grow
  | .sell => insertSell grow

theorem insertInto_ok {grow : Growth} {side : Side} {order : COrder} {e e' : MatchingEngine}
    (h : insertInto grow side order e = .ok e') :
    e'.resting side = Ranked.insertAfter (COrder.rank side) order (e.resting side) ∧
      e'.resting side.opposite = e.resting side.opposite ∧
      e'.trades = e.trades ∧ e'.orderCount = e.orderCount := by
  cases side with
  | buy =>
      simp only [insertInto, insertBuy] at h
      cases hcapacity : e.ensureBuyCapacity grow with
      | error err => rw [hcapacity] at h; cases h
      | ok capacity =>
          rw [hcapacity] at h
          cases h
          refine ⟨?_, rfl, rfl, rfl⟩
          simp only [resting]
          refine insertSorted_eq (fun order other => ?_) order _
          simp only [Bool.or_eq_true, Bool.and_eq_true, decide_eq_true_eq, gt_iff_lt, COrder.rank_lt_iff,
            Side.Better]
  | sell =>
      simp only [insertInto, insertSell] at h
      cases hcapacity : e.ensureSellCapacity grow with
      | error err => rw [hcapacity] at h; cases h
      | ok capacity =>
          rw [hcapacity] at h
          cases h
          refine ⟨?_, rfl, rfl, rfl⟩
          simp only [resting]
          refine insertSorted_eq (fun order other => ?_) order _
          simp only [Bool.or_eq_true, Bool.and_eq_true, decide_eq_true_eq, COrder.rank_lt_iff,
            Side.Better]

theorem insertInto_error {grow : Growth} {side : Side} {order : COrder} {e : MatchingEngine} {err : PyError}
    (h : insertInto grow side order e = .error err) : err.isMemoryError = true := by
  cases side with
  | buy =>
      simp only [insertInto, insertBuy] at h
      cases hcapacity : e.ensureBuyCapacity grow with
      | error err => rw [hcapacity] at h; cases h; exact ensureCapacity_error hcapacity
      | ok capacity => rw [hcapacity] at h; cases h
  | sell =>
      simp only [insertInto, insertSell] at h
      cases hcapacity : e.ensureSellCapacity grow with
      | error err => rw [hcapacity] at h; cases h; exact ensureCapacity_error hcapacity
      | ok capacity => rw [hcapacity] at h; cases h

/-! ### The effect of a submission -/

/-- The engine after the fills of a match: the opposite side is `left` and the trades are recorded. -/
structure Matched (side : Side) (order remainder : COrder) (fills : List (COrder × Nat)) (left : List COrder)
    (e e' : MatchingEngine) : Prop where
  filled : Fills side order (e.resting side.opposite) fills remainder left
  opposite : e'.resting side.opposite = left
  trades : e'.trades = e.trades ++ fills.map (fun fill => tradeBetween side order fill.1 fill.2)

/-- What a submission returns and leaves behind. Only an accepted order is counted, and only its
remainder comes to rest. -/
inductive SubmitEffect (order : COrder) (e : MatchingEngine) : Except PyError Unit → MatchingEngine → Prop
  | refused {err : PyError} (hcount : e.orderCount = 2 ^ 64 - 1) (herr : err.isMemoryError = false) :
      SubmitEffect order e (.error err) e
  | interrupted {err : PyError} {e' : MatchingEngine} {remainder : COrder} {fills : List (COrder × Nat)}
      {left : List COrder} (herr : err.isMemoryError = true)
      (hmatched : Matched order.side order remainder fills left e e')
      (hown : e'.resting order.side = e.resting order.side) (hcount : e'.orderCount = e.orderCount) :
      SubmitEffect order e (.error err) e'
  | accepted {e' : MatchingEngine} {remainder : COrder} {fills : List (COrder × Nat)} {left : List COrder}
      (hroom : e.orderCount ≠ 2 ^ 64 - 1)
      (hmatched : Matched order.side order remainder fills left e e')
      (hstop : Exhausted order.side remainder left)
      (hown : e'.resting order.side = if 0 < remainder.quantity
        then Ranked.insertAfter (COrder.rank order.side) remainder (e.resting order.side)
        else e.resting order.side)
      (hcount : e'.orderCount = e.orderCount + 1) : SubmitEffect order e (.ok ()) e'

private theorem resting_matchState (e : MatchingEngine) (side : Side) (left : List COrder)
    (trades : List CTrade) (tradeCapacity : Nat) :
    let e' := { e.withResting side.opposite left with trades, tradeCapacity }
    e'.resting side.opposite = left ∧ e'.resting side = e.resting side ∧ e'.orderCount = e.orderCount := by
  cases side <;> exact ⟨rfl, rfl, rfl⟩

theorem matchOrder_effect {grow : Growth} {side : Side} {order : COrder} {e e' : MatchingEngine}
    {result : Except PyError Unit}
    (h : matchOrder grow side (crosses side) (tradeBetween side) (insertInto grow side) order e = (result, e')) :
    ∃ remainder fills left, Matched side order remainder fills left e e' ∧ e'.orderCount = e.orderCount ∧
      ((∃ err, result = .error err ∧ err.isMemoryError = true ∧ e'.resting side = e.resting side) ∨
        (result = .ok () ∧ Exhausted side remainder left ∧
          e'.resting side = if 0 < remainder.quantity
            then Ranked.insertAfter (COrder.rank side) remainder (e.resting side) else e.resting side)) := by
  rw [matchOrder] at h
  rcases hloop : matchLoop grow (crosses side) (tradeBetween side) order (e.resting side.opposite)
    e.trades e.tradeCapacity with ⟨loopResult, st⟩
  obtain ⟨fills, hfills, htrades, hstop, herr⟩ := matchLoop_fills _ _ _ _ _ _ hloop
  obtain ⟨hopposite, hown, hcount⟩ := resting_matchState e side st.resting st.trades st.tradeCapacity
  rw [hloop] at h
  dsimp only at h
  cases loopResult with
  | error err =>
      cases h
      exact ⟨st.order, fills, st.resting, ⟨hfills, hopposite, htrades⟩, hcount,
        .inl ⟨err, rfl, herr err rfl, hown⟩⟩
  | ok _ =>
      dsimp only at h
      split at h
      · next hpos =>
          split at h
          · next err hinsert =>
              cases h
              exact ⟨st.order, fills, st.resting, ⟨hfills, hopposite, htrades⟩, hcount,
                .inl ⟨err, rfl, insertInto_error hinsert, hown⟩⟩
          · next inserted hinsert =>
              cases h
              obtain ⟨hinserted, hother, hsame, hsameCount⟩ := insertInto_ok hinsert
              refine ⟨st.order, fills, st.resting, ⟨hfills, hother.trans hopposite, hsame.trans htrades⟩,
                hsameCount.trans hcount, .inr ⟨rfl, hstop rfl, ?_⟩⟩
              rw [if_pos hpos, hinserted, hown]
      · next hpos =>
          cases h
          exact ⟨st.order, fills, st.resting, ⟨hfills, hopposite, htrades⟩, hcount,
            .inr ⟨rfl, hstop rfl, by rw [if_neg hpos]; exact hown⟩⟩

theorem submit_of_room (grow : Growth) (order : COrder) {e : MatchingEngine} (hroom : e.orderCount ≠ 2 ^ 64 - 1) :
    submit grow order e =
      match matchOrder grow order.side (crosses order.side) (tradeBetween order.side) (insertInto grow order.side)
        order e with
      | (.error err, e) => (.error err, e)
      | (.ok (), e) => (.ok (), { e with orderCount := e.orderCount + 1 }) := by
  have hmatch : (if order.side = .buy then matchBuy grow order e else matchSell grow order e) =
      matchOrder grow order.side (crosses order.side) (tradeBetween order.side)
        (insertInto grow order.side) order e := by
    cases order.side with
    | buy => rw [if_pos rfl, matchBuy_eq, insertInto]
    | sell => rw [if_neg (by decide), matchSell_eq, insertInto]
  rw [submit, if_neg hroom, hmatch]
  rcases matchOrder grow order.side (crosses order.side) (tradeBetween order.side) (insertInto grow order.side) order e
    with ⟨err | _, matched⟩
  · rfl
  · rfl

theorem submit_effect {grow : Growth} {order : COrder} {e e' : MatchingEngine} {result : Except PyError Unit}
    (h : submit grow order e = (result, e')) : SubmitEffect order e result e' := by
  by_cases hroom : e.orderCount = 2 ^ 64 - 1
  · rw [submit, if_pos hroom] at h
    cases h
    exact .refused hroom rfl
  rw [submit_of_room grow order hroom] at h
  rcases hresult : matchOrder grow order.side (crosses order.side) (tradeBetween order.side)
    (insertInto grow order.side) order e with ⟨matchResult, matched⟩
  rw [hresult] at h
  obtain ⟨remainder, fills, left, hmatched, hcount, hcases⟩ := matchOrder_effect hresult
  obtain ⟨err, rfl, hmemory, hown⟩ | ⟨rfl, hstop, hown⟩ := hcases
  · cases h
    exact .interrupted hmemory hmatched hown hcount
  · cases h
    refine .accepted hroom ⟨hmatched.filled, ?_, hmatched.trades⟩ hstop ?_ ?_
    · rw [← hmatched.opposite]
      cases order.side <;> rfl
    · rw [← hown]
      cases order.side <;> rfl
    · simp only [hcount]

end MatchingEngine

end ChronosMatch
