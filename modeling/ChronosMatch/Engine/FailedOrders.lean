import ChronosMatch.Engine.Runs

/-!
# What a failed order leaves behind

Memory is asked for while an order is matched: for every trade when it is recorded, and for the remainder when all
trades are made. A failure after the first trade leaves the trades and the fills of an order that was never counted.
-/

namespace ChronosMatch

namespace MatchingEngine

/-- The trades that an order makes if memory lasts. -/
def tradesMade (order : COrder) (e : MatchingEngine) : List CTrade :=
  (fillAll order.side order (e.resting order.side.opposite)).fills.map fun fill =>
    tradeBetween order.side order fill.1 fill.2

/-- What is left of the order behind them. -/
def quantityLeft (order : COrder) (e : MatchingEngine) : Nat :=
  (fillAll order.side order (e.resting order.side.opposite)).remainder.quantity

/-- Can the trades be recorded behind the log, one after the other? -/
def tradesFit (grow : Growth) : List CTrade → List CTrade → Nat → Bool
  | [], _, _ => true
  | trade :: trades, log, tradeCapacity =>
      match ensureTradeCapacity grow log tradeCapacity with
      | .error _ => false
      | .ok tradeCapacity => tradesFit grow trades (log ++ [trade]) tradeCapacity

/-- Is there room for one more order on the side? -/
def sideFits (grow : Growth) (e : MatchingEngine) : Side → Bool
  | .buy => (e.ensureBuyCapacity grow).isOk
  | .sell => (e.ensureSellCapacity grow).isOk

/-- The orders counted, the books and the trades are the same. -/
structure SameState (e e' : MatchingEngine) : Prop where
  orderCount : e'.orderCount = e.orderCount
  resting : ∀ side, e'.resting side = e.resting side
  trades : e'.trades = e.trades

/-- If `add_order` raises, the engine is as it was. -/
def FailureKeeps (grow : Growth) (args : OrderArgs) (e : MatchingEngine) : Prop :=
  ∀ err, (e.addOrder grow args).1 = .error err → SameState e (e.addOrder grow args).2

/-- The order makes a trade that can be recorded, but there is no room for all of its trades, or for what is left of
it behind them. -/
def MemoryEndsBehindTrade (grow : Growth) (order : COrder) (e : MatchingEngine) : Prop :=
  let trades := tradesMade order e
  trades ≠ [] ∧ tradesFit grow (trades.take 1) e.trades e.tradeCapacity = true ∧
    (tradesFit grow trades e.trades e.tradeCapacity = false ∨
      (0 < quantityLeft order e ∧ sideFits grow e order.side = false))

/-! ### The match loop -/

theorem matchLoop_ok_iff (grow : Growth) (side : Side) (order : COrder) (resting : List COrder) (trades : List CTrade)
    (tradeCapacity : Nat) :
    (matchLoop grow (crosses side) (tradeBetween side) order resting trades tradeCapacity).1 = .ok () ↔
      tradesFit grow ((fillAll side order resting).fills.map fun fill => tradeBetween side order fill.1 fill.2) trades
        tradeCapacity = true := by
  induction resting generalizing order trades tradeCapacity with
  | nil => exact iff_of_true rfl rfl
  | cons best rest ih =>
      by_cases htest : 0 < order.quantity ∧ crosses side best order = true
      · rw [matchLoop_cons grow htest, fillAll, if_pos htest]
        cases hcapacity : ensureTradeCapacity grow trades tradeCapacity with
        | error err =>
            dsimp only
            split
            · simp [tradesFit, hcapacity]
            · simp [tradesFit, hcapacity]
        | ok capacity =>
            dsimp only
            split
            · rw [List.map_cons, tradesFit, hcapacity, ih]
              simp only [tradeBetween_withQuantity]
            · simp [tradesFit, hcapacity]
      · rw [matchLoop, fillAll, if_neg htest, if_neg htest]
        exact iff_of_true rfl rfl

/-- The loop leaves the log alone exactly if the order makes no trade or the first one does not fit. -/
theorem matchLoop_trades_eq_iff (grow : Growth) (side : Side) (order : COrder) (resting : List COrder)
    (trades : List CTrade) (tradeCapacity : Nat) :
    let made := (fillAll side order resting).fills.map fun fill => tradeBetween side order fill.1 fill.2
    (matchLoop grow (crosses side) (tradeBetween side) order resting trades tradeCapacity).2.trades = trades ↔
      ¬ (made ≠ [] ∧ tradesFit grow (made.take 1) trades tradeCapacity = true) := by
  cases resting with
  | nil => simp [matchLoop, fillAll]
  | cons best rest =>
      by_cases htest : 0 < order.quantity ∧ crosses side best order = true
      · rw [matchLoop_cons grow htest, fillAll, if_pos htest]
        cases hcapacity : ensureTradeCapacity grow trades tradeCapacity with
        | error err =>
            dsimp only
            split
            · simp [tradesFit, hcapacity]
            · simp [tradesFit, hcapacity]
        | ok capacity =>
            dsimp only
            split
            · obtain ⟨fills, -, htrades, -⟩ := matchLoop_fills grow side
                { order with quantity := order.quantity - best.quantity } rest
                (trades ++ [tradeBetween side order best best.quantity]) capacity rfl
              simp [tradesFit, hcapacity, htrades]
            · simp [tradesFit, hcapacity]
      · rw [matchLoop, fillAll, if_neg htest, if_neg htest]
        simp

/-! ### One order -/

theorem isOk_insertInto (grow : Growth) (side : Side) (order : COrder) (e : MatchingEngine) (left : List COrder)
    (trades : List CTrade) (tradeCapacity : Nat) :
    (insertInto grow side order { e.withResting side.opposite left with trades, tradeCapacity }).isOk =
      sideFits grow e side := by
  cases side with
  | buy =>
      simp only [insertInto, insertBuy, sideFits, ensureBuyCapacity, withResting, Side.opposite]
      cases ensureCapacity _ _ (grow .buyOrders) e.buyOrders.length e.buyCapacity <;> rfl
  | sell =>
      simp only [insertInto, insertSell, sideFits, ensureSellCapacity, withResting, Side.opposite]
      cases ensureCapacity _ _ (grow .sellOrders) e.sellOrders.length e.sellCapacity <;> rfl

theorem matchOrder_ok_iff (grow : Growth) (order : COrder) (e : MatchingEngine) :
    (matchOrder grow order.side (crosses order.side) (tradeBetween order.side) (insertInto grow order.side) order e).1 =
        .ok () ↔
      tradesFit grow (tradesMade order e) e.trades e.tradeCapacity = true ∧
        (0 < quantityLeft order e → sideFits grow e order.side = true) := by
  rw [tradesMade, ← matchLoop_ok_iff, matchOrder]
  rcases hloop : matchLoop grow (crosses order.side) (tradeBetween order.side) order (e.resting order.side.opposite)
    e.trades e.tradeCapacity with ⟨err | _, st⟩
  · simp
  · obtain ⟨fills, hfills, -, hstop, -⟩ := matchLoop_fills _ _ _ _ _ _ hloop
    have hall := hfills.fillAll_eq (hstop rfl)
    have hsame := isOk_insertInto grow order.side st.order e st.resting st.trades st.tradeCapacity
    rw [quantityLeft, hall]
    dsimp only
    split
    · next hpos =>
        rw [← hsame]
        cases insertInto grow order.side st.order _ with
        | error err => simp [hpos, Except.isOk, Except.toBool]
        | ok inserted => simp [Except.isOk, Except.toBool]
    · next hpos => simp [hpos]

/-! ### Memory that lasts -/

theorem tradesFit_unlimited {made log : List CTrade} (hsmall : log.length + made.length < 2 ^ 63)
    (tradeCapacity : Nat) : tradesFit .unlimited made log tradeCapacity = true := by
  induction made generalizing log tradeCapacity with
  | nil => rfl
  | cons trade made ih =>
      rw [List.length_cons] at hsmall
      obtain ⟨capacity, hcapacity⟩ : ∃ capacity, ensureTradeCapacity .unlimited log tradeCapacity = .ok capacity :=
        ensureCapacity_unlimited _ _ (by omega) tradeCapacity
      rw [tradesFit, hcapacity]
      apply ih
      rw [List.length_append, List.length_singleton]
      omega

theorem sideFits_unlimited {e : MatchingEngine} {side : Side} (hsmall : (e.resting side).length < 2 ^ 63) :
    sideFits .unlimited e side = true := by
  cases side with
  | buy =>
      obtain ⟨capacity, hcapacity⟩ : ∃ capacity, e.ensureBuyCapacity .unlimited = .ok capacity :=
        ensureCapacity_unlimited _ _ hsmall e.buyCapacity
      rw [sideFits, hcapacity]
      rfl
  | sell =>
      obtain ⟨capacity, hcapacity⟩ : ∃ capacity, e.ensureSellCapacity .unlimited = .ok capacity :=
        ensureCapacity_unlimited _ _ hsmall e.sellCapacity
      rw [sideFits, hcapacity]
      rfl

/-- An engine whose buffers stay below the limit of their capacity takes every order if no request is refused. -/
theorem submit_unlimited (order : COrder) {e : MatchingEngine} (hroom : e.orderCount ≠ 2 ^ 64 - 1)
    (hsmall : e.trades.length + ((e.resting order.side).length + (e.resting order.side.opposite).length) < 2 ^ 63) :
    (submit .unlimited order e).1 = .ok () := by
  obtain ⟨hfills, -⟩ := fillAll_spec order.side order (e.resting order.side.opposite)
  have hmade : (tradesMade order e).length ≤ (e.resting order.side.opposite).length := by
    have hlength := hfills.fills_prefix.length_le
    rw [List.length_map] at hlength
    rwa [tradesMade, List.length_map]
  have hmatch := (matchOrder_ok_iff .unlimited order e).mpr
    ⟨tradesFit_unlimited (by omega) e.tradeCapacity, fun _ => sideFits_unlimited (by omega)⟩
  rw [submit_of_room .unlimited order hroom]
  rcases hresult : matchOrder .unlimited order.side (crosses order.side) (tradeBetween order.side)
    (insertInto .unlimited order.side) order e with ⟨result, e'⟩
  rw [hresult] at hmatch
  cases hmatch
  rfl

/-! ### Failures -/

theorem matchOrder_trades (grow : Growth) (order : COrder) (e : MatchingEngine) :
    (matchOrder grow order.side (crosses order.side) (tradeBetween order.side) (insertInto grow order.side) order
        e).2.trades =
      (matchLoop grow (crosses order.side) (tradeBetween order.side) order (e.resting order.side.opposite) e.trades
        e.tradeCapacity).2.trades := by
  rw [matchOrder]
  rcases matchLoop grow (crosses order.side) (tradeBetween order.side) order (e.resting order.side.opposite)
    e.trades e.tradeCapacity with ⟨err | _, st⟩
  · rfl
  · dsimp only
    split
    · split
      · rfl
      · next inserted hinsert => exact (insertInto_ok hinsert).2.2.1
    · rfl

theorem sameState_of_trades {grow : Growth} {order : COrder} {e e' : MatchingEngine} {err : PyError}
    (h : submit grow order e = (.error err, e')) (htrades : e'.trades = e.trades) : SameState e e' := by
  generalize hresult : (.error err : Except PyError Unit) = result at h
  cases submit_effect h with
  | refused => exact ⟨rfl, fun _ => rfl, rfl⟩
  | @interrupted _ _ remainder fills left hmemory hmatched hown hcount =>
      obtain ⟨hfilled, hopposite, hlog⟩ := hmatched
      obtain rfl : fills = [] := by
        rw [hlog] at htrades
        simpa using htrades
      refine ⟨hcount, Side.forall order.side hown ?_, htrades⟩
      rw [hopposite, hfilled.left_eq]
  | accepted => cases hresult

/-- A submission that raises leaves a trace exactly when memory ends behind a trade. -/
theorem submit_failureKeeps_iff (grow : Growth) (order : COrder) (e : MatchingEngine) :
    (∀ err, (submit grow order e).1 = .error err → SameState e (submit grow order e).2) ↔
      (e.orderCount ≠ 2 ^ 64 - 1 → ¬ MemoryEndsBehindTrade grow order e) := by
  by_cases hroom : e.orderCount = 2 ^ 64 - 1
  · rw [submit, if_pos hroom]
    exact iff_of_true (fun _ _ => ⟨rfl, fun _ => rfl, rfl⟩) fun hnot => absurd hroom hnot
  have hok := matchOrder_ok_iff grow order e
  have hlog := matchOrder_trades grow order e
  have hfirst := matchLoop_trades_eq_iff grow order.side order (e.resting order.side.opposite) e.trades e.tradeCapacity
  rw [← hlog] at hfirst
  have hsubmit := submit_of_room grow order hroom
  rcases hmatch : matchOrder grow order.side (crosses order.side) (tradeBetween order.side)
    (insertInto grow order.side) order e with ⟨err | _, e'⟩
  · rw [hmatch] at hok hfirst hsubmit
    have hends : tradesFit grow (tradesMade order e) e.trades e.tradeCapacity = false ∨
        (0 < quantityLeft order e ∧ sideFits grow e order.side = false) := by
      by_contra hfit
      simp only [not_or, not_and, Bool.not_eq_false] at hfit
      cases hok.mpr hfit
    rw [hsubmit]
    dsimp only at hfirst hsubmit ⊢
    constructor
    · rintro hkeeps - ⟨hmade, hrecorded, -⟩
      exact hfirst.mp (hkeeps err rfl).trades ⟨hmade, hrecorded⟩
    · intro hnot err' _
      apply sameState_of_trades hsubmit
      exact hfirst.mpr fun hrecorded => hnot hroom ⟨hrecorded.1, hrecorded.2, hends⟩
  · rw [hmatch] at hok hsubmit
    rw [hsubmit]
    refine iff_of_true (fun err herr => by cases herr) ?_
    rintro - ⟨-, -, hends⟩
    obtain ⟨hfit, hrest⟩ := hok.mp rfl
    rcases hends with hlog | ⟨hpos, hside⟩
    · rw [hfit] at hlog
      cases hlog
    · rw [hrest hpos] at hside
      cases hside

/-- What `add_order` raises leaves the engine as it was, unless the order was valid, below the count limit, and
memory ended behind its first trade. This holds of every engine, reachable or not. -/
theorem addOrder_failureKeeps_iff (grow : Growth) (args : OrderArgs) (e : MatchingEngine) :
    FailureKeeps grow args e ↔
      ∀ order, parseOrder args = .ok order → e.orderCount ≠ 2 ^ 64 - 1 → ¬ MemoryEndsBehindTrade grow order e := by
  rw [FailureKeeps, addOrder]
  cases hparse : parseOrder args with
  | error err => exact iff_of_true (fun _ _ => ⟨rfl, fun _ => rfl, rfl⟩) fun order horder => by cases horder
  | ok order =>
      simp only [Except.ok.injEq, forall_eq']
      rw [← submit_failureKeeps_iff]
      rcases submit grow order e with ⟨err | _, e'⟩
      · exact ⟨fun hkeeps _ _ => hkeeps err rfl, fun hkeeps _ _ => hkeeps err rfl⟩
      · exact iff_of_true (fun err herr => by cases herr) fun err herr => by cases herr

/-- A buyer takes the only seller and rests with what is left, for which there is no memory: the trade is
recorded and the seller is gone, but the buyer neither rests nor counts. -/
theorem not_failureKeeps_remainder :
    let e := run [.addOrder .unlimited ⟨1, 1, Binary64.ofInt 1, 5, 0⟩] empty
    let grow : Growth := fun buffer _ => buffer ≠ .buyOrders
    (e.addOrder grow ⟨2, 0, Binary64.ofInt 1, 8, 1⟩).1 =
      .error (.memoryError "Unable to allocate buy order buffer") ∧
    ¬ FailureKeeps grow ⟨2, 0, Binary64.ofInt 1, 8, 1⟩ e := by
  intro e grow
  have hraised : (e.addOrder grow ⟨2, 0, Binary64.ofInt 1, 8, 1⟩).1 =
      .error (.memoryError "Unable to allocate buy order buffer") := by decide +kernel
  refine ⟨hraised, fun hkeeps => ?_⟩
  exact absurd (hkeeps _ hraised).trades (by decide +kernel)

end MatchingEngine

end ChronosMatch
