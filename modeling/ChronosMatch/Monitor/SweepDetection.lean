import Mathlib.Data.List.Dedup
import ChronosMatch.Base.FirstOccurrence
import ChronosMatch.Monitor.FillPrices
import ChronosMatch.Monitor.WhaleEvents

/-!
# Sweeps are detected exactly

The trades that `_detect_sweep` scans are the fills of the order it was called for, and skipping the scan when
there are few of them hides nothing. The levels are listed as they come up in the fills. Since an order fills
from the best opposite price on, the first level is the best price in the book and the last one the worst
price paid.
-/

namespace ChronosMatch

/-- To an order of the side, the second price is no better than the first. -/
def NoBetter (side : Side) (p q : Binary64) : Prop :=
  match side with
  | .buy => p ≤ q
  | .sell => q ≤ p

/-- The event tells of fills of an order that met the opposite prices. -/
structure TellsOf (side : Side) (orderId : Int) (opposite : List Binary64) (fills : List TradeDict)
    (event : WhaleEvent) : Prop where
  orderId : event.orderId = some orderId
  levelsCleared : event.levelsCleared = (fills.map TradeDict.price).dedup.length
  quantity : event.quantity = (fills.map TradeDict.qty).sum
  best : event.price ∈ opposite ∧ ∀ price ∈ opposite, NoBetter side event.price price
  worst : ∃ last ∈ fills.map TradeDict.price, event.priceEnd = some last ∧
    ∀ price ∈ fills.map TradeDict.price, NoBetter side price last
  between : ∀ price ∈ fills.map TradeDict.price, NoBetter side event.price price
  monotone : (fills.map TradeDict.price).Pairwise (NoBetter side)

theorem noBetter_value {side : Side} {p q : Price} :
    NoBetter side p.value q.value ↔ ¬ side.opposite.Better q p := by
  cases side <;> simp only [NoBetter, Side.opposite, Side.Better, Price.value_le, not_lt]

namespace LatencyMonitor

/-! ### The scan -/

theorem executed_foldl (fills : List TradeDict) (sweep : Sweep) :
    (fills.foldl Sweep.add sweep).executed = sweep.executed + (fills.map TradeDict.qty).sum := by
  induction fills generalizing sweep with
  | nil => exact (Int.add_zero _).symm
  | cons tr fills ih =>
      rw [List.foldl_cons, ih, List.map_cons, List.sum_cons, ← Int.add_assoc]
      rfl

/-- The levels are the first occurrences of the prices. -/
theorem levels_foldl {fills : List TradeDict} {prices : List Price}
    (hprices : fills.map TradeDict.price = prices.map Price.value) {sweep : Sweep} {levels : List Price}
    (hlevels : sweep.levels = levels.map Price.value) :
    (fills.foldl Sweep.add sweep).levels = (FirstOccurrence.absorb id levels prices).map Price.value := by
  induction fills generalizing prices sweep levels with
  | nil =>
      rw [List.map_eq_nil_iff.mp hprices.symm]
      exact hlevels
  | cons tr fills ih =>
      obtain ⟨price, prices, rfl, hprice, hrest⟩ := List.map_eq_cons_iff.mp hprices.symm
      have hseen : (levels.map Price.value).any (fun level => Binary64.SameValue level tr.price) = true ↔
          id price ∈ levels.map id := by
        rw [List.any_eq_true, List.map_id]
        simp only [← hprice, List.mem_map, decide_eq_true_eq, exists_exists_and_eq_and, Price.sameValue_iff,
          exists_eq_right, id_eq]
      apply ih hrest.symm
      show (if sweep.levels.any (fun level => Binary64.SameValue level tr.price) then sweep.levels
        else sweep.levels ++ [tr.price]) = (FirstOccurrence.keep id levels price).map Price.value
      rw [hlevels, FirstOccurrence.keep]
      simp only [hseen]
      split
      · rfl
      · rw [List.map_append, List.map_singleton, hprice]

theorem length_levels_foldl_le (fills : List TradeDict) (sweep : Sweep) :
    (fills.foldl Sweep.add sweep).levels.length ≤ sweep.levels.length + fills.length := by
  induction fills generalizing sweep with
  | nil => exact le_rfl
  | cons tr fills ih =>
      have hadd : (sweep.add tr).levels.length ≤ sweep.levels.length + 1 := by
        rw [Sweep.add]
        dsimp only
        split
        · exact Nat.le_succ _
        · exact List.length_append.le
      rw [List.foldl_cons, List.length_cons]
      exact (ih _).trans (by omega)

theorem engineTradeCount_eq (m : LatencyMonitor) : m.engineTradeCount = m.engine.getTrades.length := by
  rw [engineTradeCount]
  cases m.engine with
  | compiled e => exact (List.length_map _).symm
  | reference e => rfl

theorem tradesFrom_eq {m : LatencyMonitor} {old fills : List TradeDict} (htrades : m.engine.getTrades = old ++ fills) :
    m.tradesFrom old.length = fills := by
  have hcount := m.engineTradeCount_eq
  rw [tradesFrom]
  cases hengine : m.engine with
  | compiled e =>
      rw [hengine] at htrades
      show (e.trades.drop old.length).map CTrade.toDict = fills
      rw [List.map_drop, show e.trades.map CTrade.toDict = old ++ fills from htrades, List.drop_left]
  | reference e =>
      rw [hengine] at hcount htrades
      show (e.trades.take m.engineTradeCount).drop old.length = fills
      rw [hcount]
      show (e.trades.take e.trades.length).drop old.length = fills
      rw [List.take_length, show e.trades = old ++ fills from htrades, List.drop_left]

theorem sweepEvents_eq {m : LatencyMonitor} (hlevels : 1 ≤ m.sweepMinLevels) {old fills : List TradeDict}
    (htrades : m.engine.getTrades = old ++ fills) (info : OrderInfo) : m.sweepEvents info old.length =
      if m.sweepMinLevels ≤ (fills.foldl Sweep.add {}).levels.length ∧
          m.getCurrentWhaleThreshold ≤ (fills.foldl Sweep.add {}).executed
      then [whaleSweep info (fills.foldl Sweep.add {})] else [] := by
  have hfew := length_levels_foldl_le fills {}
  rw [sweepEvents, tradesFrom_eq htrades, engineTradeCount_eq, htrades, List.length_append]
  by_cases hskip : m.sweepMinLevels < 1 ∨ ((old.length + fills.length : Nat) : Int) - old.length < m.sweepMinLevels
  · rw [if_pos hskip, if_neg]
    rintro ⟨henough, -⟩
    have hnone : ({} : Sweep).levels.length = 0 := rfl
    omega
  · rw [if_neg hskip]

end LatencyMonitor

/-! ### What the event says -/

instance (side : Side) : Std.Refl fun p q : Price => ¬ side.Better q p :=
  ⟨side.not_better_self⟩

instance (side : Side) : Std.Antisymm fun p q : Price => ¬ side.Better q p where
  antisymm p q hpq hqp := by
    cases side with
    | buy => exact le_antisymm (not_lt.mp hqp) (not_lt.mp hpq)
    | sell => exact le_antisymm (not_lt.mp hpq) (not_lt.mp hqp)

theorem Price.value_injective : Function.Injective Price.value := by
  intro p q hvalue
  exact Price.key_injective (congrArg Binary64.key hvalue)

theorem length_firsts (prices : List Price) :
    (FirstOccurrence.firsts id prices).length = (prices.map Price.value).dedup.length := by
  have hnodup : (FirstOccurrence.firsts id prices).Nodup := by
    have hkeys := FirstOccurrence.nodup_firsts id prices
    rwa [List.map_id] at hkeys
  rw [List.dedup_map_of_injective Price.value_injective, List.length_map]
  apply List.Perm.length_eq
  apply (List.perm_ext_iff_of_nodup hnodup (List.nodup_dedup prices)).mpr
  intro price
  have hkeys : price ∈ (FirstOccurrence.absorb id [] prices).map id ↔ price ∈ [].map id ∨ price ∈ prices.map id :=
    FirstOccurrence.mem_keys_absorb id
  rw [List.map_id, List.map_id] at hkeys
  rw [List.mem_dedup, FirstOccurrence.firsts, hkeys]
  simp

theorem Engine.Walked.levels {e e' : Engine} {fills : List TradeDict} {prices : List Price} {side : Side}
    (h : Walked side e e' fills prices) : ∃ walked beyond, prices = walked ++ beyond ∧
      walked.map Price.value = fills.map TradeDict.price ∧
      (fills.foldl LatencyMonitor.Sweep.add {}).levels = (FirstOccurrence.firsts id walked).map Price.value := by
  obtain ⟨rest, hrest⟩ := h.walked
  obtain ⟨walked, beyond, hprices, hwalked, -⟩ := List.map_eq_append_iff.mp hrest.symm
  exact ⟨walked, beyond, hprices, hwalked, LatencyMonitor.levels_foldl hwalked.symm rfl⟩

theorem Engine.Walked.length_levels {e e' : Engine} {fills : List TradeDict} {prices : List Price} {side : Side}
    (h : Walked side e e' fills prices) : (fills.foldl LatencyMonitor.Sweep.add {}).levels.length =
      (fills.map TradeDict.price).dedup.length := by
  obtain ⟨walked, -, -, hwalked, hlevels⟩ := h.levels
  rw [hlevels, List.length_map, length_firsts, hwalked]

/-- The levels of the fills of an order: the best opposite price comes first, the worst price paid last. -/
theorem Engine.Walked.tellsOf {e e' : Engine} {fills : List TradeDict} {prices : List Price} {info : OrderInfo}
    {side : Side} (h : Walked side.opposite e e' fills prices) (hfills : fills ≠ []) :
    TellsOf side info.orderId (e.restingPrices side.opposite) fills
      (LatencyMonitor.whaleSweep info (fills.foldl LatencyMonitor.Sweep.add {})) := by
  have hlength := h.length_levels
  obtain ⟨walked, beyond, rfl, hwalked, hlevels⟩ := h.levels
  have hsorted : walked.Pairwise fun p q => ¬ side.opposite.Better q p := (List.pairwise_append.mp h.sorted).1
  have hpaid : (fills.map TradeDict.price).Pairwise (NoBetter side) := by
    rw [← hwalked]
    exact List.pairwise_map.mpr (hsorted.imp noBetter_value.mpr)
  obtain ⟨first, tail, rfl⟩ : ∃ first tail, walked = first :: tail := by
    apply List.exists_cons_of_ne_nil
    rintro rfl
    exact hfills (List.map_eq_nil_iff.mp hwalked.symm)
  have hfirst : (fills.foldl LatencyMonitor.Sweep.add {}).levels.headD Binary64.zero = first.value := by
    rw [hlevels, List.headD_eq_head?_getD, List.head?_map, FirstOccurrence.head?_firsts]
    rfl
  have hbest : ∀ price ∈ e.restingPrices side.opposite, NoBetter side first.value price := by
    intro price hprice
    obtain ⟨p, hp, rfl⟩ := List.mem_map.mp (h.resting.mem_iff.mpr hprice)
    rw [noBetter_value]
    rcases List.mem_cons.mp hp with rfl | hp
    · exact side.opposite.not_better_self _
    · exact (List.pairwise_cons.mp h.sorted).1 p hp
  have hlast : (fills.foldl LatencyMonitor.Sweep.add {}).levels.getLast? =
      some ((first :: tail).getLast (List.cons_ne_nil _ _)).value := by
    have hid := FirstOccurrence.getLast?_firsts id (r := fun p q : Price => ¬ side.opposite.Better q p)
      (l := first :: tail) (by rwa [List.map_id])
    rw [Option.map_id_fun, id_eq, id_eq, List.getLast?_eq_some_getLast (List.cons_ne_nil _ _)] at hid
    rw [hlevels, List.getLast?_map, hid]
    rfl
  have hmem : ∀ price, price ∈ fills.map TradeDict.price ↔ ∃ p ∈ first :: tail, p.value = price := by
    intro price
    rw [← hwalked, List.mem_map]
  refine ⟨rfl, hlength, ?_, ?_, ?_, ?_, hpaid⟩
  · exact (LatencyMonitor.executed_foldl fills {}).trans (Int.zero_add _)
  · show (fills.foldl LatencyMonitor.Sweep.add {}).levels.headD Binary64.zero ∈ _ ∧
      ∀ price ∈ _, NoBetter side ((fills.foldl LatencyMonitor.Sweep.add {}).levels.headD Binary64.zero) price
    rw [hfirst]
    exact ⟨h.resting.mem_iff.mp (List.mem_map_of_mem List.mem_cons_self), hbest⟩
  · refine ⟨_, (hmem _).mpr ⟨_, List.getLast_mem (List.cons_ne_nil first tail), rfl⟩, hlast, fun price hprice => ?_⟩
    obtain ⟨p, hp, rfl⟩ := (hmem price).mp hprice
    exact noBetter_value.mpr (hsorted.rel_getLast hp)
  · show ∀ price ∈ fills.map TradeDict.price,
      NoBetter side ((fills.foldl LatencyMonitor.Sweep.add {}).levels.headD Binary64.zero) price
    rw [hfirst]
    intro price hprice
    obtain ⟨p, hp, rfl⟩ := (hmem price).mp hprice
    exact hbest _ (h.resting.mem_iff.mp (List.mem_map_of_mem (List.mem_append_left beyond hp)))

/-! ### An order -/

/-- The side that an order is dispatched to. -/
def OrderInfo.dispatchSide (info : OrderInfo) : Side := if info.side = "BUY" then .buy else .sell

theorem OrderInfo.side_args (info : OrderInfo) : info.args.side = info.dispatchSide.code := by
  rw [args, dispatchSide]
  split
  · rfl
  · rfl

namespace LatencyMonitor

theorem onOrderSubmitted_frame (info : OrderInfo) (m : LatencyMonitor) :
    (m.onOrderSubmitted info).engine = m.engine ∧ (m.onOrderSubmitted info).sweepMinLevels = m.sweepMinLevels := by
  rw [onOrderSubmitted]
  split
  · exact ⟨by dsimp only [recordWhale], by dsimp only [recordWhale]⟩
  · exact ⟨by dsimp only, by dsimp only⟩

theorem sweeps_dispatched {submitted : LatencyMonitor} (hlevels : 1 ≤ submitted.sweepMinLevels) {engine : Engine}
    {fills : List TradeDict} (htrades : engine.getTrades = submitted.engine.getTrades ++ fills) (info : OrderInfo)
    (lat : Int) : ofType .whaleSweep (sweepEvents info submitted.engineTradeCount
        ({ submitted with engine }.recordLatency lat)) =
      if submitted.sweepMinLevels ≤ (fills.foldl Sweep.add {}).levels.length ∧
          submitted.getCurrentWhaleThreshold ≤ (fills.foldl Sweep.add {}).executed
      then [whaleSweep info (fills.foldl Sweep.add {})] else [] := by
  have hthreshold : ({ submitted with engine }.recordLatency lat).getCurrentWhaleThreshold =
      submitted.getCurrentWhaleThreshold := threshold_congr rfl rfl rfl
  have hevents := sweepEvents_eq (m := { submitted with engine }.recordLatency lat) hlevels htrades info
  rw [hthreshold] at hevents
  rw [ofType_eq_self eventType_sweepEvents, engineTradeCount_eq]
  exact hevents

theorem sweeps_orderEvents {d : Dispatch} {info : OrderInfo} {m : LatencyMonitor} (hlevels : 1 ≤ m.sweepMinLevels)
    {res : Int} {engine : Engine} (hadd : m.engine.addOrder d.grow info.args = (.ok res, engine))
    {fills : List TradeDict} (htrades : engine.getTrades = m.engine.getTrades ++ fills) :
    ofType .whaleSweep (m.orderEvents d info) =
      if m.sweepMinLevels ≤ (fills.foldl Sweep.add {}).levels.length ∧
          (m.onOrderSubmitted info).getCurrentWhaleThreshold ≤ (fills.foldl Sweep.add {}).executed
      then [whaleSweep info (fills.foldl Sweep.add {})] else [] := by
  have hthreshold : (onOrderSubmitted info { m with lastOrderInfo := info }).getCurrentWhaleThreshold =
      (m.onOrderSubmitted info).getCurrentWhaleThreshold := by
    rw [threshold_onOrderSubmitted, threshold_onOrderSubmitted]
    exact threshold_congr rfl rfl rfl
  obtain ⟨hengine, hminLevels⟩ := onOrderSubmitted_frame info { m with lastOrderInfo := info }
  have hlevels' : 1 ≤ (onOrderSubmitted info { m with lastOrderInfo := info }).sweepMinLevels := by
    rw [hminLevels]
    exact hlevels
  have htrades' : engine.getTrades =
      (onOrderSubmitted info { m with lastOrderInfo := info }).engine.getTrades ++ fills := by
    rw [hengine]
    exact htrades
  rw [orderEvents, ofType_append, ofType_eq_nil eventType_submittedEvents (by decide), List.nil_append, hengine, hadd]
  refine (sweeps_dispatched hlevels' htrades' info (max 1 d.elapsedNs)).trans ?_
  rw [hminLevels, hthreshold]

theorem sweeps_orderEvents_of_error {d : Dispatch} {info : OrderInfo} {m : LatencyMonitor} {err : PyError}
    {engine : Engine} (hadd : m.engine.addOrder d.grow info.args = (.error err, engine)) :
    ofType .whaleSweep (m.orderEvents d info) = [] := by
  obtain ⟨hengine, -⟩ := onOrderSubmitted_frame info { m with lastOrderInfo := info }
  rw [orderEvents, ofType_append, ofType_eq_nil eventType_submittedEvents (by decide), List.nil_append, hengine, hadd]
  rfl

end LatencyMonitor

/-- The sweeps that `add_custom_order` detects: one if the order's own fills touch enough levels and reach the
threshold, otherwise none; and none if the call raises. -/
def SweepExact (d : Dispatch) (clock : Nat → Int) (orderId : Int) (side : LatencyMonitor.SideArg) (price : Binary64)
    (quantity timestampNs : Int) (m : LatencyMonitor) : Prop :=
  let call := MonitorCall.addCustomOrder d clock orderId side price quantity timestampNs
  let info : OrderInfo := ⟨orderId, side.name, price, quantity, timestampNs⟩
  let thresh := (m.onOrderSubmitted info).getCurrentWhaleThreshold
  let sweeps := ofType .whaleSweep (call.events m)
  (call.perform m).2.2.whaleEvents = appendEvents m.whaleEvents (call.events m) ∧
    if (call.perform m).1 = none then
      ∃ fills, (call.perform m).2.2.engine.getTrades = m.engine.getTrades ++ fills ∧
        if m.sweepMinLevels ≤ (fills.map TradeDict.price).dedup.length ∧ thresh ≤ (fills.map TradeDict.qty).sum then
          ∃ event, sweeps = [event] ∧
            TellsOf info.dispatchSide orderId (m.engine.restingPrices info.dispatchSide.opposite) fills event
        else sweeps = []
    else sweeps = []

/-- Sweep detection is exact in every state that valid orders lead to. -/
theorem addCustomOrder_sweepExact {m : LatencyMonitor} (hreached : m.engine.Reached) (hlevels : 1 ≤ m.sweepMinLevels)
    (d : Dispatch) (clock : Nat → Int) (orderId : Int) (side : LatencyMonitor.SideArg) (price : Binary64)
    (quantity timestampNs : Int) : SweepExact d clock orderId side price quantity timestampNs m := by
  refine ⟨MonitorCall.whaleEvents_perform _ m, ?_⟩
  generalize hinfo : (⟨orderId, side.name, price, quantity, timestampNs⟩ : OrderInfo) = info
  have hid : orderId = info.orderId := by rw [← hinfo]
  have hsubmit := LatencyMonitor.submitOrder_addOrder d info m
  rw [MonitorCall.perform, MonitorCall.events, LatencyMonitor.addCustomOrder, hinfo]
  dsimp only
  rcases hresult : m.submitOrder d info with ⟨result, m'⟩
  rw [hresult] at hsubmit
  cases result with
  | error err =>
      have hnone := LatencyMonitor.sweeps_orderEvents_of_error hsubmit.symm
      rw [if_neg (by simp), List.append_nil]
      exact hnone
  | ok res =>
      obtain ⟨fills, prices, hwalked⟩ := hreached.walked info.side_args hsubmit.symm
      have hsweeps := LatencyMonitor.sweeps_orderEvents hlevels hsubmit.symm hwalked.trades
      rw [hwalked.length_levels, LatencyMonitor.executed_foldl, show ({} : LatencyMonitor.Sweep).executed = 0 from rfl,
        Int.zero_add] at hsweeps
      dsimp only
      rw [if_pos rfl, ofType_append, ofType_eq_nil LatencyMonitor.eventType_syncEvents (by decide), List.append_nil,
        m'.engine_sync clock, hsweeps]
      refine ⟨fills, hwalked.trades, ?_⟩
      split
      · next hdetected =>
          refine ⟨_, rfl, hid ▸ hwalked.tellsOf ?_⟩
          -- a sweep has at least one level
          rintro rfl
          have hnone : (([] : List TradeDict).map TradeDict.price).dedup.length = 0 := rfl
          rw [hnone] at hdetected
          omega
      · rfl

/-- Sells of 300 at 100 and at 101. -/
def sellLevels : List MatchingEngine.Call :=
  [.addOrder .unlimited ⟨1, 1, Binary64.ofInt 100, 300, 10⟩, .addOrder .unlimited ⟨2, 1, Binary64.ofInt 101, 300, 11⟩]

/-- A monitor with the default settings over them. -/
def sellLevelsMonitor : LatencyMonitor := { engine := .compiled (MatchingEngine.run sellLevels .empty) }

theorem addCustomOrder_sweepExact_sellLevels : SweepExact ⟨.unlimited, 1⟩ (fun _ => 0) 3 (.code 0) (Binary64.ofInt 101)
    600 12 sellLevelsMonitor :=
  addCustomOrder_sweepExact (.compiled sellLevels) (by decide) _ _ _ _ _ _ _

/-- A buy of 700 clears both levels but finds no memory for its remainder. -/
def unfinishedBuy : MonitorCall :=
  .addCustomOrder ⟨fun buffer _ => decide (buffer = .trades), 1⟩ (fun _ => 0) 3 (.code 0) (Binary64.ofInt 101) 700 12

/-- The order is valid, and its fills touch two levels and reach the threshold, but no sweep is reported. -/
theorem not_sweepExact_unfinishedBuy :
    sellLevelsMonitor.engine.Reached ∧ OrderArgs.Positive ⟨3, 0, Binary64.ofInt 101, 700, 12⟩ ∧
      ∃ fills, (unfinishedBuy.perform sellLevelsMonitor).2.2.engine.getTrades =
          sellLevelsMonitor.engine.getTrades ++ fills ∧
        sellLevelsMonitor.sweepMinLevels ≤ (fills.map TradeDict.price).dedup.length ∧
        (sellLevelsMonitor.onOrderSubmitted ⟨3, "BUY", Binary64.ofInt 101, 700, 12⟩).getCurrentWhaleThreshold ≤
          (fills.map TradeDict.qty).sum ∧
        ofType .whaleSweep (unfinishedBuy.events sellLevelsMonitor) = [] :=
  ⟨.compiled sellLevels, ⟨by decide, by decide⟩,
    [⟨3, 1, Binary64.ofInt 100, 300⟩, ⟨3, 2, Binary64.ofInt 101, 300⟩], by decide, by decide, by decide, by decide⟩

end ChronosMatch
