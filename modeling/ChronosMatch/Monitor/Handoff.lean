import ChronosMatch.Engine.Submission
import ChronosMatch.Monitor.LatencyMonitor
import ChronosMatch.Persistence.Repository

/-!
# From the trade log to the queue

A call on the monitor only appends to the engine's trade log. If it returns, it pushes the part of the log
behind `_last_processed_trade_idx` and moves the index to the end; if it raises, it pushes nothing.
-/

namespace ChronosMatch

/-! ### The trade log grows at its end -/

theorem PyBook.matchLoop_trades {α : Type} (F : OrderFields α) (crosses : α → α → Bool)
    (trade : α → α → Int → TradeDict) (order : α) (resting : List α) (trades : List TradeDict) :
    trades <+: (matchLoop F crosses trade order resting trades).2.2 := by
  induction resting generalizing order trades with
  | nil => exact List.prefix_refl _
  | cons best rest ih =>
      rw [matchLoop]
      split
      · dsimp only
        split
        · exact (List.prefix_append _ _).trans (ih _ _)
        · exact List.prefix_append _ _
      · exact List.prefix_refl _

namespace Engine

theorem getTrades_addOrder (grow : Growth) (args : OrderArgs) (e : Engine) :
    e.getTrades <+: (e.addOrder grow args).2.getTrades := by
  cases e with
  | compiled e =>
      show e.trades.map CTrade.toDict <+: (e.addOrder grow args).2.trades.map CTrade.toDict
      apply List.IsPrefix.map
      rw [MatchingEngine.addOrder]
      cases MatchingEngine.parseOrder args with
      | error err => exact List.prefix_refl _
      | ok order =>
          rcases hsubmit : MatchingEngine.submit grow order e with ⟨result, e'⟩
          have hextends : e.trades <+: e'.trades := by
            cases MatchingEngine.submit_effect hsubmit with
            | refused => exact List.prefix_refl _
            | interrupted herr hmatched =>
                rw [hmatched.trades]
                exact List.prefix_append _ _
            | accepted hroom hmatched =>
                rw [hmatched.trades]
                exact List.prefix_append _ _
          cases result <;> simpa only [hsubmit] using hextends
  | reference e =>
      show e.trades <+: (e.addOrder args).2.trades
      rw [ReferenceEngine.addOrder]
      dsimp only
      split
      · exact PyBook.matchLoop_trades _ _ _ _ _ _
      · exact PyBook.matchLoop_trades _ _ _ _ _ _

/-- Add the orders one after the other, whether they are accepted or not. -/
def addAll (orders : List (Growth × OrderArgs)) (e : Engine) : Engine :=
  orders.foldl (fun e order => (e.addOrder order.1 order.2).2) e

theorem getTrades_addAll (orders : List (Growth × OrderArgs)) (e : Engine) :
    e.getTrades <+: (e.addAll orders).getTrades := by
  induction orders generalizing e with
  | nil => exact List.prefix_refl _
  | cons order orders ih => exact (e.getTrades_addOrder order.1 order.2).trans (ih _)

end Engine

/-! ### The trades can be stored -/

/-- A finite price, and a quantity in the range of a signed 64-bit integer from above. -/
structure OrderArgs.Bounded (args : OrderArgs) : Prop where
  price : args.price.isFinite = true
  quantity : args.quantity < 2 ^ 63

/-- Is the event made of the trade free of NaNs? -/
def TradeDict.Storable (d : TradeDict) : Prop :=
  d.price.isNaN = false ∧ (d.price.mul (Binary64.ofInt d.qty)).isNaN = false

theorem TradeDict.Storable.fromEngineDict {d : TradeDict} (h : d.Storable) (now : Int) (sequence : Nat) :
    (TradeEvent.fromEngineDict now d sequence).Storable := h

theorem TradeDict.storable_of_bounded {d : TradeDict} (hprice : d.price.isFinite = true) (hpos : 0 < d.qty)
    (hqty : d.qty < 2 ^ 63) : d.Storable :=
  ⟨Binary64.isNaN_of_isFinite hprice, Binary64.isNaN_mul hprice (Binary64.isFinite_ofInt (by omega))⟩

theorem CTrade.storable_toDict (trade : CTrade) : trade.toDict.Storable :=
  ⟨trade.price.isNaN_value, trade.price.isNaN_mul_ofInt _⟩

/-- What the lists of the reference engine hold. -/
def COrderObj.Sound (order : COrderObj) : Prop :=
  order.price.isFinite = true ∧ 0 < order.quantity ∧ order.quantity < 2 ^ 63

/-- The reference engine holds sound orders and has recorded storable trades. -/
structure ReferenceEngine.Sound (e : PyBook COrderObj) : Prop where
  buyOrders : ∀ order ∈ e.buyOrders, order.Sound
  sellOrders : ∀ order ∈ e.sellOrders, order.Sound
  trades : ∀ d ∈ e.trades, d.Storable

theorem PyBook.matchLoop_sound {crosses : COrderObj → COrderObj → Bool}
    {trade : COrderObj → COrderObj → Int → TradeDict}
    (hprice : ∀ order best qty, (trade order best qty).price = best.price)
    (hqty : ∀ order best qty, (trade order best qty).qty = qty) (order : COrderObj) {resting : List COrderObj}
    {trades : List TradeDict} (horder : order.price.isFinite = true ∧ order.quantity < 2 ^ 63)
    (hresting : ∀ o ∈ resting, o.Sound) (htrades : ∀ d ∈ trades, d.Storable) {order' : COrderObj}
    {resting' : List COrderObj} {trades' : List TradeDict}
    (h : matchLoop COrderObj.fields crosses trade order resting trades = (order', resting', trades')) :
    (order'.price.isFinite = true ∧ order'.quantity < 2 ^ 63) ∧ (∀ o ∈ resting', o.Sound) ∧
      ∀ d ∈ trades', d.Storable := by
  induction resting generalizing order trades with
  | nil =>
      cases h
      exact ⟨horder, hresting, htrades⟩
  | cons best rest ih =>
      rw [matchLoop] at h
      split at h
      · next htest =>
          obtain ⟨hbestPrice, hbestPos, hbest⟩ := hresting best List.mem_cons_self
          have hrest : ∀ o ∈ rest, o.Sound := fun o ho => hresting o (List.mem_cons_of_mem _ ho)
          have hpos : 0 < order.quantity := htest.1
          have hmatched : 0 < min order.quantity best.quantity ∧ min order.quantity best.quantity < 2 ^ 63 := by omega
          have hstorable : ∀ d ∈ trades ++ [trade order best (min order.quantity best.quantity)], d.Storable := by
            intro d hd
            rcases List.mem_append.mp hd with hold | hnew
            · exact htrades d hold
            · rw [List.mem_singleton.mp hnew]
              apply TradeDict.storable_of_bounded
              · rwa [hprice]
              · rw [hqty]
                exact hmatched.1
              · rw [hqty]
                exact hmatched.2
          have horder' : order.price.isFinite = true ∧
              order.quantity - min order.quantity best.quantity < 2 ^ 63 := ⟨horder.1, by omega⟩
          dsimp only at h
          split at h
          · exact ih _ horder' hrest hstorable h
          · next hleft =>
              cases h
              refine ⟨horder', ?_, hstorable⟩
              intro o ho
              rcases List.mem_cons.mp ho with rfl | ho
              · have hne : best.quantity - min order.quantity best.quantity ≠ 0 := hleft
                exact ⟨hbestPrice, show 0 < best.quantity - min order.quantity best.quantity by omega,
                  show best.quantity - min order.quantity best.quantity < 2 ^ 63 by omega⟩
              · exact hrest o ho
      · cases h
        exact ⟨horder, hresting, htrades⟩

theorem mem_listSort {α : Type} {key : α → Binary64 × Int} {l : List α} {a : α} : a ∈ listSort key l ↔ a ∈ l := by
  rw [listSort, List.mem_insertionSort]

private theorem sound_rest {orders : List COrderObj} (horders : ∀ o ∈ orders, o.Sound) {order : COrderObj}
    (horder : order.price.isFinite = true ∧ order.quantity < 2 ^ 63) :
    ∀ o ∈ (if 0 < order.quantity then orders ++ [order] else orders), o.Sound := by
  intro o ho
  split at ho
  · next hpos =>
      rcases List.mem_append.mp ho with hold | hnew
      · exact horders o hold
      · rw [List.mem_singleton.mp hnew]
        exact ⟨horder.1, hpos, horder.2⟩
  · exact horders o ho

theorem ReferenceEngine.Sound.addOrder {e : ReferenceEngine} (h : ReferenceEngine.Sound e.toPyBook) {args : OrderArgs}
    (hargs : args.Bounded) : ReferenceEngine.Sound (e.addOrder args).2.toPyBook := by
  obtain ⟨hbuys, hsells, htrades⟩ := h
  have horder : args.price.isFinite = true ∧ args.quantity < 2 ^ 63 := ⟨hargs.price, hargs.quantity⟩
  rw [ReferenceEngine.addOrder]
  dsimp only
  split
  · rw [PyBook.matchBuy]
    rcases hloop : PyBook.matchLoop COrderObj.fields _ _ _ (e.sortedSells COrderObj.fields) e.trades with
      ⟨order, sellOrders, trades⟩
    obtain ⟨hleft, hresting, hstorable⟩ := PyBook.matchLoop_sound (fun _ _ _ => rfl) (fun _ _ _ => rfl) _ horder
      (fun o ho => hsells o (mem_listSort.mp ho)) htrades hloop
    exact ⟨sound_rest hbuys hleft, hresting, hstorable⟩
  · rw [PyBook.matchSell]
    rcases hloop : PyBook.matchLoop COrderObj.fields _ _ _ (e.sortedBuys COrderObj.fields) e.trades with
      ⟨order, buyOrders, trades⟩
    obtain ⟨hleft, hresting, hstorable⟩ := PyBook.matchLoop_sound (fun _ _ _ => rfl) (fun _ _ _ => rfl) _ horder
      (fun o ho => hbuys o (mem_listSort.mp ho)) htrades hloop
    exact ⟨hresting, sound_rest hsells hleft, hstorable⟩

namespace Engine

def Sound : Engine → Prop
  | compiled _ => True
  | reference e => ReferenceEngine.Sound e.toPyBook

theorem Sound.getTrades {e : Engine} (h : e.Sound) : ∀ d ∈ e.getTrades, d.Storable := by
  cases e with
  | compiled e =>
      intro d hd
      obtain ⟨trade, -, rfl⟩ := List.mem_map.mp hd
      exact trade.storable_toDict
  | reference e => exact h.trades

theorem Sound.addAll {orders : List (Growth × OrderArgs)} (horders : ∀ order ∈ orders, order.2.Bounded) {e : Engine}
    (h : e.Sound) : (e.addAll orders).Sound := by
  induction orders generalizing e with
  | nil => exact h
  | cons order orders ih =>
      refine ih (fun o ho => horders o (List.mem_cons_of_mem _ ho)) ?_
      cases e with
      | compiled e => trivial
      | reference e => exact ReferenceEngine.Sound.addOrder h (horders order List.mem_cons_self)

end Engine

/-! ### What a call does to the trade log and the index -/

namespace LatencyMonitor

/-- What the hand-off reads is the same. -/
structure SameCursor (m m' : LatencyMonitor) : Prop where
  engine : m'.engine = m.engine
  index : m'.lastProcessedTradeIdx = m.lastProcessedTradeIdx
  persistence : m'.enablePersistence = m.enablePersistence

theorem SameCursor.refl (m : LatencyMonitor) : SameCursor m m := ⟨rfl, rfl, rfl⟩

theorem SameCursor.trans {m m' m'' : LatencyMonitor} (h : SameCursor m m') (h' : SameCursor m' m'') :
    SameCursor m m'' :=
  ⟨h'.engine.trans h.engine, h'.index.trans h.index, h'.persistence.trans h.persistence⟩

theorem sameCursor_recordWhale (event : WhaleEvent) (m : LatencyMonitor) : SameCursor m (m.recordWhale event) :=
  ⟨rfl, rfl, rfl⟩

theorem sameCursor_onOrderSubmitted (info : OrderInfo) (m : LatencyMonitor) :
    SameCursor m (m.onOrderSubmitted info) := by
  have hrolling : SameCursor m
      { m with rollingOrderQuantities := pushBounded 200 m.rollingOrderQuantities info.quantity } := ⟨rfl, rfl, rfl⟩
  rw [onOrderSubmitted]
  split
  · exact hrolling.trans (sameCursor_recordWhale _ _)
  · exact hrolling

theorem sameCursor_detectSweep (info : OrderInfo) (nBefore : Nat) (m : LatencyMonitor) :
    SameCursor m (m.detectSweep info nBefore) := by
  rw [detectSweep]
  split
  · exact .refl m
  · dsimp only
    split
    · exact .refl m
    · split
      all_goals
        split
        · exact sameCursor_recordWhale _ m
        · exact .refl m

theorem sameCursor_recordMatchedTrades (thresh : Int) (clock : Nat → Int) (trades : List (TradeDict × Nat))
    (m : LatencyMonitor) :
    SameCursor m (trades.foldl (fun m (tr, i) => m.recordMatchedTrade thresh (clock i) tr) m) := by
  induction trades generalizing m with
  | nil => exact .refl m
  | cons entry trades ih =>
      have hone : SameCursor m (m.recordMatchedTrade thresh (clock entry.2) entry.1) := by
        rw [recordMatchedTrade]
        split
        · exact sameCursor_recordWhale _ m
        · exact .refl m
      exact hone.trans (ih _)

theorem submitOrder_effect (d : Dispatch) (info : OrderInfo) (m : LatencyMonitor) :
    SameCursor { m with engine := m.engine.addAll [(d.grow, info.args)] } (m.submitOrder d info).2 := by
  rw [show m.engine.addAll [(d.grow, info.args)] = (m.engine.addOrder d.grow info.args).2 from rfl]
  have hsubmitted := sameCursor_onOrderSubmitted info { m with lastOrderInfo := info }
  rw [submitOrder]
  generalize ({ m with lastOrderInfo := info } : LatencyMonitor).onOrderSubmitted info = m' at hsubmitted
  obtain ⟨hengine, hindex, hpersistence⟩ := hsubmitted
  dsimp only
  rw [show m.engine = m'.engine from hengine.symm]
  rcases hadd : m'.engine.addOrder d.grow info.args with ⟨result, engine⟩
  have hadded : SameCursor { m with engine := engine } { m' with engine := engine } := ⟨rfl, hindex, hpersistence⟩
  cases result with
  | error err => exact hadded
  | ok res =>
      have hlatency : SameCursor { m' with engine := engine }
          (({ m' with engine := engine } : LatencyMonitor).recordLatency (max 1 d.elapsedNs)) := ⟨rfl, rfl, rfl⟩
      exact (hadded.trans hlatency).trans (sameCursor_detectSweep info m'.engineTradeCount _)

theorem stepLoop_effect (orders : List (OrderInfo × Dispatch)) (latencies : List Int) (m : LatencyMonitor) :
    ∃ added, added ⊆ orders ∧ SameCursor
      { m with engine := m.engine.addAll (added.map fun order => (order.2.grow, order.1.args)) }
      (m.stepLoop orders latencies).2 := by
  induction orders generalizing latencies m with
  | nil => exact ⟨[], List.Subset.refl _, .refl m⟩
  | cons order orders ih =>
      obtain ⟨info, d⟩ := order
      have hone := submitOrder_effect d info m
      rcases hsubmit : m.submitOrder d info with ⟨result, m'⟩
      rw [hsubmit] at hone
      cases result with
      | error err =>
          rw [stepLoop, hsubmit]
          exact ⟨[(info, d)], List.cons_subset_cons _ (List.nil_subset _), hone⟩
      | ok res =>
          rw [stepLoop, hsubmit]
          obtain ⟨added, hadded, hrest⟩ := ih (latencies ++ [max 1 d.elapsedNs]) m'
          refine ⟨(info, d) :: added, List.cons_subset_cons _ hadded, ?_⟩
          obtain ⟨hengine, hindex, hpersistence⟩ := hone
          refine ⟨hrest.engine.trans ?_, hrest.index.trans hindex, hrest.persistence.trans hpersistence⟩
          rw [hengine]
          rfl

theorem newTrades_eq {m : LatencyMonitor} (hindex : m.lastProcessedTradeIdx ≤ m.engine.getTrades.length) :
    m.newTrades = (m.engine.getTrades.drop m.lastProcessedTradeIdx, m.engine.getTrades.length) := by
  rw [newTrades]
  cases hengine : m.engine with
  | compiled e =>
      rw [hengine] at hindex
      have hlength : e.getTrades.length = e.trades.length := List.length_map _
      have hindex' : m.lastProcessedTradeIdx ≤ e.getTrades.length := hindex
      simp only [Engine.getTradesSince, Engine.getTrades, MatchingEngine.getTradesSince, List.length_map,
        List.length_drop, MatchingEngine.getTrades, List.map_drop, Prod.mk.injEq, true_and]
      omega
  | reference e => simp only [Engine.getTradesSince, List.take_length]

theorem engine_sync (clock : Nat → Int) (m : LatencyMonitor) :
    (m.syncMatchedTradesToPersistence clock).2.engine = m.engine := by
  rw [syncMatchedTradesToPersistence]
  rcases m.newTrades with ⟨newTrades, totalTrades⟩
  dsimp only
  split
  · exact (sameCursor_recordMatchedTrades m.getCurrentWhaleThreshold clock newTrades.zipIdx m).engine
  · rfl

/-- A sync pushes what is behind the index and moves the index to the end of the log. -/
theorem sync_effect (clock : Nat → Int) {m : LatencyMonitor}
    (hindex : m.lastProcessedTradeIdx ≤ m.engine.getTrades.length) :
    (m.syncMatchedTradesToPersistence clock).1 =
        (if m.enablePersistence then m.engine.getTrades.drop m.lastProcessedTradeIdx else []) ∧
      SameCursor { m with lastProcessedTradeIdx := m.engine.getTrades.length }
        (m.syncMatchedTradesToPersistence clock).2 := by
  rw [syncMatchedTradesToPersistence, newTrades_eq hindex]
  dsimp only
  split
  · have hrecorded := sameCursor_recordMatchedTrades m.getCurrentWhaleThreshold clock
      (m.engine.getTrades.drop m.lastProcessedTradeIdx).zipIdx m
    refine ⟨?_, hrecorded.engine, rfl, hrecorded.persistence⟩
    rw [hrecorded.persistence]
  · next hnone =>
      have heq : m.lastProcessedTradeIdx = m.engine.getTrades.length := by omega
      refine ⟨?_, rfl, heq, rfl⟩
      rw [heq, List.drop_length, ite_self]

end LatencyMonitor

/-! ### Calls -/

/-- A call that feeds the monitor. -/
inductive MonitorCall
  | step (numOrders : Int) (feed : Nat → OrderInfo × Dispatch) (clock : Nat → Int)
  | addCustomOrder (d : Dispatch) (clock : Nat → Int) (orderId : Int) (side : LatencyMonitor.SideArg) (price : Binary64)
      (quantity timestampNs : Int)

/-- The exception a call raises, if any, the trades it pushes, and the monitor after it. -/
def MonitorCall.perform : MonitorCall → LatencyMonitor → Option PyError × List TradeDict × LatencyMonitor
  | .step numOrders feed clock, m =>
      match m.step numOrders feed clock with
      | (.error err, pushed, m) => (some err, pushed, m)
      | (.ok _, pushed, m) => (none, pushed, m)
  | .addCustomOrder d clock orderId side price quantity timestampNs, m =>
      match m.addCustomOrder d clock orderId side price quantity timestampNs with
      | (.error err, pushed, m) => (some err, pushed, m)
      | (.ok _, pushed, m) => (none, pushed, m)

/-- All the orders of a call are bounded. -/
def MonitorCall.Bounded : MonitorCall → Prop
  | .step _ feed _ => ∀ i, (feed i).1.args.Bounded
  | .addCustomOrder _ _ _ _ price quantity _ => price.isFinite = true ∧ quantity < 2 ^ 63

/-- What a call does: the engine has got some more orders; a call that returns hands over what is behind
the index, and one that raises hands over nothing. -/
structure CallEffect (call : MonitorCall) (m : LatencyMonitor) (raised : Option PyError) (pushed : List TradeDict)
    (m' : LatencyMonitor) : Prop where
  engine : ∃ orders, m'.engine = m.engine.addAll orders ∧ (call.Bounded → ∀ order ∈ orders, order.2.Bounded)
  persistence : m'.enablePersistence = m.enablePersistence
  returned : raised = none →
    pushed = (if m.enablePersistence then m'.engine.getTrades.drop m.lastProcessedTradeIdx else []) ∧
      m'.lastProcessedTradeIdx = m'.engine.getTrades.length
  interrupted : raised ≠ none → pushed = [] ∧ m'.lastProcessedTradeIdx = m.lastProcessedTradeIdx

section CallEffect

variable {call : MonitorCall} {m m' : LatencyMonitor} {orders : List (Growth × OrderArgs)}

theorem CallEffect.log {raised : Option PyError} {pushed : List TradeDict} (h : CallEffect call m raised pushed m') :
    m.engine.getTrades <+: m'.engine.getTrades := by
  obtain ⟨orders, hengine, -⟩ := h.engine
  rw [hengine]
  exact m.engine.getTrades_addAll orders

theorem CallEffect.sound {raised : Option PyError} {pushed : List TradeDict}
    (h : CallEffect call m raised pushed m') (hbounded : call.Bounded) (hsound : m.engine.Sound) :
    m'.engine.Sound := by
  obtain ⟨orders, hengine, horders⟩ := h.engine
  rw [hengine]
  exact hsound.addAll (horders hbounded)

theorem take_eq_of_prefix {α : Type} {l l' : List α} (h : l <+: l') {n : Nat} (hn : n ≤ l.length) :
    l'.take n = l.take n := by
  obtain ⟨rest, rfl⟩ := h
  exact List.take_append_of_le_length hn

/-- A call pushes the part of the log between the index before it and the index after it. -/
theorem CallEffect.handed {raised : Option PyError} {pushed : List TradeDict} (h : CallEffect call m raised pushed m')
    (hpersistence : m.enablePersistence = true) (hindex : m.lastProcessedTradeIdx ≤ m.engine.getTrades.length) :
    m.engine.getTrades.take m.lastProcessedTradeIdx ++ pushed = m'.engine.getTrades.take m'.lastProcessedTradeIdx := by
  rw [← take_eq_of_prefix h.log hindex]
  by_cases hraised : raised = none
  · obtain ⟨hpushed, hindex'⟩ := h.returned hraised
    rw [hpushed, hpersistence, if_pos rfl, hindex', List.take_length, List.take_append_drop]
  · obtain ⟨hpushed, hindex'⟩ := h.interrupted hraised
    rw [hpushed, hindex', List.append_nil]

theorem CallEffect.index_le {raised : Option PyError} {pushed : List TradeDict}
    (h : CallEffect call m raised pushed m') (hindex : m.lastProcessedTradeIdx ≤ m.engine.getTrades.length) :
    m'.lastProcessedTradeIdx ≤ m'.engine.getTrades.length := by
  by_cases hraised : raised = none
  · exact (h.returned hraised).2.le
  · rw [(h.interrupted hraised).2]
    exact le_trans hindex h.log.length_le

theorem CallEffect.of_raised (h : LatencyMonitor.SameCursor { m with engine := m.engine.addAll orders } m')
    (horders : call.Bounded → ∀ order ∈ orders, order.2.Bounded) (err : PyError) :
    CallEffect call m (some err) [] m' :=
  ⟨⟨orders, h.engine, horders⟩, h.persistence, fun hreturned => (by cases hreturned), fun _ => ⟨rfl, h.index⟩⟩

theorem CallEffect.of_returned (h : LatencyMonitor.SameCursor { m with engine := m.engine.addAll orders } m')
    (horders : call.Bounded → ∀ order ∈ orders, order.2.Bounded)
    (hindex : m.lastProcessedTradeIdx ≤ m.engine.getTrades.length) (clock : Nat → Int) :
    CallEffect call m none (m'.syncMatchedTradesToPersistence clock).1
      (m'.syncMatchedTradesToPersistence clock).2 := by
  have hindex' : m'.lastProcessedTradeIdx ≤ m'.engine.getTrades.length := by
    rw [h.index, h.engine]
    exact le_trans hindex (m.engine.getTrades_addAll orders).length_le
  obtain ⟨hpushed, hsync⟩ := LatencyMonitor.sync_effect clock hindex'
  refine ⟨⟨orders, hsync.engine.trans h.engine, horders⟩, hsync.persistence.trans h.persistence, fun _ => ⟨?_, ?_⟩,
    fun hraised => absurd rfl hraised⟩
  · rw [hpushed, hsync.engine, h.index, h.persistence]
  · rw [hsync.index, hsync.engine]

end CallEffect

theorem MonitorCall.perform_effect (call : MonitorCall) {m : LatencyMonitor}
    (hindex : m.lastProcessedTradeIdx ≤ m.engine.getTrades.length) :
    CallEffect call m (call.perform m).1 (call.perform m).2.1 (call.perform m).2.2 := by
  cases call with
  | step numOrders feed clock =>
      obtain ⟨added, hadded, hloop⟩ := LatencyMonitor.stepLoop_effect
        ((List.range (max 1 numOrders).toNat).map feed) [] m
      have horders : (MonitorCall.step numOrders feed clock).Bounded →
          ∀ order ∈ added.map fun order => (order.2.grow, order.1.args), order.2.Bounded := by
        intro hbounded order horder
        obtain ⟨fed, hfed, rfl⟩ := List.mem_map.mp horder
        obtain ⟨i, -, rfl⟩ := List.mem_map.mp (hadded hfed)
        exact hbounded i
      rw [perform, LatencyMonitor.step]
      rcases hresult : m.stepLoop ((List.range (max 1 numOrders).toNat).map feed) [] with ⟨result, m'⟩
      rw [hresult] at hloop
      cases result with
      | error err => exact CallEffect.of_raised hloop horders err
      | ok latencies =>
          have hreturned := CallEffect.of_returned hloop horders hindex clock
          exact hreturned
  | addCustomOrder d clock orderId side price quantity timestampNs =>
      have hsubmit := LatencyMonitor.submitOrder_effect d ⟨orderId, side.name, price, quantity, timestampNs⟩ m
      have horders : (MonitorCall.addCustomOrder d clock orderId side price quantity timestampNs).Bounded →
          ∀ order ∈ [(d.grow, OrderInfo.args ⟨orderId, side.name, price, quantity, timestampNs⟩)], order.2.Bounded := by
        intro hbounded order horder
        rw [List.mem_singleton.mp horder]
        exact ⟨hbounded.1, hbounded.2⟩
      rw [perform, LatencyMonitor.addCustomOrder]
      rcases hresult : m.submitOrder d ⟨orderId, side.name, price, quantity, timestampNs⟩ with ⟨result, m'⟩
      rw [hresult] at hsubmit
      cases result with
      | error err => exact CallEffect.of_raised hsubmit horders err
      | ok res =>
          have hreturned := CallEffect.of_returned hsubmit horders hindex clock
          exact hreturned

/-! ### When a call raises -/

/-- Add orders up to the first that raises. -/
def Engine.dispatch : List (Growth × OrderArgs) → Engine → Option PyError × Engine
  | [], e => (none, e)
  | order :: orders, e =>
      match e.addOrder order.1 order.2 with
      | (.error err, e) => (some err, e)
      | (.ok _, e) => dispatch orders e

/-- The orders of a call, with the memory that each finds. -/
def MonitorCall.orders : MonitorCall → List (Growth × OrderArgs)
  | .step numOrders feed _ =>
      ((List.range (max 1 numOrders).toNat).map feed).map fun order => (order.2.grow, order.1.args)
  | .addCustomOrder d _ orderId side price quantity timestampNs =>
      [(d.grow, OrderInfo.args ⟨orderId, side.name, price, quantity, timestampNs⟩)]

namespace LatencyMonitor

theorem submitOrder_addOrder (d : Dispatch) (info : OrderInfo) (m : LatencyMonitor) :
    ((m.submitOrder d info).1, (m.submitOrder d info).2.engine) = m.engine.addOrder d.grow info.args := by
  have hengine := (submitOrder_effect d info m).engine
  have hresult : (m.submitOrder d info).1 = (m.engine.addOrder d.grow info.args).1 := by
    have hsubmitted := (sameCursor_onOrderSubmitted info { m with lastOrderInfo := info }).engine
    rw [submitOrder]
    dsimp only
    rw [hsubmitted]
    rcases m.engine.addOrder d.grow info.args with ⟨result, engine⟩
    cases result <;> rfl
  exact Prod.ext hresult hengine

theorem stepLoop_dispatch (orders : List (OrderInfo × Dispatch)) (latencies : List Int) (m : LatencyMonitor) :
    m.engine.dispatch (orders.map fun order => (order.2.grow, order.1.args)) =
      (match (m.stepLoop orders latencies).1 with
        | .error err => some err
        | .ok _ => none, (m.stepLoop orders latencies).2.engine) := by
  induction orders generalizing latencies m with
  | nil => rfl
  | cons order orders ih =>
      obtain ⟨info, d⟩ := order
      have hsubmit := submitOrder_addOrder d info m
      rw [List.map_cons, Engine.dispatch, ← hsubmit, stepLoop]
      rcases m.submitOrder d info with ⟨result, m'⟩
      cases result with
      | error err => rfl
      | ok res => exact ih (latencies ++ [max 1 d.elapsedNs]) m'

end LatencyMonitor

theorem MonitorCall.perform_dispatch (call : MonitorCall) (m : LatencyMonitor) :
    m.engine.dispatch call.orders = ((call.perform m).1, (call.perform m).2.2.engine) := by
  cases call with
  | step numOrders feed clock =>
      have hloop := LatencyMonitor.stepLoop_dispatch ((List.range (max 1 numOrders).toNat).map feed) [] m
      rw [orders, hloop, perform, LatencyMonitor.step]
      rcases m.stepLoop ((List.range (max 1 numOrders).toNat).map feed) [] with ⟨result, m'⟩
      cases result with
      | error err => rfl
      | ok latencies => exact Prod.ext rfl (m'.engine_sync clock).symm
  | addCustomOrder d clock orderId side price quantity timestampNs =>
      have hsubmit := LatencyMonitor.submitOrder_addOrder d ⟨orderId, side.name, price, quantity, timestampNs⟩ m
      rw [orders, Engine.dispatch, ← hsubmit, perform, LatencyMonitor.addCustomOrder]
      rcases m.submitOrder d ⟨orderId, side.name, price, quantity, timestampNs⟩ with ⟨result, m'⟩
      cases result with
      | error err => rfl
      | ok res => exact Prod.ext rfl (m'.engine_sync clock).symm

end ChronosMatch
