import Mathlib.Data.List.DropRight
import ChronosMatch.Analysis.Simulator
import ChronosMatch.Engine.Validation
import ChronosMatch.Monitor.Ledger
import ChronosMatch.Monitor.RejectedOrders

/-!
# The monitor on its simulated market

`LatencyMonitor.step` and `reset` with the simulator that the monitor draws its orders from. Since the last
reset the engine was handed the first orders of one market, each with a reading of the clock; as many of them as
it counts were accepted.
-/

namespace ChronosMatch

open DataProcessor

/-! ### The functions of the source -/

def Engine.getOrderCount : Engine → Nat
  | compiled e => e.getOrderCount
  | reference e => e.getOrderCount

/-- The arguments of `__init__` that `main` sets, and whether the extension was built. -/
structure MonitorConfig where
  hasCythonEngine : Bool
  seed : Int
  basePrice : Binary64
  whaleThreshold : Int := 500
  relative : Bool := false
  sweepMinLevels : Int := 2
  rollingWindow : Nat := 100
  enablePersistence : Bool := false

/-- What an order meets that is drawn next: the reading of the clock, and the dispatch. -/
structure NextOrder where
  now : Int
  dispatch : Dispatch

/-- `_last_order_info` for an order that was drawn. -/
def orderInfo (entry : OrderDict × Int) : OrderInfo :=
  ⟨entry.1.orderId, entry.1.side, entry.1.price, entry.1.quantity, entry.2⟩

/-- `0.04` -/
def whaleProbability : Binary64 := Binary64.ofInt 4 / Binary64.ofInt 100

/-- A `for` loop that appends what its body returns, unless the body raises. -/
def collect {α β ε τ : Type} (body : α → τ → Except ε β × τ) : List α → List β → τ → Except ε (List β) × τ
  | [], results, s => (.ok results, s)
  | item :: items, results, s =>
      match body item s with
      | (.error err, s) => (.error err, s)
      | (.ok result, s) => collect body items (results ++ [result]) s

structure MarketMonitor (σ : Type) where
  monitor : LatencyMonitor
  seed : Int
  simulator : MockMarketSimulator σ

namespace MarketMonitor

variable {σ : Type} (generator : RandomGenerator σ)

/-- `__init__` -/
def create (config : MonitorConfig) : MarketMonitor σ where
  monitor := {
    engine := getMatchingEngine config.hasCythonEngine
    whaleThreshold := config.whaleThreshold
    relative := config.relative
    sweepMinLevels := config.sweepMinLevels
    rollingWindow := config.rollingWindow
    enablePersistence := config.enablePersistence }
  seed := config.seed
  simulator := .create generator config.seed config.basePrice

def reset (hasCythonEngine : Bool) (newSeed : Option Int) (s : MarketMonitor σ) : MarketMonitor σ :=
  let seed := newSeed.getD s.seed
  { monitor := s.monitor.reset (getMatchingEngine hasCythonEngine)
    seed
    simulator := s.simulator.reset generator (some seed) }

/-- The body of the loop of `step`, with the latency that it appends. -/
def submitNext (next : NextOrder) (s : MarketMonitor σ) : Except PyError Int × MarketMonitor σ :=
  let (order, simulator) := s.simulator.nextOrder generator whaleProbability
  let (result, monitor) := s.monitor.submitOrder next.dispatch (orderInfo (order, next.now))
  (result.map fun _ => max 1 next.dispatch.elapsedNs, { s with monitor, simulator })

def step (numOrders : Int) (next : Nat → NextOrder) (clock : Nat → Int) (s : MarketMonitor σ) :
    Except PyError (List Int) × List TradeDict × MarketMonitor σ :=
  match collect (submitNext generator) ((List.range (max 1 numOrders).toNat).map next) [] s with
  | (.error err, s) => (.error err, [], s)
  | (.ok latencies, s) =>
      let (pushed, monitor) := s.monitor.syncMatchedTradesToPersistence clock
      (.ok latencies, pushed, { s with monitor })

theorem submitNext_eq {next : NextOrder} {s : MarketMonitor σ} {order : OrderDict} {simulator : MockMarketSimulator σ}
    (hdrawn : s.simulator.nextOrder generator whaleProbability = (order, simulator)) : submitNext generator next s =
      ((s.monitor.submitOrder next.dispatch (orderInfo (order, next.now))).1.map fun _ => max 1 next.dispatch.elapsedNs,
        { s with
          monitor := (s.monitor.submitOrder next.dispatch (orderInfo (order, next.now))).2
          simulator }) := by
  rw [submitNext, hdrawn]

theorem collect_monitor (nexts : List NextOrder) (latencies : List Int) (s : MarketMonitor σ) :
    let looped := collect (submitNext generator) nexts latencies s
    (looped.1, looped.2.monitor) = s.monitor.stepLoop
      (List.zipWith (fun order (next : NextOrder) => (orderInfo (order, next.now), next.dispatch))
        (s.simulator.orders generator whaleProbability nexts.length).1 nexts) latencies := by
  induction nexts generalizing latencies s with
  | nil => rfl
  | cons next nexts ih =>
      rcases hdrawn : s.simulator.nextOrder generator whaleProbability with ⟨order, simulator⟩
      rw [List.length_cons, MockMarketSimulator.orders, hdrawn, collect, submitNext_eq generator hdrawn]
      dsimp only
      rw [List.zipWith_cons_cons, LatencyMonitor.stepLoop]
      rcases s.monitor.submitOrder next.dispatch (orderInfo (order, next.now)) with ⟨result, monitor⟩
      cases result with
      | error err => rfl
      | ok res => exact ih _ { s with monitor, simulator }

end MarketMonitor

/-! ### Accepted orders -/

theorem getOrderCount_getMatchingEngine (hasCythonEngine : Bool) :
    (getMatchingEngine hasCythonEngine).getOrderCount = 0 := by
  cases hasCythonEngine with
  | true => rfl
  | false => rfl

namespace Engine

/-- The engine holds the book. -/
def Holds (book : Book) : Engine → Prop
  | compiled e => Refines e book
  | reference e => Simulates COrder.toObj book e.toPyBook

theorem holds_getMatchingEngine (hasCythonEngine : Bool) : (getMatchingEngine hasCythonEngine).Holds .empty := by
  cases hasCythonEngine with
  | true => exact Refines.empty
  | false => exact Simulates.empty

theorem Holds.getTrades {book : Book} {e : Engine} (h : e.Holds book) :
    e.getTrades = book.trades.map CTrade.toDict := by
  cases e with
  | compiled e =>
      have htrades : e.trades = book.trades := Refines.trades h
      rw [Engine.getTrades, MatchingEngine.getTrades, htrades]
  | reference e => exact Simulates.trades h

/-- What a call does: it counts the order and the book takes it, or it raises and does not count it. -/
inductive AddOrderEffect (args : OrderArgs) (e : Engine) : Except PyError Int → Engine → Prop
  | raised {err : PyError} {e' : Engine} (hcount : e'.getOrderCount = e.getOrderCount) :
      AddOrderEffect args e (.error err) e'
  | accepted {res : Int} {e' : Engine} (hcount : e'.getOrderCount = e.getOrderCount + 1)
      (hbook : (∃ order : COrder, args = order.toArgs) → ∀ book, e.Holds book →
        ∃ order : COrder, args = order.toArgs ∧ e'.Holds (book.submit order)) : AddOrderEffect args e (.ok res) e'

theorem addOrder_effect (grow : Growth) (args : OrderArgs) (e : Engine) :
    AddOrderEffect args e (e.addOrder grow args).1 (e.addOrder grow args).2 := by
  cases e with
  | compiled e =>
      rw [Engine.addOrder, MatchingEngine.addOrder]
      cases hparse : MatchingEngine.parseOrder args with
      | error err => exact .raised rfl
      | ok order =>
          dsimp only
          rcases hsubmit : MatchingEngine.submit grow order e with ⟨result, e'⟩
          have heffect := MatchingEngine.submit_effect hsubmit
          cases result with
          | error err =>
              refine .raised ?_
              cases heffect with
              | refused => rfl
              | interrupted herr hmatched hown hcount => exact hcount
          | ok =>
              have hcount : e'.orderCount = e.orderCount + 1 := by
                cases heffect with
                | accepted hroom hmatched hstop hown hcount => exact hcount
              refine .accepted hcount fun _ book hbook => ?_
              obtain ⟨order', hparse', hargs⟩ := MatchingEngine.parseOrder_ok (MatchingEngine.valid_of_parseOrder hparse)
              rw [hparse] at hparse'
              cases hparse'
              exact ⟨order, hargs, Refines.submit hbook heffect⟩
  | reference e =>
      refine .accepted rfl ?_
      rintro ⟨order, rfl⟩ book hbook
      refine ⟨order, rfl, ?_⟩
      change Simulates COrder.toObj (book.submit order) (e.addOrder order.toArgs).2.toPyBook
      rw [ReferenceEngine.addOrder_toArgs]
      exact Simulates.submit hbook COrder.toObj_embeds order

theorem AddOrderEffect.count_le {args : OrderArgs} {e e' : Engine} {result : Except PyError Int}
    (h : AddOrderEffect args e result e') : e'.getOrderCount ≤ e.getOrderCount + 1 := by
  cases h with
  | raised hcount => omega
  | accepted hcount => omega

theorem getOrderCount_addAll_le (orders : List (Growth × OrderArgs)) (e : Engine) :
    (e.addAll orders).getOrderCount ≤ e.getOrderCount + orders.length := by
  induction orders generalizing e with
  | nil => exact le_refl _
  | cons order orders ih =>
      have hrest := ih (e.addOrder order.1 order.2).2
      have hone := (e.addOrder_effect order.1 order.2).count_le
      rw [List.length_cons]
      exact hrest.trans (by omega)

/-- An engine that counts all the orders it was handed holds their book. -/
theorem Holds.addAll {orders : List (Growth × OrderArgs)} (horders : ∀ order ∈ orders, ∃ corder : COrder,
    order.2 = corder.toArgs) {e : Engine} {book : Book} (h : e.Holds book)
    (hcount : (e.addAll orders).getOrderCount = e.getOrderCount + orders.length) :
    ∃ corders : List COrder, orders.map Prod.snd = corders.map COrder.toArgs ∧
      (e.addAll orders).Holds (book.run corders) := by
  induction orders generalizing e book with
  | nil => exact ⟨[], rfl, h⟩
  | cons order orders ih =>
      have hrest := getOrderCount_addAll_le orders (e.addOrder order.1 order.2).2
      have hall : e.addAll (order :: orders) = (e.addOrder order.1 order.2).2.addAll orders := rfl
      rw [hall, List.length_cons] at hcount
      rcases hadd : e.addOrder order.1 order.2 with ⟨result, e'⟩
      have heffect := e.addOrder_effect order.1 order.2
      rw [hadd] at hcount hrest heffect
      dsimp only at hcount hrest heffect
      cases heffect with
      | raised hsame => omega
      | accepted hone hbook =>
          obtain ⟨corder, hargs, hholds⟩ := hbook (horders order List.mem_cons_self) book h
          have hothers : ∀ order ∈ orders, ∃ corder : COrder, order.2 = corder.toArgs :=
            fun order horder => horders order (List.mem_cons_of_mem _ horder)
          have hcount' : (e'.addAll orders).getOrderCount = e'.getOrderCount + orders.length := by omega
          obtain ⟨corders, hcorders, hrun⟩ := ih hothers hholds hcount'
          refine ⟨corder :: corders, ?_, ?_⟩
          · rw [List.map_cons, List.map_cons, hargs, hcorders]
          · rw [hall, hadd]
            exact hrun

end Engine

/-- A simulated order is one that a C order can hold, but for the width of its numbers. -/
theorem exists_toArgs {entry : OrderDict × Int} (hsimulated : entry.1.Simulated) (hid : 0 ≤ entry.1.orderId)
    (hclock : 0 ≤ entry.2) : ∃ order : COrder, directArgs entry = order.toArgs := by
  have hquantity : 0 ≤ entry.1.quantity := le_trans (by decide) hsimulated.quantity.1
  let price : Price := ⟨entry.1.price, hsimulated.finite, Binary64.not_le_of_lt (zero_lt_of_one_le hsimulated.price)⟩
  have hargs (side : Side) (hside : sideCode entry.1.side = side.code) : directArgs entry =
      COrder.toArgs ⟨entry.1.orderId.toNat, side, price, entry.1.quantity.toNat, entry.2.toNat⟩ := by
    rw [COrder.toArgs, directArgs, Order.args, recordedOrder]
    dsimp only
    rw [Int.toNat_of_nonneg hid, Int.toNat_of_nonneg hquantity, Int.toNat_of_nonneg hclock, hside]
  rcases hsimulated.side with hside | hside
  · exact ⟨_, hargs .buy (by rw [hside]; rfl)⟩
  · exact ⟨_, hargs .sell (by rw [hside]; rfl)⟩

/-! ### What an order does to the monitor -/

theorem pushBounded_rtake {α : Type} (maxlen : Nat) (l : List α) (a : α) :
    pushBounded maxlen (l.rtake maxlen) a = (l ++ [a]).rtake maxlen := by
  have hdrop : l.rtake maxlen ++ [a] = (l ++ [a]).drop (l.length - maxlen) := by
    rw [List.rtake, List.drop_append_of_le_length (Nat.sub_le _ _)]
  have hlength : (l.rtake maxlen).length = l.length - (l.length - maxlen) := List.length_drop
  rw [pushBounded, hdrop, List.drop_drop, hlength, List.rtake, List.length_append, List.length_singleton]
  congr 1
  omega

namespace LatencyMonitor

theorem onOrderSubmitted_eq (info : OrderInfo) (m : LatencyMonitor) : ∃ events, m.onOrderSubmitted info =
    { m with
      rollingOrderQuantities := pushBounded 200 m.rollingOrderQuantities info.quantity
      whaleEvents := events } := by
  refine ⟨(m.onOrderSubmitted info).whaleEvents, ?_⟩
  rw [onOrderSubmitted]
  split
  · simp only [recordWhale]
  · rfl

theorem detectSweep_eq (info : OrderInfo) (nBefore : Nat) (m : LatencyMonitor) :
    ∃ events, m.detectSweep info nBefore = { m with whaleEvents := events } := by
  rw [detectSweep]
  split
  · exact ⟨m.whaleEvents, rfl⟩
  · dsimp only
    split
    · exact ⟨m.whaleEvents, rfl⟩
    · split
      all_goals
        split
        · exact ⟨_, rfl⟩
        · exact ⟨m.whaleEvents, rfl⟩

theorem recordMatchedTrades_eq (thresh : Int) (clock : Nat → Int) (trades : List (TradeDict × Nat))
    (m : LatencyMonitor) : ∃ events,
      trades.foldl (fun m (tr, i) => m.recordMatchedTrade thresh (clock i) tr) m = { m with whaleEvents := events } := by
  induction trades generalizing m with
  | nil => exact ⟨m.whaleEvents, rfl⟩
  | cons entry trades ih =>
      obtain ⟨tr, i⟩ := entry
      have hone : ∃ events, m.recordMatchedTrade thresh (clock i) tr = { m with whaleEvents := events } := by
        rw [recordMatchedTrade]
        split
        · exact ⟨_, rfl⟩
        · exact ⟨m.whaleEvents, rfl⟩
      obtain ⟨events, hone⟩ := hone
      obtain ⟨events', hrest⟩ := ih { m with whaleEvents := events }
      refine ⟨events', ?_⟩
      rw [List.foldl_cons]
      dsimp only
      rw [hone, hrest]

theorem sync_eq (clock : Nat → Int) (m : LatencyMonitor) : ∃ events index,
    (m.syncMatchedTradesToPersistence clock).2 =
      { m with
        whaleEvents := events
        lastProcessedTradeIdx := index } := by
  rw [syncMatchedTradesToPersistence]
  rcases m.newTrades with ⟨newTrades, totalTrades⟩
  dsimp only
  split
  · obtain ⟨events, hrecorded⟩ := recordMatchedTrades_eq m.getCurrentWhaleThreshold clock newTrades.zipIdx m
    exact ⟨events, totalTrades, by rw [hrecorded]⟩
  · exact ⟨m.whaleEvents, m.lastProcessedTradeIdx, rfl⟩

/-- An order is recorded whether the engine takes it or not, its latency only if it does. -/
theorem submitOrder_eq (d : Dispatch) (info : OrderInfo) (m : LatencyMonitor) : ∃ events lastLatencyNs,
    m.submitOrder d info = ((m.engine.addOrder d.grow info.args).1,
      { m with
        engine := (m.engine.addOrder d.grow info.args).2
        lastOrderInfo := some info
        rollingOrderQuantities := pushBounded 200 m.rollingOrderQuantities info.quantity
        whaleEvents := events
        lastLatencyNs
        allLatenciesNs := match (m.engine.addOrder d.grow info.args).1 with
          | .error _ => m.allLatenciesNs
          | .ok _ => m.allLatenciesNs ++ [max 1 d.elapsedNs]
        rollingLatenciesNs := match (m.engine.addOrder d.grow info.args).1 with
          | .error _ => m.rollingLatenciesNs
          | .ok _ => pushBounded m.rollingWindow m.rollingLatenciesNs (max 1 d.elapsedNs) }) := by
  obtain ⟨events, hsubmitted⟩ := onOrderSubmitted_eq info { m with lastOrderInfo := info }
  rw [submitOrder, hsubmitted]
  dsimp only
  rcases m.engine.addOrder d.grow info.args with ⟨result, engine⟩
  cases result with
  | error err => exact ⟨events, m.lastLatencyNs, rfl⟩
  | ok res =>
      dsimp only
      generalize engineTradeCount _ = nBefore
      obtain ⟨events', hdetected⟩ := detectSweep_eq info nBefore (recordLatency (max 1 d.elapsedNs)
        { m with
          engine
          lastOrderInfo := info
          rollingOrderQuantities := pushBounded 200 m.rollingOrderQuantities info.quantity
          whaleEvents := events })
      exact ⟨events', max 1 d.elapsedNs, by rw [hdetected, recordLatency]⟩

end LatencyMonitor

/-! ### The market that was handed over -/

namespace MarketMonitor

open MockMarketSimulator

variable {σ : Type} {generator : RandomGenerator σ} {config : MonitorConfig}

/-- The monitor was handed the orders of `feed`, each with a reading of the clock and the memory it met, since
it was created or last reset. -/
structure Replays (generator : RandomGenerator σ) (config : MonitorConfig)
    (feed : List ((OrderDict × Int) × Growth)) (s : MarketMonitor σ) : Prop where
  market : feed.map (fun entry => entry.1.1) =
    (orders generator whaleProbability feed.length (.create generator s.seed config.basePrice)).1
  simulator : s.simulator =
    (orders generator whaleProbability feed.length (.create generator s.seed config.basePrice)).2
  clock : ∀ entry ∈ feed, 0 ≤ entry.1.2
  engine : s.monitor.engine = (getMatchingEngine config.hasCythonEngine).addAll
    (feed.map fun entry => (entry.2, directArgs entry.1))
  latencies : s.monitor.allLatenciesNs.length = s.monitor.engine.getOrderCount
  rollingWindow : s.monitor.rollingWindow = config.rollingWindow
  rollingLatencies : s.monitor.rollingLatenciesNs = s.monitor.allLatenciesNs.rtake config.rollingWindow
  rollingQuantities : s.monitor.rollingOrderQuantities = (feed.map fun entry => entry.1.1.quantity).rtake 200
  lastOrder : s.monitor.lastOrderInfo = (feed.map fun entry => orderInfo entry.1).getLast?

theorem replays_nil {s : MarketMonitor σ} (hsimulator : s.simulator = .create generator s.seed config.basePrice)
    (hengine : s.monitor.engine = getMatchingEngine config.hasCythonEngine) (hlatencies : s.monitor.allLatenciesNs = [])
    (hwindow : s.monitor.rollingWindow = config.rollingWindow) (hrolling : s.monitor.rollingLatenciesNs = [])
    (hquantities : s.monitor.rollingOrderQuantities = []) (hlast : s.monitor.lastOrderInfo = none) :
    s.Replays generator config [] := by
  refine ⟨rfl, hsimulator, by simp, hengine, ?_, hwindow, ?_, ?_, hlast⟩
  · rw [hlatencies, hengine, getOrderCount_getMatchingEngine]
    rfl
  · rw [hrolling, hlatencies, List.rtake_nil]
  · rw [hquantities, List.map_nil, List.rtake_nil]

theorem replays_create (generator : RandomGenerator σ) (config : MonitorConfig) :
    (create generator config).Replays generator config [] :=
  replays_nil rfl rfl rfl rfl rfl rfl rfl

theorem Replays.reset {feed : List ((OrderDict × Int) × Growth)} {s : MarketMonitor σ}
    (h : s.Replays generator config feed) (newSeed : Option Int) :
    (s.reset generator config.hasCythonEngine newSeed).Replays generator config [] := by
  have hbase : s.simulator.basePrice = config.basePrice := by
    rw [h.simulator]
    exact basePrice_orders _ _ _
  refine replays_nil ?_ rfl rfl h.rollingWindow rfl rfl rfl
  rw [MarketMonitor.reset, MockMarketSimulator.reset, hbase]
  rfl

theorem Replays.submitNext {feed : List ((OrderDict × Int) × Growth)} {s : MarketMonitor σ}
    (h : s.Replays generator config feed) {next : NextOrder} (hclock : 0 ≤ next.now) :
    ∃ order, (s.submitNext generator next).2.Replays generator config
        (feed ++ [((order, next.now), next.dispatch.grow)]) ∧
      (s.submitNext generator next).2.monitor.engine.getOrderCount =
        match (s.submitNext generator next).1 with
        | .error _ => s.monitor.engine.getOrderCount
        | .ok _ => s.monitor.engine.getOrderCount + 1 := by
  rcases hdrawn : s.simulator.nextOrder generator whaleProbability with ⟨order, simulator⟩
  refine ⟨order, ?_⟩
  obtain ⟨events, lastLatencyNs, hsubmit⟩ :=
    LatencyMonitor.submitOrder_eq next.dispatch (orderInfo (order, next.now)) s.monitor
  have heffect := s.monitor.engine.addOrder_effect next.dispatch.grow (orderInfo (order, next.now)).args
  have hadded : (s.monitor.engine.addOrder next.dispatch.grow (orderInfo (order, next.now)).args).2 =
      (getMatchingEngine config.hasCythonEngine).addAll
        ((feed ++ [((order, next.now), next.dispatch.grow)]).map fun entry => (entry.2, directArgs entry.1)) := by
    rw [h.engine, Engine.addAll, Engine.addAll, List.map_append, List.foldl_append]
    rfl
  have hone : ∀ sim : MockMarketSimulator σ, orders generator whaleProbability 1 sim =
      ([(sim.nextOrder generator whaleProbability).1], (sim.nextOrder generator whaleProbability).2) := fun _ => rfl
  rw [submitNext_eq generator hdrawn, hsubmit]
  rcases hadd : s.monitor.engine.addOrder next.dispatch.grow (orderInfo (order, next.now)).args with ⟨result, engine⟩
  rw [hadd] at heffect hadded
  dsimp only at heffect hadded ⊢
  refine ⟨⟨?_, ?_, ?_, hadded, ?_, h.rollingWindow, ?_, ?_, ?_⟩, ?_⟩
  · rw [List.length_append, List.length_singleton, orders_add, ← h.simulator, hone, hdrawn, List.map_append, h.market]
    rfl
  · rw [List.length_append, List.length_singleton, orders_add, ← h.simulator, hone, hdrawn]
  · intro entry hentry
    rcases List.mem_append.mp hentry with hold | hnew
    · exact h.clock entry hold
    · rw [List.mem_singleton.mp hnew]
      exact hclock
  · cases heffect with
    | raised hcount => exact h.latencies.trans hcount.symm
    | accepted hcount =>
        dsimp only
        rw [List.length_append, List.length_singleton, hcount, h.latencies]
  · cases result with
    | error err => exact h.rollingLatencies
    | ok res =>
        dsimp only
        rw [h.rollingLatencies, h.rollingWindow, pushBounded_rtake]
  · dsimp only [orderInfo]
    rw [h.rollingQuantities, pushBounded_rtake, List.map_append, List.map_singleton]
  · rw [List.map_append, List.map_singleton, List.getLast?_concat]
  · cases heffect with
    | raised hcount => exact hcount
    | accepted hcount => exact hcount

theorem Replays.sync {feed : List ((OrderDict × Int) × Growth)} {s : MarketMonitor σ}
    (h : s.Replays generator config feed) (clock : Nat → Int) :
    Replays generator config feed { s with monitor := (s.monitor.syncMatchedTradesToPersistence clock).2 } := by
  obtain ⟨events, index, hsync⟩ := LatencyMonitor.sync_eq clock s.monitor
  rw [hsync]
  exact ⟨h.market, h.simulator, h.clock, h.engine, h.latencies, h.rollingWindow, h.rollingLatencies,
    h.rollingQuantities, h.lastOrder⟩

/-- What is submitted in a loop: all of it if no order raises, and otherwise up to the one that does, which is not
counted. -/
theorem Replays.submitAll {feed : List ((OrderDict × Int) × Growth)} {s : MarketMonitor σ}
    (h : s.Replays generator config feed) {nexts : List NextOrder} (hclock : ∀ next ∈ nexts, 0 ≤ next.now)
    (latencies : List Int) : ∃ submitted,
      (collect (MarketMonitor.submitNext generator) nexts latencies s).2.Replays generator config (feed ++ submitted) ∧
      match (collect (MarketMonitor.submitNext generator) nexts latencies s).1 with
      | .error _ => submitted.length ≤ nexts.length ∧
          (collect (MarketMonitor.submitNext generator) nexts latencies s).2.monitor.engine.getOrderCount <
            s.monitor.engine.getOrderCount + submitted.length
      | .ok _ => submitted.length = nexts.length ∧
          (collect (MarketMonitor.submitNext generator) nexts latencies s).2.monitor.engine.getOrderCount =
            s.monitor.engine.getOrderCount + submitted.length := by
  induction nexts generalizing feed s latencies with
  | nil => exact ⟨[], by rw [List.append_nil]; exact h, rfl, rfl⟩
  | cons next nexts ih =>
      obtain ⟨order, hreplays, hcount⟩ := h.submitNext (hclock next List.mem_cons_self)
      rw [collect]
      rcases hsubmit : s.submitNext generator next with ⟨result, s'⟩
      rw [hsubmit] at hreplays hcount
      cases result with
      | error err =>
          refine ⟨_, hreplays, Nat.succ_le_succ (Nat.zero_le _), ?_⟩
          dsimp only at hcount ⊢
          rw [hcount, List.length_singleton]
          exact Nat.lt_succ_self _
      | ok latency =>
          have hrest : ∀ next ∈ nexts, 0 ≤ next.now := fun next hnext => hclock next (List.mem_cons_of_mem _ hnext)
          obtain ⟨submitted, hreplays', hlength⟩ := ih hreplays hrest (latencies ++ [latency])
          refine ⟨((order, next.now), next.dispatch.grow) :: submitted, ?_, ?_⟩
          · rw [List.append_assoc] at hreplays'
            exact hreplays'
          · have hone : s'.monitor.engine.getOrderCount = s.monitor.engine.getOrderCount + 1 := hcount
            dsimp only at hlength ⊢
            cases hresult : (collect (MarketMonitor.submitNext generator) nexts (latencies ++ [latency]) s').1 with
            | error err =>
                rw [hresult] at hlength
                dsimp only at hlength ⊢
                rw [List.length_cons, List.length_cons]
                omega
            | ok latencies' =>
                rw [hresult] at hlength
                dsimp only at hlength ⊢
                rw [List.length_cons, List.length_cons]
                omega

theorem Replays.step {feed : List ((OrderDict × Int) × Growth)} {s : MarketMonitor σ}
    (h : s.Replays generator config feed) (numOrders : Int) {next : Nat → NextOrder} (hclock : ∀ i, 0 ≤ (next i).now)
    (clock : Nat → Int) : ∃ submitted,
      (s.step generator numOrders next clock).2.2.Replays generator config (feed ++ submitted) ∧
      match (s.step generator numOrders next clock).1 with
      | .error _ => (submitted.length : Int) ≤ max 1 numOrders ∧
          (s.step generator numOrders next clock).2.2.monitor.engine.getOrderCount <
            s.monitor.engine.getOrderCount + submitted.length
      | .ok _ => (submitted.length : Int) = max 1 numOrders ∧
          (s.step generator numOrders next clock).2.2.monitor.engine.getOrderCount =
            s.monitor.engine.getOrderCount + submitted.length := by
  have hnexts : ∀ nextOrder ∈ (List.range (max 1 numOrders).toNat).map next, 0 ≤ nextOrder.now := by
    intro nextOrder hnext
    obtain ⟨i, -, rfl⟩ := List.mem_map.mp hnext
    exact hclock i
  obtain ⟨submitted, hreplays, hlength⟩ := h.submitAll hnexts []
  refine ⟨submitted, ?_⟩
  rw [MarketMonitor.step]
  rcases hlooped : collect (MarketMonitor.submitNext generator)
    ((List.range (max 1 numOrders).toNat).map next) [] s with ⟨result, s'⟩
  rw [hlooped, List.length_map, List.length_range] at hlength
  rw [hlooped] at hreplays
  cases result with
  | error err =>
      dsimp only at hlength ⊢
      exact ⟨hreplays, by omega, hlength.2⟩
  | ok latencies =>
      dsimp only at hlength ⊢
      refine ⟨hreplays.sync clock, by omega, ?_⟩
      rw [LatencyMonitor.engine_sync]
      exact hlength.2

/-! ### The seed -/

theorem seed_submitNext (generator : RandomGenerator σ) (next : NextOrder) (s : MarketMonitor σ) :
    (submitNext generator next s).2.seed = s.seed := rfl

theorem seed_collect (generator : RandomGenerator σ) (nexts : List NextOrder) (latencies : List Int)
    (s : MarketMonitor σ) : (collect (submitNext generator) nexts latencies s).2.seed = s.seed := by
  induction nexts generalizing latencies s with
  | nil => rfl
  | cons next nexts ih =>
      have hsame := seed_submitNext generator next s
      rw [collect]
      rcases hsubmit : submitNext generator next s with ⟨result, s'⟩
      rw [hsubmit] at hsame
      cases result with
      | error err => exact hsame
      | ok latency => exact (ih _ s').trans hsame

theorem seed_step (generator : RandomGenerator σ) (numOrders : Int) (next : Nat → NextOrder) (clock : Nat → Int)
    (s : MarketMonitor σ) : (s.step generator numOrders next clock).2.2.seed = s.seed := by
  have hsame := seed_collect generator ((List.range (max 1 numOrders).toNat).map next) [] s
  rw [step]
  rcases hlooped : collect (submitNext generator) ((List.range (max 1 numOrders).toNat).map next) [] s with ⟨result, s'⟩
  rw [hlooped] at hsame
  cases result with
  | error err => exact hsame
  | ok latencies => exact hsame

/-! ### What the engine holds -/

theorem Replays.count_le {feed : List ((OrderDict × Int) × Growth)} {s : MarketMonitor σ}
    (h : s.Replays generator config feed) : s.monitor.engine.getOrderCount ≤ feed.length := by
  have hle := Engine.getOrderCount_addAll_le (feed.map fun entry => (entry.2, directArgs entry.1))
    (getMatchingEngine config.hasCythonEngine)
  rwa [getOrderCount_getMatchingEngine, List.length_map, Nat.zero_add, ← h.engine] at hle

/-- If the engine has taken all the orders, its trades are those of the baseline book on the same orders. -/
theorem Replays.trades {feed : List ((OrderDict × Int) × Growth)} {s : MarketMonitor σ}
    (h : s.Replays generator config feed) (hgenerator : generator.Documented) (hbase : config.basePrice.Moderate)
    (hall : s.monitor.engine.getOrderCount = feed.length) : s.monitor.engine.getTrades =
      (Baseline.OrderBook.run (feed.map fun entry => directArgs entry.1) {}).trades := by
  have hbase' : (MockMarketSimulator.create generator s.seed config.basePrice).basePrice.Moderate := hbase
  obtain ⟨hsimulated, hids, -⟩ := orders_spec hgenerator whaleProbability feed.length hbase'
  rw [← h.market] at hsimulated hids
  have hargs : ∀ order ∈ feed.map fun entry => (entry.2, directArgs entry.1),
      ∃ corder : COrder, order.2 = corder.toArgs := by
    intro order horder
    obtain ⟨entry, hentry, rfl⟩ := List.mem_map.mp horder
    have hmem : entry.1.1 ∈ feed.map fun entry => entry.1.1 := List.mem_map_of_mem hentry
    have hid : entry.1.1.orderId ∈ (feed.map fun entry => entry.1.1).map OrderDict.orderId := List.mem_map_of_mem hmem
    rw [hids] at hid
    obtain ⟨i, -, hid⟩ := List.mem_map.mp hid
    exact exists_toArgs (hsimulated _ hmem).1 (hid ▸ Int.natCast_nonneg _) (h.clock entry hentry)
  have hcount : ((getMatchingEngine config.hasCythonEngine).addAll
      (feed.map fun entry => (entry.2, directArgs entry.1))).getOrderCount =
        (getMatchingEngine config.hasCythonEngine).getOrderCount +
          (feed.map fun entry => (entry.2, directArgs entry.1)).length := by
    rw [← h.engine, getOrderCount_getMatchingEngine, List.length_map, hall, Nat.zero_add]
  obtain ⟨corders, hcorders, hholds⟩ := Engine.Holds.addAll hargs (Engine.holds_getMatchingEngine _) hcount
  have hdirect : Simulates COrder.toBaseline (Book.empty.run corders)
      (Baseline.OrderBook.run (corders.map COrder.toArgs) {}) :=
    Baseline.OrderBook.run_simulates corders Simulates.empty
  rw [List.map_map] at hcorders
  rw [h.engine, hholds.getTrades, ← hdirect.trades, ← hcorders]
  rfl

end MarketMonitor

/-- A market around 100 on the compiled engine. -/
def simulatedConfig : MonitorConfig where
  hasCythonEngine := true
  seed := 42
  basePrice := Binary64.ofInt 100

end ChronosMatch
