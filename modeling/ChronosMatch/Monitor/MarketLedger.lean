import ChronosMatch.Monitor.MarketMonitor

/-!
# From the market to the ledger

A monitor that draws its orders from its simulator, with its queue, its worker and its database. Every step of
it is a step of the system of `Monitor.Ledger`, so after a shutdown the table holds trades of the engine's log.
If no order failed and the counters of the queue and the worker show no loss, it holds the trades of the
baseline book on the market of the seed.
-/

namespace ChronosMatch

open MockMarketSimulator

structure MarketSystem (σ : Type) extends MonitorSystem where
  seed : Int
  simulator : MockMarketSimulator σ

inductive MarketAction
  /-- A call of `step`. -/
  | step (numOrders : Int) (next : Nat → NextOrder) (clock : Nat → Int)
  | push (now : Int)
  | worker (move : Move SaveCall)
  | shutdown

namespace MarketSystem

variable {σ : Type} (generator : RandomGenerator σ)

/-- `__init__` with `enable_persistence`, on a fresh database. -/
def created (config : MonitorConfig) (queueCapacity : Int) : MarketSystem σ where
  toMonitorSystem := .created config.hasCythonEngine config.relative config.whaleThreshold config.sweepMinLevels
    queueCapacity config.rollingWindow
  seed := config.seed
  simulator := .create generator config.seed config.basePrice

def market (s : MarketSystem σ) : MarketMonitor σ := ⟨s.monitor, s.seed, s.simulator⟩

def withMonitor (s : MarketSystem σ) (t : MonitorSystem) : MarketSystem σ := { s with toMonitorSystem := t }

def step : MarketAction → MarketSystem σ → Option (MarketSystem σ)
  | .step numOrders next clock, s =>
      if s.outbox ≠ [] ∨ s.shared.worker.stopEvent then none
      else
        let (result, pushed, market) := s.market.step generator numOrders next clock
        let raised := match result with
          | .error _ => true
          | .ok _ => false
        let matched := decide (s.monitor.engine.getTrades.length < market.monitor.engine.getTrades.length)
        some { s with
          monitor := market.monitor
          outbox := pushed
          interrupted := raised && (s.interrupted || matched)
          seed := market.seed
          simulator := market.simulator }
  | .push now, s => ((MonitorAction.push now).step s.toMonitorSystem).map s.withMonitor
  | .worker move, s => ((MonitorAction.worker move).step s.toMonitorSystem).map s.withMonitor
  | .shutdown, s => (MonitorAction.shutdown.step s.toMonitorSystem).map s.withMonitor

end MarketSystem

/-! ### A step of the market is a call -/

theorem MockMarketSimulator.orders_eq_map {σ : Type} (generator : RandomGenerator σ) (whaleProb : Binary64) (n : Nat)
    (sim : MockMarketSimulator σ) : (orders generator whaleProb n sim).1 =
      (List.range n).map fun i => ((orders generator whaleProb i sim).2.nextOrder generator whaleProb).1 := by
  induction n with
  | zero => rfl
  | succ n ih =>
      rw [orders_add, List.range_succ, List.map_append, ih]
      rfl

namespace MarketMonitor

variable {σ : Type} (generator : RandomGenerator σ)

/-- The call that a step makes, on the orders that the simulator will draw. -/
def call (numOrders : Int) (next : Nat → NextOrder) (clock : Nat → Int) (s : MarketMonitor σ) : MonitorCall :=
  .step numOrders (fun i => (orderInfo (((s.simulator.orders generator whaleProbability i).2.nextOrder generator
    whaleProbability).1, (next i).now), (next i).dispatch)) clock

theorem perform_call (numOrders : Int) (next : Nat → NextOrder) (clock : Nat → Int) (s : MarketMonitor σ) :
    (s.call generator numOrders next clock).perform s.monitor =
      (match (s.step generator numOrders next clock).1 with
        | .error err => some err
        | .ok _ => none,
      (s.step generator numOrders next clock).2.1, (s.step generator numOrders next clock).2.2.monitor) := by
  have hlooped := collect_monitor generator ((List.range (max 1 numOrders).toNat).map next) [] s
  rw [List.length_map, List.length_range, orders_eq_map, List.zipWith_map, List.zipWith_self] at hlooped
  rw [call, MonitorCall.perform, LatencyMonitor.step, ← hlooped, step]
  rcases collect (submitNext generator) ((List.range (max 1 numOrders).toNat).map next) [] s with ⟨result, s'⟩
  cases result with
  | error err => rfl
  | ok latencies => rfl

theorem bounded_call {generator : RandomGenerator σ} (hgenerator : generator.Documented) {s : MarketMonitor σ}
    (hbase : s.simulator.basePrice.Moderate) (numOrders : Int) (next : Nat → NextOrder) (clock : Nat → Int) :
    (s.call generator numOrders next clock).Bounded := by
  intro i
  have hprice : (s.simulator.orders generator whaleProbability i).2.basePrice.Moderate := by
    rwa [basePrice_orders]
  have hsimulated : ((s.simulator.orders generator whaleProbability i).2.nextOrder generator
      whaleProbability).1.Simulated := (nextOrder_spec hgenerator whaleProbability hprice).1
  have hquantity := hsimulated.quantity
  refine ⟨hsimulated.finite, ?_⟩
  change ((s.simulator.orders generator whaleProbability i).2.nextOrder generator whaleProbability).1.quantity < 2 ^ 63
  omega

end MarketMonitor

/-! ### Runs -/

/-- The rows of the table are the trades that were saved, in the order of the log. -/
theorem LedgerInvariant.rows {s : MonitorSystem} (h : LedgerInvariant s) :
    (s.shared.repository.table.map TradeRecord.toDict).Sublist s.monitor.engine.getTrades := by
  obtain ⟨handed, hhanded⟩ := h.handed
  have htable : s.shared.repository.table.map TradeRecord.toDict =
      s.shared.journal.saved.flatten.map TradeEvent.toDict := by
    have hcontents := congrArg (List.map TradeRecord.toDict) h.verbatim.contents
    rwa [SQLiteTradeRepository.contents, List.map_map, List.map_map] at hcontents
  have haccount : Accounted s.pc s.shared := h.worker.account
  have hpopped : s.shared.journal.saved.flatten.Sublist s.shared.journal.popped := by
    rw [haccount.popped, List.append_assoc]
    exact List.sublist_append_left _ _
  have hlog : (handedEvents handed).map TradeEvent.toDict <+: s.monitor.engine.getTrades := by
    rw [toDict_handedEvents]
    refine (List.prefix_append _ s.outbox).trans ?_
    rw [hhanded.dicts]
    exact List.take_prefix _ _
  rw [htable]
  exact ((hpopped.trans ((List.sublist_append_left _ _).trans hhanded.kept)).map _).trans hlog.sublist

/-- Once the worker has drained, and unless a call was interrupted, the counters say how many trades of the log
are not in the table. -/
theorem LedgerInvariant.losses {s : MonitorSystem} (h : LedgerInvariant s) (hexited : s.pc = .exited)
    (hcalls : s.interrupted = false) : s.monitor.engine.getTrades.length = s.shared.repository.table.length +
      s.shared.queue.droppedCount + s.shared.worker.metrics.tradesAbandoned := by
  obtain ⟨handed, hhanded⟩ := h.handed
  have houtbox := h.shutdown.stopped (h.shutdown.draining (by rw [hexited]; rfl))
  have hhandedAll : handed.length = s.monitor.engine.getTrades.length := by
    have hdicts := congrArg List.length hhanded.dicts
    rwa [houtbox, List.append_nil, List.length_map, List.length_take, h.monitor.synced hcalls, Nat.min_self] at hdicts
  have hhand : inHand s.pc s.shared = [] := by
    have hphase := h.worker.control.phase
    simp only [hexited] at hphase ⊢
    rw [inHand, hphase.1, Option.getD_none]
    simp
  have haccount : Accounted s.pc s.shared := h.worker.account
  have hpopped := congrArg List.length haccount.popped
  have hrows := congrArg List.length h.verbatim.contents
  have hdropped := hhanded.dropped
  rw [hhand, List.append_nil, List.length_append, ← haccount.abandoned] at hpopped
  rw [SQLiteTradeRepository.contents, List.length_map, List.length_map] at hrows
  rw [h.shutdown.exited hexited, List.append_nil] at hdropped
  omega

namespace MarketSystem

variable {σ : Type} {generator : RandomGenerator σ} {config : MonitorConfig}

/-- No clock reading of an order is negative, and no save raises after it has stored its rows. -/
def Admissible : MarketAction → Prop
  | .step _ next _ => ∀ i, 0 ≤ (next i).now
  | .worker move => move.RollsBack
  | _ => True

structure Inv (generator : RandomGenerator σ) (config : MonitorConfig) (feed : List ((OrderDict × Int) × Growth))
    (s : MarketSystem σ) : Prop where
  ledger : LedgerInvariant s.toMonitorSystem
  seed : s.seed = config.seed
  replays : s.market.Replays generator config feed
  interrupted : s.interrupted = true → s.monitor.engine.getOrderCount < feed.length

theorem inv_created (generator : RandomGenerator σ) (config : MonitorConfig) (queueCapacity : Int) :
    (created generator config queueCapacity).Inv generator config [] :=
  ⟨.created _ _ _ _ _ _, rfl, MarketMonitor.replays_nil rfl rfl rfl rfl rfl rfl rfl, fun hraised => by cases hraised⟩

theorem step_refines (hgenerator : generator.Documented) {action : MarketAction} (hadmissible : Admissible action)
    {s s' : MarketSystem σ} (hbase : s.simulator.basePrice.Moderate) (hstep : s.step generator action = some s') :
    ∃ action' : MonitorAction, action'.Admissible ∧ action'.step s.toMonitorSystem = some s'.toMonitorSystem := by
  cases action with
  | step numOrders next clock =>
      refine ⟨.call (s.market.call generator numOrders next clock),
        MarketMonitor.bounded_call hgenerator hbase numOrders next clock, ?_⟩
      rw [MarketSystem.step] at hstep
      rw [MonitorAction.step]
      split at hstep
      · cases hstep
      · next hidle =>
          have hperform := MarketMonitor.perform_call generator numOrders next clock s.market
          rw [if_neg hidle]
          change (MarketMonitor.call generator numOrders next clock s.market).perform s.monitor = _ at hperform
          rw [hperform]
          rcases hmarket : s.market.step generator numOrders next clock with ⟨result, pushed, market⟩
          rw [hmarket] at hstep
          cases hstep
          cases result with
          | error err => rfl
          | ok latencies => rfl
  | push now =>
      obtain ⟨t, ht, rfl⟩ := Option.map_eq_some_iff.mp hstep
      exact ⟨.push now, trivial, ht⟩
  | worker move =>
      obtain ⟨t, ht, rfl⟩ := Option.map_eq_some_iff.mp hstep
      exact ⟨.worker move, hadmissible, ht⟩
  | shutdown =>
      obtain ⟨t, ht, rfl⟩ := Option.map_eq_some_iff.mp hstep
      exact ⟨.shutdown, trivial, ht⟩

theorem Inv.step (hgenerator : generator.Documented) (hbase : config.basePrice.Moderate)
    {feed : List ((OrderDict × Int) × Growth)} {s s' : MarketSystem σ} (h : s.Inv generator config feed)
    {action : MarketAction} (hadmissible : Admissible action) (hstep : s.step generator action = some s') :
    ∃ feed', s'.Inv generator config feed' := by
  have hprice : s.simulator.basePrice.Moderate := by
    have hsimulator : s.simulator = _ := h.replays.simulator
    rw [hsimulator, basePrice_orders]
    exact hbase
  obtain ⟨action', hadmissible', hstep'⟩ := step_refines hgenerator hadmissible hprice hstep
  have hledger := h.ledger.step hadmissible' hstep'
  cases action with
  | step numOrders next clock =>
      obtain ⟨submitted, hreplays, hcount⟩ := h.replays.step numOrders hadmissible clock
      have hle := h.replays.count_le
      have hseed := (MarketMonitor.seed_step generator numOrders next clock s.market).trans h.seed
      rw [MarketSystem.step] at hstep
      split at hstep
      · cases hstep
      · rcases hmarket : s.market.step generator numOrders next clock with ⟨result, pushed, market⟩
        rw [hmarket] at hstep hreplays hcount hseed
        cases hstep
        refine ⟨feed ++ submitted, hledger, hseed, hreplays, fun hraised => ?_⟩
        rw [List.length_append]
        cases result with
        | error err => exact lt_of_lt_of_le hcount.2 (Nat.add_le_add_right hle _)
        | ok latencies => cases hraised
  | push now =>
      obtain ⟨t, ht, rfl⟩ := Option.map_eq_some_iff.mp hstep
      cases MonitorAction.step_cases ht with
      | push now trade outbox houtbox => exact ⟨feed, hledger, h.seed, h.replays, h.interrupted⟩
  | worker move =>
      obtain ⟨t, ht, rfl⟩ := Option.map_eq_some_iff.mp hstep
      cases MonitorAction.step_cases ht with
      | worker move pc shared hthread => exact ⟨feed, hledger, h.seed, h.replays, h.interrupted⟩
  | shutdown =>
      obtain ⟨t, ht, rfl⟩ := Option.map_eq_some_iff.mp hstep
      cases MonitorAction.step_cases ht with
      | shutdown houtbox => exact ⟨feed, hledger, h.seed, h.replays, h.interrupted⟩

/-- From a fresh database and with saves that roll back when they fail: after a shutdown whose drain is done, the
rows are trades of the engine in its order. Where the engine has taken every order, its trades are those of the
baseline book on the market of the seed. The counters of the queue and the worker say how many of them are missing
in the table: where they show none, the table is the baseline's log. -/
theorem ledger_of_market (hgenerator : generator.Documented) (hbase : config.basePrice.Moderate) (queueCapacity : Int)
    {actions : List MarketAction} (hadmissible : ∀ action ∈ actions, Admissible action) {s : MarketSystem σ}
    (hrun : Transition.run (step generator) actions (created generator config queueCapacity) = some s)
    (hexited : s.pc = .exited) : s.seed = config.seed ∧ ∃ feed, s.market.Replays generator config feed ∧
      (s.shared.repository.table.map TradeRecord.toDict).Sublist s.monitor.engine.getTrades ∧
      (s.monitor.engine.getOrderCount = feed.length →
        s.monitor.engine.getTrades = (Baseline.OrderBook.run (feed.map fun entry => directArgs entry.1) {}).trades ∧
        s.monitor.engine.getTrades.length = s.shared.repository.table.length + s.shared.queue.droppedCount +
          s.shared.worker.metrics.tradesAbandoned ∧
        (s.shared.queue.droppedCount = 0 → s.shared.worker.metrics.tradesAbandoned = 0 →
          s.shared.repository.table.map TradeRecord.toDict = s.monitor.engine.getTrades)) := by
  have hstep : ∀ {action : MarketAction} {s s' : MarketSystem σ}, Admissible action →
      s.step generator action = some s' → (∃ feed, s.Inv generator config feed) →
        ∃ feed, s'.Inv generator config feed :=
    fun hadmissible' hstep ⟨feed, h⟩ => h.step hgenerator hbase hadmissible' hstep
  obtain ⟨feed, hinv⟩ := Transition.invariant_throughout hstep hrun (Transition.Throughout.of_forall hadmissible _)
    ⟨[], inv_created generator config queueCapacity⟩
  refine ⟨hinv.seed, feed, hinv.replays, hinv.ledger.rows, fun hall => ?_⟩
  have hcalls : s.interrupted = false := by
    apply Bool.eq_false_of_not_eq_true
    intro hraised
    have hless := hinv.interrupted hraised
    omega
  have hlosses := hinv.ledger.losses hexited hcalls
  refine ⟨hinv.replays.trades hgenerator hbase hall, hlosses, fun hdropped habandoned => ?_⟩
  apply hinv.ledger.rows.eq_of_length
  rw [List.length_map]
  omega

/-- Two orders that match, and the shutdown after their trade was pushed. -/
def matchedAndStopped : List MarketAction :=
  let save : SaveCall := ⟨fun _ => ("a", "b"), "n", fun _ => .commits⟩
  [.step 2 (fun i => ⟨i, .unlimited, 1⟩) (fun _ => 0), .push 3, .shutdown, .worker .go, .worker .go, .worker .go,
    .worker (.save save), .worker .go]

theorem ledger_of_market_matchedAndStopped : ∃ s,
    Transition.run (step steadyGenerator) matchedAndStopped (created steadyGenerator simulatedConfig 10) = some s ∧
      s.shared.repository.table.map TradeRecord.toDict = [⟨1, 2, Binary64.ofInt 100, 500⟩] ∧
      s.seed = simulatedConfig.seed ∧ ∃ feed, s.market.Replays steadyGenerator simulatedConfig feed ∧
        (s.shared.repository.table.map TradeRecord.toDict).Sublist s.monitor.engine.getTrades ∧
        (s.monitor.engine.getOrderCount = feed.length →
          s.monitor.engine.getTrades = (Baseline.OrderBook.run (feed.map fun entry => directArgs entry.1) {}).trades ∧
          s.monitor.engine.getTrades.length = s.shared.repository.table.length + s.shared.queue.droppedCount +
            s.shared.worker.metrics.tradesAbandoned ∧
          (s.shared.queue.droppedCount = 0 → s.shared.worker.metrics.tradesAbandoned = 0 →
            s.shared.repository.table.map TradeRecord.toDict = s.monitor.engine.getTrades)) := by
  have hreached : (Transition.run (step steadyGenerator) matchedAndStopped
      (created steadyGenerator simulatedConfig 10)).map (fun s => (s.shared.repository.table.map TradeRecord.toDict,
        decide (s.pc = .exited))) = some ([⟨1, 2, Binary64.ofInt 100, 500⟩], true) := by decide +kernel
  obtain ⟨s, hrun, hs⟩ := Option.map_eq_some_iff.mp hreached
  obtain ⟨htable, hpc⟩ := Prod.ext_iff.mp hs
  have hexited : s.pc = .exited := of_decide_eq_true hpc
  have hadmissible : ∀ action ∈ matchedAndStopped, Admissible action := by
    intro action haction
    simp only [matchedAndStopped, List.mem_cons, List.not_mem_nil, or_false] at haction
    rcases haction with rfl | rfl | rfl | rfl | rfl | rfl | rfl | rfl
    · exact fun i => Int.natCast_nonneg i
    all_goals first | exact trivial | exact fun _ _ _ _ h => by cases h
  exact ⟨s, hrun, htable, ledger_of_market steadyGenerator_documented Binary64.moderate_hundred 10 hadmissible hrun
    hexited⟩

end MarketSystem

end ChronosMatch
