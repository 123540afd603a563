import ChronosMatch.Monitor.Ledger

/-!
# Resetting the dashboard

`reset` replaces the engine, rewinds the index of the hand-off and clears the queue that the worker reads. A
trade that was matched is accounted for when it is stored, in the worker's hands, queued, or counted as
dropped or abandoned. All trades are, as long as every reset finds the queue empty and no call is
interrupted after it has matched orders; and only then.
-/

namespace ChronosMatch

/-- A monitor that is reset now and then; `retired` are the trades of the engines that it has replaced. -/
structure Dashboard extends MonitorSystem where
  retired : List TradeDict := []

inductive DashboardAction
  | monitor (action : MonitorAction)
  | reset (hasCythonEngine : Bool)

namespace Dashboard

def created (hasCythonEngine relative : Bool) (whaleThreshold sweepMinLevels queueCapacity : Int)
    (rollingWindow : Nat) : Dashboard :=
  { toMonitorSystem :=
      .created hasCythonEngine relative whaleThreshold sweepMinLevels queueCapacity rollingWindow }

/-- `LatencyMonitor.reset` -/
def reset (hasCythonEngine : Bool) (s : Dashboard) : Dashboard :=
  { s with
    monitor := s.monitor.reset (getMatchingEngine hasCythonEngine)
    shared := { s.shared with queue := s.shared.queue.clear }
    interrupted := false
    retired := s.retired ++ s.monitor.engine.getTrades }

end Dashboard

/-- Like a call, a reset is made when no call is in progress and before the shutdown. -/
def DashboardAction.step : DashboardAction → Dashboard → Option Dashboard
  | .monitor action, s => (action.step s.toMonitorSystem).map fun t => { s with toMonitorSystem := t }
  | .reset hasCythonEngine, s =>
      if s.outbox ≠ [] ∨ s.shared.worker.stopEvent then none else some (s.reset hasCythonEngine)

/-- A step of the dashboard, with what it has found. -/
inductive DashboardStep (s : Dashboard) : DashboardAction → Dashboard → Prop
  | monitor (action : MonitorAction) (t : MonitorSystem) (hmonitor : MonitorStep s.toMonitorSystem action t) :
      DashboardStep s (.monitor action) { s with toMonitorSystem := t }
  | reset (hasCythonEngine : Bool) (houtbox : s.outbox = []) :
      DashboardStep s (.reset hasCythonEngine) (s.reset hasCythonEngine)

theorem DashboardAction.step_cases {action : DashboardAction} {s s' : Dashboard} (hstep : action.step s = some s') :
    DashboardStep s action s' := by
  cases action with
  | monitor action =>
      obtain ⟨t, hmonitor, rfl⟩ := Option.map_eq_some_iff.mp hstep
      exact .monitor action t (MonitorAction.step_cases hmonitor)
  | reset hasCythonEngine =>
      rw [DashboardAction.step] at hstep
      split at hstep
      · cases hstep
      · next hidle =>
          cases hstep
          exact .reset hasCythonEngine (not_not.mp (not_or.mp hidle).1)

namespace Dashboard

/-- The trades matched by all engines of the run. -/
def matched (s : Dashboard) : Nat := s.retired.length + s.monitor.engine.getTrades.length

/-- The trades that the saves reported as stored or as already there. -/
def stored (s : Dashboard) : Nat :=
  s.shared.worker.metrics.tradesPersisted + s.shared.worker.metrics.duplicateCount

def accountedFor (s : Dashboard) : Nat :=
  s.stored + (inHand s.pc s.shared).length + s.shared.queue.queue.length + s.shared.queue.droppedCount +
    s.shared.worker.metrics.tradesAbandoned

/-- Between two calls, every trade is accounted for. -/
def Accounted (s : Dashboard) : Prop := s.outbox = [] → s.matched = s.accountedFor

/-- The engine takes all orders of a call, or raises before it has matched any; a reset finds the queue empty. -/
def Keeps : DashboardAction → Dashboard → Prop
  | .monitor (.call made), s => (s.monitor.engine.dispatch made.orders).1 = none ∨
      (s.monitor.engine.dispatch made.orders).2.getTrades.length = s.monitor.engine.getTrades.length
  | .reset _, s => s.shared.queue.queue = []
  | _, _ => True

/-! ### The invariant -/

/-- The account is balanced but for what the call in progress has still to push. -/
structure Balanced (s : Dashboard) : Prop where
  worker : WorkerInvariant (s.pc, s.shared)
  reported : s.shared.worker.metrics.tradesPersisted + s.shared.worker.metrics.duplicateCount =
    s.shared.worker.metrics.tradesReceived
  queueOpen : s.shared.queue.backpressure = .dropOldest ∧ s.shared.queue.closed = false
  persistence : s.monitor.enablePersistence = true
  index : s.monitor.lastProcessedTradeIdx = s.monitor.engine.getTrades.length
  total : s.matched = s.accountedFor + s.outbox.length

theorem accountedFor_eq {s : Dashboard} (hworker : WorkerInvariant (s.pc, s.shared))
    (hreported : s.shared.worker.metrics.tradesPersisted + s.shared.worker.metrics.duplicateCount =
      s.shared.worker.metrics.tradesReceived) :
    s.accountedFor = (s.shared.journal.popped ++ s.shared.queue.queue).length + s.shared.queue.droppedCount := by
  have haccount : ChronosMatch.Accounted s.pc s.shared := hworker.account
  have hpopped := congrArg List.length haccount.popped
  rw [List.length_append, List.length_append, ← haccount.received, ← haccount.abandoned] at hpopped
  rw [accountedFor, stored, hreported, List.length_append, hpopped]
  omega

theorem Balanced.accounted {s : Dashboard} (h : s.Balanced) : s.Accounted := by
  intro houtbox
  have htotal := h.total
  rwa [houtbox] at htotal

theorem Balanced.pushed {s : Dashboard} (h : s.Balanced) {made : MonitorCall}
    (hkeeps : Keeps (.monitor (.call made)) s) :
    (made.perform s.monitor).2.2.engine.getTrades.length =
        s.monitor.engine.getTrades.length + (made.perform s.monitor).2.1.length ∧
      (made.perform s.monitor).2.2.lastProcessedTradeIdx = (made.perform s.monitor).2.2.engine.getTrades.length := by
  have heffect := made.perform_effect h.index.le
  have hlog := heffect.log.length_le
  rw [Keeps, made.perform_dispatch] at hkeeps
  by_cases hraised : (made.perform s.monitor).1 = none
  · obtain ⟨hpushed, hindex⟩ := heffect.returned hraised
    refine ⟨?_, hindex⟩
    rw [hpushed, h.persistence, if_pos rfl, List.length_drop, h.index]
    omega
  · obtain ⟨hpushed, hindex⟩ := heffect.interrupted hraised
    have hsame : (made.perform s.monitor).2.2.engine.getTrades.length = s.monitor.engine.getTrades.length :=
      hkeeps.resolve_left hraised
    rw [hpushed, hindex, h.index, hsame]
    exact ⟨rfl, rfl⟩

theorem Balanced.call {s : Dashboard} (h : s.Balanced) (houtbox : s.outbox = []) {made : MonitorCall}
    (hkeeps : Keeps (.monitor (.call made)) s) (interrupted : Bool) :
    Balanced { s with
      monitor := (made.perform s.monitor).2.2
      outbox := (made.perform s.monitor).2.1
      interrupted } := by
  obtain ⟨hmatched, hindex⟩ := h.pushed hkeeps
  have htotal := h.total
  rw [houtbox, matched, List.length_nil, Nat.add_zero] at htotal
  refine { h with
    persistence := (made.perform_effect h.index.le).persistence.trans h.persistence
    index := hindex
    total := ?_ }
  rw [matched]
  dsimp only
  rw [hmatched, ← Nat.add_assoc, htotal]
  rfl

theorem Balanced.push {s : Dashboard} (h : s.Balanced) {trade : TradeDict} {outbox : List TradeDict}
    (houtbox : s.outbox = trade :: outbox) (now : Int) : Balanced { s with
      outbox
      shared := { s.shared with
        queue := (s.shared.queue.pushDict (TradeEvent.fromEngineDict now) trade).2 } } := by
  obtain ⟨rest, hqueue, -, hlength, -, hpolicy, hopen⟩ := TradeEventQueue.push_dropOldest
    (TradeEvent.fromEngineDict now trade (s.shared.queue.sequence + 1))
    (q := { s.shared.queue with sequence := s.shared.queue.sequence + 1 }) h.queueOpen.1 h.queueOpen.2
  rw [TradeEventQueue.pushDict]
  dsimp only
  generalize (TradeEventQueue.push (TradeEvent.fromEngineDict now trade (s.shared.queue.sequence + 1))
    { s.shared.queue with sequence := s.shared.queue.sequence + 1 }).2 = queue at *
  have hworker : WorkerInvariant (s.pc, { s.shared with queue }) :=
    h.worker.surroundings queue s.shared.worker.stopEvent
  refine ⟨hworker, h.reported, ⟨hpolicy, hopen⟩, h.persistence, h.index, ?_⟩
  -- one trade less to push, and one more that is queued or was dropped
  have haccounted : accountedFor { s with outbox, shared := { s.shared with queue } } = s.accountedFor + 1 := by
    have hlength' : rest.length + queue.droppedCount = s.shared.queue.queue.length + s.shared.queue.droppedCount :=
      hlength
    rw [accountedFor_eq (s := { s with outbox, shared := { s.shared with queue } }) hworker h.reported,
      accountedFor_eq h.worker h.reported]
    show (s.shared.journal.popped ++ queue.queue).length + queue.droppedCount = _
    rw [hqueue, List.length_append, List.length_append, List.length_append, List.length_singleton]
    omega
  have htotal := h.total
  rw [houtbox, List.length_cons] at htotal
  rw [haccounted]
  show s.matched = s.accountedFor + 1 + outbox.length
  rw [htotal, Nat.add_right_comm, Nat.add_assoc]

theorem Balanced.thread {s : Dashboard} (h : s.Balanced) {move : Move SaveCall} {pc : Pc TradeEvent}
    {shared : Shared SQLiteTradeRepository TradeEvent}
    (hstep : Thread.step saveEvents move (s.pc, s.shared) = some (pc, shared)) : Balanced { s with pc, shared } := by
  have heffect := h.worker.control.effect hstep
  have hframe := heffect.queue_frame
  have hworker : WorkerInvariant (pc, shared) := WorkerInvariant.step
    (show WorkerAction.step saveEvents (.thread move) (s.pc, s.shared) = some (pc, shared) from hstep) h.worker
  have hreported := heffect.reported h.reported
  refine ⟨hworker, hreported, ?_, h.persistence, h.index, ?_⟩
  · show shared.queue.backpressure = _ ∧ shared.queue.closed = _
    rw [hframe]
    exact h.queueOpen
  · have haccounted : accountedFor { s with pc, shared } = s.accountedFor := by
      rw [accountedFor_eq (s := { s with pc, shared }) hworker hreported, accountedFor_eq h.worker h.reported]
      dsimp only
      rw [heffect.popped_queue, hframe]
    rw [haccounted]
    exact h.total

theorem matched_reset (hasCythonEngine : Bool) (s : Dashboard) : (s.reset hasCythonEngine).matched = s.matched := by
  show (s.retired ++ s.monitor.engine.getTrades).length + (getMatchingEngine hasCythonEngine).getTrades.length = _
  rw [getTrades_getMatchingEngine, List.length_append]
  rfl

/-- What a reset takes off the account is what it finds queued. -/
theorem accountedFor_reset (hasCythonEngine : Bool) (s : Dashboard) :
    (s.reset hasCythonEngine).accountedFor + s.shared.queue.queue.length = s.accountedFor := by
  have hhand : inHand s.pc (s.reset hasCythonEngine).shared = inHand s.pc s.shared :=
    inHand_surroundings s.pc s.shared s.shared.queue.clear s.shared.worker.stopEvent
  show s.stored + (inHand s.pc (s.reset hasCythonEngine).shared).length + 0 + s.shared.queue.droppedCount +
    s.shared.worker.metrics.tradesAbandoned + _ = _
  rw [hhand, accountedFor]
  omega

theorem Balanced.reset {s : Dashboard} (h : s.Balanced) (hasCythonEngine : Bool) (hqueue : s.shared.queue.queue = []) :
    (s.reset hasCythonEngine).Balanced := by
  refine ⟨h.worker.surroundings s.shared.queue.clear s.shared.worker.stopEvent, h.reported, h.queueOpen,
    h.persistence, ?_, ?_⟩
  · show 0 = (getMatchingEngine hasCythonEngine).getTrades.length
    rw [getTrades_getMatchingEngine]
    rfl
  · have haccounted := accountedFor_reset hasCythonEngine s
    rw [hqueue, List.length_nil, Nat.add_zero] at haccounted
    rw [matched_reset, haccounted]
    exact h.total

theorem Balanced.shutdown {s : Dashboard} (h : s.Balanced) : Balanced { s with shared := s.shared.signalStop } := by
  have hhand : inHand s.pc s.shared.signalStop = inHand s.pc s.shared :=
    inHand_surroundings s.pc s.shared s.shared.queue true
  refine ⟨h.worker.surroundings s.shared.queue true, h.reported, h.queueOpen, h.persistence, h.index, ?_⟩
  rw [accountedFor]
  dsimp only
  rw [hhand]
  exact h.total

theorem Balanced.step {action : DashboardAction} {s s' : Dashboard} (hkeeps : Keeps action s)
    (hstep : action.step s = some s') (h : s.Balanced) : s'.Balanced := by
  cases DashboardAction.step_cases hstep with
  | monitor action t hmonitor =>
      cases hmonitor with
      | call made houtbox hrunning => exact h.call houtbox hkeeps _
      | push now trade outbox houtbox => exact h.push houtbox now
      | worker move pc shared hthread => exact h.thread hthread
      | shutdown houtbox => exact h.shutdown
  | reset hasCythonEngine houtbox => exact h.reset hasCythonEngine hkeeps

theorem Balanced.created (hasCythonEngine relative : Bool) (whaleThreshold sweepMinLevels queueCapacity : Int)
    (rollingWindow : Nat) : Balanced
      (.created hasCythonEngine relative whaleThreshold sweepMinLevels queueCapacity rollingWindow) := by
  have hempty : (getMatchingEngine hasCythonEngine).getTrades.length = 0 := by
    rw [getTrades_getMatchingEngine]
    rfl
  refine ⟨.started 100 3 _ _, rfl, ⟨rfl, rfl⟩, rfl, hempty.symm, ?_⟩
  show 0 + (getMatchingEngine hasCythonEngine).getTrades.length = 0
  rw [hempty]

/-- A step after which the account is right kept it: there is no other way to get it back. -/
theorem Balanced.keeps {action : DashboardAction} {s s' : Dashboard} (h : s.Balanced)
    (hstep : action.step s = some s') (haccounted : s'.Accounted) : Keeps action s := by
  have htotal := h.total
  cases DashboardAction.step_cases hstep with
  | monitor action t hmonitor =>
      cases hmonitor with
      | call made houtbox hrunning =>
          rw [Keeps, made.perform_dispatch]
          by_cases hraised : (made.perform s.monitor).1 = none
          · exact .inl hraised
          · refine .inr ?_
            show (made.perform s.monitor).2.2.engine.getTrades.length = _
            have hpushed : (made.perform s.monitor).2.1 = [] :=
              ((made.perform_effect h.index.le).interrupted hraised).1
            have hmatched : s.retired.length + (made.perform s.monitor).2.2.engine.getTrades.length =
                s.accountedFor := haccounted hpushed
            rw [houtbox, List.length_nil, matched] at htotal
            omega
      | push now trade outbox houtbox => trivial
      | worker move pc shared hthread => trivial
      | shutdown houtbox => trivial
  | reset hasCythonEngine houtbox =>
      have hmatched := haccounted houtbox
      have hlost := accountedFor_reset hasCythonEngine s
      rw [houtbox, List.length_nil] at htotal
      rw [matched_reset] at hmatched
      exact List.eq_nil_of_length_eq_zero (by omega)

/-! ### The rows -/

/-- Where the saves that fail are rolled back, what they reported as stored are the rows of the table. -/
theorem Balanced.rows {action : DashboardAction} {s s' : Dashboard} (h : s.Balanced)
    (hrollback : ∀ move, action = .monitor (.worker move) → move.RollsBack) (hstep : action.step s = some s')
    (hrows : s.shared.repository.table.length = s.shared.worker.metrics.tradesPersisted) :
    s'.shared.repository.table.length = s'.shared.worker.metrics.tradesPersisted := by
  cases DashboardAction.step_cases hstep with
  | monitor action t hmonitor =>
      cases hmonitor with
      | call => exact hrows
      | push => exact hrows
      | worker move pc shared hthread => exact (h.worker.control.effect hthread).rows (hrollback move rfl) hrows
      | shutdown => exact hrows
  | reset => exact hrows

end Dashboard

/-- The account of a run is right between any two of its calls and resets if and only if every reset finds
the queue empty and no call raises after it has matched orders. -/
theorem dashboard_run_accounted_iff (hasCythonEngine relative : Bool)
    (whaleThreshold sweepMinLevels queueCapacity : Int) (rollingWindow : Nat) (actions : List DashboardAction)
    (s : Dashboard) (hrun : Transition.run DashboardAction.step actions
      (.created hasCythonEngine relative whaleThreshold sweepMinLevels queueCapacity rollingWindow) = some s) :
    Transition.Always DashboardAction.step Dashboard.Accounted actions
        (.created hasCythonEngine relative whaleThreshold sweepMinLevels queueCapacity rollingWindow) ↔
      Transition.Throughout DashboardAction.step Dashboard.Keeps actions
        (.created hasCythonEngine relative whaleThreshold sweepMinLevels queueCapacity rollingWindow) :=
  Transition.always_iff_throughout Dashboard.Balanced.step Dashboard.Balanced.accounted Dashboard.Balanced.keeps
    hrun (.created _ _ _ _ _ _)

/-- In a run that keeps the account and whose failed saves are rolled back, what counts as stored are the rows
of the table and the duplicates. -/
theorem dashboard_run_stored {hasCythonEngine relative : Bool} {whaleThreshold sweepMinLevels queueCapacity : Int}
    {rollingWindow : Nat} {actions : List DashboardAction}
    (hrollback : ∀ move, .monitor (.worker move) ∈ actions → move.RollsBack) {s : Dashboard}
    (hrun : Transition.run DashboardAction.step actions
      (.created hasCythonEngine relative whaleThreshold sweepMinLevels queueCapacity rollingWindow) = some s)
    (hkeeps : Transition.Throughout DashboardAction.step Dashboard.Keeps actions
      (.created hasCythonEngine relative whaleThreshold sweepMinLevels queueCapacity rollingWindow)) :
    s.stored = s.shared.repository.table.length + s.shared.worker.metrics.duplicateCount := by
  have hsteps : Transition.Throughout DashboardAction.step
      (fun action s => Dashboard.Keeps action s ∧ ∀ move, action = .monitor (.worker move) → move.RollsBack) actions
      (.created hasCythonEngine relative whaleThreshold sweepMinLevels queueCapacity rollingWindow) := by
    intro before action after t hsplit hbefore
    refine ⟨hkeeps before action after t hsplit hbefore, ?_⟩
    rintro move rfl
    exact hrollback move (by rw [hsplit]; exact List.mem_append_right _ List.mem_cons_self)
  have hstep : ∀ {action : DashboardAction} {s s' : Dashboard},
      (Dashboard.Keeps action s ∧ ∀ move, action = .monitor (.worker move) → move.RollsBack) →
      action.step s = some s' →
      (s.Balanced ∧ s.shared.repository.table.length = s.shared.worker.metrics.tradesPersisted) →
      s'.Balanced ∧ s'.shared.repository.table.length = s'.shared.worker.metrics.tradesPersisted :=
    fun hcondition hstep h => ⟨h.1.step hcondition.1 hstep, h.1.rows hcondition.2 hstep h.2⟩
  obtain ⟨-, hrows⟩ := Transition.invariant_throughout hstep hrun hsteps ⟨.created _ _ _ _ _ _, rfl⟩
  rw [Dashboard.stored, hrows]

/-- A sell and a buy that match, and a reset after the worker has popped their trade. -/
def resetAfterPop : List DashboardAction :=
  let d : Dispatch := ⟨Growth.unlimited, 1⟩
  [.monitor (.call (.addCustomOrder d (fun _ => 0) 1 (.code 1) (Binary64.ofInt 100) 5 1)),
    .monitor (.call (.addCustomOrder d (fun _ => 0) 2 (.code 0) (Binary64.ofInt 100) 5 2)),
    .monitor (.push 3), .monitor (.worker .go), .monitor (.worker .go), .reset true]

theorem dashboard_run_accounted_iff_resetAfterPop : ∃ s,
    Transition.run DashboardAction.step resetAfterPop (.created true false 500 2 10 100) = some s ∧
      (Transition.Always DashboardAction.step Dashboard.Accounted resetAfterPop (.created true false 500 2 10 100) ↔
        Transition.Throughout DashboardAction.step Dashboard.Keeps resetAfterPop
          (.created true false 500 2 10 100)) :=
  ⟨_, rfl, dashboard_run_accounted_iff true false 500 2 10 100 resetAfterPop _ rfl⟩

/-- The same, but the reset finds the trade in the queue. -/
def resetBeforePop : List DashboardAction :=
  let d : Dispatch := ⟨Growth.unlimited, 1⟩
  [.monitor (.call (.addCustomOrder d (fun _ => 0) 1 (.code 1) (Binary64.ofInt 100) 5 1)),
    .monitor (.call (.addCustomOrder d (fun _ => 0) 2 (.code 0) (Binary64.ofInt 100) 5 2)),
    .monitor (.push 3), .reset true]

/-- The trade that the reset found in the queue is counted nowhere. -/
theorem not_dashboard_run_accounted_resetBeforePop : ∃ s,
    Transition.run DashboardAction.step resetBeforePop (.created true false 500 2 10 100) = some s ∧ ¬ s.Accounted :=
  ⟨_, rfl, fun haccounted => absurd (haccounted rfl) (by decide)⟩

end ChronosMatch
