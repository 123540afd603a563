import ChronosMatch.Base.Newest
import ChronosMatch.Monitor.HandoffRuns
import ChronosMatch.Monitor.MarketMonitor

/-!
# The whale panel

`get_market_state` and `select_whale_events` of `src/monitor/latency_monitor.py`. The deque of events keeps
fifty of them and the state six, so a sweep that is followed by many events is not among the latter any more. It
is pinned to the panel until the deque has let go of it.
-/

namespace ChronosMatch

/-! ### The functions of the source -/

/-- The fields of `MarketState` that do not depend on the clock or on the rounding of `sum`. An event is an
object of the deque, told from its equals by its place there. -/
structure MarketState where
  ordersCount : Nat
  tradesCount : Nat
  totalVolume : Int
  recentTrades : List TradeDict
  recentWhaleEvents : List (WhaleEvent × Nat)
  lastWhaleSweep : Option (WhaleEvent × Nat)
  lastOrder : Option OrderInfo
  isPaused : Bool
  rateTarget : Int
  activeWhaleThreshold : Int

def LatencyMonitor.getMarketState (isPaused : Bool) (rateTarget : Int) (m : LatencyMonitor) : MarketState where
  ordersCount := m.engine.getOrderCount
  tradesCount := m.engine.getTrades.length
  totalVolume := (m.engine.getTrades.map (·.qty)).sum
  recentTrades := m.engine.getTrades.rtake 8
  recentWhaleEvents := m.whaleEvents.zipIdx.rtake 6
  lastWhaleSweep := m.whaleEvents.zipIdx.reverse.find? fun w => w.1.eventType = .whaleSweep
  lastOrder := m.lastOrderInfo
  isPaused := isPaused
  rateTarget := rateTarget
  activeWhaleThreshold := m.getCurrentWhaleThreshold

/-- `select_whale_events`; `sweep is w` compares the places. -/
def selectWhaleEvents (state : MarketState) (n : Int) : List (WhaleEvent × Nat) :=
  if n ≤ 0 then []
  else
    let shown := state.recentWhaleEvents.rtake n.toNat
    match state.lastWhaleSweep with
    | none => shown
    | some sweep =>
        if shown.any fun w => sweep.2 = w.2 then shown
        else sweep :: if 1 < n then state.recentWhaleEvents.rtake (n - 1).toNat else []

open Newest

theorem foldl_pushBounded {α : Type} (maxlen : Nat) (l log : List α) :
    log.foldl (pushBounded maxlen) (l.rtake maxlen) = (l ++ log).rtake maxlen := by
  induction log generalizing l with
  | nil => rw [List.append_nil, List.foldl_nil]
  | cons a log ih => rw [List.foldl_cons, pushBounded_rtake, ih, List.append_assoc, List.singleton_append]

/-! ### What the panel shows -/

/-- What a panel of `n` rows shows of the events since the last reset. -/
inductive PanelShows (log : List WhaleEvent) (n : Nat) : List WhaleEvent → Prop
  | nothing (hrows : n = 0) : PanelShows log n []
  /-- The latest sweep is among the newest events, or the deque has let go of it. -/
  | newest (hsweep : ∀ before sweep after, log = before ++ sweep :: after → sweep.eventType = .whaleSweep →
      (∀ event ∈ after, event.eventType ≠ .whaleSweep) → after.length < min n 6 ∨ 50 ≤ after.length) :
      PanelShows log n (log.rtake (min n 6))
  | pinned {before : List WhaleEvent} {sweep : WhaleEvent} {after : List WhaleEvent} (hrows : 0 < n)
      (hlog : log = before ++ sweep :: after) (hsweep : sweep.eventType = .whaleSweep)
      (hlatest : ∀ event ∈ after, event.eventType ≠ .whaleSweep) (hbehind : min n 6 ≤ after.length)
      (hretained : after.length < 50) : PanelShows log n (sweep :: after.rtake (min (n - 1) 6))

structure PanelSound (log : List WhaleEvent) (n : Nat) (shown : List WhaleEvent) : Prop where
  shows : PanelShows log n shown
  length_le : shown.length ≤ n
  inOrder : shown.Sublist log
  newest : 1 < n → shown.getLast? = log.getLast?
  sweep : 0 < n → ∀ before sweep after, log = before ++ sweep :: after → sweep.eventType = .whaleSweep →
    (∀ event ∈ after, event.eventType ≠ .whaleSweep) → after.length < 50 → sweep ∈ shown

theorem PanelShows.length_le {log : List WhaleEvent} {n : Nat} {shown : List WhaleEvent}
    (h : PanelShows log n shown) : shown.length ≤ n := by
  cases h with
  | nothing hrows => exact Nat.zero_le n
  | newest hsweep =>
      rw [length_rtake]
      omega
  | pinned hrows hlog hsweep hlatest hbehind hretained =>
      rw [List.length_cons, length_rtake]
      omega

theorem PanelShows.inOrder {log : List WhaleEvent} {n : Nat} {shown : List WhaleEvent}
    (h : PanelShows log n shown) : shown.Sublist log := by
  cases h with
  | nothing hrows => exact List.nil_sublist log
  | newest hsweep => exact (rtake_suffix _ _).sublist
  | pinned hrows hlog hsweep hlatest hbehind hretained =>
      rw [hlog]
      apply List.Sublist.trans _ (List.sublist_append_right _ _)
      exact (rtake_suffix _ _).sublist.cons_cons _

theorem PanelShows.getLast? {log : List WhaleEvent} {n : Nat} {shown : List WhaleEvent}
    (h : PanelShows log n shown) (hrows : 1 < n) : shown.getLast? = log.getLast? := by
  cases h with
  | nothing hnone => omega
  | newest hsweep => exact getLast?_rtake _ (by omega)
  | @pinned before sweep after hpositive hlog hsweep hlatest hbehind hretained =>
      have hlast : (after.rtake (min (n - 1) 6)).getLast? = after.getLast? := getLast?_rtake _ (by omega)
      have hsome : after ≠ [] := List.ne_nil_of_length_pos (by omega)
      have hshown : after.rtake (min (n - 1) 6) ≠ [] := by
        apply List.ne_nil_of_length_pos
        rw [length_rtake]
        omega
      rw [hlog, List.getLast?_cons_of_ne_nil hshown, hlast, List.getLast?_append_cons,
        List.getLast?_cons_of_ne_nil hsome]

theorem PanelShows.sweep_mem {log : List WhaleEvent} {n : Nat} {shown : List WhaleEvent} (h : PanelShows log n shown)
    (hrows : 0 < n) {before : List WhaleEvent} {sweep : WhaleEvent} {after : List WhaleEvent}
    (hlog : log = before ++ sweep :: after) (hsweep : sweep.eventType = .whaleSweep)
    (hlatest : ∀ event ∈ after, event.eventType ≠ .whaleSweep) (hretained : after.length < 50) : sweep ∈ shown := by
  cases h with
  | nothing hnone => omega
  | newest hnewest =>
      obtain hfew | hmany := hnewest before sweep after hlog hsweep hlatest
      · rw [hlog]
        exact mem_rtake_of_lt hfew
      · exact absurd hretained (not_lt.mpr hmany)
  | pinned hpositive hlog' hsweep' hlatest' hbehind hretained' =>
      obtain ⟨rfl, -⟩ := last_unique (hlog.symm.trans hlog') hsweep hsweep' hlatest hlatest'
      exact List.mem_cons_self

theorem PanelShows.sound {log : List WhaleEvent} {n : Nat} {shown : List WhaleEvent} (h : PanelShows log n shown) :
    PanelSound log n shown :=
  ⟨h, h.length_le, h.inOrder, h.getLast?, fun hrows _ _ _ => h.sweep_mem hrows⟩

theorem find?_whaleSweep {deque : List WhaleEvent} {w : WhaleEvent × Nat}
    (h : deque.zipIdx.reverse.find? (fun w => w.1.eventType = .whaleSweep) = some w) :
    w.1.eventType = .whaleSweep ∧ ∃ before after, deque.zipIdx = before ++ w :: after ∧
      ∀ w' ∈ after, w'.1.eventType ≠ .whaleSweep := by
  obtain ⟨hsweep, before, after, hdeque, hlatest⟩ := List.find?_eq_some_iff_append.mp h
  refine ⟨of_decide_eq_true hsweep, after.reverse, before.reverse, ?_, ?_⟩
  · rw [← List.reverse_reverse deque.zipIdx, hdeque, List.reverse_append, List.reverse_cons, List.append_assoc,
      List.singleton_append]
  · intro w' hw'
    simpa using hlatest w' (List.mem_reverse.mp hw')

theorem selectWhaleEvents_shows {m : LatencyMonitor} {log : List WhaleEvent} (hdeque : m.whaleEvents = log.rtake 50)
    (isPaused : Bool) (rateTarget n : Int) :
    PanelShows log n.toNat ((selectWhaleEvents (m.getMarketState isPaused rateTarget) n).map Prod.fst) := by
  have hevents : m.whaleEvents.zipIdx.map Prod.fst = log.rtake 50 := by rw [List.zipIdx_map_fst, hdeque]
  obtain ⟨older, holder⟩ := rtake_suffix log 50
  rw [selectWhaleEvents]
  by_cases hrows : n ≤ 0
  · rw [if_pos hrows]
    exact .nothing (Int.toNat_of_nonpos hrows)
  have hnewest (k : Nat) : ((m.whaleEvents.zipIdx.rtake 6).rtake k).map Prod.fst = log.rtake (min k 6) := by
    rw [map_rtake, map_rtake, hevents, rtake_rtake, rtake_rtake]
    congr 1
    omega
  rw [if_neg hrows, LatencyMonitor.getMarketState]
  dsimp only
  cases hfound : m.whaleEvents.zipIdx.reverse.find? (fun w => w.1.eventType = .whaleSweep) with
  | none =>
      dsimp only
      rw [hnewest]
      refine .newest fun before sweep after hlog hsweep hlatest => .inr ?_
      by_contra hfew
      have hmem : sweep ∈ m.whaleEvents.zipIdx.map Prod.fst := by
        rw [hevents, hlog]
        exact mem_rtake_of_lt (not_le.mp hfew)
      obtain ⟨w, hw, rfl⟩ := List.mem_map.mp hmem
      have hnone := List.find?_eq_none.mp hfound w (List.mem_reverse.mpr hw)
      exact hnone (decide_eq_true hsweep)
  | some w =>
      obtain ⟨hsweep, before, after, hplaced, hlatest⟩ := find?_whaleSweep hfound
      have hlog : log = (older ++ before.map Prod.fst) ++ w.1 :: after.map Prod.fst := by
        rw [List.append_assoc, ← List.map_cons, ← List.map_append, ← hplaced, hevents, holder]
      have hretained : (after.map Prod.fst).length < 50 := by
        have hall := congrArg List.length hplaced
        rw [List.length_zipIdx, hdeque, length_rtake, List.length_append, List.length_cons] at hall
        rw [List.length_map]
        omega
      have hlater : ∀ event ∈ after.map Prod.fst, event.eventType ≠ .whaleSweep := by
        intro event hevent
        obtain ⟨w', hw', rfl⟩ := List.mem_map.mp hevent
        exact hlatest w' hw'
      have hplaces : (m.whaleEvents.zipIdx.map Prod.snd).Nodup := by
        rw [List.zipIdx_map_snd]
        exact List.nodup_range'
      have hshown := any_place_rtake_iff hplaces hplaced (min n.toNat 6)
      rw [← rtake_rtake] at hshown
      dsimp only
      by_cases hfew : after.length < min n.toNat 6
      · rw [if_pos (hshown.mpr hfew), hnewest]
        refine .newest fun before' sweep' after' hlog' hsweep' hlatest' => .inl ?_
        obtain ⟨-, hafter⟩ := last_unique (hlog'.symm.trans hlog) hsweep' hsweep hlatest' hlater
        rwa [hafter, List.length_map]
      · have hbehind : min n.toNat 6 ≤ (after.map Prod.fst).length := by
          rw [List.length_map]
          exact not_lt.mp hfew
        have hrest : (if 1 < n then (m.whaleEvents.zipIdx.rtake 6).rtake (n - 1).toNat else []).map Prod.fst =
            (after.map Prod.fst).rtake (min (n.toNat - 1) 6) := by
          have htoNat : (n - 1).toNat = n.toNat - 1 := by omega
          have hcons : log = (older ++ before.map Prod.fst ++ [w.1]) ++ after.map Prod.fst := by
            rw [List.append_assoc _ [w.1], List.singleton_append]
            exact hlog
          split
          · rw [hnewest, htoNat, hcons]
            exact rtake_append_of_le (by omega)
          · have hone : n.toNat - 1 = 0 := by omega
            rw [hone, Nat.zero_min, List.rtake_zero]
            rfl
        rw [if_neg (hshown.not.mpr hfew), List.map_cons, hrest]
        exact .pinned (by omega) hlog hsweep hlater hbehind hretained

/-- Whatever was called and reset before: the panel shows the newest events since the last reset, in their
order, but for the latest sweep, which it shows as long as fewer than fifty events have come after it. -/
theorem panel_sound (hasCythonEngine relative : Bool) (whaleThreshold sweepMinLevels : Int) (rollingWindow : Nat)
    (actions : List HandoffAction) (isPaused : Bool) (rateTarget n : Int) :
    let h := actions.foldl MonitorHistory.step
      (.created hasCythonEngine relative whaleThreshold sweepMinLevels rollingWindow)
    PanelSound h.events n.toNat ((selectWhaleEvents (h.monitor.getMarketState isPaused rateTarget) n).map Prod.fst) := by
  have hinv := (MonitorHistory.HandedOff.created hasCythonEngine relative whaleThreshold sweepMinLevels
    rollingWindow).run actions
  have hdeque := foldl_pushBounded 50 [] (actions.foldl MonitorHistory.step
    (.created hasCythonEngine relative whaleThreshold sweepMinLevels rollingWindow)).events
  rw [List.rtake_nil, List.nil_append] at hdeque
  exact (selectWhaleEvents_shows (hinv.appended.trans hdeque) isPaused rateTarget n).sound

end ChronosMatch
