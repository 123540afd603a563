import ChronosMatch.Base.Transition
import ChronosMatch.Monitor.MarketMonitor

/-!
# A session of the dashboard

`main` of `src/monitor/latency_monitor.py` once the arguments are parsed: `CursesDashboard.run` with its keys,
and `run_headless_loop`, to which the session falls back when the dashboard raises. Whatever is pressed and
whatever fails, the engine was handed the first orders of the market since the last reset, and `--max-orders`
bounds their number.
-/

namespace ChronosMatch

/-! ### The functions of the source -/

/-- The arguments of `main` that its loops read. -/
structure SessionArgs where
  rate : Int := 30
  maxOrders : Option Int := none
  noCurses : Bool := false
  once : Bool := false

inductive SessionMode
  /-- The orders of `--once` are still to be submitted. -/
  | once
  | shown
  | curses
  /-- The loop of the dashboard was left. -/
  | exited
  | headless (ordersProcessed : Nat)
  | stopped
  | raised
deriving DecidableEq

structure DashboardSession (σ : Type) extends MarketMonitor σ where
  mode : SessionMode
  targetRate : Int
  isPaused : Bool := false
  showHelp : Bool := false

/-- One run of a loop's body. An order that it submits meets `next`, or `nextKey` if a key asked for it. -/
inductive SessionAction
  | once (next : Nat → NextOrder) (clock : Nat → Int)
  /-- `elapsed` is the comparison with the step interval, `rendered` whether `render` returns. -/
  | iterate (elapsed rendered : Bool) (key : Int) (next nextKey : NextOrder) (clock : Nat → Int)
  /-- The dashboard raises outside of the body. -/
  | cursesError
  /-- `printed` is whether the snapshot, if it is due, can be printed. -/
  | headless (printed : Bool) (next : NextOrder) (clock : Nat → Int)
  /-- A `KeyboardInterrupt` between two runs of a body. -/
  | interrupt

/-- `max_orders is not None and count >= max_orders` -/
def limitReached (maxOrders : Option Int) (count : Nat) : Bool :=
  match maxOrders with
  | none => false
  | some maxOrders => decide (maxOrders ≤ count)

/-- `max(10, args.max_orders or 10)` -/
def onceOrders (maxOrders : Option Int) : Int :=
  match maxOrders with
  | none => 10
  | some maxOrders => max 10 (if maxOrders = 0 then 10 else maxOrders)

def ord (c : Char) : Int := c.toNat

namespace DashboardSession

variable {σ : Type} (generator : RandomGenerator σ)

def start (args : SessionArgs) (isatty : Bool) (config : MonitorConfig) : DashboardSession σ where
  toMarketMonitor := .create generator config
  mode := if args.once then .once else if args.noCurses ∨ ¬ isatty then .headless 0 else .curses
  targetRate := max 1 args.rate

/-- `self.monitor.step(num_orders=1)` in the dashboard, whose exceptions `main` answers with the text loop. -/
def stepOne (next : NextOrder) (clock : Nat → Int) (s : DashboardSession σ) : DashboardSession σ :=
  match s.toMarketMonitor.step generator 1 (fun _ => next) clock with
  | (.error _, _, market) =>
      { s with
        toMarketMonitor := market
        mode := .headless 0 }
  | (.ok _, _, market) => { s with toMarketMonitor := market }

def handleKey (hasCythonEngine : Bool) (key : Int) (next : NextOrder) (clock : Nat → Int) (s : DashboardSession σ) :
    DashboardSession σ :=
  if key = ord 'q' ∨ key = ord 'Q' ∨ key = 27 then { s with mode := .exited }
  else if key = ord 'p' ∨ key = ord 'P' ∨ key = ord ' ' then { s with isPaused := !s.isPaused }
  else if key = ord 's' ∨ key = ord 'S' then s.stepOne generator next clock
  else if key = ord '+' ∨ key = ord '=' then { s with targetRate := min 500 (s.targetRate + 5) }
  else if key = ord '-' ∨ key = ord '_' then { s with targetRate := max 1 (s.targetRate - 5) }
  else if key = ord 'r' ∨ key = ord 'R' then
    { s with toMarketMonitor := s.toMarketMonitor.reset generator hasCythonEngine none }
  else if key = ord 'h' ∨ key = ord 'H' ∨ key = ord '?' then { s with showHelp := !s.showHelp }
  else s

/-- The body of the loop of `CursesDashboard.run`. The interval is `1.0 / target_rate`. -/
def iterate (hasCythonEngine : Bool) (maxOrders : Option Int) (elapsed rendered : Bool) (key : Int)
    (next nextKey : NextOrder) (clock : Nat → Int) (s : DashboardSession σ) : DashboardSession σ :=
  if s.targetRate = 0 then { s with mode := .headless 0 }
  else
    let s := if s.isPaused = false ∧ elapsed then s.stepOne generator next clock else s
    if s.mode ≠ .curses then s
    else if limitReached maxOrders s.monitor.engine.getOrderCount then { s with mode := .exited }
    else if rendered = false then { s with mode := .headless 0 }
    else s.handleKey generator hasCythonEngine key nextKey clock

/-- The body of the loop of `run_headless_loop`. -/
def iterateHeadless (maxOrders : Option Int) (ordersProcessed : Nat) (printed : Bool) (next : NextOrder)
    (clock : Nat → Int) (s : DashboardSession σ) : DashboardSession σ :=
  match s.toMarketMonitor.step generator 1 (fun _ => next) clock with
  | (.error _, _, market) =>
      { s with
        toMarketMonitor := market
        mode := .raised }
  | (.ok _, _, market) =>
      { s with
        toMarketMonitor := market
        mode := if printed = false then .raised
          else if limitReached maxOrders (ordersProcessed + 1) then .stopped
          else .headless (ordersProcessed + 1) }

def showOnce (maxOrders : Option Int) (next : Nat → NextOrder) (clock : Nat → Int) (s : DashboardSession σ) :
    DashboardSession σ :=
  match s.toMarketMonitor.step generator (onceOrders maxOrders) next clock with
  | (.error _, _, market) =>
      { s with
        toMarketMonitor := market
        mode := .raised }
  | (.ok _, _, market) =>
      { s with
        toMarketMonitor := market
        mode := .shown }

def step (hasCythonEngine : Bool) (maxOrders : Option Int) (action : SessionAction) (s : DashboardSession σ) :
    Option (DashboardSession σ) :=
  match s.mode, action with
  | .once, .once next clock => some (s.showOnce generator maxOrders next clock)
  | .once, .interrupt => some { s with mode := .raised }
  | .curses, .iterate elapsed rendered key next nextKey clock =>
      some (s.iterate generator hasCythonEngine maxOrders elapsed rendered key next nextKey clock)
  | .curses, .cursesError => some { s with mode := .headless 0 }
  | .curses, .interrupt => some { s with mode := .raised }
  | .headless ordersProcessed, .headless printed next clock =>
      some (s.iterateHeadless generator maxOrders ordersProcessed printed next clock)
  | .headless _, .interrupt => some { s with mode := .stopped }
  | _, _ => none

end DashboardSession

/-! ### What holds of every session -/

namespace DashboardSession

open MarketMonitor

variable {σ : Type} {generator : RandomGenerator σ} {config : MonitorConfig} {args : SessionArgs}

/-- How many orders were submitted since the last reset, by where the session stands, and how many of them are
counted. -/
def WithinLimit (maxOrders : Option Int) (submitted count : Nat) : SessionMode → Prop
  | .once => submitted = 0
  | .shown => (submitted : Int) = onceOrders maxOrders ∧ count = submitted
  | .curses => count = submitted ∧ ∀ n ∈ maxOrders, (submitted : Int) ≤ max 0 n
  | .exited => count = submitted ∧ ∀ n ∈ maxOrders, (submitted : Int) ≤ max 0 n + 1
  | .headless ordersProcessed => ∀ n ∈ maxOrders,
      (ordersProcessed : Int) < max 1 n ∧ (submitted : Int) ≤ max 0 n + 1 + ordersProcessed
  | .stopped => ∀ n ∈ maxOrders, (submitted : Int) ≤ max 0 n + 1 + max 1 n
  | .raised => True

/-- The engine was handed the orders of `feed`, which are those of the seed and as many as the limit allows, and the
rate is in its range. -/
structure Inv (generator : RandomGenerator σ) (config : MonitorConfig) (args : SessionArgs)
    (feed : List ((OrderDict × Int) × Growth)) (s : DashboardSession σ) : Prop where
  seed : s.seed = config.seed
  replays : s.toMarketMonitor.Replays generator config feed
  limit : WithinLimit args.maxOrders feed.length s.monitor.engine.getOrderCount s.mode
  rate : 1 ≤ s.targetRate ∧ s.targetRate ≤ max 500 args.rate

/-- No clock reading is negative. -/
def ReadsClock : SessionAction → Prop
  | .once next _ => ∀ i, 0 ≤ (next i).now
  | .iterate _ _ _ next nextKey _ => 0 ≤ next.now ∧ 0 ≤ nextKey.now
  | .headless _ next _ => 0 ≤ next.now
  | _ => True

theorem inv_start (generator : RandomGenerator σ) (args : SessionArgs) (isatty : Bool) (config : MonitorConfig) :
    (start generator args isatty config).Inv generator config args [] := by
  have hreplays := replays_create generator config
  have hcount : (create generator config).monitor.engine.getOrderCount = 0 := hreplays.latencies.symm
  refine ⟨rfl, hreplays, ?_, ?_⟩
  · rw [start]
    dsimp only
    rw [hcount]
    split
    · exact rfl
    · split
      · intro n hn
        simp only [Nat.cast_zero, List.length_nil]
        omega
      · refine ⟨rfl, fun n hn => ?_⟩
        rw [List.length_nil, Nat.cast_zero]
        omega
  · rw [start]
    dsimp only
    omega

/-- A step of the dashboard submits an order and counts it, or the session falls back to the text loop. -/
theorem stepOne_effect {feed : List ((OrderDict × Int) × Growth)} {s : DashboardSession σ}
    (h : s.toMarketMonitor.Replays generator config feed) {next : NextOrder} (hclock : 0 ≤ next.now)
    (clock : Nat → Int) : ∃ submitted,
      (s.stepOne generator next clock).toMarketMonitor.Replays generator config (feed ++ submitted) ∧
      (s.stepOne generator next clock).seed = s.seed ∧ (s.stepOne generator next clock).targetRate = s.targetRate ∧
      ((s.stepOne generator next clock).mode = s.mode ∧ submitted.length = 1 ∧
          (s.stepOne generator next clock).monitor.engine.getOrderCount = s.monitor.engine.getOrderCount + 1 ∨
        (s.stepOne generator next clock).mode = .headless 0 ∧ submitted.length ≤ 1) := by
  have hclocks : ∀ i, 0 ≤ ((fun _ => next : Nat → NextOrder) i).now := fun _ => hclock
  obtain ⟨submitted, hreplays, hlength⟩ := h.step 1 hclocks clock
  have hseed := seed_step generator 1 (fun _ => next) clock s.toMarketMonitor
  refine ⟨submitted, ?_⟩
  rw [stepOne]
  rcases hstep : s.toMarketMonitor.step generator 1 (fun _ => next) clock with ⟨result, pushed, market⟩
  rw [hstep] at hreplays hlength hseed
  cases result with
  | error err =>
      dsimp only at hlength
      exact ⟨hreplays, hseed, rfl, .inr ⟨rfl, by omega⟩⟩
  | ok latencies =>
      obtain ⟨hlength, hcount⟩ := hlength
      dsimp only at hlength hcount
      have hone : submitted.length = 1 := by omega
      rw [hone] at hcount
      exact ⟨hreplays, hseed, rfl, .inl ⟨rfl, hone, hcount⟩⟩

theorem Inv.handleKey {feed : List ((OrderDict × Int) × Growth)} {s : DashboardSession σ}
    (h : s.Inv generator config args feed) (hmode : s.mode = .curses)
    (hroom : ∀ n ∈ args.maxOrders, (feed.length : Int) < n) (key : Int) {next : NextOrder} (hclock : 0 ≤ next.now)
    (clock : Nat → Int) :
    ∃ feed', (s.handleKey generator config.hasCythonEngine key next clock).Inv generator config args feed' := by
  have hlimit := h.limit
  rw [hmode] at hlimit
  obtain ⟨hcount, hle⟩ := hlimit
  obtain ⟨hpositive, hrate⟩ := h.rate
  rw [DashboardSession.handleKey]
  split
  · exact ⟨feed, h.seed, h.replays, ⟨hcount, fun n hn => (hle n hn).trans (by omega)⟩, h.rate⟩
  split
  · exact ⟨feed, h.seed, h.replays, h.limit, h.rate⟩
  split
  · obtain ⟨submitted, hreplays, hseed, hsame, hwent⟩ := stepOne_effect h.replays hclock clock
    refine ⟨feed ++ submitted, hseed.trans h.seed, hreplays, ?_, by rw [hsame]; exact h.rate⟩
    obtain ⟨hmode', hone, hcount'⟩ | ⟨hmode', hone⟩ := hwent
    · rw [hmode', hmode, hcount', hcount, List.length_append, hone]
      refine ⟨rfl, fun n hn => ?_⟩
      have hless := hroom n hn
      omega
    · rw [hmode', List.length_append]
      intro n hn
      have hless := hroom n hn
      omega
  split
  · refine ⟨feed, h.seed, h.replays, h.limit, ?_, ?_⟩
    · dsimp only
      omega
    · dsimp only
      omega
  split
  · refine ⟨feed, h.seed, h.replays, h.limit, ?_, ?_⟩
    · dsimp only
      omega
    · dsimp only
      omega
  split
  · have hreplays := h.replays.reset none
    refine ⟨[], h.seed, hreplays, ?_, h.rate⟩
    have hempty := hreplays.latencies
    dsimp only
    rw [hmode, ← hempty]
    refine ⟨rfl, fun n hn => ?_⟩
    rw [List.length_nil, Nat.cast_zero]
    omega
  split
  · exact ⟨feed, h.seed, h.replays, h.limit, h.rate⟩
  · exact ⟨feed, h⟩

theorem limitReached_eq_false {maxOrders : Option Int} {count : Nat} (h : limitReached maxOrders count = false) :
    ∀ n ∈ maxOrders, (count : Int) < n := by
  intro n hn
  rw [Option.mem_def.mp hn, limitReached] at h
  exact not_le.mp (of_decide_eq_false h)

theorem Inv.iterate {feed : List ((OrderDict × Int) × Growth)} {s : DashboardSession σ}
    (h : s.Inv generator config args feed) (hmode : s.mode = .curses) (elapsed rendered : Bool) (key : Int)
    {next nextKey : NextOrder} (hclock : 0 ≤ next.now) (hclockKey : 0 ≤ nextKey.now) (clock : Nat → Int) :
    ∃ feed', (s.iterate generator config.hasCythonEngine args.maxOrders elapsed rendered key next nextKey
      clock).Inv generator config args feed' := by
  have hlimit := h.limit
  rw [hmode] at hlimit
  obtain ⟨hcount, hle⟩ := hlimit
  have hrate := h.rate
  -- the order that is due, after which the session may have fallen back
  have hdue : ∃ feed' t, (if s.isPaused = false ∧ elapsed = true then s.stepOne generator next clock else s) = t ∧
      t.toMarketMonitor.Replays generator config feed' ∧ t.seed = config.seed ∧ t.targetRate = s.targetRate ∧
      (t.mode = .curses ∧ t.monitor.engine.getOrderCount = feed'.length ∨ t.mode = .headless 0) ∧
      ∀ n ∈ args.maxOrders, (feed'.length : Int) ≤ max 0 n + 1 := by
    split
    · obtain ⟨submitted, hreplays, hseed, hsame, hwent⟩ := stepOne_effect h.replays hclock clock
      refine ⟨feed ++ submitted, _, rfl, hreplays, hseed.trans h.seed, hsame, ?_, ?_⟩
      · obtain ⟨hmode', hone, hcount'⟩ | ⟨hmode', -⟩ := hwent
        · exact .inl ⟨hmode'.trans hmode, by rw [hcount', hcount, List.length_append, hone]⟩
        · exact .inr hmode'
      · intro n hn
        have hbefore := hle n hn
        have hone : submitted.length ≤ 1 := by
          obtain ⟨-, hone, -⟩ | ⟨-, hone⟩ := hwent
          · exact hone.le
          · exact hone
        rw [List.length_append]
        omega
    · exact ⟨feed, s, rfl, h.replays, h.seed, rfl, .inl ⟨hmode, hcount⟩, fun n hn => (hle n hn).trans (by omega)⟩
  obtain ⟨feed', t, hstepped, hreplays, hseed, hsame, hwent, hbound⟩ := hdue
  have hrate' : 1 ≤ t.targetRate ∧ t.targetRate ≤ max 500 args.rate := by rwa [hsame]
  have hpositive : s.targetRate ≠ 0 := by omega
  have hfallen : ∀ n ∈ args.maxOrders,
      ((0 : Nat) : Int) < max 1 n ∧ (feed'.length : Int) ≤ max 0 n + 1 + ((0 : Nat) : Int) := by
    intro n hn
    have hn' := hbound n hn
    omega
  rw [DashboardSession.iterate, if_neg hpositive]
  dsimp only
  rw [hstepped]
  obtain ⟨hmode', hcount'⟩ | hmode' := hwent
  · rw [if_neg (not_not.mpr hmode')]
    split
    · exact ⟨feed', hseed, hreplays, ⟨hcount', hbound⟩, hrate'⟩
    · next hroom =>
        have hroom' := limitReached_eq_false (Bool.eq_false_of_not_eq_true hroom)
        rw [hcount'] at hroom'
        split
        · exact ⟨feed', hseed, hreplays, hfallen, hrate'⟩
        · refine Inv.handleKey ⟨hseed, hreplays, ?_, hrate'⟩ hmode' hroom' key hclockKey clock
          rw [hmode']
          refine ⟨hcount', fun n hn => ?_⟩
          have hn' := hroom' n hn
          omega
  · rw [if_pos (by rw [hmode']; decide)]
    refine ⟨feed', hseed, hreplays, ?_, hrate'⟩
    rw [hmode']
    exact hfallen

theorem Inv.iterateHeadless {feed : List ((OrderDict × Int) × Growth)} {s : DashboardSession σ}
    (h : s.Inv generator config args feed) {ordersProcessed : Nat} (hmode : s.mode = .headless ordersProcessed)
    (printed : Bool) {next : NextOrder} (hclock : 0 ≤ next.now) (clock : Nat → Int) : ∃ feed',
      (s.iterateHeadless generator args.maxOrders ordersProcessed printed next clock).Inv generator config args
        feed' := by
  have hclocks : ∀ i, 0 ≤ ((fun _ => next : Nat → NextOrder) i).now := fun _ => hclock
  obtain ⟨submitted, hreplays, hlength⟩ := h.replays.step 1 hclocks clock
  have hseed := (seed_step generator 1 (fun _ => next) clock s.toMarketMonitor).trans h.seed
  have hlimit := h.limit
  rw [hmode] at hlimit
  refine ⟨feed ++ submitted, ?_⟩
  rw [DashboardSession.iterateHeadless]
  rcases hstep : s.toMarketMonitor.step generator 1 (fun _ => next) clock with ⟨result, pushed, market⟩
  rw [hstep] at hreplays hlength hseed
  cases result with
  | error err => exact ⟨hseed, hreplays, trivial, h.rate⟩
  | ok latencies =>
      obtain ⟨hlength, -⟩ := hlength
      refine ⟨hseed, hreplays, ?_, h.rate⟩
      dsimp only
      rw [List.length_append]
      split
      · trivial
      split
      · intro n hn
        have hn' := hlimit n hn
        omega
      · next hroom =>
          intro n hn
          have hn' := hlimit n hn
          have hless := limitReached_eq_false (Bool.eq_false_of_not_eq_true hroom) n hn
          omega

theorem Inv.showOnce {feed : List ((OrderDict × Int) × Growth)} {s : DashboardSession σ}
    (h : s.Inv generator config args feed) (hmode : s.mode = .once) {next : Nat → NextOrder}
    (hclock : ∀ i, 0 ≤ (next i).now) (clock : Nat → Int) : ∃ feed',
      (s.showOnce generator args.maxOrders next clock).Inv generator config args feed' := by
  have hlimit := h.limit
  rw [hmode] at hlimit
  obtain rfl : feed = [] := List.eq_nil_of_length_eq_zero hlimit
  have hempty : s.monitor.engine.getOrderCount = 0 := Nat.le_zero.mp h.replays.count_le
  obtain ⟨submitted, hreplays, hlength⟩ := h.replays.step (onceOrders args.maxOrders) hclock clock
  have hseed := (seed_step generator (onceOrders args.maxOrders) next clock s.toMarketMonitor).trans h.seed
  refine ⟨submitted, ?_⟩
  rw [DashboardSession.showOnce]
  rcases hstep : s.toMarketMonitor.step generator (onceOrders args.maxOrders) next clock with ⟨result, pushed, market⟩
  rw [hstep] at hreplays hlength hseed
  cases result with
  | error err => exact ⟨hseed, hreplays, trivial, h.rate⟩
  | ok latencies =>
      obtain ⟨hlength, hcount⟩ := hlength
      dsimp only at hcount
      refine ⟨hseed, hreplays, ⟨?_, by rw [hcount, hempty, Nat.zero_add]⟩, h.rate⟩
      have hten : 10 ≤ onceOrders args.maxOrders := by
        cases args.maxOrders with
        | none => exact le_refl _
        | some n => exact le_max_left _ _
      omega

theorem Inv.step {feed : List ((OrderDict × Int) × Growth)} {s s' : DashboardSession σ}
    (h : s.Inv generator config args feed) {action : SessionAction} (hclock : ReadsClock action)
    (hstep : s.step generator config.hasCythonEngine args.maxOrders action = some s') :
    ∃ feed', s'.Inv generator config args feed' := by
  have hlimit := h.limit
  unfold DashboardSession.step at hstep
  split at hstep
  · next hmode =>
      cases hstep
      exact h.showOnce hmode hclock _
  · cases hstep
    exact ⟨feed, h.seed, h.replays, trivial, h.rate⟩
  · next hmode =>
      cases hstep
      exact h.iterate hmode _ _ _ hclock.1 hclock.2 _
  · next hmode =>
      cases hstep
      rw [hmode] at hlimit
      refine ⟨feed, h.seed, h.replays, fun n hn => ?_, h.rate⟩
      have hn' := hlimit.2 n hn
      omega
  · cases hstep
    exact ⟨feed, h.seed, h.replays, trivial, h.rate⟩
  · next hmode =>
      cases hstep
      exact h.iterateHeadless hmode _ hclock _
  · next hmode =>
      cases hstep
      rw [hmode] at hlimit
      refine ⟨feed, h.seed, h.replays, fun n hn => ?_, h.rate⟩
      have hn' := hlimit n hn
      omega
  · cases hstep

/-- Whatever is pressed, whatever the terminal and the memory do: since the last reset the engine was handed the
first orders of the market of a new simulator with the seed, no more of them than the limit allows. If it counts
them all, which it does as long as the dashboard runs, its trades are those of the baseline book. The rate never
leaves its range. -/
theorem session_sound (hgenerator : generator.Documented) (args : SessionArgs) (isatty : Bool) {config : MonitorConfig}
    (hbase : config.basePrice.Moderate) {actions : List SessionAction} (hclock : ∀ action ∈ actions, ReadsClock action)
    {s : DashboardSession σ}
    (hrun : Transition.run (step generator config.hasCythonEngine args.maxOrders) actions
      (start generator args isatty config) = some s) :
    ∃ feed, s.Inv generator config args feed ∧ s.monitor.engine.getOrderCount ≤ feed.length ∧
      (s.monitor.engine.getOrderCount = feed.length → s.monitor.engine.getTrades =
        (Baseline.OrderBook.run (feed.map fun entry => directArgs entry.1) {}).trades) := by
  have hstep : ∀ {action : SessionAction} {s s' : DashboardSession σ}, ReadsClock action →
      s.step generator config.hasCythonEngine args.maxOrders action = some s' →
      (∃ feed, s.Inv generator config args feed) → ∃ feed, s'.Inv generator config args feed :=
    fun hclock' hstep ⟨feed, h⟩ => h.step hclock' hstep
  obtain ⟨feed, hinv⟩ := Transition.invariant_throughout hstep hrun (Transition.Throughout.of_forall hclock _)
    ⟨[], inv_start generator args isatty config⟩
  exact ⟨feed, hinv, hinv.replays.count_le, hinv.replays.trades hgenerator hbase⟩

/-- Two orders and a reset, then an order that is due with one that a key asks for, and a terminal that fails. -/
def resetAndFallBack : List SessionAction :=
  let next : NextOrder := ⟨5, .unlimited, 1⟩
  let clock : Nat → Int := fun _ => 0
  [.iterate true true (ord 'h') next next clock, .iterate true true (ord 'r') next next clock,
    .iterate true true (ord 's') next next clock, .cursesError, .headless true next clock]

theorem session_sound_resetAndFallBack : ∃ s, Transition.run (step steadyGenerator true (some 5)) resetAndFallBack
      (start steadyGenerator { maxOrders := some 5 } true simulatedConfig) = some s ∧
    s.mode = .headless 1 ∧ s.monitor.engine.getTrades.length = 1 ∧
    ∃ feed, s.Inv steadyGenerator simulatedConfig { maxOrders := some 5 } feed ∧
      s.monitor.engine.getOrderCount ≤ feed.length ∧
      (s.monitor.engine.getOrderCount = feed.length → s.monitor.engine.getTrades =
        (Baseline.OrderBook.run (feed.map fun entry => directArgs entry.1) {}).trades) := by
  have hreached : (Transition.run (step steadyGenerator true (some 5)) resetAndFallBack
      (start steadyGenerator { maxOrders := some 5 } true simulatedConfig)).map
        (fun s => (s.mode, s.monitor.engine.getTrades.length)) = some (.headless 1, 1) := by decide +kernel
  obtain ⟨s, hrun, hs⟩ := Option.map_eq_some_iff.mp hreached
  have hclock : ∀ action ∈ resetAndFallBack, ReadsClock action := by
    intro action haction
    simp only [resetAndFallBack, List.mem_cons, List.not_mem_nil, or_false] at haction
    rcases haction with rfl | rfl | rfl | rfl | rfl <;> simp [ReadsClock]
  exact ⟨s, hrun, (Prod.ext_iff.mp hs).1, (Prod.ext_iff.mp hs).2,
    session_sound steadyGenerator_documented { maxOrders := some 5 } true Binary64.moderate_hundred hclock hrun⟩

end DashboardSession

end ChronosMatch
