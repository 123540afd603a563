import ChronosMatch.Base.RoundingOrder
import ChronosMatch.Persistence.Accounting

/-!
# The backoff of the persistence worker

Before each new try of a batch that could not be stored the worker of `src/persistence/worker.py` waits. The
wait doubles from one try to the next until it reaches a bound, and starts over once a batch is stored. The
worker is the thread of `Persistence/Worker` beside its current delay and the waits since a batch was last
stored.
-/

namespace ChronosMatch

variable {ρ ε κ : Type}

/-- The literal `0.001`. -/
def shortestDelay : Binary64 := Binary64.roundRatio false 1 1000 0

/-- `_retry_initial_delay` and `_retry_max_delay` -/
structure RetryPolicy where
  retryInitialDelay : Binary64
  retryMaxDelay : Binary64
  shortest_le : shortestDelay ≤ retryInitialDelay
  initial_le : retryInitialDelay ≤ retryMaxDelay

theorem Binary64.le_maximum {a : Binary64} (ha : a.isNaN = false) (b : Binary64) : a ≤ Binary64.maximum a b := by
  rw [Binary64.maximum]
  split
  · next hlt => exact Binary64.le_of_lt hlt
  · exact ⟨ha, ha, le_rfl⟩

namespace RetryPolicy

/-- The delays as `__init__` reads them. -/
def create (retryInitialDelay retryMaxDelay : Binary64) : RetryPolicy where
  retryInitialDelay := Binary64.maximum shortestDelay retryInitialDelay
  retryMaxDelay := Binary64.maximum (Binary64.maximum shortestDelay retryInitialDelay) retryMaxDelay
  shortest_le := Binary64.le_maximum (by decide) _
  initial_le := Binary64.le_maximum (Binary64.le_maximum (by decide) _).2.1 _

/-- `min(self._retry_delay * 2, self._retry_max_delay)` -/
def doubled (policy : RetryPolicy) (delay : Binary64) : Binary64 :=
  Binary64.minimum (delay * Binary64.ofInt 2) policy.retryMaxDelay

/-- The delay after a number of tries again that failed. -/
def delayAfter (policy : RetryPolicy) : Nat → Binary64
  | 0 => policy.retryInitialDelay
  | failures + 1 => policy.doubled (policy.delayAfter failures)

theorem initial_nonneg (policy : RetryPolicy) : Binary64.zero ≤ policy.retryInitialDelay :=
  Binary64.le_trans (by decide : Binary64.zero ≤ shortestDelay) policy.shortest_le

section Finite

variable (policy : RetryPolicy) (hfinite : policy.retryMaxDelay.isFinite = true)
include hfinite

theorem delayAfter_mem (failures : Nat) : policy.retryInitialDelay ≤ policy.delayAfter failures ∧
    policy.delayAfter failures ≤ policy.retryMaxDelay := by
  induction failures with
  | zero => exact ⟨⟨policy.initial_le.1, policy.initial_le.1, le_rfl⟩, policy.initial_le⟩
  | succ failures ih =>
      obtain ⟨hlow, hhigh⟩ := ih
      have hdoubled := Binary64.le_minimum_double (Binary64.le_trans policy.initial_nonneg hlow) hhigh hfinite
      exact ⟨Binary64.le_trans hlow hdoubled.1, hdoubled.2⟩

/-- The rounding of the code loses nothing: the delays are the powers of two of the first, up to the bound. -/
theorem toRat_delayAfter (failures : Nat) : (policy.delayAfter failures).toRat =
    min (policy.retryInitialDelay.toRat * 2 ^ failures) policy.retryMaxDelay.toRat := by
  induction failures with
  | zero =>
      rw [pow_zero, mul_one, min_eq_left (Binary64.toRat_mono policy.initial_le)]
      rfl
  | succ failures ih =>
      obtain ⟨hlow, hhigh⟩ := policy.delayAfter_mem hfinite failures
      have hmax := Binary64.toRat_mono (Binary64.le_trans policy.initial_nonneg policy.initial_le)
      rw [Binary64.toRat_zero] at hmax
      rw [delayAfter, doubled,
        Binary64.toRat_minimum_double (Binary64.le_trans policy.initial_nonneg hlow) hhigh hfinite, ih]
      calc min (min (policy.retryInitialDelay.toRat * 2 ^ failures) policy.retryMaxDelay.toRat * 2)
            policy.retryMaxDelay.toRat
          = min (min (policy.retryInitialDelay.toRat * 2 ^ failures * 2) (policy.retryMaxDelay.toRat * 2))
              policy.retryMaxDelay.toRat := by rw [min_mul_of_nonneg _ _ zero_le_two]
        _ = min (policy.retryInitialDelay.toRat * 2 ^ failures * 2) policy.retryMaxDelay.toRat := by
              rw [min_assoc, min_eq_right (b := policy.retryMaxDelay.toRat) (by linarith)]
        _ = min (policy.retryInitialDelay.toRat * 2 ^ (failures + 1)) policy.retryMaxDelay.toRat := by
              rw [pow_succ, mul_assoc]

end Finite

end RetryPolicy

/-! ### The worker with its delays -/

theorem Thread.pending_of_await {save : SaveTradesBatch ρ ε κ} {s s' : Shared ρ ε}
    (hstep : Thread.step save .go (.loopTop, s) = some (.retryWait, s')) : s.worker.pendingBatch ≠ none := by
  intro hnone
  simp only [Thread.step, hnone, Option.isSome_none, Bool.false_eq_true, if_false] at hstep
  split at hstep <;> cases hstep

theorem Thread.pending_of_nothingToRetry {save : SaveTradesBatch ρ ε κ} {s s' : Shared ρ ε}
    (hstep : Thread.step save (.wait false) (.retryWait, s) = some (.loopTop, s')) :
    s.worker.pendingBatch = none := by
  cases hpending : s.worker.pendingBatch with
  | none => rfl
  | some batch =>
      have hretry : Thread.step save (.wait false) (.retryWait, s) =
          some (.saving batch .retry, s.withWorker .countRetry) := by
        simp only [Thread.step, Bool.false_eq_true, if_false, Shared.withWorker,
          BackgroundPersistenceWorker.countRetry, hpending]
      rw [hretry] at hstep
      cases hstep

/-- The worker thread with `_retry_delay`, and the waits since a batch was last stored. -/
structure PacedWorker (ρ ε : Type) where
  pc : Pc ε
  shared : Shared ρ ε
  retryDelay : Binary64
  waits : List Binary64 := []

namespace PacedWorker

/-- The thread that the first `start` of a new worker leaves behind. A later one would go on with the delay that is
there. -/
def started (policy : RetryPolicy) (batchSize shutdownRetryAttempts : Int) (queue : TradeEventQueue ε)
    (repository : ρ) : PacedWorker ρ ε where
  pc := (ChronosMatch.started (.create batchSize shutdownRetryAttempts) queue repository).1
  shared := (ChronosMatch.started (.create batchSize shutdownRetryAttempts) queue repository).2
  retryDelay := policy.retryInitialDelay

/-- What an action does to the delay and to the waits: the thread waits before it tries a batch again, starts
over when a batch is stored, and doubles the delay when a batch has failed again in the loop. -/
def paced (policy : RetryPolicy) (save : SaveTradesBatch ρ ε κ) (action : WorkerAction ε κ) (st : PacedWorker ρ ε) :
    Binary64 × List Binary64 :=
  match action, st.pc with
  | .thread (.wait _), .retryWait => (st.retryDelay, st.waits ++ [st.retryDelay])
  | .thread (.save outcome), .saving batch site =>
      match (save outcome batch st.shared.repository).1, site with
      | some _, _ => (policy.retryInitialDelay, [])
      | none, .retry => (policy.doubled st.retryDelay, st.waits)
      | none, _ => (st.retryDelay, st.waits)
  | _, _ => (st.retryDelay, st.waits)

def step (policy : RetryPolicy) (save : SaveTradesBatch ρ ε κ) (action : WorkerAction ε κ) (st : PacedWorker ρ ε) :
    Option (PacedWorker ρ ε) :=
  (action.step save (st.pc, st.shared)).map fun (pc, shared) =>
    { pc, shared, retryDelay := (st.paced policy save action).1, waits := (st.paced policy save action).2 }

/-- What holds of the delay where the thread stands. In the loop the waits tell how often the batch has failed. -/
def Phase (policy : RetryPolicy) (pendingBatch : Option (List ε)) (retryDelay : Binary64) (waits : Nat) : Pc ε → Prop
  | .loopTop => retryDelay = policy.delayAfter waits ∧ (pendingBatch = none → waits = 0)
  | .retryWait => retryDelay = policy.delayAfter waits ∧ pendingBatch ≠ none
  | .popping => retryDelay = policy.delayAfter waits ∧ waits = 0
  | .saving _ .fresh => retryDelay = policy.delayAfter waits ∧ waits = 0
  | .saving _ .retry => ∃ failures, waits = failures + 1 ∧ retryDelay = policy.delayAfter failures
  | _ => ∃ failures, retryDelay = policy.delayAfter failures

/-- The waits are the first delays of the policy. -/
structure Paces (policy : RetryPolicy) (st : PacedWorker ρ ε) : Prop where
  waits : st.waits = (List.range st.waits.length).map policy.delayAfter
  phase : Phase policy st.shared.worker.pendingBatch st.retryDelay st.waits.length st.pc

theorem Paces.started (policy : RetryPolicy) (batchSize shutdownRetryAttempts : Int) (queue : TradeEventQueue ε)
    (repository : ρ) : Paces policy (PacedWorker.started policy batchSize shutdownRetryAttempts queue repository) :=
  ⟨rfl, rfl, fun _ => rfl⟩

theorem waits_concat {policy : RetryPolicy} {waits : List Binary64} {delay : Binary64}
    (hwaits : waits = (List.range waits.length).map policy.delayAfter)
    (hdelay : delay = policy.delayAfter waits.length) :
    waits ++ [delay] = (List.range (waits ++ [delay]).length).map policy.delayAfter := by
  rw [List.length_append, List.length_singleton, List.range_succ, List.map_append, ← hwaits, hdelay]
  rfl

/-- Only a batch that was tried again in the loop makes the delay longer. -/
theorem paced_failed {policy : RetryPolicy} {save : SaveTradesBatch ρ ε κ} {batch : List ε} {site : SaveSite}
    {s : Shared ρ ε} {delay : Binary64} {waits : List Binary64} {outcome : κ} {repository : ρ}
    (hsave : save outcome batch s.repository = (none, repository)) (hsite : site ≠ .retry) :
    paced policy save (.thread (.save outcome)) ⟨.saving batch site, s, delay, waits⟩ = (delay, waits) := by
  cases site with
  | retry => exact absurd rfl hsite
  | fresh => simp only [paced, hsave]
  | drain attempt d => simp only [paced, hsave]

theorem Paces.thread {policy : RetryPolicy} {save : SaveTradesBatch ρ ε κ} {move : Move κ} {st : PacedWorker ρ ε}
    {pc' : Pc ε} {s' : Shared ρ ε} (hstep : Thread.step save move (st.pc, st.shared) = some (pc', s'))
    (h : Paces policy st) :
    Paces policy
      ⟨pc', s', (st.paced policy save (.thread move)).1, (st.paced policy save (.thread move)).2⟩ := by
  obtain ⟨pc, s, delay, waits⟩ := st
  obtain ⟨hwaits, hphase⟩ := h
  have hcases := Thread.step_cases hstep
  cases hcases with
  | stop hstop => exact ⟨hwaits, waits.length, hphase.1⟩
  | await =>
      exact ⟨hwaits, hphase.1, Thread.pending_of_await hstep⟩
  | poll hpending => exact ⟨hwaits, hphase.1, hphase.2 hpending⟩
  | wakeUp hstop => exact ⟨waits_concat hwaits hphase.1, waits.length, hphase.1⟩
  | retry batch hpending =>
      exact ⟨waits_concat hwaits hphase.1, waits.length, List.length_append, hphase.1⟩
  | nothingToRetry =>
      -- a thread that waits has something to retry
      exact absurd (Thread.pending_of_nothingToRetry hstep) hphase.2
  | idle hempty => exact ⟨hwaits, hphase.1, fun _ => hphase.2⟩
  | took hbatch => exact ⟨hwaits, hphase⟩
  | saved batch site outcome counts repository hsave pc hpc =>
      have hpaced : paced policy save (.thread (.save outcome)) ⟨.saving batch site, s, delay, waits⟩ =
          (policy.retryInitialDelay, []) := by
        simp only [paced, hsave]
      rw [hpaced, hpc]
      cases site with
      | retry => exact ⟨rfl, rfl, fun _ => rfl⟩
      | fresh => exact ⟨rfl, rfl, fun _ => rfl⟩
      | drain attempt d => exact ⟨rfl, 0, rfl⟩
  | failed batch site outcome repository hsave hsite =>
      obtain rfl | rfl := hsite
      · obtain ⟨failures, hlength, hdelay⟩ := hphase
        have hpaced : paced policy save (.thread (.save outcome)) ⟨.saving batch .retry, s, delay, waits⟩ =
            (policy.doubled delay, waits) := by
          simp only [paced, hsave]
        rw [hpaced]
        refine ⟨hwaits, ?_, fun hnone => absurd hnone (Option.some_ne_none batch)⟩
        rw [hlength]
        exact congrArg policy.doubled hdelay
      · rw [paced_failed hsave (by decide)]
        exact ⟨hwaits, hphase.1, fun _ => hphase.2⟩
  | retried batch attempt d outcome repository hsave =>
      rw [paced_failed hsave (by simp)]
      exact ⟨hwaits, hphase⟩
  | gaveUp batch attempt d outcome repository hsave =>
      rw [paced_failed hsave (by simp)]
      exact ⟨hwaits, hphase⟩
  | flushHeld held hpending => exact ⟨hwaits, hphase⟩
  | flush hpending => exact ⟨hwaits, hphase⟩
  | exit d hempty => exact ⟨hwaits, hphase⟩
  | discard d hgave => exact ⟨hwaits, hphase⟩
  | flushTook d hbatch hgave => exact ⟨hwaits, hphase⟩

theorem Paces.surroundings {policy : RetryPolicy} {st : PacedWorker ρ ε} (queue : TradeEventQueue ε) (stopEvent : Bool)
    (h : Paces policy st) : Paces policy
      { st with shared := { st.shared with queue, worker := { st.shared.worker with stopEvent } } } :=
  ⟨h.waits, h.phase⟩

theorem Paces.step {policy : RetryPolicy} {save : SaveTradesBatch ρ ε κ} {action : WorkerAction ε κ}
    {st st' : PacedWorker ρ ε} (hstep : st.step policy save action = some st') (h : Paces policy st) :
    Paces policy st' := by
  obtain ⟨⟨pc', s'⟩, haction, rfl⟩ := Option.map_eq_some_iff.mp hstep
  cases action with
  | thread move => exact h.thread haction
  | push event =>
      cases haction
      exact h.surroundings _ st.shared.worker.stopEvent
  | stop =>
      cases haction
      exact h.surroundings st.shared.queue true

theorem Paces.run {policy : RetryPolicy} {save : SaveTradesBatch ρ ε κ} {batchSize shutdownRetryAttempts : Int}
    {queue : TradeEventQueue ε} {repository : ρ} {actions : List (WorkerAction ε κ)} {st : PacedWorker ρ ε}
    (hrun : Transition.run (PacedWorker.step policy save) actions
      (.started policy batchSize shutdownRetryAttempts queue repository) = some st) : Paces policy st :=
  Transition.invariant Paces.step hrun (.started policy batchSize shutdownRetryAttempts queue repository)

theorem Paces.exists_delay {policy : RetryPolicy} {st : PacedWorker ρ ε} (h : Paces policy st) :
    ∃ failures, st.retryDelay = policy.delayAfter failures := by
  obtain ⟨pc, s, delay, waits⟩ := st
  have hphase := h.phase
  cases pc with
  | loopTop => exact ⟨_, hphase.1⟩
  | retryWait => exact ⟨_, hphase.1⟩
  | popping => exact ⟨_, hphase.1⟩
  | saving batch site =>
      cases site with
      | retry =>
          obtain ⟨failures, -, hdelay⟩ := hphase
          exact ⟨failures, hdelay⟩
      | fresh => exact ⟨_, hphase.1⟩
      | drain attempt d => exact hphase
  | drainStart => exact hphase
  | drainPop d => exact hphase
  | exited => exact hphase

end PacedWorker

/-- The first thread of a worker, however its writes go: the waits since a batch was last stored are the first delay
times the powers of two, up to the bound and exactly so; the delay stays between the first one and the bound, and is
the first one whenever nothing is pending. -/
theorem worker_backs_off (policy : RetryPolicy) (hfinite : policy.retryMaxDelay.isFinite = true)
    (save : SaveTradesBatch ρ ε κ) (batchSize shutdownRetryAttempts : Int) (queue : TradeEventQueue ε) (repository : ρ)
    (actions : List (WorkerAction ε κ)) (st : PacedWorker ρ ε)
    (hrun : Transition.run (PacedWorker.step policy save) actions
      (.started policy batchSize shutdownRetryAttempts queue repository) = some st) :
    st.waits.map Binary64.toRat = (List.range st.waits.length).map (fun failures =>
        min (policy.retryInitialDelay.toRat * 2 ^ failures) policy.retryMaxDelay.toRat) ∧
      policy.retryInitialDelay ≤ st.retryDelay ∧ st.retryDelay ≤ policy.retryMaxDelay ∧
      (st.pc = .loopTop → st.shared.worker.pendingBatch = none →
        st.waits = [] ∧ st.retryDelay = policy.retryInitialDelay) ∧
      (st.pc = .retryWait → st.retryDelay.toRat =
        min (policy.retryInitialDelay.toRat * 2 ^ st.waits.length) policy.retryMaxDelay.toRat) := by
  have h := PacedWorker.Paces.run hrun
  obtain ⟨failures, hdelay⟩ := h.exists_delay
  have hmem := policy.delayAfter_mem hfinite failures
  rw [← hdelay] at hmem
  refine ⟨?_, hmem.1, hmem.2, ?_, ?_⟩
  · conv_lhs => rw [h.waits]
    rw [List.map_map]
    apply List.map_congr_left
    intro failures _
    exact policy.toRat_delayAfter hfinite failures
  · intro hpc hnone
    have hphase := h.phase
    rw [hpc] at hphase
    have hlength := hphase.2 hnone
    refine ⟨List.length_eq_zero_iff.mp hlength, ?_⟩
    rw [hphase.1, hlength]
    rfl
  · intro hpc
    have hphase := h.phase
    rw [hpc] at hphase
    rw [hphase.1]
    exact policy.toRat_delayAfter hfinite _

/-- The delays the worker has by default: 0.05 and 2 seconds. -/
def defaultPolicy : RetryPolicy := .create (.roundRatio false 1 20 0) (.ofInt 2)

/-- A batch fails, fails three times more, and waits to be tried again. -/
def failingAgain : List (WorkerAction Nat Bool) :=
  [.push 1, .thread .go, .thread .go, .thread (.save false), .thread .go, .thread (.wait false), .thread (.save false),
    .thread .go, .thread (.wait false), .thread (.save false), .thread .go, .thread (.wait false),
    .thread (.save false), .thread .go]

theorem worker_backs_off_failingAgain : ∃ st,
    Transition.run (PacedWorker.step defaultPolicy saveOrRaise) failingAgain
      (.started defaultPolicy 2 2 (.create 10 .dropOldest) []) = some st ∧
    st.waits.map Binary64.toRat = (List.range st.waits.length).map (fun failures =>
        min (defaultPolicy.retryInitialDelay.toRat * 2 ^ failures) defaultPolicy.retryMaxDelay.toRat) ∧
      defaultPolicy.retryInitialDelay ≤ st.retryDelay ∧ st.retryDelay ≤ defaultPolicy.retryMaxDelay ∧
      (st.pc = .loopTop → st.shared.worker.pendingBatch = none →
        st.waits = [] ∧ st.retryDelay = defaultPolicy.retryInitialDelay) ∧
      (st.pc = .retryWait → st.retryDelay.toRat =
        min (defaultPolicy.retryInitialDelay.toRat * 2 ^ st.waits.length) defaultPolicy.retryMaxDelay.toRat) :=
  ⟨_, rfl, worker_backs_off defaultPolicy (by decide +kernel) saveOrRaise 2 2 (.create 10 .dropOldest) []
    failingAgain _ rfl⟩

end ChronosMatch
