import ChronosMatch.Persistence.Accounting

/-!
# Starting and stopping the worker

`start` and `stop` of `BackgroundPersistenceWorker`, called in any order over the threads that they have
started. A stop whose join times out forgets its thread, and the next `start` does not see that it still
runs: the worker then has two loops over one `_pending_batch`.
-/

namespace ChronosMatch

variable {ρ ε κ : Type}

/-- Where the caller of `start` and `stop` is: `stop` looks whether there is a thread to join after it has
set the event. -/
inductive Caller
  | idle
  | stopping
  | joining
deriving DecidableEq

/-- The worker with its threads, in the order in which they were started. `current` is `_thread`. -/
structure WorkerProcess (ρ ε : Type) where
  shared : Shared ρ ε
  threads : List (Pc ε) := []
  current : Option Nat := none
  caller : Caller := .idle

inductive LifecycleAction (ε κ : Type)
  | start
  | stop
  | lookForThread
  | join (timedOut : Bool)
  | thread (index : Nat) (move : Move κ)
  | push (event : ε)

def Pc.isAlive : Pc ε → Bool
  | .exited => false
  | _ => true

namespace WorkerProcess

/-- A new worker -/
def created (worker : BackgroundPersistenceWorker ε) (queue : TradeEventQueue ε) (repository : ρ) :
    WorkerProcess ρ ε where
  shared := { worker, queue, repository }

def isAlive (index : Nat) (p : WorkerProcess ρ ε) : Bool := (p.threads[index]?).any Pc.isAlive

/-- `_thread is not None and _thread.is_alive()` -/
def currentIsAlive (p : WorkerProcess ρ ε) : Bool := p.current.any p.isAlive

end WorkerProcess

namespace LifecycleAction

/-- One step. `start` holds the lock of the worker, which a thread takes before it ends, so no thread ends
within it. -/
def step (save : SaveTradesBatch ρ ε κ) : LifecycleAction ε κ → WorkerProcess ρ ε → Option (WorkerProcess ρ ε)
  | .start, p =>
      if p.caller ≠ .idle then none
      else if p.currentIsAlive then some p
      else some { p with
        shared := p.shared.withWorker fun w => { w with stopEvent := false, state := .running }
        threads := p.threads ++ [.loopTop]
        current := some p.threads.length }
  | .stop, p =>
      if p.caller ≠ .idle then none
      else some { p with shared := p.shared.signalStop, caller := .stopping }
  | .lookForThread, p =>
      if p.caller ≠ .stopping then none
      else some { p with caller := if p.currentIsAlive then .joining else .idle }
  | .join timedOut, p =>
      if p.caller ≠ .joining then none
      else if p.currentIsAlive && !timedOut then none
      else some { p with current := none, caller := .idle }
  | .thread index move, p => do
      let pc ← p.threads[index]?
      let (pc, shared) ← Thread.step save move (pc, p.shared)
      some { p with shared, threads := p.threads.set index pc }
  | .push event, p =>
      some { p with shared := { p.shared with queue := (p.shared.queue.push event).2 } }

end LifecycleAction

/-- At most one thread is in `_run_loop` or `_drain_remaining`. -/
def OneLoop (p : WorkerProcess ρ ε) : Prop := ∀ i j, p.isAlive i → p.isAlive j → i = j

/-- No `start` while a thread that `_thread` does not refer to still runs. -/
def StartsAlone (action : LifecycleAction ε κ) (p : WorkerProcess ρ ε) : Prop :=
  action = .start → ∀ i, p.isAlive i → p.current = some i

/-! ### The threads under a step -/

theorem Thread.isAlive_of_step {save : SaveTradesBatch ρ ε κ} {move : Move κ} {pc : Pc ε} {s : Shared ρ ε}
    {st : Pc ε × Shared ρ ε} (hstep : Thread.step save move (pc, s) = some st) : pc.isAlive := by
  cases pc with
  | exited => cases move <;> cases hstep
  | _ => rfl

namespace WorkerProcess

theorem lt_of_isAlive {i : Nat} {p : WorkerProcess ρ ε} (h : p.isAlive i) : i < p.threads.length := by
  by_contra hge
  rw [isAlive, List.getElem?_eq_none (Nat.not_lt.mp hge)] at h
  cases h

theorem currentIsAlive_iff {p : WorkerProcess ρ ε} :
    p.currentIsAlive ↔ ∃ i, p.current = some i ∧ p.isAlive i := by
  rw [currentIsAlive, Option.any_eq_true]

theorem isAlive_spawn {p p' : WorkerProcess ρ ε} (h : p'.threads = p.threads ++ [.loopTop]) (i : Nat) :
    p'.isAlive i ↔ p.isAlive i ∨ i = p.threads.length := by
  rw [isAlive, isAlive, h]
  rcases Nat.lt_trichotomy i p.threads.length with hlt | rfl | hgt
  · rw [List.getElem?_append_left hlt]
    simp [hlt.ne]
  · simp [Pc.isAlive]
  · rw [List.getElem?_eq_none (by simp; omega), List.getElem?_eq_none (by omega)]
    simp [hgt.ne']

theorem isAlive_set {p p' : WorkerProcess ρ ε} {index : Nat} {pc : Pc ε} (hindex : p.isAlive index)
    (h : p'.threads = p.threads.set index pc) {i : Nat} (hi : p'.isAlive i) : p.isAlive i := by
  by_cases heq : i = index
  · rwa [heq]
  · rwa [isAlive, h, List.getElem?_set_ne (Ne.symm heq)] at hi

end WorkerProcess

open WorkerProcess

/-- A step starts a thread, when `start` finds none in `_thread` that is alive, or makes none alive. -/
theorem LifecycleAction.step_cases {save : SaveTradesBatch ρ ε κ} {action : LifecycleAction ε κ}
    {p p' : WorkerProcess ρ ε} (hstep : action.step save p = some p') :
    (action = .start ∧ p.currentIsAlive = false ∧ p'.threads = p.threads ++ [.loopTop]) ∨
      ((action = .start → p.currentIsAlive) ∧ ∀ i, p'.isAlive i → p.isAlive i) := by
  cases action with
  | start =>
      rw [step] at hstep
      split at hstep
      · cases hstep
      · split at hstep
        · next halive =>
            cases hstep
            exact .inr ⟨fun _ => halive, fun _ h => h⟩
        · next hdead =>
            cases hstep
            exact .inl ⟨rfl, Bool.not_eq_true _ ▸ hdead, rfl⟩
  | stop =>
      rw [step] at hstep
      split at hstep
      · cases hstep
      · cases hstep
        exact .inr ⟨fun h => (by cases h), fun _ h => h⟩
  | lookForThread =>
      rw [step] at hstep
      split at hstep
      · cases hstep
      · cases hstep
        exact .inr ⟨fun h => (by cases h), fun _ h => h⟩
  | join timedOut =>
      rw [step] at hstep
      split at hstep
      · cases hstep
      · split at hstep
        · cases hstep
        · cases hstep
          exact .inr ⟨fun h => (by cases h), fun _ h => h⟩
  | thread index move =>
      simp only [step, Option.bind_eq_bind, Option.bind_eq_some_iff] at hstep
      obtain ⟨pc, hpc, ⟨pc', shared⟩, hthread, hstep⟩ := hstep
      cases hstep
      have halive : p.isAlive index := by
        rw [WorkerProcess.isAlive, hpc]
        exact Thread.isAlive_of_step hthread
      exact .inr ⟨fun h => (by cases h), fun _ hi => isAlive_set halive rfl hi⟩
  | push event =>
      cases hstep
      exact .inr ⟨fun h => (by cases h), fun _ h => h⟩

theorem OneLoop.step {save : SaveTradesBatch ρ ε κ} {action : LifecycleAction ε κ} {p p' : WorkerProcess ρ ε}
    (hstarts : StartsAlone action p) (hstep : action.step save p = some p') (h : OneLoop p) : OneLoop p' := by
  intro i j hi hj
  rcases LifecycleAction.step_cases hstep with ⟨rfl, hdead, hthreads⟩ | ⟨-, hold⟩
  · -- the only thread that could be alive is the one that `start` looked at
    have hnone : ∀ k, ¬ p.isAlive k := by
      intro k hk
      have : p.currentIsAlive := currentIsAlive_iff.mpr ⟨k, hstarts rfl k hk, hk⟩
      rw [hdead] at this
      cases this
    rw [isAlive_spawn hthreads] at hi hj
    rw [hi.resolve_left (hnone i), hj.resolve_left (hnone j)]
  · exact h i j (hold i hi) (hold j hj)

theorem OneLoop.startsAlone {save : SaveTradesBatch ρ ε κ} {action : LifecycleAction ε κ} {p p' : WorkerProcess ρ ε}
    (h : OneLoop p) (hstep : action.step save p = some p') (h' : OneLoop p') : StartsAlone action p := by
  intro hstart i hi
  rcases LifecycleAction.step_cases hstep with ⟨-, -, hthreads⟩ | ⟨halive, -⟩
  · have hnew := h' i p.threads.length ((isAlive_spawn hthreads i).mpr (.inl hi))
      ((isAlive_spawn hthreads _).mpr (.inr rfl))
    exact absurd hnew (lt_of_isAlive hi).ne
  · obtain ⟨j, hcurrent, hj⟩ := currentIsAlive_iff.mp (halive hstart)
    rw [hcurrent, h j i hj hi]

/-- There is one loop at most in every state of a run if and only if no `start` of the run comes while a
thread that `_thread` does not refer to still runs. -/
theorem oneLoop_run_iff (save : SaveTradesBatch ρ ε κ) (batchSize shutdownRetryAttempts : Int)
    (queue : TradeEventQueue ε) (repository : ρ) (actions : List (LifecycleAction ε κ)) (p : WorkerProcess ρ ε)
    (hrun : Transition.run (LifecycleAction.step save) actions
      (.created (.create batchSize shutdownRetryAttempts) queue repository) = some p) :
    Transition.Always (LifecycleAction.step save) OneLoop actions
        (.created (.create batchSize shutdownRetryAttempts) queue repository) ↔
      Transition.Throughout (LifecycleAction.step save) StartsAlone actions
        (.created (.create batchSize shutdownRetryAttempts) queue repository) := by
  refine Transition.always_iff_throughout OneLoop.step (fun h => h) OneLoop.startsAlone hrun ?_
  intro i j hi
  exact absurd (lt_of_isAlive hi) (Nat.not_lt_zero i)

/-- A worker is stopped and started again after its thread has ended. -/
def restartedAfterExit : List (LifecycleAction Nat Bool) :=
  [.start, .stop, .lookForThread, .thread 0 .go, .thread 0 .go, .thread 0 .go, .join false, .start]

theorem oneLoop_run_iff_restartedAfterExit :
    ∃ p, Transition.run (LifecycleAction.step saveOrRaise) restartedAfterExit
        (.created (.create 1 1) (.create 10 .dropOldest) []) = some p ∧
      (Transition.Always (LifecycleAction.step saveOrRaise) OneLoop restartedAfterExit
          (.created (.create 1 1) (.create 10 .dropOldest) []) ↔
        Transition.Throughout (LifecycleAction.step saveOrRaise) StartsAlone restartedAfterExit
          (.created (.create 1 1) (.create 10 .dropOldest) [])) :=
  ⟨_, rfl, oneLoop_run_iff saveOrRaise 1 1 (.create 10 .dropOldest) [] restartedAfterExit _ rfl⟩

/-- A write is slow, the join times out and the worker is started again; then both writes fail. -/
def restartedDuringWrite : List (LifecycleAction Nat Bool) :=
  [.start, .push 1, .push 2, .thread 0 .go, .thread 0 .go, .stop, .lookForThread, .join true, .start,
    .thread 1 .go, .thread 1 .go, .thread 1 (.save false), .thread 0 (.save false)]

/-- Two loops run, and the batch that one of them held for a retry is overwritten by the other. -/
theorem not_oneLoop_restartedDuringWrite :
    ∃ p, Transition.run (LifecycleAction.step saveOrRaise) restartedDuringWrite
        (.created (.create 1 1) (.create 10 .dropOldest) []) = some p ∧ ¬ OneLoop p ∧
      p.threads = [.loopTop, .loopTop] ∧ p.shared.journal.popped = [1, 2] ∧ p.shared.journal.saved = [] ∧
      p.shared.worker.pendingBatch = some [1] := by
  refine ⟨_, rfl, ?_, rfl, rfl, rfl, rfl⟩
  intro h
  exact absurd (h 0 1 rfl rfl) (by decide)

end ChronosMatch
