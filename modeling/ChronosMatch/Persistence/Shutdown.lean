import ChronosMatch.Persistence.Accounting

/-!
# The shutdown of the worker ends

Once `stop` has set the event, the thread has only so many steps left. A batch that it takes costs it the
attempts of one save, and every batch holds a trade of the queue; only a push can give it more to do. Nothing is
asked of the database, which may fail every call.
-/

namespace ChronosMatch

variable {ρ ε κ : Type}

/-! ### The steps in detail -/

section Details

variable {save : SaveTradesBatch ρ ε κ} {s s' : Shared ρ ε}

theorem Thread.loopTop_of_stopped {move : Move κ} {pc : Pc ε} (hstop : s.worker.stopEvent = true)
    (hstep : Thread.step save move (.loopTop, s) = some (pc, s')) : pc = .drainStart := by
  cases move with
  | go =>
      simp only [Thread.step, hstop, if_true] at hstep
      cases hstep
      rfl
  | wait signalled => cases hstep
  | save outcome => cases hstep

theorem shutdownRetryAttempts_persist (batch : List ε) (result : Option (Nat × Nat)) (repository : ρ)
    (s : Shared ρ ε) :
    (s.persist batch result repository).worker.shutdownRetryAttempts = s.worker.shutdownRetryAttempts := by
  cases result <;> rfl

theorem Thread.attempt_lt {outcome : κ} {batch batch' : List ε} {attempt attempt' : Nat} {d d' : Drain}
    (hstep : Thread.step save (.save outcome) (.saving batch (.drain attempt d), s) =
      some (.saving batch' (.drain attempt' d'), s')) : attempt' < s.worker.shutdownRetryAttempts := by
  simp only [Thread.step, Thread.afterSave, shutdownRetryAttempts_persist] at hstep
  split at hstep
  · cases hstep
  · split at hstep
    · next hmore =>
        cases hstep
        exact hmore
    · cases hstep

theorem Thread.pop_ne_nil {d : Drain} {pc : Pc ε} (hpc : pc ≠ .exited)
    (hstep : Thread.step save .go (.drainPop d, s) = some (pc, s')) : s.pop.1 ≠ [] := by
  intro hempty
  simp only [Thread.step, hempty, List.isEmpty_nil, if_true] at hstep
  cases hstep
  exact hpc rfl

theorem ThreadStep.shutdownRetryAttempts {move : Move κ} {pc pc' : Pc ε} (hstep : ThreadStep save s move pc pc' s') :
    s'.worker.shutdownRetryAttempts = s.worker.shutdownRetryAttempts := by
  cases hstep with
  | saved => exact shutdownRetryAttempts_persist _ _ _ _
  | failed => exact shutdownRetryAttempts_persist _ _ _ _
  | retried => exact shutdownRetryAttempts_persist _ _ _ _
  | gaveUp => exact shutdownRetryAttempts_persist _ _ _ _
  | _ => rfl

theorem queue_persist (batch : List ε) (result : Option (Nat × Nat)) (repository : ρ) (s : Shared ρ ε) :
    (s.persist batch result repository).queue = s.queue := by
  cases result <;> rfl

end Details

theorem length_queue_pop (s : Shared ρ ε) : s.pop.1.length + s.pop.2.queue.queue.length = s.queue.queue.length := by
  have hqueue := congrArg List.length (s.queue.popBatch_queue s.worker.batchSize)
  rw [List.length_append] at hqueue
  exact hqueue

theorem TradeEventQueue.length_push_le (event : ε) (q : TradeEventQueue ε) :
    (q.push event).2.queue.length ≤ q.queue.length + 1 := by
  have heffect := q.push_effect event
  generalize (q.push event).1 = result, (q.push event).2 = q' at heffect
  cases heffect with
  | closed => exact Nat.le_succ _
  | refused => exact Nat.le_succ _
  | evicted hopen hfull hpolicy oldest rest hqueue =>
      rw [hqueue]
      simp [append]
  | accepted => simp [append]

/-! ### The steps that are left -/

/-- The most steps that a thread told to stop still takes from here, where a batch may be tried so many times
and the queue holds so many trades. -/
def Pc.stepsLeft (attempts queued : Nat) : Pc ε → Nat
  | .exited => 0
  | .drainPop _ => (attempts + 2) * queued + 1
  | .saving _ (.drain attempt _) => (attempts + 2) * queued + 2 + (attempts - attempt)
  | .drainStart => (attempts + 2) * queued + attempts + 3
  | .loopTop => (attempts + 2) * queued + attempts + 4
  | .saving _ .fresh | .saving _ .retry => (attempts + 2) * queued + attempts + 5
  | .retryWait | .popping => (attempts + 2) * queued + attempts + 6

/-- The steps left in a state. -/
def stepsLeft (st : Pc ε × Shared ρ ε) : Nat :=
  st.1.stepsLeft st.2.worker.shutdownRetryAttempts st.2.queue.queue.length

theorem Pc.stepsLeft_le (attempts queued : Nat) (pc : Pc ε) :
    pc.stepsLeft attempts queued ≤ (attempts + 2) * queued + attempts + 6 := by
  cases pc with
  | saving batch site => cases site <;> simp only [stepsLeft] <;> omega
  | _ => simp only [stepsLeft]; omega

/-- A longer queue leaves as many more steps as its batches may cost. -/
theorem Pc.stepsLeft_succ (attempts queued : Nat) (pc : Pc ε) :
    pc.stepsLeft attempts (queued + 1) ≤ pc.stepsLeft attempts queued + (attempts + 2) := by
  cases pc with
  | saving batch site => cases site <;> simp only [stepsLeft, Nat.mul_succ] <;> omega
  | _ => simp only [stepsLeft, Nat.mul_succ]; omega

theorem Pc.stepsLeft_mono {attempts queued queued' : Nat} (h : queued ≤ queued') (pc : Pc ε) :
    pc.stepsLeft attempts queued ≤ pc.stepsLeft attempts queued' := by
  have hmul := Nat.mul_le_mul_left (attempts + 2) h
  cases pc with
  | saving batch site => cases site <;> simp only [stepsLeft] <;> omega
  | _ => simp only [stepsLeft]; omega

/-- Every step of a stopped thread is one of those it had left. -/
theorem Thread.stepsLeft_lt {save : SaveTradesBatch ρ ε κ} {move : Move κ} {pc pc' : Pc ε} {s s' : Shared ρ ε}
    (hstop : s.worker.stopEvent = true) (hstep : Thread.step save move (pc, s) = some (pc', s')) :
    stepsLeft (pc', s') < stepsLeft (pc, s) := by
  -- a batch of at least one trade pays for its attempts
  have htook : s.pop.1 ≠ [] → (s.worker.shutdownRetryAttempts + 2) * s.pop.2.queue.queue.length +
      (s.worker.shutdownRetryAttempts + 2) ≤ (s.worker.shutdownRetryAttempts + 2) * s.queue.queue.length := by
    intro hbatch
    rw [← Nat.mul_succ]
    have hpos := List.length_pos_iff.mpr hbatch
    have hlength := length_queue_pop s
    exact Nat.mul_le_mul_left _ (by omega)
  have hattempts := (Thread.step_cases hstep).shutdownRetryAttempts
  rw [stepsLeft, stepsLeft, hattempts]
  have hcases := Thread.step_cases hstep
  cases hcases with
  | stop => simp only [Pc.stepsLeft]; omega
  | await =>
      have hpc := Thread.loopTop_of_stopped hstop hstep
      cases hpc
  | poll =>
      have hpc := Thread.loopTop_of_stopped hstop hstep
      cases hpc
  | wakeUp => simp only [Pc.stepsLeft]; omega
  | retry => simp only [Pc.stepsLeft, Shared.withWorker]; omega
  | nothingToRetry => simp only [Pc.stepsLeft, Shared.withWorker]; omega
  | idle hempty =>
      have hlength := length_queue_pop s
      rw [hempty, List.length_nil, Nat.zero_add] at hlength
      simp only [Pc.stepsLeft, hlength]
      omega
  | took hbatch =>
      have hpaid := htook hbatch
      simp only [Pc.stepsLeft]
      omega
  | saved batch site outcome counts repository hsave pc hpc =>
      subst hpc
      rw [queue_persist]
      cases site <;> simp only [Pc.stepsLeft] <;> omega
  | failed batch site outcome repository hsave hsite =>
      rw [queue_persist]
      obtain rfl | rfl := hsite <;> simp only [Pc.stepsLeft] <;> omega
  | retried batch attempt d outcome repository hsave =>
      have hmore := Thread.attempt_lt hstep
      simp only [Pc.stepsLeft, Shared.withWorker, queue_persist]
      omega
  | gaveUp batch attempt d outcome repository hsave =>
      simp only [Pc.stepsLeft, Shared.abandon, queue_persist]
      omega
  | flushHeld => simp only [Pc.stepsLeft, Shared.withWorker]; omega
  | flush => simp only [Pc.stepsLeft, Shared.withWorker]; omega
  | exit d hempty => simp only [Pc.stepsLeft]; omega
  | discard d hgave =>
      have hpaid := htook (Thread.pop_ne_nil (by simp) hstep)
      simp only [Pc.stepsLeft, Shared.abandon]
      omega
  | flushTook d hbatch hgave =>
      have hpaid := htook hbatch
      simp only [Pc.stepsLeft]
      omega

/-- A stopped thread that has not ended can go on, however its next write goes. -/
theorem Thread.exists_step_of_stopped (save : SaveTradesBatch ρ ε κ) {pc : Pc ε} {s : Shared ρ ε}
    (hstop : s.worker.stopEvent = true) (hpc : pc ≠ .exited) (outcome : κ) :
    ∃ move ∈ [Move.go, .wait true, .save outcome], (Thread.step save move (pc, s)).isSome = true := by
  cases pc with
  | loopTop => exact ⟨.go, by simp, by simp [Thread.step, hstop]⟩
  | retryWait => exact ⟨.wait true, by simp, by simp [Thread.step, hstop]⟩
  | popping =>
      refine ⟨.go, by simp, ?_⟩
      simp only [Thread.step]
      split <;> rfl
  | saving batch site => exact ⟨.save outcome, by simp, rfl⟩
  | drainStart =>
      refine ⟨.go, by simp, ?_⟩
      simp only [Thread.step]
      split <;> rfl
  | drainPop d =>
      refine ⟨.go, by simp, ?_⟩
      simp only [Thread.step]
      split
      · rfl
      · split <;> rfl
  | exited => exact absurd rfl hpc

/-! ### Runs after the stop -/

def WorkerAction.isThread : WorkerAction ε κ → Bool
  | .thread _ => true
  | _ => false

def WorkerAction.isPush : WorkerAction ε κ → Bool
  | .push _ => true
  | _ => false

/-- The event is set, and a batch may be tried so many times. -/
structure Stopped (attempts : Nat) (st : Pc ε × Shared ρ ε) : Prop where
  stopEvent : st.2.worker.stopEvent = true
  attempts : st.2.worker.shutdownRetryAttempts = attempts

theorem Stopped.step {save : SaveTradesBatch ρ ε κ} {attempts : Nat} {action : WorkerAction ε κ}
    {st st' : Pc ε × Shared ρ ε} (hstep : action.step save st = some st') (h : Stopped attempts st) :
    Stopped attempts st' ∧ stepsLeft st' + (if action.isThread then 1 else 0) ≤
      stepsLeft st + (attempts + 2) * (if action.isPush then 1 else 0) := by
  obtain ⟨hstop, rfl⟩ := h
  cases action with
  | thread move =>
      have hcases := Thread.step_cases hstep
      exact ⟨⟨hcases.stopEvent.trans hstop, hcases.shutdownRetryAttempts⟩, Thread.stepsLeft_lt hstop hstep⟩
  | push event =>
      cases hstep
      refine ⟨⟨hstop, rfl⟩, ?_⟩
      have hsucc := Pc.stepsLeft_succ st.2.worker.shutdownRetryAttempts st.2.queue.queue.length st.1
      have hpush := (Pc.stepsLeft_mono (TradeEventQueue.length_push_le event st.2.queue) st.1).trans hsucc
      simpa [stepsLeft, WorkerAction.isThread, WorkerAction.isPush] using hpush
  | stop =>
      cases hstep
      exact ⟨⟨rfl, rfl⟩, le_rfl⟩

theorem shutdownRetryAttempts_step {save : SaveTradesBatch ρ ε κ} {action : WorkerAction ε κ}
    {st st' : Pc ε × Shared ρ ε} (hstep : action.step save st = some st') :
    st'.2.worker.shutdownRetryAttempts = st.2.worker.shutdownRetryAttempts := by
  obtain ⟨move, rfl, hthread⟩ | ⟨queue, stopEvent, rfl⟩ := WorkerAction.step_cases hstep
  · exact (Thread.step_cases hthread).shutdownRetryAttempts
  · rfl

theorem shutdownRetryAttempts_run {save : SaveTradesBatch ρ ε κ} {actions : List (WorkerAction ε κ)}
    {st st' : Pc ε × Shared ρ ε} (hrun : Transition.run (WorkerAction.step save) actions st = some st') :
    st'.2.worker.shutdownRetryAttempts = st.2.worker.shutdownRetryAttempts :=
  @Transition.invariant _ _ (WorkerAction.step save)
    (fun t => t.2.worker.shutdownRetryAttempts = st.2.worker.shutdownRetryAttempts)
    (fun hstep h => (shutdownRetryAttempts_step hstep).trans h) actions st st' hrun rfl

/-- Once it has been told to stop, the thread takes a bounded number of steps more, whatever the database does:
so many for each trade that was queued or is pushed later. Until it has ended, it can take one. -/
theorem worker_shuts_down (save : SaveTradesBatch ρ ε κ) (worker : BackgroundPersistenceWorker ε)
    (queue : TradeEventQueue ε) (repository : ρ) (before after : List (WorkerAction ε κ)) (pc pc' : Pc ε)
    (s s' : Shared ρ ε)
    (hbefore : Transition.run (WorkerAction.step save) (before ++ [.stop]) (started worker queue repository) =
      some (pc, s))
    (hafter : Transition.run (WorkerAction.step save) after (pc, s) = some (pc', s')) :
    after.countP WorkerAction.isThread ≤ (worker.shutdownRetryAttempts + 2) *
        (s.queue.queue.length + after.countP WorkerAction.isPush) + worker.shutdownRetryAttempts + 6 ∧
      (pc' ≠ .exited → ∀ outcome, ∃ move ∈ [Move.go, .wait true, .save outcome],
        (Thread.step save move (pc', s')).isSome = true) := by
  have hattempts : s.worker.shutdownRetryAttempts = worker.shutdownRetryAttempts := shutdownRetryAttempts_run hbefore
  have hstopped : Stopped worker.shutdownRetryAttempts (pc, s) := by
    refine ⟨?_, hattempts⟩
    obtain ⟨st, -, hstop⟩ := Transition.run_concat.mp hbefore
    cases hstop
    rfl
  have hcount := Transition.countP_le_of_measure Stopped.step hafter hstopped
  have hleft : stepsLeft (pc, s) ≤ _ := Pc.stepsLeft_le s.worker.shutdownRetryAttempts s.queue.queue.length pc
  rw [hattempts] at hleft
  constructor
  · rw [Nat.mul_add]
    omega
  · intro hpc outcome
    have hend := Transition.invariant (fun hstep h => (Stopped.step hstep h).1) hafter hstopped
    exact Thread.exists_step_of_stopped save hend.stopEvent hpc outcome

theorem worker_shuts_down_stoppedInBackoff :
    (((stoppedInBackoff.drop 11).take 5).countP WorkerAction.isThread ≤ 12) ∧
      ∃ d s, Transition.run (WorkerAction.step saveOrRaise) (stoppedInBackoff.take 16)
          (started (.create 2 2) (.create 10 .dropOldest) []) = some (.drainPop d, s) ∧
        ∀ outcome, ∃ move ∈ [Move.go, .wait true, .save outcome],
          (Thread.step saveOrRaise move (.drainPop d, s)).isSome = true := by
  have h := worker_shuts_down saveOrRaise (.create 2 2) (.create 10 .dropOldest) [] (stoppedInBackoff.take 10)
    ((stoppedInBackoff.drop 11).take 5) _ _ _ _ rfl rfl
  exact ⟨h.1, _, _, rfl, h.2 (by exact nofun)⟩

end ChronosMatch
