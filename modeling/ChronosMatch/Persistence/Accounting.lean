import ChronosMatch.Persistence.Worker

/-!
# The worker accounts for what it takes

Whatever the thread has popped is saved, or abandoned, or in its hands, in that order. `ThreadStep` lists the
steps of the thread. `Control` says what holds where it stands, `ThreadEffect` what one step of it can do to
the journal, the repository and the counters; what is said of the trades is proved from these two.
-/

namespace ChronosMatch

variable {ρ ε κ : Type}

/-! ### The steps of the thread -/

/-- A step of the thread, with what it has seen. -/
inductive ThreadStep (save : SaveTradesBatch ρ ε κ) (s : Shared ρ ε) : Move κ → Pc ε → Pc ε → Shared ρ ε → Prop
  | stop (hstop : s.worker.stopEvent = true) : ThreadStep save s .go .loopTop .drainStart s
  | await : ThreadStep save s .go .loopTop .retryWait s
  | poll (hpending : s.worker.pendingBatch = none) : ThreadStep save s .go .loopTop .popping s
  | wakeUp (hstop : s.worker.stopEvent = true) : ThreadStep save s (.wait true) .retryWait .drainStart s
  | retry (batch : List ε) (hpending : s.worker.pendingBatch = some batch) :
      ThreadStep save s (.wait false) .retryWait (.saving batch .retry) (s.withWorker .countRetry)
  | nothingToRetry : ThreadStep save s (.wait false) .retryWait .loopTop (s.withWorker .countRetry)
  | idle (hempty : s.pop.1 = []) : ThreadStep save s .go .popping .loopTop s.pop.2
  | took (hbatch : s.pop.1 ≠ []) : ThreadStep save s .go .popping (.saving s.pop.1 .fresh) s.pop.2
  | saved (batch : List ε) (site : SaveSite) (outcome : κ) (counts : Nat × Nat) (repository : ρ)
      (hsave : save outcome batch s.repository = (some counts, repository)) (pc : Pc ε)
      (hpc : pc = match site with
        | .drain _ d => .drainPop d
        | _ => .loopTop) :
      ThreadStep save s (.save outcome) (.saving batch site) pc (s.persist batch (some counts) repository)
  | failed (batch : List ε) (site : SaveSite) (outcome : κ) (repository : ρ)
      (hsave : save outcome batch s.repository = (none, repository)) (hsite : site = .retry ∨ site = .fresh) :
      ThreadStep save s (.save outcome) (.saving batch site) .loopTop (s.persist batch none repository)
  | retried (batch : List ε) (attempt : Nat) (d : Drain) (outcome : κ) (repository : ρ)
      (hsave : save outcome batch s.repository = (none, repository)) :
      ThreadStep save s (.save outcome) (.saving batch (.drain attempt d)) (.saving batch (.drain (attempt + 1) d))
        ((s.persist batch none repository).withWorker .countRetry)
  | gaveUp (batch : List ε) (attempt : Nat) (d : Drain) (outcome : κ) (repository : ρ)
      (hsave : save outcome batch s.repository = (none, repository)) :
      ThreadStep save s (.save outcome) (.saving batch (.drain attempt d)) (.drainPop (d.abandon batch))
        ((s.persist batch none repository).abandon batch)
  | flushHeld (held : List ε) (hpending : s.worker.pendingBatch = some held) :
      ThreadStep save s .go .drainStart (.saving held (.drain 0 {}))
        (s.withWorker fun w => { w with state := .flushing })
  | flush (hpending : s.worker.pendingBatch = none) :
      ThreadStep save s .go .drainStart (.drainPop {}) (s.withWorker fun w => { w with state := .flushing })
  | exit (d : Drain) (hempty : s.pop.1 = []) :
      ThreadStep save s .go (.drainPop d) .exited
        (s.pop.2.withWorker fun w => { w with state := if d.abandonedTotal = 0 then .stopped else .error })
  | discard (d : Drain) (hgave : d.gaveUp = true) :
      ThreadStep save s .go (.drainPop d) (.drainPop (d.abandon s.pop.1)) (s.pop.2.abandon s.pop.1)
  | flushTook (d : Drain) (hbatch : s.pop.1 ≠ []) (hgave : d.gaveUp = false) :
      ThreadStep save s .go (.drainPop d) (.saving s.pop.1 (.drain 0 d)) s.pop.2

theorem Thread.afterSave_cases {save : SaveTradesBatch ρ ε κ} {outcome : κ} {batch : List ε} (site : SaveSite)
    {s : Shared ρ ε} {result : Option (Nat × Nat)} {repository : ρ}
    (hsave : save outcome batch s.repository = (result, repository)) :
    ThreadStep save s (.save outcome) (.saving batch site)
      (Thread.afterSave batch result.isSome site (s.persist batch result repository)).1
      (Thread.afterSave batch result.isSome site (s.persist batch result repository)).2 := by
  cases result with
  | some counts =>
      cases site with
      | retry => exact .saved batch .retry outcome counts repository hsave _ rfl
      | fresh => exact .saved batch .fresh outcome counts repository hsave _ rfl
      | drain attempt d => exact .saved batch (.drain attempt d) outcome counts repository hsave _ rfl
  | none =>
      cases site with
      | retry => exact .failed batch .retry outcome repository hsave (.inl rfl)
      | fresh => exact .failed batch .fresh outcome repository hsave (.inr rfl)
      | drain attempt d =>
          rw [Thread.afterSave, Option.isSome_none, if_neg Bool.false_ne_true]
          split
          · exact .retried batch attempt d outcome repository hsave
          · exact .gaveUp batch attempt d outcome repository hsave

theorem Thread.step_cases {save : SaveTradesBatch ρ ε κ} {move : Move κ} {pc pc' : Pc ε} {s s' : Shared ρ ε}
    (hstep : Thread.step save move (pc, s) = some (pc', s')) : ThreadStep save s move pc pc' s' := by
  unfold Thread.step at hstep
  split at hstep
  · next heq =>
      cases heq
      split at hstep
      · next hstop =>
          cases hstep
          exact .stop hstop
      · split at hstep
        · cases hstep
          exact .await
        · next hnone =>
            cases hstep
            exact .poll (Option.not_isSome_iff_eq_none.mp hnone)
  · next signalled s heq =>
      cases heq
      split at hstep
      · next hsignalled =>
          split at hstep
          · next hstop =>
              cases hstep
              exact hsignalled ▸ .wakeUp hstop
          · cases hstep
      · next hsignalled =>
          rw [Bool.not_eq_true] at hsignalled
          subst hsignalled
          dsimp only at hstep
          split at hstep
          · next batch hpending =>
              cases hstep
              exact .retry batch hpending
          · cases hstep
            exact .nothingToRetry
  · next heq =>
      cases heq
      dsimp only at hstep
      split at hstep
      · next hbatch =>
          cases hstep
          exact .idle (List.isEmpty_iff.mp hbatch)
      · next hbatch =>
          cases hstep
          exact .took (mt List.isEmpty_iff.mpr hbatch)
  · next outcome batch site s heq =>
      cases heq
      have hcases := Thread.afterSave_cases site (Prod.eta (save outcome batch s.repository)).symm
      rwa [Option.some.inj hstep] at hcases
  · next heq =>
      cases heq
      dsimp only at hstep
      split at hstep
      · next held hpending =>
          cases hstep
          exact .flushHeld held hpending
      · next hpending =>
          cases hstep
          exact .flush hpending
  · next d s heq =>
      cases heq
      dsimp only at hstep
      split at hstep
      · next hbatch =>
          cases hstep
          exact .exit d (List.isEmpty_iff.mp hbatch)
      · next hbatch =>
          split at hstep
          · next hgave =>
              cases hstep
              exact .discard d hgave
          · next hgave =>
              cases hstep
              exact .flushTook d (mt List.isEmpty_iff.mpr hbatch) (Bool.not_eq_true _ ▸ hgave)
  · cases hstep

/-! ### What holds where the thread stands -/

/-- The batch the thread holds: the one being saved, or the one kept for a retry. -/
def inHand : Pc ε → Shared ρ ε → List ε
  | .saving batch _, _ => batch
  | _, s => s.worker.pendingBatch.getD []

/-- What the drain knows of the abandoned trades: their number, and none before it gives up. -/
def DrainCounts (d : Drain) (s : Shared ρ ε) : Prop :=
  d.abandonedTotal = s.journal.abandoned.length ∧ (d.gaveUp = false → s.journal.abandoned = [])

def Phase : Pc ε → Shared ρ ε → Prop
  | .loopTop, s => s.journal.abandoned = []
  | .retryWait, s => s.journal.abandoned = []
  | .popping, s => s.worker.pendingBatch = none ∧ s.journal.abandoned = []
  | .saving batch site, s =>
      batch ≠ [] ∧ s.journal.abandoned = [] ∧ (∀ held, s.worker.pendingBatch = some held → held = batch) ∧
        ∀ attempt d, site = .drain attempt d → d = {}
  | .drainStart, s => s.journal.abandoned = []
  | .drainPop d, s => s.worker.pendingBatch = none ∧ DrainCounts d s
  | .exited, s => s.worker.pendingBatch = none ∧
      s.worker.state = if 0 < s.journal.abandoned.length then .error else .stopped

/-- What holds where the thread stands. -/
structure Control (pc : Pc ε) (s : Shared ρ ε) : Prop where
  held : s.worker.pendingBatch ≠ some []
  phase : Phase pc s

/-- The counters that account for trades. -/
def PersistenceMetrics.counts (m : PersistenceMetrics) : Nat × Nat × Nat × Nat :=
  (m.tradesReceived, m.tradesPersisted, m.duplicateCount, m.tradesAbandoned)

/-- What a step of the thread does to the journal, the repository, the counters and the batch in hand. -/
inductive ThreadEffect (save : SaveTradesBatch ρ ε κ) (move : Move κ) (pc : Pc ε) (s : Shared ρ ε) (pc' : Pc ε)
    (s' : Shared ρ ε) : Prop
  | quiet (hqueue : s'.queue = s.queue) (hjournal : s'.journal = s.journal) (hrepository : s'.repository = s.repository)
      (hcounts : s'.worker.metrics.counts = s.worker.metrics.counts) (hhand : inHand pc' s' = inHand pc s)
  | took (batch : List ε) (hpop : (batch, s'.queue) = s.queue.popBatch s.worker.batchSize)
      (hempty : inHand pc s = [])
      (hjournal : s'.journal = { s.journal with popped := s.journal.popped ++ batch })
      (hrepository : s'.repository = s.repository)
      (hcounts : s'.worker.metrics.counts = s.worker.metrics.counts) (hhand : inHand pc' s' = batch)
  | discarded (batch : List ε) (hpop : (batch, s'.queue) = s.queue.popBatch s.worker.batchSize)
      (hempty : inHand pc s = [])
      (hjournal : s'.journal = { s.journal with
        popped := s.journal.popped ++ batch, abandoned := s.journal.abandoned ++ batch })
      (hrepository : s'.repository = s.repository)
      (hcounts : s'.worker.metrics.counts = (s.worker.metrics.tradesReceived, s.worker.metrics.tradesPersisted,
        s.worker.metrics.duplicateCount, s.worker.metrics.tradesAbandoned + batch.length))
      (hhand : inHand pc' s' = [])
  | saved (hqueue : s'.queue = s.queue) (outcome : κ) (hmove : move = .save outcome) (inserted duplicates : Nat)
      (hnone : s.journal.abandoned = [])
      (hsave : save outcome (inHand pc s) s.repository = (some (inserted, duplicates), s'.repository))
      (hjournal : s'.journal = { s.journal with saved := s.journal.saved ++ [inHand pc s] })
      (hcounts : s'.worker.metrics.counts = (s.worker.metrics.tradesReceived + (inHand pc s).length,
        s.worker.metrics.tradesPersisted + inserted, s.worker.metrics.duplicateCount + duplicates,
        s.worker.metrics.tradesAbandoned))
      (hhand : inHand pc' s' = [])
  | failed (hqueue : s'.queue = s.queue) (outcome : κ) (hmove : move = .save outcome) (hnone : s.journal.abandoned = [])
      (hsave : save outcome (inHand pc s) s.repository = (none, s'.repository))
      (hjournal : s'.journal = s.journal) (hcounts : s'.worker.metrics.counts = s.worker.metrics.counts)
      (hhand : inHand pc' s' = inHand pc s)
  | gaveUp (hqueue : s'.queue = s.queue) (outcome : κ) (hmove : move = .save outcome) (hnone : s.journal.abandoned = [])
      (hsave : save outcome (inHand pc s) s.repository = (none, s'.repository))
      (hjournal : s'.journal = { s.journal with abandoned := inHand pc s })
      (hcounts : s'.worker.metrics.counts = (s.worker.metrics.tradesReceived, s.worker.metrics.tradesPersisted,
        s.worker.metrics.duplicateCount, s.worker.metrics.tradesAbandoned + (inHand pc s).length))
      (hhand : inHand pc' s' = [])

/-! ### Small facts about the shared objects -/

section Fields

variable (s : Shared ρ ε) (batch : List ε)

@[simp] theorem worker_pop : s.pop.2.worker = s.worker := rfl

@[simp] theorem journal_pop :
    s.pop.2.journal = { s.journal with popped := s.journal.popped ++ s.pop.1 } := rfl

end Fields

/-! ### One step of the thread -/

theorem Control.step {save : SaveTradesBatch ρ ε κ} {move : Move κ} {pc pc' : Pc ε} {s s' : Shared ρ ε}
    (hstep : Thread.step save move (pc, s) = some (pc', s')) (h : Control pc s) : Control pc' s' := by
  obtain ⟨hheld, hphase⟩ := h
  cases Thread.step_cases hstep with
  | stop => exact ⟨hheld, hphase⟩
  | await => exact ⟨hheld, hphase⟩
  | poll hpending => exact ⟨hheld, hpending, hphase⟩
  | wakeUp => exact ⟨hheld, hphase⟩
  | retry batch hpending =>
      refine ⟨hheld, fun hnil => hheld (hnil ▸ hpending), hphase, ?_, fun _ _ hsite => by cases hsite⟩
      intro held hheld'
      exact Option.some.inj (hheld'.symm.trans hpending)
  | nothingToRetry => exact ⟨hheld, hphase⟩
  | idle => exact ⟨hheld, hphase.2⟩
  | took hbatch =>
      refine ⟨hheld, hbatch, hphase.2, ?_, fun _ _ hsite => by cases hsite⟩
      intro held hheld'
      rw [worker_pop, hphase.1] at hheld'
      cases hheld'
  | saved batch site outcome counts repository hsave pc hpc =>
      obtain ⟨hbatch, habandoned, hpending, hdrain⟩ := hphase
      subst hpc
      cases site with
      | retry => exact ⟨Option.some_ne_none _ |>.symm, habandoned⟩
      | fresh => exact ⟨Option.some_ne_none _ |>.symm, habandoned⟩
      | drain attempt d =>
          obtain rfl := hdrain attempt d rfl
          exact ⟨Option.some_ne_none _ |>.symm, rfl, (congrArg List.length habandoned).symm, fun _ => habandoned⟩
  | failed batch site outcome repository hsave hsite =>
      obtain ⟨hbatch, habandoned, -⟩ := hphase
      exact ⟨fun hnil => hbatch (Option.some.inj hnil), habandoned⟩
  | retried batch attempt d outcome repository hsave =>
      obtain ⟨hbatch, habandoned, -, hdrain⟩ := hphase
      refine ⟨fun hnil => hbatch (Option.some.inj hnil), hbatch, habandoned,
        fun held hheld => (Option.some.inj hheld).symm, ?_⟩
      intro next d' hsite
      cases hsite
      exact hdrain attempt d rfl
  | gaveUp batch attempt d outcome repository hsave =>
      obtain ⟨-, habandoned, -, hdrain⟩ := hphase
      obtain rfl := hdrain attempt d rfl
      refine ⟨Option.some_ne_none _ |>.symm, rfl, ?_, fun hgave => by cases hgave⟩
      simp [Drain.abandon, Shared.abandon, Shared.persist, habandoned]
  | flushHeld held hpending =>
      refine ⟨hheld, fun hnil => hheld (hnil ▸ hpending), hphase, ?_, fun _ _ hsite => by cases hsite; rfl⟩
      intro other hother
      exact Option.some.inj (hother.symm.trans hpending)
  | flush hpending => exact ⟨hheld, hpending, (congrArg List.length hphase).symm, fun _ => hphase⟩
  | exit d hempty =>
      refine ⟨hheld, hphase.1, ?_⟩
      simp only [Shared.withWorker, journal_pop, hphase.2.1, Nat.pos_iff_ne_zero, ite_not]
  | discard d hgave =>
      refine ⟨Option.some_ne_none _ |>.symm, rfl, ?_, fun hopen => by cases hopen⟩
      simp [Drain.abandon, Shared.abandon, hphase.2.1]
  | flushTook d hbatch hgave =>
      obtain ⟨hpending, hcount, hnone⟩ := hphase
      have habandoned := hnone hgave
      refine ⟨hheld, hbatch, habandoned, ?_, ?_⟩
      · intro held hheld'
        rw [worker_pop, hpending] at hheld'
        cases hheld'
      · intro attempt d' hsite
        cases hsite
        obtain ⟨total, gaveUp⟩ := d
        simp only [habandoned, List.length_nil] at hcount
        rw [hcount, show gaveUp = false from hgave]

theorem inHand_of_pending {s : Shared ρ ε} {pc : Pc ε} {batch : List ε}
    (hpc : inHand pc s = s.worker.pendingBatch.getD [])
    (hpending : s.worker.pendingBatch = some batch) : inHand pc s = batch := by
  rw [hpc, hpending, Option.getD_some]

theorem Control.effect {save : SaveTradesBatch ρ ε κ} {move : Move κ} {pc pc' : Pc ε} {s s' : Shared ρ ε}
    (hstep : Thread.step save move (pc, s) = some (pc', s')) (h : Control pc s) :
    ThreadEffect save move pc s pc' s' := by
  have hphase := h.phase
  have hnothing : ∀ pc : Pc ε, inHand pc s = s.worker.pendingBatch.getD [] → s.worker.pendingBatch = none →
      inHand pc s = [] := fun pc hpc hpending => by rw [hpc, hpending, Option.getD_none]
  cases Thread.step_cases hstep with
  | stop => exact .quiet rfl rfl rfl rfl rfl
  | await => exact .quiet rfl rfl rfl rfl rfl
  | poll => exact .quiet rfl rfl rfl rfl rfl
  | wakeUp => exact .quiet rfl rfl rfl rfl rfl
  | retry batch hpending => exact .quiet rfl rfl rfl rfl (inHand_of_pending rfl hpending).symm
  | nothingToRetry => exact .quiet rfl rfl rfl rfl rfl
  | idle hempty =>
      have hnone := hnothing .popping rfl hphase.1
      exact .took s.pop.1 rfl hnone rfl rfl rfl (hnone.trans hempty.symm)
  | took hbatch => exact .took s.pop.1 rfl (hnothing _ rfl hphase.1) rfl rfl rfl rfl
  | saved batch site outcome counts repository hsave pc hpc =>
      refine .saved rfl outcome rfl counts.1 counts.2 hphase.2.1 hsave rfl rfl ?_
      subst hpc
      cases site <;> rfl
  | failed batch site outcome repository hsave hsite => exact .failed rfl outcome rfl hphase.2.1 hsave rfl rfl rfl
  | retried batch attempt d outcome repository hsave => exact .failed rfl outcome rfl hphase.2.1 hsave rfl rfl rfl
  | gaveUp batch attempt d outcome repository hsave =>
      refine .gaveUp rfl outcome rfl hphase.2.1 hsave ?_ rfl rfl
      simp [Shared.abandon, Shared.persist, hphase.2.1, inHand]
  | flushHeld held hpending => exact .quiet rfl rfl rfl rfl (inHand_of_pending rfl hpending).symm
  | flush => exact .quiet rfl rfl rfl rfl rfl
  | exit d hempty =>
      have hnone := hnothing (.drainPop d) rfl hphase.1
      exact .took s.pop.1 rfl hnone rfl rfl rfl (hnone.trans hempty.symm)
  | discard d hgave => exact .discarded s.pop.1 rfl (hnothing _ rfl hphase.1) rfl rfl rfl rfl
  | flushTook d hbatch hgave => exact .took s.pop.1 rfl (hnothing _ rfl hphase.1) rfl rfl rfl rfl

/-! ### The repository under the thread -/

/-- What a step means for the repository: it stays as it is, or the save of the batch in hand raises or returns. -/
inductive RepositoryEffect (save : SaveTradesBatch ρ ε κ) (move : Move κ) (pc : Pc ε) (s s' : Shared ρ ε) : Prop
  | untouched (hrepository : s'.repository = s.repository) (hsaved : s'.journal.saved = s.journal.saved)
      (hreceived : s'.worker.metrics.tradesReceived = s.worker.metrics.tradesReceived)
      (hpersisted : s'.worker.metrics.tradesPersisted = s.worker.metrics.tradesPersisted)
      (hduplicates : s'.worker.metrics.duplicateCount = s.worker.metrics.duplicateCount)
  | raised (outcome : κ) (hmove : move = .save outcome) (hnone : s.journal.abandoned = [])
      (hsave : save outcome (inHand pc s) s.repository = (none, s'.repository))
      (hsaved : s'.journal.saved = s.journal.saved)
      (hreceived : s'.worker.metrics.tradesReceived = s.worker.metrics.tradesReceived)
      (hpersisted : s'.worker.metrics.tradesPersisted = s.worker.metrics.tradesPersisted)
      (hduplicates : s'.worker.metrics.duplicateCount = s.worker.metrics.duplicateCount)
  | returned (outcome : κ) (hmove : move = .save outcome) (hnone : s.journal.abandoned = []) (inserted duplicates : Nat)
      (hsave : save outcome (inHand pc s) s.repository = (some (inserted, duplicates), s'.repository))
      (hsaved : s'.journal.saved = s.journal.saved ++ [inHand pc s])
      (hreceived : s'.worker.metrics.tradesReceived = s.worker.metrics.tradesReceived + (inHand pc s).length)
      (hpersisted : s'.worker.metrics.tradesPersisted = s.worker.metrics.tradesPersisted + inserted)
      (hduplicates : s'.worker.metrics.duplicateCount = s.worker.metrics.duplicateCount + duplicates)

theorem ThreadEffect.onRepository {save : SaveTradesBatch ρ ε κ} {move : Move κ} {pc pc' : Pc ε} {s s' : Shared ρ ε}
    (h : ThreadEffect save move pc s pc' s') : RepositoryEffect save move pc s s' := by
  cases h with
  | quiet hqueue hjournal hrepository hcounts =>
      simp only [PersistenceMetrics.counts, Prod.mk.injEq] at hcounts
      exact .untouched hrepository (by rw [hjournal]) hcounts.1 hcounts.2.1 hcounts.2.2.1
  | took batch hpop hempty hjournal hrepository hcounts =>
      simp only [PersistenceMetrics.counts, Prod.mk.injEq] at hcounts
      exact .untouched hrepository (by rw [hjournal]) hcounts.1 hcounts.2.1 hcounts.2.2.1
  | discarded batch hpop hempty hjournal hrepository hcounts =>
      simp only [PersistenceMetrics.counts, Prod.mk.injEq] at hcounts
      exact .untouched hrepository (by rw [hjournal]) hcounts.1 hcounts.2.1 hcounts.2.2.1
  | saved hqueue outcome hmove inserted duplicates hnone hsave hjournal hcounts =>
      simp only [PersistenceMetrics.counts, Prod.mk.injEq] at hcounts
      exact .returned outcome hmove hnone inserted duplicates hsave (by rw [hjournal]) hcounts.1 hcounts.2.1
        hcounts.2.2.1
  | failed hqueue outcome hmove hnone hsave hjournal hcounts =>
      simp only [PersistenceMetrics.counts, Prod.mk.injEq] at hcounts
      exact .raised outcome hmove hnone hsave (by rw [hjournal]) hcounts.1 hcounts.2.1 hcounts.2.2.1
  | gaveUp hqueue outcome hmove hnone hsave hjournal hcounts =>
      simp only [PersistenceMetrics.counts, Prod.mk.injEq] at hcounts
      exact .raised outcome hmove hnone hsave (by rw [hjournal]) hcounts.1 hcounts.2.1 hcounts.2.2.1

/-! ### The queue under the thread -/

theorem ThreadEffect.popped_queue {save : SaveTradesBatch ρ ε κ} {move : Move κ} {pc pc' : Pc ε}
    {s s' : Shared ρ ε} (h : ThreadEffect save move pc s pc' s') :
    s'.journal.popped ++ s'.queue.queue = s.journal.popped ++ s.queue.queue := by
  have htake : ∀ batch, (batch, s'.queue) = s.queue.popBatch s.worker.batchSize →
      (s.journal.popped ++ batch) ++ s'.queue.queue = s.journal.popped ++ s.queue.queue := by
    intro batch hpop
    have hqueue := s.queue.popBatch_queue s.worker.batchSize
    rw [← hpop] at hqueue
    rw [List.append_assoc, hqueue]
  cases h with
  | quiet hqueue hjournal => rw [hqueue, hjournal]
  | took batch hpop hempty hjournal =>
      rw [hjournal]
      exact htake batch hpop
  | discarded batch hpop hempty hjournal =>
      rw [hjournal]
      exact htake batch hpop
  | saved hqueue outcome hmove inserted duplicates hnone hsave hjournal => rw [hqueue, hjournal]
  | failed hqueue outcome hmove hnone hsave hjournal => rw [hqueue, hjournal]
  | gaveUp hqueue outcome hmove hnone hsave hjournal => rw [hqueue, hjournal]

/-- The thread changes nothing about the queue but its content and the count of what was popped. -/
theorem ThreadEffect.queue_frame {save : SaveTradesBatch ρ ε κ} {move : Move κ} {pc pc' : Pc ε} {s s' : Shared ρ ε}
    (h : ThreadEffect save move pc s pc' s') :
    s'.queue = { s.queue with queue := s'.queue.queue, totalPopped := s'.queue.totalPopped } := by
  have htake : ∀ batch, (batch, s'.queue) = s.queue.popBatch s.worker.batchSize →
      s'.queue = { s.queue with queue := s'.queue.queue, totalPopped := s'.queue.totalPopped } := by
    intro batch hpop
    rw [show s'.queue = (s.queue.popBatch s.worker.batchSize).2 from congrArg Prod.snd hpop]
    rfl
  cases h with
  | quiet hqueue => rw [hqueue]
  | took batch hpop => exact htake batch hpop
  | discarded batch hpop => exact htake batch hpop
  | saved hqueue => rw [hqueue]
  | failed hqueue => rw [hqueue]
  | gaveUp hqueue => rw [hqueue]

/-! ### The end of the thread -/

/-- Has the thread left its loop? -/
def Pc.draining : Pc ε → Bool
  | .drainStart | .drainPop _ | .exited | .saving _ (.drain _ _) => true
  | _ => false

theorem stopEvent_persist (batch : List ε) (result : Option (Nat × Nat)) (repository : ρ) (s : Shared ρ ε) :
    (s.persist batch result repository).worker.stopEvent = s.worker.stopEvent := by
  cases result <;> rfl

theorem ThreadStep.stopEvent {save : SaveTradesBatch ρ ε κ} {move : Move κ} {pc pc' : Pc ε} {s s' : Shared ρ ε}
    (hstep : ThreadStep save s move pc pc' s') : s'.worker.stopEvent = s.worker.stopEvent := by
  cases hstep with
  | saved => exact stopEvent_persist _ _ _ _
  | failed => exact stopEvent_persist _ _ _ _
  | retried => exact stopEvent_persist _ _ _ _
  | gaveUp => exact stopEvent_persist _ _ _ _
  | _ => rfl

theorem ThreadStep.draining {save : SaveTradesBatch ρ ε κ} {move : Move κ} {pc pc' : Pc ε} {s s' : Shared ρ ε}
    (hstep : ThreadStep save s move pc pc' s') (hdraining : pc'.draining) : pc.draining ∨ s.worker.stopEvent := by
  cases hstep with
  | stop hstop => exact .inr hstop
  | wakeUp hstop => exact .inr hstop
  | saved batch site outcome counts repository hsave pc hpc =>
      subst hpc
      cases site with
      | retry => cases hdraining
      | fresh => cases hdraining
      | drain attempt d => exact .inl rfl
  | retried => exact .inl rfl
  | gaveUp => exact .inl rfl
  | flushHeld => exact .inl rfl
  | flush => exact .inl rfl
  | exit => exact .inl rfl
  | discard => exact .inl rfl
  | flushTook => exact .inl rfl
  | _ => cases hdraining

theorem queue_pop_of_isEmpty {s : Shared ρ ε} (h : s.pop.1.isEmpty = true) : s.pop.2.queue.queue = [] := by
  have hpos := s.worker.batchSize_pos
  have htake : s.queue.queue.take (min (s.worker.batchSize : Int) s.queue.queue.length).toNat = [] :=
    List.isEmpty_iff.mp h
  show s.queue.queue.drop (min (s.worker.batchSize : Int) s.queue.queue.length).toNat = []
  rw [List.take_eq_nil_iff] at htake
  rcases htake with hcount | hnil
  · apply List.drop_eq_nil_of_le
    omega
  · rw [hnil, List.drop_nil]

theorem ThreadStep.queue_of_exited {save : SaveTradesBatch ρ ε κ} {move : Move κ} {pc : Pc ε} {s s' : Shared ρ ε}
    (hstep : ThreadStep save s move pc .exited s') : s'.queue.queue = [] := by
  generalize hexited : Pc.exited = pc' at hstep
  cases hstep with
  | saved batch site outcome counts repository hsave pc hpc =>
      subst hexited
      cases site <;> cases hpc
  | exit d hempty => exact queue_pop_of_isEmpty (List.isEmpty_iff.mpr hempty)
  | _ => cases hexited

/-! ### The account -/

/-- What was popped is what was saved, what was abandoned and what is in hand, in this order. -/
structure Accounted (pc : Pc ε) (s : Shared ρ ε) : Prop where
  popped : s.journal.popped = s.journal.saved.flatten ++ s.journal.abandoned ++ inHand pc s
  received : s.worker.metrics.tradesReceived = s.journal.saved.flatten.length
  abandoned : s.worker.metrics.tradesAbandoned = s.journal.abandoned.length

theorem Accounted.step {save : SaveTradesBatch ρ ε κ} {move : Move κ} {pc pc' : Pc ε} {s s' : Shared ρ ε}
    (heffect : ThreadEffect save move pc s pc' s') (h : Accounted pc s) : Accounted pc' s' := by
  obtain ⟨hpopped, hreceived, habandoned⟩ := h
  cases heffect with
  | quiet hqueue hjournal hrepository hcounts hhand =>
      simp only [PersistenceMetrics.counts, Prod.mk.injEq] at hcounts
      obtain ⟨hreceived', -, -, habandoned'⟩ := hcounts
      exact ⟨by rw [hjournal, hhand, hpopped], by rw [hreceived', hjournal, hreceived],
        by rw [habandoned', hjournal, habandoned]⟩
  | took batch hpop hempty hjournal hrepository hcounts hhand =>
      simp only [PersistenceMetrics.counts, Prod.mk.injEq] at hcounts
      obtain ⟨hreceived', -, -, habandoned'⟩ := hcounts
      refine ⟨?_, by rw [hreceived', hjournal, hreceived], by rw [habandoned', hjournal, habandoned]⟩
      rw [hjournal, hhand, hpopped, hempty, List.append_nil]
  | discarded batch hpop hempty hjournal hrepository hcounts hhand =>
      simp only [PersistenceMetrics.counts, Prod.mk.injEq] at hcounts
      obtain ⟨hreceived', -, -, habandoned'⟩ := hcounts
      refine ⟨?_, by rw [hreceived', hjournal, hreceived], ?_⟩
      · rw [hjournal, hhand, hpopped, hempty, List.append_nil, List.append_nil, List.append_assoc]
      · rw [habandoned', hjournal, habandoned, List.length_append]
  | saved hqueue outcome hmove inserted duplicates hnone hsave hjournal hcounts hhand =>
      simp only [PersistenceMetrics.counts, Prod.mk.injEq] at hcounts
      obtain ⟨hreceived', -, -, habandoned'⟩ := hcounts
      refine ⟨?_, ?_, by rw [habandoned', hjournal, habandoned]⟩
      · rw [hjournal, hhand, hpopped, hnone]
        simp
      · rw [hreceived', hjournal, hreceived]
        simp
  | failed hqueue outcome hmove hnone hsave hjournal hcounts hhand =>
      simp only [PersistenceMetrics.counts, Prod.mk.injEq] at hcounts
      obtain ⟨hreceived', -, -, habandoned'⟩ := hcounts
      exact ⟨by rw [hjournal, hhand, hpopped], by rw [hreceived', hjournal, hreceived],
        by rw [habandoned', hjournal, habandoned]⟩
  | gaveUp hqueue outcome hmove hnone hsave hjournal hcounts hhand =>
      simp only [PersistenceMetrics.counts, Prod.mk.injEq] at hcounts
      obtain ⟨hreceived', -, -, habandoned'⟩ := hcounts
      refine ⟨?_, by rw [hreceived', hjournal, hreceived], ?_⟩
      · rw [hjournal, hhand, hpopped, hnone]
        simp
      · rw [habandoned', hjournal, habandoned, hnone]
        simp

/-! ### Runs of one worker thread -/

/-- Control and account together, which every action preserves. -/
structure WorkerInvariant (st : Pc ε × Shared ρ ε) : Prop where
  control : Control st.1 st.2
  account : Accounted st.1 st.2

/-- Other threads touch the queue and the stop event, and nothing else. -/
theorem WorkerAction.step_cases {save : SaveTradesBatch ρ ε κ} {action : WorkerAction ε κ}
    {st st' : Pc ε × Shared ρ ε} (hstep : action.step save st = some st') :
    (∃ move, action = .thread move ∧ Thread.step save move st = some st') ∨
      ∃ queue stopEvent, st' = (st.1, { st.2 with queue, worker := { st.2.worker with stopEvent } }) := by
  cases action with
  | thread move => exact .inl ⟨move, rfl, hstep⟩
  | push event =>
      cases hstep
      exact .inr ⟨_, st.2.worker.stopEvent, rfl⟩
  | stop =>
      cases hstep
      exact .inr ⟨st.2.queue, true, rfl⟩

theorem inHand_surroundings (pc : Pc ε) (s : Shared ρ ε) (queue : TradeEventQueue ε) (stopEvent : Bool) :
    inHand pc { s with queue, worker := { s.worker with stopEvent } } = inHand pc s := by
  cases pc <;> rfl

theorem WorkerInvariant.surroundings {pc : Pc ε} {s : Shared ρ ε} (h : WorkerInvariant (pc, s))
    (queue : TradeEventQueue ε) (stopEvent : Bool) :
    WorkerInvariant (pc, { s with queue, worker := { s.worker with stopEvent } }) := by
  refine ⟨⟨h.control.held, ?_⟩, ⟨?_, h.account.received, h.account.abandoned⟩⟩
  · have hphase := h.control.phase
    cases pc <;> exact hphase
  · rw [inHand_surroundings]
    exact h.account.popped

theorem WorkerInvariant.step {save : SaveTradesBatch ρ ε κ} {action : WorkerAction ε κ}
    {st st' : Pc ε × Shared ρ ε} (hstep : action.step save st = some st') (h : WorkerInvariant st) :
    WorkerInvariant st' := by
  rcases WorkerAction.step_cases hstep with ⟨move, rfl, hthread⟩ | ⟨queue, stopEvent, rfl⟩
  · exact ⟨h.control.step hthread, h.account.step (h.control.effect hthread)⟩
  · exact h.surroundings queue stopEvent

theorem WorkerInvariant.started (batchSize shutdownRetryAttempts : Int) (queue : TradeEventQueue ε)
    (repository : ρ) : WorkerInvariant
      (started (.create batchSize shutdownRetryAttempts) queue repository) :=
  ⟨⟨Option.some_ne_none _ |>.symm, rfl⟩, rfl, rfl, rfl⟩

theorem WorkerInvariant.run {save : SaveTradesBatch ρ ε κ} {batchSize shutdownRetryAttempts : Int}
    {queue : TradeEventQueue ε} {repository : ρ} {actions : List (WorkerAction ε κ)} {st : Pc ε × Shared ρ ε}
    (hrun : Transition.run (WorkerAction.step save) actions
      (ChronosMatch.started (.create batchSize shutdownRetryAttempts) queue repository) = some st) :
    WorkerInvariant st :=
  Transition.invariant WorkerInvariant.step hrun (.started _ _ _ _)

/-- At the top of the loop, what was popped is what was saved and the pending batch; after the drain,
it is what was saved and what was abandoned, as the counters and the state report. -/
theorem worker_run_accounted (save : SaveTradesBatch ρ ε κ) (batchSize shutdownRetryAttempts : Int)
    (queue : TradeEventQueue ε) (repository : ρ) (actions : List (WorkerAction ε κ)) (pc : Pc ε) (s : Shared ρ ε)
    (hrun : Transition.run (WorkerAction.step save) actions
      (started (.create batchSize shutdownRetryAttempts) queue repository) = some (pc, s)) :
    (pc = .loopTop → s.journal.popped = s.journal.saved.flatten ++ s.worker.pendingBatch.getD []) ∧
      (pc = .exited → s.journal.popped = s.journal.saved.flatten ++ s.journal.abandoned ∧
        s.worker.pendingBatch = none ∧ s.worker.metrics.tradesReceived = s.journal.saved.flatten.length ∧
        s.worker.metrics.tradesAbandoned = s.journal.abandoned.length ∧
        s.worker.state = if 0 < s.journal.abandoned.length then .error else .stopped) := by
  obtain ⟨⟨-, hphase⟩, hpopped, hreceived, habandoned⟩ := WorkerInvariant.run hrun
  constructor
  · rintro rfl
    rw [hpopped, show s.journal.abandoned = [] from hphase, List.append_nil]
    rfl
  · rintro rfl
    obtain ⟨hpending, hstate⟩ := hphase
    refine ⟨?_, hpending, hreceived, habandoned, hstate⟩
    rw [hpopped, inHand, hpending, Option.getD_none, List.append_nil]
    simp

/-- A ledger that stores a batch or raises. -/
def saveOrRaise : SaveTradesBatch (List Nat) Nat Bool := fun success batch ledger =>
  if success then (some (batch.length, 0), ledger ++ batch) else (none, ledger)

/-- One batch is saved, the next fails and is stopped in its backoff, and the drain gives up. -/
def stoppedInBackoff : List (WorkerAction Nat Bool) :=
  [.push 1, .thread .go, .thread .go, .thread (.save true), .push 2, .push 3, .thread .go, .thread .go,
    .thread (.save false), .thread .go, .stop, .thread (.wait true), .thread .go, .thread (.save false),
    .thread (.save false), .push 4, .thread .go, .thread .go]

theorem worker_run_accounted_stoppedInBackoff :
    ∃ s, Transition.run (WorkerAction.step saveOrRaise) stoppedInBackoff
        (started (.create 2 2) (.create 10 .dropOldest) []) = some (.exited, s) ∧
      s.journal.popped = s.journal.saved.flatten ++ s.journal.abandoned ∧ s.worker.pendingBatch = none ∧
        s.worker.metrics.tradesReceived = s.journal.saved.flatten.length ∧
        s.worker.metrics.tradesAbandoned = s.journal.abandoned.length ∧
        s.worker.state = if 0 < s.journal.abandoned.length then .error else .stopped :=
  ⟨_, rfl, (worker_run_accounted saveOrRaise 2 2 (.create 10 .dropOldest) [] stoppedInBackoff .exited _ rfl).2 rfl⟩

end ChronosMatch
