import ChronosMatch.Base.Transition
import ChronosMatch.Ipc.TradeQueue

/-!
# The persistence worker

`BackgroundPersistenceWorker` of `src/persistence/worker.py`, over any repository and any type of event.
The thread is a program counter beside the shared objects; `Thread.step` runs it from one point where
other threads may interleave to the next. What the repository does in a call, and how a timed wait ends,
are inputs. Durations are left out.
-/

namespace ChronosMatch

inductive WorkerState
  | stopped
  | running
  | flushing
  | error
deriving DecidableEq

structure PersistenceMetrics where
  tradesReceived : Nat := 0
  tradesPersisted : Nat := 0
  duplicateCount : Nat := 0
  failedWriteCount : Nat := 0
  batchCount : Nat := 0
  lastBatchSize : Nat := 0
  retryCount : Nat := 0
  tradesAbandoned : Nat := 0
deriving DecidableEq

structure BackgroundPersistenceWorker (ε : Type) where
  batchSize : Nat
  batchSize_pos : 1 ≤ batchSize
  shutdownRetryAttempts : Nat
  shutdownRetryAttempts_pos : 1 ≤ shutdownRetryAttempts
  pendingBatch : Option (List ε) := none
  state : WorkerState := .stopped
  stopEvent : Bool := false
  metrics : PersistenceMetrics := {}

/-- `save_trades_batch` as the worker sees it: in a call that goes a certain way a repository raises, or
returns the numbers inserted and found already there. -/
abbrev SaveTradesBatch (ρ ε κ : Type) := κ → List ε → ρ → Option (Nat × Nat) × ρ

/-- The trades a worker has taken from the queue and what has become of them. -/
structure Journal (ε : Type) where
  popped : List ε := []
  saved : List (List ε) := []
  abandoned : List ε := []

/-- The objects the threads share, with the journal of the run so far. -/
structure Shared (ρ ε : Type) where
  worker : BackgroundPersistenceWorker ε
  queue : TradeEventQueue ε
  repository : ρ
  journal : Journal ε := {}

/-- The local variables of `_drain_remaining`. -/
structure Drain where
  abandonedTotal : Nat := 0
  gaveUp : Bool := false
deriving DecidableEq

/-- Where `_persist_batch` was called: for the pending batch, for a batch just popped, or in an attempt
of the drain. -/
inductive SaveSite
  | retry
  | fresh
  | drain (attempt : Nat) (d : Drain)
deriving DecidableEq

/-- Where the thread is. -/
inductive Pc (ε : Type)
  | loopTop
  | retryWait
  | popping
  | saving (batch : List ε) (site : SaveSite)
  | drainStart
  | drainPop (d : Drain)
  | exited
deriving DecidableEq

/-- What decides how the thread goes on. -/
inductive Move (κ : Type)
  | go
  | wait (signalled : Bool)
  | save (outcome : κ)

theorem one_le_toNat_max (n : Int) : 1 ≤ (max 1 n).toNat := by
  omega

namespace BackgroundPersistenceWorker

variable {ε : Type}

/-- `__init__`, which raises sizes below 1 to 1. -/
def create (batchSize shutdownRetryAttempts : Int) : BackgroundPersistenceWorker ε where
  batchSize := (max 1 batchSize).toNat
  batchSize_pos := one_le_toNat_max _
  shutdownRetryAttempts := (max 1 shutdownRetryAttempts).toNat
  shutdownRetryAttempts_pos := one_le_toNat_max _

/-- `_persist_batch` after the repository returned. -/
def stored (batch : List ε) (inserted duplicates : Nat) (w : BackgroundPersistenceWorker ε) :
    BackgroundPersistenceWorker ε :=
  { w with
    pendingBatch := none
    metrics := { w.metrics with
      tradesReceived := w.metrics.tradesReceived + batch.length
      tradesPersisted := w.metrics.tradesPersisted + inserted
      duplicateCount := w.metrics.duplicateCount + duplicates
      batchCount := w.metrics.batchCount + 1
      lastBatchSize := batch.length } }

/-- `_persist_batch` after the repository raised. -/
def failed (batch : List ε) (w : BackgroundPersistenceWorker ε) : BackgroundPersistenceWorker ε :=
  { w with
    pendingBatch := some batch
    metrics := { w.metrics with failedWriteCount := w.metrics.failedWriteCount + 1 } }

def countRetry (w : BackgroundPersistenceWorker ε) : BackgroundPersistenceWorker ε :=
  { w with metrics := { w.metrics with retryCount := w.metrics.retryCount + 1 } }

def abandon (batch : List ε) (w : BackgroundPersistenceWorker ε) : BackgroundPersistenceWorker ε :=
  { w with
    pendingBatch := none
    metrics := { w.metrics with tradesAbandoned := w.metrics.tradesAbandoned + batch.length } }

end BackgroundPersistenceWorker

namespace Shared

variable {ρ ε : Type}

def withWorker (f : BackgroundPersistenceWorker ε → BackgroundPersistenceWorker ε) (s : Shared ρ ε) : Shared ρ ε :=
  { s with worker := f s.worker }

/-- `pop_batch`, noted in the journal. -/
def pop (s : Shared ρ ε) : List ε × Shared ρ ε :=
  let (batch, queue) := s.queue.popBatch s.worker.batchSize
  (batch, { s with queue, journal := { s.journal with popped := s.journal.popped ++ batch } })

/-- `abandon` of `_drain_remaining`. -/
def abandon (batch : List ε) (s : Shared ρ ε) : Shared ρ ε :=
  { s with
    worker := s.worker.abandon batch
    journal := { s.journal with abandoned := s.journal.abandoned ++ batch } }

/-- `_persist_batch` with the result of the repository. -/
def persist (batch : List ε) (result : Option (Nat × Nat)) (repository : ρ) (s : Shared ρ ε) : Shared ρ ε :=
  match result with
  | some (inserted, duplicates) =>
      { s with
        worker := s.worker.stored batch inserted duplicates
        repository
        journal := { s.journal with saved := s.journal.saved ++ [batch] } }
  | none => { s with worker := s.worker.failed batch, repository }

/-- `stop_event.set()` -/
def signalStop (s : Shared ρ ε) : Shared ρ ε := s.withWorker fun w => { w with stopEvent := true }

end Shared

def Drain.abandon {ε : Type} (batch : List ε) (d : Drain) : Drain :=
  { abandonedTotal := d.abandonedTotal + batch.length, gaveUp := true }

namespace Thread

variable {ρ ε κ : Type}

/-- After `_persist_batch`: the loop goes on either way; the drain tries again a bounded number of times
and then abandons the batch. -/
def afterSave (batch : List ε) (success : Bool) (site : SaveSite) (s : Shared ρ ε) : Pc ε × Shared ρ ε :=
  match site with
  | .retry => (.loopTop, s)
  | .fresh => (.loopTop, s)
  | .drain attempt d =>
      if success then (.drainPop d, s)
      else if attempt + 1 < s.worker.shutdownRetryAttempts then
        (.saving batch (.drain (attempt + 1) d), s.withWorker .countRetry)
      else (.drainPop (d.abandon batch), s.abandon batch)

/-- One step of the thread. The wait is told of a stop only when there is one, and may end without
having seen one that is just being signalled. -/
def step (save : SaveTradesBatch ρ ε κ) : Move κ → Pc ε × Shared ρ ε → Option (Pc ε × Shared ρ ε)
  | .go, (.loopTop, s) =>
      if s.worker.stopEvent then some (.drainStart, s)
      else if s.worker.pendingBatch.isSome then some (.retryWait, s)
      else some (.popping, s)
  | .wait signalled, (.retryWait, s) =>
      if signalled then
        if s.worker.stopEvent then some (.drainStart, s) else none
      else
        let s := s.withWorker .countRetry
        match s.worker.pendingBatch with
        | some batch => some (.saving batch .retry, s)
        | none => some (.loopTop, s)
  | .go, (.popping, s) =>
      let (batch, s) := s.pop
      if batch.isEmpty then some (.loopTop, s) else some (.saving batch .fresh, s)
  | .save outcome, (.saving batch site, s) =>
      let (result, repository) := save outcome batch s.repository
      some (afterSave batch result.isSome site (s.persist batch result repository))
  | .go, (.drainStart, s) =>
      let s := s.withWorker fun w => { w with state := .flushing }
      match s.worker.pendingBatch with
      | some held => some (.saving held (.drain 0 {}), s)
      | none => some (.drainPop {}, s)
  | .go, (.drainPop d, s) =>
      let (batch, s) := s.pop
      if batch.isEmpty then
        some (.exited, s.withWorker fun w =>
          { w with state := if d.abandonedTotal = 0 then .stopped else .error })
      else if d.gaveUp then some (.drainPop (d.abandon batch), s.abandon batch)
      else some (.saving batch (.drain 0 d), s)
  | _, _ => none

end Thread

/-! ### One thread with its surroundings -/

/-- A step of the thread, a call on the queue by another thread, or the stop signal. -/
inductive WorkerAction (ε κ : Type)
  | thread (move : Move κ)
  | push (event : ε)
  | stop

def WorkerAction.step {ρ ε κ : Type} (save : SaveTradesBatch ρ ε κ) :
    WorkerAction ε κ → Pc ε × Shared ρ ε → Option (Pc ε × Shared ρ ε)
  | .thread move, st => Thread.step save move st
  | .push event, (pc, s) => some (pc, { s with queue := (s.queue.push event).2 })
  | .stop, (pc, s) => some (pc, s.signalStop)

/-- What `start` leaves behind on a new worker: the thread at the top of its loop. -/
def started {ρ ε : Type} (worker : BackgroundPersistenceWorker ε) (queue : TradeEventQueue ε) (repository : ρ) :
    Pc ε × Shared ρ ε :=
  (.loopTop, { worker := { worker with stopEvent := false, state := .running }, queue, repository })

end ChronosMatch
