import Mathlib.Data.List.Nodup
import ChronosMatch.Base.Transition
import ChronosMatch.Ipc.TradeQueue

/-!
# Runs of the bounded queue

Pushes, pops and `close` in any order, where a `BLOCK` push that finds the queue full gives up the lock and
takes its loop up again each time it is woken. Every push brings an event object of its own, so the events of
a run are numbered by their pushes. Whatever the policy, the accepted events without the evicted ones are
the popped ones and then those in the queue.
-/

namespace ChronosMatch

namespace TradeEventQueue

variable {ε : Type}

theorem length_append (event : ε) (q : TradeEventQueue ε) : (q.append event).queue.length = q.queue.length + 1 :=
  List.length_append

theorem append_marked (event : ε) (q : TradeEventQueue ε) :
    (q.append event).queue.length ≤ (q.append event).highWatermark := by
  rw [length_append]
  exact Nat.le_max_right _ _

theorem popNowait_queue (q : TradeEventQueue ε) : q.popNowait.1.toList ++ q.popNowait.2.queue = q.queue := by
  rw [popNowait]
  split
  · exact List.nil_append _
  · next event rest hqueue => exact hqueue.symm

theorem popNowait_snd (q : TradeEventQueue ε) : q.popNowait.2 = { q with
    queue := q.popNowait.2.queue
    totalPopped := q.totalPopped + q.popNowait.1.toList.length } := by
  rw [popNowait]
  split <;> rfl

/-- The loop of a `BLOCK` push at a moment when it has the lock, up to its next wait: `none` is one that goes
on waiting. -/
def waitNotFull (timedOut : Bool) (event : ε) (q : TradeEventQueue ε) : Option PushResult × TradeEventQueue ε :=
  if q.capacity ≤ q.queue.length ∧ q.closed = false then
    if timedOut then (some .refused, { q with droppedCount := q.droppedCount + 1 }) else (none, q)
  else if q.closed then (some .refused, q)
  else (some .accepted, q.append event)

/-- A push up to its first wait, if it has to wait. -/
def beginPush (timedOut : Bool) (event : ε) (q : TradeEventQueue ε) : Option PushResult × TradeEventQueue ε :=
  if q.closed = false ∧ q.capacity ≤ q.queue.length ∧ q.backpressure = .block then q.waitNotFull timedOut event
  else
    let (result, q) := q.push event
    (some result, q)

/-- A `BLOCK` push that stops waiting ends as a push made at that moment does. -/
theorem waitNotFull_cases (timedOut : Bool) (event : ε) {q : TradeEventQueue ε} (hpolicy : q.backpressure = .block) :
    q.waitNotFull timedOut event = (none, q) ∨
      q.waitNotFull timedOut event = (some (q.push event).1, (q.push event).2) := by
  rw [waitNotFull]
  by_cases hclosed : q.closed = true
  · refine .inr ?_
    rw [if_neg (fun hfull => by rw [hclosed] at hfull; cases hfull.2), if_pos hclosed, push, if_pos hclosed]
  · have hopen : q.closed = false := Bool.eq_false_of_not_eq_true hclosed
    by_cases hfull : q.capacity ≤ q.queue.length
    · rw [if_pos ⟨hfull, hopen⟩]
      cases timedOut with
      | false => exact .inl rfl
      | true =>
          refine .inr ?_
          rw [if_pos rfl, push, if_neg hclosed, if_pos hfull]
          split
          · next hother => rw [hpolicy] at hother; cases hother
          · rfl
          · next hother => rw [hpolicy] at hother; cases hother
          · rfl
    · refine .inr ?_
      rw [if_neg (fun h => hfull h.1), if_neg hclosed, push, if_neg hclosed, if_neg hfull]

theorem beginPush_cases (timedOut : Bool) (event : ε) (q : TradeEventQueue ε) :
    q.beginPush timedOut event = (none, q) ∧ q.backpressure = .block ∨
      q.beginPush timedOut event = (some (q.push event).1, (q.push event).2) := by
  rw [beginPush]
  split
  · next hblock =>
      rcases q.waitNotFull_cases timedOut event hblock.2.2 with hwaits | hends
      · exact .inl ⟨hwaits, hblock.2.2⟩
      · exact .inr hends
  · exact .inr rfl

theorem waitNotFull_of_closed (timedOut : Bool) (event : ε) {q : TradeEventQueue ε} (hclosed : q.closed = true) :
    q.waitNotFull timedOut event = (some .refused, q) := by
  rw [waitNotFull, if_neg (fun hfull => by rw [hclosed] at hfull; cases hfull.2), if_pos hclosed]

theorem beginPush_of_closed (timedOut : Bool) (event : ε) {q : TradeEventQueue ε} (hclosed : q.closed = true) :
    q.beginPush timedOut event = (some .refused, q) := by
  rw [beginPush, if_neg (fun hblock => by rw [hclosed] at hblock; cases hblock.1), push, if_pos hclosed]

end TradeEventQueue

/-! ### Runs -/

/-- A queue with the pushes that wait for space, and what has happened so far. -/
structure QueueRun (α : Type) where
  queue : TradeEventQueue (Nat × α)
  begun : Nat := 0
  waiting : List (Nat × α) := []
  accepted : List (Nat × α) := []
  evicted : List (Nat × α) := []
  popped : List (Nat × α) := []
  /-- The pushes that were refused by an open queue because it was full. -/
  refusedFull : Nat := 0

/-- `timedOut` says that the deadline of the push has passed at that moment. -/
inductive QueueAction (α : Type)
  | push (event : α) (timedOut : Bool)
  | wake (i : Nat) (timedOut : Bool)
  | popBatch (maxItems : Int)
  | popNowait
  | close

namespace QueueRun

variable {α : Type} [DecidableEq α]

def created (capacity : Int) (backpressure : BackpressurePolicy) : QueueRun α :=
  { queue := .create capacity backpressure }

/-- A push that has had the lock waits or has ended. What the queue no longer holds was evicted. -/
def settle (entry : Nat × α) (outcome : Option PushResult × TradeEventQueue (Nat × α)) (s : QueueRun α) : QueueRun α :=
  let (result, queue) := outcome
  { s with
    queue
    waiting := if result = none then s.waiting ++ [entry] else s.waiting
    accepted := if result = some .accepted then s.accepted ++ [entry] else s.accepted
    evicted := s.evicted ++ s.queue.queue.filter (· ∉ queue.queue)
    refusedFull :=
      if (result = some .refused ∨ result = some .queueFull) ∧ s.queue.closed = false ∧
        s.queue.capacity ≤ s.queue.queue.length then s.refusedFull + 1 else s.refusedFull }

end QueueRun

def QueueAction.step {α : Type} [DecidableEq α] : QueueAction α → QueueRun α → Option (QueueRun α)
  | .push event timedOut, s =>
      let entry := (s.begun, event)
      some ({ s with begun := s.begun + 1 }.settle entry (s.queue.beginPush timedOut entry))
  | .wake i timedOut, s =>
      s.waiting[i]?.map fun entry =>
        { s with waiting := s.waiting.eraseIdx i }.settle entry (s.queue.waitNotFull timedOut entry)
  | .popBatch maxItems, s =>
      let (batch, queue) := s.queue.popBatch maxItems
      some { s with queue, popped := s.popped ++ batch }
  | .popNowait, s =>
      let (event, queue) := s.queue.popNowait
      some { s with queue, popped := s.popped ++ event.toList }
  | .close, s => some { s with queue := s.queue.close }

/-! ### The event objects -/

namespace QueueRun

variable {α : Type}

/-- No push has the number of another, and only accepted events are evicted. -/
structure Numbered (s : QueueRun α) : Prop where
  nodup : ((s.accepted ++ s.waiting).map Prod.fst).Nodup
  lt_begun : ∀ entry ∈ s.accepted ++ s.waiting, entry.1 < s.begun
  evicted : s.evicted ⊆ s.accepted

theorem Numbered.begin {s : QueueRun α} (h : s.Numbered) (event : α) :
    Numbered { s with begun := s.begun + 1, waiting := s.waiting ++ [(s.begun, event)] } := by
  refine ⟨?_, ?_, h.evicted⟩
  · show ((s.accepted ++ (s.waiting ++ [(s.begun, event)])).map Prod.fst).Nodup
    rw [← List.append_assoc, List.map_append, List.map_singleton, List.nodup_append]
    refine ⟨h.nodup, List.pairwise_singleton _ _, ?_⟩
    intro number hnumber number' hnumber' heq
    obtain ⟨entry, hentry, rfl⟩ := List.mem_map.mp hnumber
    have hlt := h.lt_begun entry hentry
    rw [List.mem_singleton.mp hnumber'] at heq
    omega
  · intro entry hentry
    have hentry' : entry ∈ s.accepted ++ (s.waiting ++ [(s.begun, event)]) := hentry
    rw [← List.append_assoc, List.mem_append] at hentry'
    show entry.1 < s.begun + 1
    rcases hentry' with hold | hnew
    · exact Nat.lt_succ_of_lt (h.lt_begun entry hold)
    · rw [List.mem_singleton.mp hnew]
      exact Nat.lt_succ_self _

theorem Numbered.perm {s : QueueRun α} (h : s.Numbered) {accepted waiting : List (Nat × α)}
    (hperm : (accepted ++ waiting).Perm (s.accepted ++ s.waiting)) {evicted : List (Nat × α)}
    (hevicted : evicted ⊆ accepted) : Numbered { s with accepted, waiting, evicted } :=
  ⟨(hperm.map Prod.fst).nodup_iff.mpr h.nodup, fun entry hentry => h.lt_begun entry (hperm.mem_iff.mp hentry), hevicted⟩

theorem Numbered.wake {s : QueueRun α} (h : s.Numbered) {i : Nat} {entry : Nat × α}
    (hentry : s.waiting[i]? = some entry) :
    Numbered { s with waiting := s.waiting.eraseIdx i ++ [entry] } := by
  obtain ⟨hi, rfl⟩ := List.getElem?_eq_some_iff.mp hentry
  have hperm : (s.waiting.eraseIdx i ++ [s.waiting[i]]).Perm s.waiting :=
    List.perm_append_comm.trans (List.getElem_cons_eraseIdx_perm hi)
  exact h.perm (hperm.append_left _) h.evicted

theorem Numbered.nodup_accepted {s : QueueRun α} (h : s.Numbered) : s.accepted.Nodup := by
  have hnodup := h.nodup
  rw [List.map_append] at hnodup
  exact hnodup.of_append_left.of_map _

theorem Numbered.fresh {s : QueueRun α} {entry : Nat × α}
    (h : Numbered { s with waiting := s.waiting ++ [entry] }) : entry ∉ s.accepted := by
  intro hmem
  have hnodup : ((s.accepted ++ (s.waiting ++ [entry])).map Prod.fst).Nodup := h.nodup
  rw [List.map_append] at hnodup
  exact (List.nodup_append.mp hnodup).2.2 _ (List.mem_map_of_mem hmem) _
    (List.mem_map_of_mem (List.mem_append_right _ List.mem_cons_self)) rfl

theorem Numbered.withdraw {s : QueueRun α} {entry : Nat × α}
    (h : Numbered { s with waiting := s.waiting ++ [entry] }) : s.Numbered := by
  have hsublist : (s.accepted ++ s.waiting).Sublist (s.accepted ++ (s.waiting ++ [entry])) :=
    (List.sublist_append_left _ _).append_left _
  exact ⟨h.nodup.sublist (hsublist.map _), fun e he => h.lt_begun e (hsublist.subset he), h.evicted⟩

theorem Numbered.accept {s : QueueRun α} {entry : Nat × α}
    (h : Numbered { s with waiting := s.waiting ++ [entry] }) (queue : TradeEventQueue (Nat × α))
    {evicted : List (Nat × α)} (hevicted : evicted ⊆ s.accepted) :
    Numbered { s with queue, accepted := s.accepted ++ [entry], evicted } := by
  have hperm : ((s.accepted ++ [entry]) ++ s.waiting).Perm (s.accepted ++ (s.waiting ++ [entry])) := by
    rw [List.append_assoc]
    exact List.perm_append_comm.append_left _
  have haccept := h.perm hperm (List.Subset.trans hevicted (List.subset_append_left _ _))
  exact ⟨haccept.nodup, haccept.lt_begun, haccept.evicted⟩

/-! ### What a step does -/

/-- What becomes of a push that has had the lock. -/
inductive Settled (entry : Nat × α) (s : QueueRun α) : QueueRun α → Prop
  | waits (hpolicy : s.queue.backpressure = .block) : Settled entry s { s with waiting := s.waiting ++ [entry] }
  | closed (hclosed : s.queue.closed = true) : Settled entry s s
  | refused (hopen : s.queue.closed = false) (hfull : s.queue.capacity ≤ s.queue.queue.length)
      (hpolicy : s.queue.backpressure ≠ .dropOldest) : Settled entry s { s with
        queue := { s.queue with droppedCount := s.queue.droppedCount + 1 }
        refusedFull := s.refusedFull + 1 }
  | evicted (hopen : s.queue.closed = false) (hfull : s.queue.capacity ≤ s.queue.queue.length)
      (hpolicy : s.queue.backpressure = .dropOldest) (oldest : Nat × α) (rest : List (Nat × α))
      (hqueue : s.queue.queue = oldest :: rest) : Settled entry s { s with
        queue := .append entry { s.queue with queue := rest, droppedCount := s.queue.droppedCount + 1 }
        accepted := s.accepted ++ [entry]
        evicted := s.evicted ++ [oldest] }
  | accepted (hopen : s.queue.closed = false) (hroom : s.queue.queue.length < s.queue.capacity) :
      Settled entry s { s with queue := s.queue.append entry, accepted := s.accepted ++ [entry] }

/-- What a step does: a push has the lock, a batch is popped, or the queue is closed. -/
inductive StepEffect (s : QueueRun α) : QueueRun α → Prop
  | pushed (begun : Nat) (waiting : List (Nat × α)) (entry : Nat × α) (hwaiting : waiting ≠ [] → s.waiting ≠ [])
      (hnumbered : Numbered { s with begun, waiting := waiting ++ [entry] }) {s' : QueueRun α}
      (hsettled : Settled entry { s with begun, waiting } s') : StepEffect s s'
  | popped (batch rest : List (Nat × α)) (hqueue : s.queue.queue = batch ++ rest) : StepEffect s { s with
      queue := { s.queue with queue := rest, totalPopped := s.queue.totalPopped + batch.length }
      popped := s.popped ++ batch }
  | closed : StepEffect s { s with queue := s.queue.close }

theorem StepEffect.configuration {s s' : QueueRun α} (heffect : StepEffect s s') :
    s'.queue.capacity = s.queue.capacity ∧ s'.queue.backpressure = s.queue.backpressure := by
  cases heffect with
  | pushed begun waiting entry hwaiting hnumbered hsettled => cases hsettled <;> exact ⟨rfl, rfl⟩
  | popped batch rest hqueue => exact ⟨rfl, rfl⟩
  | closed => exact ⟨rfl, rfl⟩

theorem StepEffect.of_closed {s s' : QueueRun α} (heffect : StepEffect s s') (hclosed : s.queue.closed = true) :
    s'.queue.closed = true ∧ s'.accepted = s.accepted ∧ s'.evicted = s.evicted := by
  cases heffect with
  | pushed begun waiting entry hwaiting hnumbered hsettled =>
      cases hsettled with
      | waits hpolicy => exact ⟨hclosed, rfl, rfl⟩
      | closed _ => exact ⟨hclosed, rfl, rfl⟩
      | refused hopen hfull hpolicy => exact ⟨hclosed, rfl, rfl⟩
      | evicted hopen hfull hpolicy oldest rest hqueue => exact absurd (hclosed.symm.trans hopen) Bool.noConfusion
      | accepted hopen hroom => exact absurd (hclosed.symm.trans hopen) Bool.noConfusion
  | popped batch rest hqueue => exact ⟨hclosed, rfl, rfl⟩
  | closed => exact ⟨rfl, rfl, rfl⟩

variable [DecidableEq α]

/-- The accepted events that were not evicted. -/
def kept (s : QueueRun α) : List (Nat × α) := s.accepted.filter (· ∉ s.evicted)

theorem filter_notMem_self {β : Type} [BEq β] [LawfulBEq β] {l l' : List β} (h : l ⊆ l') : l.filter (· ∉ l') = [] := by
  rw [List.filter_eq_nil_iff]
  intro b hb
  simpa using h hb

theorem settle_eq {entry : Nat × α} {s : QueueRun α} {result : Option PushResult} (queue : TradeEventQueue (Nat × α))
    {gone : List (Nat × α)} (hgone : s.queue.queue.filter (· ∉ queue.queue) = gone) :
    s.settle entry (result, queue) = { s with
      queue
      waiting := if result = none then s.waiting ++ [entry] else s.waiting
      accepted := if result = some .accepted then s.accepted ++ [entry] else s.accepted
      evicted := s.evicted ++ gone
      refusedFull :=
        if (result = some .refused ∨ result = some .queueFull) ∧ s.queue.closed = false ∧
          s.queue.capacity ≤ s.queue.queue.length then s.refusedFull + 1 else s.refusedFull } := by
  rw [← hgone]
  rfl

theorem settled {entry : Nat × α} {s : QueueRun α} (hnodup : (s.queue.queue ++ [entry]).Nodup)
    {outcome : Option PushResult × TradeEventQueue (Nat × α)}
    (houtcome : outcome = (none, s.queue) ∧ s.queue.backpressure = .block ∨
      outcome = (some (s.queue.push entry).1, (s.queue.push entry).2)) :
    Settled entry s (s.settle entry outcome) := by
  have hsame : s.queue.queue.filter (· ∉ s.queue.queue) = [] := filter_notMem_self (List.Subset.refl _)
  rcases houtcome with ⟨rfl, hpolicy⟩ | rfl
  · rw [settle_eq s.queue hsame, List.append_nil]
    have hsettled : Settled entry s _ := .waits hpolicy
    simpa using hsettled
  · have heffect := s.queue.push_effect entry
    generalize s.queue.push entry = pushed at heffect
    obtain ⟨result, queue⟩ := pushed
    cases heffect with
    | closed hclosed =>
        show Settled entry s (s.settle entry (some .refused, s.queue))
        rw [settle_eq s.queue hsame, List.append_nil]
        have hsettled : Settled entry s _ := .closed hclosed
        simpa [hclosed] using hsettled
    | refused hopen hfull hpolicy hresult =>
        show Settled entry s (s.settle entry (some result, { s.queue with droppedCount := s.queue.droppedCount + 1 }))
        have hrefusal : result = .refused ∨ result = .queueFull := by
          cases result with
          | accepted => exact absurd rfl hresult
          | refused => exact .inl rfl
          | queueFull => exact .inr rfl
        have hnot : result ≠ .accepted := hresult
        rw [settle_eq { s.queue with droppedCount := s.queue.droppedCount + 1 } hsame, List.append_nil]
        have hsettled : Settled entry s _ := .refused hopen hfull hpolicy
        simpa [hopen, hfull, hnot, hrefusal] using hsettled
    | evicted hopen hfull hpolicy oldest rest hqueue =>
        show Settled entry s (s.settle entry (some .accepted,
          .append entry { s.queue with queue := rest, droppedCount := s.queue.droppedCount + 1 }))
        have hgone : s.queue.queue.filter (· ∉ rest ++ [entry]) = [oldest] := by
          rw [hqueue, List.cons_append, List.nodup_cons] at hnodup
          have hold : decide (oldest ∉ rest ++ [entry]) = true := by simpa using hnodup.1
          rw [hqueue, List.filter_cons, hold, if_pos rfl, filter_notMem_self (List.subset_append_left rest [entry])]
        rw [settle_eq _ hgone]
        have hsettled : Settled entry s _ := .evicted hopen hfull hpolicy oldest rest hqueue
        simpa using hsettled
    | accepted hopen hroom =>
        show Settled entry s (s.settle entry (some .accepted, s.queue.append entry))
        have hgone : s.queue.queue.filter (· ∉ s.queue.queue ++ [entry]) = [] :=
          filter_notMem_self (List.subset_append_left _ _)
        rw [settle_eq _ hgone, List.append_nil]
        have hsettled : Settled entry s _ := .accepted hopen hroom
        simpa using hsettled

/-! ### The invariant -/

/-- What the queue and its counters say of the past. -/
structure Accurate (s : QueueRun α) : Prop where
  kept : s.kept = s.popped ++ s.queue.queue
  length_le : s.queue.queue.length ≤ s.queue.capacity
  marked : s.queue.queue.length ≤ s.queue.highWatermark
  pushed : s.queue.totalPushed = s.accepted.length
  popped : s.queue.totalPopped = s.popped.length
  balance : s.accepted.length = s.popped.length + s.queue.queue.length + s.evicted.length
  dropped : s.queue.droppedCount = s.evicted.length + s.refusedFull
  refused : s.queue.backpressure = .dropOldest → s.refusedFull = 0
  evicted : s.queue.backpressure ≠ .dropOldest → s.evicted = []
  blocked : s.waiting ≠ [] → s.queue.backpressure = .block

/-- What the events of a run have in common with the queue. -/
structure Sound (s : QueueRun α) : Prop where
  numbered : s.Numbered
  accurate : s.Accurate

theorem kept_concat {s : QueueRun α} {entry : Nat × α} (hfresh : entry ∉ s.evicted) :
    kept { s with accepted := s.accepted ++ [entry] } = s.kept ++ [entry] := by
  rw [kept, kept, List.filter_append]
  simp [hfresh]

/-- An event that was kept and is evicted leaves a gap where it was. -/
theorem kept_evict {s : QueueRun α} (hnodup : s.kept.Nodup) {before after : List (Nat × α)} {oldest : Nat × α}
    (hkept : s.kept = before ++ oldest :: after) :
    kept { s with evicted := s.evicted ++ [oldest] } = before ++ after := by
  have hsplit : kept { s with evicted := s.evicted ++ [oldest] } = s.kept.filter (· ≠ oldest) := by
    rw [kept, kept, List.filter_filter]
    congr
    funext entry
    simp [and_comm]
  rw [hkept, List.nodup_middle, List.nodup_cons] at hnodup
  obtain ⟨hnot, -⟩ := hnodup
  have hall : ∀ l : List (Nat × α), l ⊆ before ++ after → l.filter (· ≠ oldest) = l := by
    intro l hl
    rw [List.filter_eq_self]
    intro entry hentry
    have hne : entry ≠ oldest := fun heq => hnot (heq ▸ hl hentry)
    simpa using hne
  rw [hsplit, hkept, List.filter_append, List.filter_cons, hall before (List.subset_append_left _ _),
    hall after (List.subset_append_right _ _)]
  simp

theorem Accurate.evict {entry oldest : Nat × α} {s : QueueRun α} (h : s.Accurate)
    (hnumbered : Numbered { s with waiting := s.waiting ++ [entry] }) (hpolicy : s.queue.backpressure = .dropOldest)
    {rest : List (Nat × α)} (hqueue : s.queue.queue = oldest :: rest) :
    Sound { s with
      queue := .append entry { s.queue with queue := rest, droppedCount := s.queue.droppedCount + 1 }
      accepted := s.accepted ++ [entry]
      evicted := s.evicted ++ [oldest] } := by
  have hsame := hnumbered.withdraw
  have hkept := h.kept
  rw [hqueue] at hkept
  have hold : oldest ∈ s.kept := by
    rw [hkept]
    exact List.mem_append_right _ List.mem_cons_self
  have hsubset : s.evicted ++ [oldest] ⊆ s.accepted :=
    List.append_subset.mpr ⟨hsame.evicted, List.cons_subset.mpr ⟨List.mem_of_mem_filter hold, List.nil_subset _⟩⟩
  have hlength := h.length_le
  have hbalance := h.balance
  rw [hqueue, List.length_cons] at hlength hbalance
  have hfresh : entry ∉ s.evicted ++ [oldest] := fun hmem => hnumbered.fresh (hsubset hmem)
  refine ⟨hnumbered.accept _ hsubset, ⟨?_, ?_, TradeEventQueue.append_marked _ _, ?_, h.popped, ?_, ?_, h.refused,
    fun hother => absurd hpolicy hother, h.blocked⟩⟩
  · have hevict := kept_evict (hsame.nodup_accepted.filter _) hkept
    have hconcat := kept_concat (s := { s with evicted := s.evicted ++ [oldest] }) hfresh
    rw [hevict, List.append_assoc] at hconcat
    exact hconcat
  · rw [TradeEventQueue.length_append]
    exact hlength
  · show s.queue.totalPushed + 1 = (s.accepted ++ [entry]).length
    rw [h.pushed, List.length_append, List.length_singleton]
  · show (s.accepted ++ [entry]).length =
      s.popped.length + (rest ++ [entry]).length + (s.evicted ++ [oldest]).length
    simp only [List.length_append, List.length_singleton]
    omega
  · show s.queue.droppedCount + 1 = (s.evicted ++ [oldest]).length + s.refusedFull
    rw [h.dropped, List.length_append, List.length_singleton, Nat.add_right_comm]

theorem Accurate.accept {entry : Nat × α} {s : QueueRun α} (h : s.Accurate)
    (hnumbered : Numbered { s with waiting := s.waiting ++ [entry] })
    (hroom : s.queue.queue.length < s.queue.capacity) :
    Sound { s with queue := s.queue.append entry, accepted := s.accepted ++ [entry] } := by
  have hevicted := hnumbered.withdraw.evicted
  have hfresh : entry ∉ s.evicted := fun hmem => hnumbered.fresh (hevicted hmem)
  refine ⟨hnumbered.accept _ hevicted, ⟨?_, ?_, TradeEventQueue.append_marked _ _, ?_, h.popped, ?_, h.dropped, h.refused,
    h.evicted, h.blocked⟩⟩
  · have hconcat := kept_concat hfresh
    rw [h.kept, List.append_assoc] at hconcat
    exact hconcat
  · rw [TradeEventQueue.length_append]
    exact hroom
  · show s.queue.totalPushed + 1 = (s.accepted ++ [entry]).length
    rw [h.pushed, List.length_append, List.length_singleton]
  · have hbalance := h.balance
    show (s.accepted ++ [entry]).length = s.popped.length + (s.queue.queue ++ [entry]).length + s.evicted.length
    simp only [List.length_append, List.length_singleton]
    omega

theorem Accurate.settled {entry : Nat × α} {s s' : QueueRun α} (h : s.Accurate)
    (hnumbered : Numbered { s with waiting := s.waiting ++ [entry] }) (hsettled : Settled entry s s') :
    s'.Sound := by
  have hsame := hnumbered.withdraw
  cases hsettled with
  | waits hpolicy =>
      exact ⟨hnumbered, ⟨h.kept, h.length_le, h.marked, h.pushed, h.popped, h.balance, h.dropped, h.refused, h.evicted,
        fun _ => hpolicy⟩⟩
  | closed hclosed => exact ⟨hsame, h⟩
  | refused hopen hfull hpolicy =>
      refine ⟨⟨hsame.nodup, hsame.lt_begun, hsame.evicted⟩, ⟨h.kept, h.length_le, h.marked, h.pushed, h.popped, h.balance,
        ?_, fun hdrop => absurd hdrop hpolicy, h.evicted, h.blocked⟩⟩
      show s.queue.droppedCount + 1 = s.evicted.length + (s.refusedFull + 1)
      rw [h.dropped, Nat.add_assoc]
  | evicted hopen hfull hpolicy oldest rest hqueue => exact h.evict hnumbered hpolicy hqueue
  | accepted hopen hroom => exact h.accept hnumbered hroom

/-! ### Steps -/

theorem Sound.nodup_queue {s : QueueRun α} (h : s.Sound) {entry : Nat × α} (hfresh : entry ∉ s.accepted) :
    (s.queue.queue ++ [entry]).Nodup := by
  have hkept : (s.popped ++ s.queue.queue).Nodup := by
    rw [← h.accurate.kept]
    exact h.numbered.nodup_accepted.filter _
  refine List.nodup_append.mpr ⟨hkept.of_append_right, List.pairwise_singleton _ _, ?_⟩
  intro queued hqueued other hother heq
  rw [List.mem_singleton.mp hother] at heq
  refine hfresh (List.mem_of_mem_filter (p := (· ∉ s.evicted)) ?_)
  show entry ∈ s.kept
  rw [h.accurate.kept, ← heq]
  exact List.mem_append_right _ hqueued

theorem Sound.step_effect {s s' : QueueRun α} (h : s.Sound) {action : QueueAction α} (hstep : action.step s = some s') :
    StepEffect s s' := by
  cases action with
  | push event timedOut =>
      cases hstep
      have hnumbered := h.numbered.begin event
      refine .pushed (s.begun + 1) s.waiting (s.begun, event) id hnumbered (settled ?_ ?_)
      · exact h.nodup_queue (Numbered.fresh (s := { s with begun := s.begun + 1 }) hnumbered)
      rcases s.queue.beginPush_cases timedOut (s.begun, event) with hwaits | hends
      · exact .inl hwaits
      · exact .inr hends
  | wake i timedOut =>
      obtain ⟨entry, hentry, rfl⟩ := Option.map_eq_some_iff.mp hstep
      have hnumbered := h.numbered.wake hentry
      have hwaiting : s.waiting ≠ [] := by
        intro hnone
        rw [hnone] at hentry
        cases hentry
      have hpolicy := h.accurate.blocked hwaiting
      refine .pushed s.begun (s.waiting.eraseIdx i) entry (fun _ => hwaiting) hnumbered (settled ?_ ?_)
      · exact h.nodup_queue (Numbered.fresh (s := { s with waiting := s.waiting.eraseIdx i }) hnumbered)
      rcases s.queue.waitNotFull_cases timedOut entry hpolicy with hwaits | hends
      · exact .inl ⟨hwaits, hpolicy⟩
      · exact .inr hends
  | popBatch maxItems =>
      cases hstep
      exact .popped (s.queue.popBatch maxItems).1 (s.queue.popBatch maxItems).2.queue
        (s.queue.popBatch_queue maxItems).symm
  | popNowait =>
      cases hstep
      show StepEffect s { s with queue := s.queue.popNowait.2, popped := s.popped ++ s.queue.popNowait.1.toList }
      rw [s.queue.popNowait_snd]
      exact .popped s.queue.popNowait.1.toList s.queue.popNowait.2.queue s.queue.popNowait_queue.symm
  | close =>
      cases hstep
      exact .closed

theorem StepEffect.sound {s s' : QueueRun α} (heffect : StepEffect s s') (h : s.Sound) : s'.Sound := by
  cases heffect with
  | pushed begun waiting entry hwaiting hnumbered hsettled =>
      have haccurate : Accurate { s with begun, waiting } :=
        { h.accurate with blocked := fun hsome => h.accurate.blocked (hwaiting hsome) }
      exact haccurate.settled hnumbered hsettled
  | popped batch rest hqueue =>
      have hkept := h.accurate.kept
      have hlength := h.accurate.length_le
      have hmarked := h.accurate.marked
      have hbalance := h.accurate.balance
      rw [hqueue] at hkept hlength hmarked hbalance
      rw [List.length_append] at hlength hmarked hbalance
      refine ⟨⟨h.numbered.nodup, h.numbered.lt_begun, h.numbered.evicted⟩, { h.accurate with
        kept := hkept.trans (List.append_assoc _ _ _).symm
        length_le := Nat.le_of_add_left_le hlength
        marked := Nat.le_of_add_left_le hmarked
        popped := ?_
        balance := ?_ }⟩
      · show s.queue.totalPopped + batch.length = (s.popped ++ batch).length
        rw [h.accurate.popped, List.length_append]
      · show s.accepted.length = (s.popped ++ batch).length + rest.length + s.evicted.length
        rw [List.length_append]
        omega
  | closed =>
      exact ⟨⟨h.numbered.nodup, h.numbered.lt_begun, h.numbered.evicted⟩, { h.accurate with }⟩

theorem StepEffect.marked {s s' : QueueRun α} (heffect : StepEffect s s') (h : s.Sound) :
    s'.queue.highWatermark = max s.queue.highWatermark s'.queue.queue.length := by
  have hmarked := h.accurate.marked
  have hsame : s.queue.highWatermark = max s.queue.highWatermark s.queue.queue.length :=
    (max_eq_left hmarked).symm
  cases heffect with
  | pushed begun waiting entry hwaiting hnumbered hsettled =>
      cases hsettled with
      | waits hpolicy => exact hsame
      | closed hclosed => exact hsame
      | refused hopen hfull hpolicy => exact hsame
      | evicted hopen hfull hpolicy oldest rest hqueue =>
          rw [TradeEventQueue.length_append]
          rfl
      | accepted hopen hroom =>
          rw [TradeEventQueue.length_append]
          rfl
  | popped batch rest hqueue =>
      rw [hqueue, List.length_append] at hmarked
      exact (max_eq_left (Nat.le_of_add_left_le hmarked)).symm
  | closed => exact hsame

/-- What a step evicts is the oldest event of a full queue that drops its oldest. -/
def EvictsOldest (action : QueueAction α) (s : QueueRun α) : Prop :=
  ∀ s', action.step s = some s' → s'.evicted = s.evicted ∨
    s.queue.backpressure = .dropOldest ∧ s.queue.capacity ≤ s.queue.queue.length ∧
      ∃ oldest, s.queue.queue.head? = some oldest ∧ s'.evicted = s.evicted ++ [oldest]

theorem Sound.evictsOldest {s : QueueRun α} (h : s.Sound) (action : QueueAction α) : EvictsOldest action s := by
  intro s' hstep
  cases h.step_effect hstep with
  | pushed begun waiting entry hwaiting hnumbered hsettled =>
      cases hsettled with
      | waits hpolicy => exact .inl rfl
      | closed hclosed => exact .inl rfl
      | refused hopen hfull hpolicy => exact .inl rfl
      | evicted hopen hfull hpolicy oldest rest hqueue =>
          exact .inr ⟨hpolicy, hfull, oldest, by rw [show s.queue.queue = _ from hqueue]; rfl, rfl⟩
      | accepted hopen hroom => exact .inl rfl
  | popped batch rest hqueue => exact .inl rfl
  | closed => exact .inl rfl

/-! ### Whole runs -/

theorem Sound.created (capacity : Int) (backpressure : BackpressurePolicy) :
    Sound (QueueRun.created (α := α) capacity backpressure) :=
  ⟨⟨List.nodup_nil, fun _ h => (by cases h), List.Subset.refl _⟩,
    ⟨rfl, Nat.zero_le _, Nat.le_refl _, rfl, rfl, rfl, rfl, fun _ => rfl, fun _ => rfl, fun h => absurd rfl h⟩⟩

theorem Sound.run {actions : List (QueueAction α)} {s s' : QueueRun α} (h : s.Sound)
    (hrun : Transition.run QueueAction.step actions s = some s') : s'.Sound := by
  have hstep : ∀ {action : QueueAction α} {s s' : QueueRun α}, action.step s = some s' → s.Sound → s'.Sound :=
    fun hstep h => (h.step_effect hstep).sound h
  exact Transition.invariant hstep hrun h

theorem run_configuration {actions : List (QueueAction α)} {s s' : QueueRun α} (h : s.Sound)
    (hrun : Transition.run QueueAction.step actions s = some s') :
    s'.queue.capacity = s.queue.capacity ∧ s'.queue.backpressure = s.queue.backpressure := by
  have hstep : ∀ {action : QueueAction α} {t t' : QueueRun α}, action.step t = some t' →
      (t.Sound ∧ t.queue.capacity = s.queue.capacity ∧ t.queue.backpressure = s.queue.backpressure) →
      t'.Sound ∧ t'.queue.capacity = s.queue.capacity ∧ t'.queue.backpressure = s.queue.backpressure := by
    rintro action t t' hstep ⟨hsound, hcapacity, hpolicy⟩
    have heffect := hsound.step_effect hstep
    obtain ⟨hcapacity', hpolicy'⟩ := heffect.configuration
    exact ⟨heffect.sound hsound, hcapacity'.trans hcapacity, hpolicy'.trans hpolicy⟩
  have hinit : s.Sound ∧ s.queue.capacity = s.queue.capacity ∧ s.queue.backpressure = s.queue.backpressure :=
    ⟨h, rfl, rfl⟩
  exact (Transition.invariant hstep hrun hinit).2

theorem run_of_closed {actions : List (QueueAction α)} {s s' : QueueRun α} (h : s.Sound)
    (hrun : Transition.run QueueAction.step actions s = some s') (hclosed : s.queue.closed = true) :
    s'.queue.closed = true ∧ s'.accepted = s.accepted ∧ s'.kept = s.kept := by
  have hstep : ∀ {action : QueueAction α} {t t' : QueueRun α}, action.step t = some t' →
      (t.Sound ∧ t.queue.closed = true ∧ t.accepted = s.accepted ∧ t.evicted = s.evicted) →
      t'.Sound ∧ t'.queue.closed = true ∧ t'.accepted = s.accepted ∧ t'.evicted = s.evicted := by
    rintro action t t' hstep ⟨hsound, hclosed, haccepted, hevicted⟩
    have heffect := hsound.step_effect hstep
    obtain ⟨hclosed', haccepted', hevicted'⟩ := heffect.of_closed hclosed
    exact ⟨heffect.sound hsound, hclosed', haccepted'.trans haccepted, hevicted'.trans hevicted⟩
  obtain ⟨-, hclosed', haccepted, hevicted⟩ := Transition.invariant hstep hrun ⟨h, hclosed, rfl, rfl⟩
  exact ⟨hclosed', haccepted, by rw [kept, kept, haccepted, hevicted]⟩

end QueueRun

/-- A queue of any capacity and policy stays within its capacity, hands out the accepted events that it does
not evict in their order, evicts only the oldest and only where that is its policy, counts what it takes,
hands out and loses, and marks its greatest length. After `close` it refuses every push, those that were
waiting included, and still hands out what it holds. -/
theorem queue_run_bounded {α : Type} [DecidableEq α] (capacity : Int) (backpressure : BackpressurePolicy)
    (actions : List (QueueAction α)) (s : QueueRun α)
    (hrun : Transition.run QueueAction.step actions (.created capacity backpressure) = some s) :
    s.queue.queue.length ≤ (max 1 capacity).toNat ∧
      s.accepted.filter (· ∉ s.evicted) = s.popped ++ s.queue.queue ∧
      s.accepted.Nodup ∧ s.popped.Nodup ∧ s.popped.Sublist s.accepted ∧
      (backpressure ≠ .dropOldest → s.evicted = []) ∧
      Transition.Throughout QueueAction.step QueueRun.EvictsOldest actions (.created capacity backpressure) ∧
      s.queue.totalPushed = s.accepted.length ∧
      (backpressure = .dropOldest →
        s.queue.totalPushed = s.queue.totalPopped + s.queue.queue.length + s.queue.droppedCount) ∧
      (backpressure ≠ .dropOldest → s.queue.totalPushed = s.queue.totalPopped + s.queue.queue.length ∧
        s.queue.droppedCount = s.refusedFull) ∧
      IsGreatest (Set.image (fun t => t.queue.queue.length)
        {t | Transition.Visits QueueAction.step actions (.created capacity backpressure) t}) s.queue.highWatermark ∧
      ∀ before after t, actions = before ++ .close :: after →
        Transition.run QueueAction.step before (.created capacity backpressure) = some t →
        s.accepted = t.accepted ∧ s.popped ++ s.queue.queue = t.popped ++ t.queue.queue ∧
          (∀ entry timedOut, s.queue.beginPush timedOut entry = (some .refused, s.queue) ∧
            s.queue.waitNotFull timedOut entry = (some .refused, s.queue)) ∧
          ∃ u, QueueAction.step (.popBatch s.queue.queue.length) s = some u ∧ u.popped = t.popped ++ t.queue.queue := by
  have hinit : QueueRun.Sound (.created (α := α) capacity backpressure) := .created _ _
  have hsound := hinit.run hrun
  obtain ⟨hcapacity, hpolicy⟩ := QueueRun.run_configuration hinit hrun
  have hpolicy' : s.queue.backpressure = backpressure := hpolicy
  have haccurate := hsound.accurate
  have hnodup := hsound.numbered.nodup_accepted
  have hpopped : s.popped.Sublist s.kept := haccurate.kept ▸ List.sublist_append_left _ _
  have hbalance := haccurate.balance
  rw [← haccurate.pushed, ← haccurate.popped] at hbalance
  refine ⟨haccurate.length_le.trans hcapacity.le, haccurate.kept, hnodup, (hnodup.filter _).sublist hpopped,
    hpopped.trans List.filter_sublist, fun hother => haccurate.evicted (hpolicy'.trans_ne hother), ?_,
    haccurate.pushed, ?_, ?_, ?_, ?_⟩
  · intro before action after t hsplit hbefore
    exact (hinit.run hbefore).evictsOldest action
  · intro hdrop
    rw [haccurate.dropped, haccurate.refused (hpolicy'.trans hdrop)]
    exact hbalance
  · intro hother
    have hnone := haccurate.evicted (hpolicy'.trans_ne hother)
    rw [haccurate.dropped, hnone, List.length_nil, Nat.zero_add]
    rw [hnone] at hbalance
    exact ⟨hbalance, rfl⟩
  · have hstep : ∀ {action : QueueAction α} {t t' : QueueRun α}, action.step t = some t' → t.Sound →
        t'.Sound ∧ t'.queue.highWatermark = max t.queue.highWatermark t'.queue.queue.length :=
      fun hstep h => ⟨(h.step_effect hstep).sound h, (h.step_effect hstep).marked h⟩
    refine Transition.isGreatest_mark hstep hrun hinit ?_
    rfl
  · intro before after t hsplit hbefore
    rw [hsplit, Transition.run_append, hbefore, Option.bind_some] at hrun
    have ht := hinit.run hbefore
    obtain ⟨closed, hclose, hafter⟩ := Transition.run_cons hrun
    have hsoundClosed := (ht.step_effect hclose).sound ht
    cases hclose
    obtain ⟨hclosed, haccepted, hkept⟩ := QueueRun.run_of_closed hsoundClosed hafter rfl
    rw [haccurate.kept, hsoundClosed.accurate.kept] at hkept
    refine ⟨haccepted, hkept, fun entry timedOut => ⟨s.queue.beginPush_of_closed timedOut entry hclosed,
      s.queue.waitNotFull_of_closed timedOut entry hclosed⟩, _, rfl, ?_⟩
    calc s.popped ++ s.queue.queue.take (min (s.queue.queue.length : Int) s.queue.queue.length).toNat
        = s.popped ++ s.queue.queue := by rw [min_self, Int.toNat_natCast, List.take_length]
      _ = t.popped ++ t.queue.queue := hkept

/-- At a full queue one push waits until it times out, and two others until the queue is closed. -/
def waitedAndClosed : List (QueueAction Nat) :=
  [.push 7 false, .push 8 false, .push 9 false, .wake 0 true, .popBatch 5, .push 6 false, .push 5 false, .close,
    .wake 0 false, .wake 0 false, .popNowait]

theorem queue_run_bounded_waitedAndClosed :
    ∃ s, Transition.run QueueAction.step waitedAndClosed (.created 1 .block) = some s ∧
      s.popped = [(0, 7), (3, 6)] ∧ s.refusedFull = 1 ∧ s.queue.queue.length ≤ 1 ∧
      s.accepted.filter (· ∉ s.evicted) = s.popped ++ s.queue.queue ∧
      s.queue.totalPushed = s.queue.totalPopped + s.queue.queue.length ∧ s.queue.droppedCount = s.refusedFull ∧
      ∃ t, Transition.run QueueAction.step (waitedAndClosed.take 7) (.created 1 .block) = some t ∧
        t.waiting = [(2, 9), (4, 5)] ∧ s.accepted = t.accepted := by
  have h := queue_run_bounded 1 .block waitedAndClosed _ rfl
  obtain ⟨hlength, hkept, -, -, -, -, -, -, -, hcounts, -, hclosed⟩ := h
  have hcounted := hcounts (by decide)
  exact ⟨_, rfl, rfl, rfl, hlength, hkept, hcounted.1, hcounted.2, _, rfl, rfl,
    (hclosed (waitedAndClosed.take 7) (waitedAndClosed.drop 8) _ rfl rfl).1⟩

end ChronosMatch
