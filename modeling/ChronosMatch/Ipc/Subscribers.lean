import Mathlib.Algebra.BigOperators.Group.List.Basic
import ChronosMatch.Ipc.QueueRuns

/-!
# The subscribers of the trade queue

`subscribe`, `unsubscribe` and the fan-out at the end of `push`, which runs without the lock: several pushes may
be in their fan-outs at once, and subscribers may come and go between any two calls. Whatever the interleaving,
a callback hears every accepted event as often as it is subscribed, evicted or not, and no other.
-/

namespace ChronosMatch

/-! ### The functions of the source -/

/-- A push that was accepted: the subscribers that it has still to call, once it has taken
`list(self._subscribers)`. A callback is known by a number. -/
structure Fanout (α : Type) where
  entry : Nat × α
  remaining : Option (List Nat) := none

/-- `heard` are the calls of the callbacks so far, in their order. What a callback raises is swallowed. -/
structure TappedQueue (α : Type) extends QueueRun α where
  subscribers : List Nat := []
  fanouts : List (Fanout α) := []
  heard : List (Nat × (Nat × α)) := []

inductive TapAction (α : Type)
  | queue (action : QueueAction α)
  | takeList (i : Nat)
  | call (i : Nat)
  | subscribe (callback : Nat)
  | unsubscribe (callback : Nat)

namespace TappedQueue

variable {α : Type} [DecidableEq α]

def created (capacity : Int) (backpressure : BackpressurePolicy) (subscribers : List Nat) : TappedQueue α where
  toQueueRun := .created capacity backpressure
  subscribers := subscribers

/-- A stretch under the lock, after which a push that was accepted goes on to its fan-out. -/
def stepQueue (action : QueueAction α) (s : TappedQueue α) : Option (TappedQueue α) :=
  (action.step s.toQueueRun).map fun run =>
    { s with
      toQueueRun := run
      fanouts := s.fanouts ++ (run.accepted.drop s.accepted.length).map fun entry => { entry } }

def step : TapAction α → TappedQueue α → Option (TappedQueue α)
  | .queue action, s => s.stepQueue action
  | .takeList i, s =>
      match s.fanouts[i]? with
      | some ⟨entry, none⟩ => some { s with fanouts := s.fanouts.set i ⟨entry, some s.subscribers⟩ }
      | _ => none
  | .call i, s =>
      match s.fanouts[i]? with
      | some ⟨entry, some (callback :: rest)⟩ =>
          some { s with
            fanouts := s.fanouts.set i ⟨entry, some rest⟩
            heard := s.heard ++ [(callback, entry)] }
      | _ => none
  | .subscribe callback, s => some { s with subscribers := s.subscribers ++ [callback] }
  | .unsubscribe callback, s => some { s with subscribers := s.subscribers.erase callback }

/-- The events that a callback has heard. -/
def heardBy (callback : Nat) (s : TappedQueue α) : List (Nat × α) :=
  (s.heard.filter fun call => call.1 = callback).map Prod.snd

/-- All fan-outs are done. -/
def Quiet (s : TappedQueue α) : Prop := ∀ fanout ∈ s.fanouts, fanout.remaining = some []

end TappedQueue

/-! ### What a fan-out has still to do -/

namespace Fanout

variable {α : Type}

/-- How often a callback that is subscribed `k` times is still to be called. -/
def due (callback k : Nat) (fanout : Fanout α) : Nat :=
  match fanout.remaining with
  | none => k
  | some remaining => remaining.count callback

/-- The calls that a callback has still to get, in their order. -/
def dueEvents (callback k : Nat) (fanouts : List (Fanout α)) : List (Nat × α) :=
  fanouts.flatMap fun fanout => List.replicate (fanout.due callback k) fanout.entry

theorem dueEvents_append (callback k : Nat) (fanouts fanouts' : List (Fanout α)) :
    dueEvents callback k (fanouts ++ fanouts') = dueEvents callback k fanouts ++ dueEvents callback k fanouts' :=
  List.flatMap_append

theorem dueEvents_cons (callback k : Nat) (fanout : Fanout α) (fanouts : List (Fanout α)) :
    dueEvents callback k (fanout :: fanouts) =
      List.replicate (fanout.due callback k) fanout.entry ++ dueEvents callback k fanouts :=
  List.flatMap_cons

theorem dueEvents_eq_nil {callback k : Nat} {fanouts : List (Fanout α)}
    (h : ∀ fanout ∈ fanouts, fanout.remaining = some []) : dueEvents callback k fanouts = [] := by
  rw [dueEvents, List.flatMap_eq_nil_iff]
  intro fanout hfanout
  rw [due, h fanout hfanout]
  rfl

theorem dueEvents_new (callback k : Nat) (entries : List (Nat × α)) :
    dueEvents callback k (entries.map fun entry => ({ entry } : Fanout α)) = entries.flatMap (List.replicate k) := by
  rw [dueEvents, List.flatMap_map]
  rfl

end Fanout

theorem exists_set_eq {β : Type} {l : List β} {i : Nat} {b : β} (h : l[i]? = some b) :
    ∃ before after, l = before ++ b :: after ∧ ∀ b', l.set i b' = before ++ b' :: after := by
  obtain ⟨hi, rfl⟩ := List.getElem?_eq_some_iff.mp h
  refine ⟨l.take i, l.drop (i + 1), ?_, fun b' => ?_⟩
  · rw [← List.drop_eq_getElem_cons hi, List.take_append_drop]
  · rw [List.set_eq_take_append_cons_drop, if_pos hi]

/-! ### What a step does -/

/-- A stretch under the lock accepts the event of at most one push. -/
theorem QueueAction.accepted {α : Type} [DecidableEq α] {action : QueueAction α} {s s' : QueueRun α}
    (hstep : action.step s = some s') : ∃ new, s'.accepted = s.accepted ++ new ∧ new.length ≤ 1 ∧
      match action with
      | .push _ _ => True
      | .wake _ _ => True
      | _ => new = [] := by
  have hsettle : ∀ (entry : Nat × α) (outcome : Option PushResult × TradeEventQueue (Nat × α)) (r : QueueRun α),
      ∃ new, (r.settle entry outcome).accepted = r.accepted ++ new ∧ new.length ≤ 1 := by
    rintro entry ⟨result, queue⟩ r
    rw [QueueRun.settle]
    dsimp only
    split
    · exact ⟨[entry], rfl, le_refl 1⟩
    · exact ⟨[], (List.append_nil _).symm, Nat.zero_le 1⟩
  cases action with
  | push event timedOut =>
      cases hstep
      obtain ⟨new, hnew, hlength⟩ := hsettle (s.begun, event) (s.queue.beginPush timedOut (s.begun, event))
        { s with begun := s.begun + 1 }
      exact ⟨new, hnew, hlength, trivial⟩
  | wake i timedOut =>
      obtain ⟨entry, -, rfl⟩ := Option.map_eq_some_iff.mp hstep
      obtain ⟨new, hnew, hlength⟩ := hsettle entry (s.queue.waitNotFull timedOut entry)
        { s with waiting := s.waiting.eraseIdx i }
      exact ⟨new, hnew, hlength, trivial⟩
  | popBatch maxItems =>
      cases hstep
      exact ⟨[], (List.append_nil _).symm, Nat.zero_le 1, rfl⟩
  | popNowait =>
      cases hstep
      exact ⟨[], (List.append_nil _).symm, Nat.zero_le 1, rfl⟩
  | close =>
      cases hstep
      exact ⟨[], (List.append_nil _).symm, Nat.zero_le 1, rfl⟩

namespace TappedQueue

variable {α : Type} [DecidableEq α]

/-- What a step does. A call takes the next callback off the list of its fan-out. -/
inductive StepEffect (s : TappedQueue α) : TapAction α → TappedQueue α → Prop
  | queue {action : QueueAction α} {run : QueueRun α} (hstep : action.step s.toQueueRun = some run)
      (new : List (Nat × α)) (haccepted : run.accepted = s.accepted ++ new) (hlength : new.length ≤ 1)
      (hpush : new ≠ [] → (∃ event timedOut, action = .push event timedOut) ∨ ∃ i timedOut, action = .wake i timedOut) :
      StepEffect s (.queue action)
        { s with
          toQueueRun := run
          fanouts := s.fanouts ++ new.map fun entry => { entry } }
  | takeList {i : Nat} (entry : Nat × α) (before after : List (Fanout α))
      (hfanouts : s.fanouts = before ++ ⟨entry, none⟩ :: after) :
      StepEffect s (.takeList i) { s with fanouts := before ++ ⟨entry, some s.subscribers⟩ :: after }
  | call {i : Nat} (entry : Nat × α) (callback : Nat) (rest : List Nat) (before after : List (Fanout α))
      (hfanouts : s.fanouts = before ++ ⟨entry, some (callback :: rest)⟩ :: after) :
      StepEffect s (.call i)
        { s with
          fanouts := before ++ ⟨entry, some rest⟩ :: after
          heard := s.heard ++ [(callback, entry)] }
  | subscribe (callback : Nat) :
      StepEffect s (.subscribe callback) { s with subscribers := s.subscribers ++ [callback] }
  | unsubscribe (callback : Nat) :
      StepEffect s (.unsubscribe callback) { s with subscribers := s.subscribers.erase callback }

theorem step_effect {action : TapAction α} {s s' : TappedQueue α} (hstep : step action s = some s') :
    StepEffect s action s' := by
  cases action with
  | queue action =>
      obtain ⟨run, hrun, rfl⟩ := Option.map_eq_some_iff.mp hstep
      obtain ⟨new, hnew, hlength, hpush⟩ := QueueAction.accepted hrun
      rw [hnew, List.drop_left]
      refine .queue hrun new hnew hlength ?_
      intro hne
      cases action with
      | push event timedOut => exact .inl ⟨event, timedOut, rfl⟩
      | wake i timedOut => exact .inr ⟨i, timedOut, rfl⟩
      | popBatch => exact absurd hpush hne
      | popNowait => exact absurd hpush hne
      | close => exact absurd hpush hne
  | takeList i =>
      rw [step] at hstep
      split at hstep
      · next entry hfanout =>
          obtain ⟨before, after, hfanouts, hset⟩ := exists_set_eq hfanout
          cases hstep
          rw [hset]
          exact .takeList entry before after hfanouts
      · cases hstep
  | call i =>
      rw [step] at hstep
      split at hstep
      · next entry callback rest hfanout =>
          obtain ⟨before, after, hfanouts, hset⟩ := exists_set_eq hfanout
          cases hstep
          rw [hset]
          exact .call entry callback rest before after hfanouts
      · cases hstep
  | subscribe callback =>
      cases hstep
      exact .subscribe callback
  | unsubscribe callback =>
      cases hstep
      exact .unsubscribe callback

end TappedQueue

/-! ### What a callback hears -/

namespace TappedQueue

variable {α : Type} {callback k : Nat} {s : TappedQueue α}

/-- The subscriptions of the callback stay. -/
def Loyal (callback : Nat) : TapAction α → Prop
  | .subscribe other => other ≠ callback
  | .unsubscribe other => other ≠ callback
  | _ => True

/-- A push goes on only when no fan-out is under way, as with one producer. -/
def Serial : TapAction α → TappedQueue α → Prop
  | .queue (.push _ _), s => s.Quiet
  | .queue (.wake _ _), s => s.Quiet
  | _, _ => True

theorem heardBy_concat (callback other : Nat) (entry : Nat × α) (s : TappedQueue α) (fanouts : List (Fanout α)) :
    heardBy callback
        { s with
          fanouts
          heard := s.heard ++ [(other, entry)] } =
      s.heardBy callback ++ if other = callback then [entry] else [] := by
  rw [heardBy, heardBy]
  dsimp only
  rw [List.filter_append, List.map_append]
  split
  · next hsame => simp [hsame]
  · next hother => simp [hother]

/-- The callback is subscribed `k` times, and it has heard or will hear every accepted event as often. -/
structure Fair (callback k : Nat) (s : TappedQueue α) : Prop where
  subscribed : s.subscribers.count callback = k
  heard : (s.heardBy callback ++ Fanout.dueEvents callback k s.fanouts).Perm (s.accepted.flatMap (List.replicate k))

/-- With one producer, only the fan-out of the last push can be under way, and what was heard is in order. -/
structure InOrder (callback k : Nat) (s : TappedQueue α) : Prop where
  subscribed : s.subscribers.count callback = k
  heard : s.heardBy callback ++ Fanout.dueEvents callback k s.fanouts = s.accepted.flatMap (List.replicate k)
  serial : ∀ before fanout after, s.fanouts = before ++ fanout :: after → fanout.remaining ≠ some [] → after = []

theorem serial_concat {done : List (Fanout α)} (hdone : ∀ other ∈ done, other.remaining = some []) (last : Fanout α) :
    ∀ before fanout after, done ++ [last] = before ++ fanout :: after → fanout.remaining ≠ some [] → after = [] := by
  intro before fanout after hsplit hbusy
  cases after using List.reverseRecOn with
  | nil => rfl
  | append_singleton after last' =>
      rw [← List.cons_append, ← List.append_assoc] at hsplit
      obtain ⟨rfl, -⟩ := List.append_inj' hsplit rfl
      exact absurd (hdone fanout (List.mem_append_right _ List.mem_cons_self)) hbusy

/-- Only the fan-out that is under way has something left to do. -/
theorem InOrder.done_before (h : s.InOrder callback k) {before after : List (Fanout α)} {fanout : Fanout α}
    (hfanouts : s.fanouts = before ++ fanout :: after) : ∀ other ∈ before, other.remaining = some [] := by
  intro other hother
  by_contra hbusy
  obtain ⟨front, back, rfl⟩ := List.append_of_mem hother
  rw [List.append_assoc, List.cons_append] at hfanouts
  have hnil := h.serial front other _ hfanouts hbusy
  simp at hnil

end TappedQueue

/-! ### Steps and runs -/

namespace TappedQueue

variable {α : Type} [DecidableEq α] {callback k : Nat} {s s' : TappedQueue α} {action : TapAction α}

theorem Fair.step (h : s.Fair callback k) (hloyal : Loyal callback action) (hstep : step action s = some s') :
    s'.Fair callback k := by
  obtain ⟨hsubscribed, hheard⟩ := h
  cases step_effect hstep with
  | queue hqueue new haccepted =>
      refine ⟨hsubscribed, ?_⟩
      dsimp only
      rw [haccepted, List.flatMap_append, Fanout.dueEvents_append, Fanout.dueEvents_new, ← List.append_assoc]
      exact hheard.append_right _
  | takeList entry before after hfanouts =>
      refine ⟨hsubscribed, ?_⟩
      rw [hfanouts, Fanout.dueEvents_append, Fanout.dueEvents_cons, Fanout.due] at hheard
      dsimp only at hheard ⊢
      rw [Fanout.dueEvents_append, Fanout.dueEvents_cons, Fanout.due]
      dsimp only
      rw [hsubscribed]
      exact hheard
  | call entry other rest before after hfanouts =>
      refine ⟨hsubscribed, ?_⟩
      rw [hfanouts, Fanout.dueEvents_append, Fanout.dueEvents_cons, Fanout.due] at hheard
      dsimp only at hheard ⊢
      rw [heardBy_concat, Fanout.dueEvents_append, Fanout.dueEvents_cons, Fanout.due]
      dsimp only
      refine List.Perm.trans ?_ hheard
      rw [List.count_cons, List.append_assoc]
      apply List.Perm.append_left
      split
      · next hsame =>
          rw [if_pos (by simpa using hsame), List.replicate_succ, List.singleton_append]
          exact List.perm_middle.symm
      · next hother =>
          rw [if_neg (by simpa using hother), List.nil_append, Nat.add_zero]
  | subscribe other =>
      refine ⟨?_, hheard⟩
      dsimp only
      have hother : other ≠ callback := hloyal
      rw [List.count_append, hsubscribed, List.count_singleton, if_neg (by simpa using hother), Nat.add_zero]
  | unsubscribe other =>
      refine ⟨?_, hheard⟩
      dsimp only
      rw [List.count_erase_of_ne (Ne.symm hloyal), hsubscribed]

theorem InOrder.step (h : s.InOrder callback k) (hcondition : Loyal callback action ∧ Serial action s)
    (hstep : step action s = some s') : s'.InOrder callback k := by
  have hheard := h.heard
  obtain ⟨hloyal, hserial⟩ := hcondition
  cases step_effect hstep with
  | queue hqueue new haccepted hlength hpush =>
      refine ⟨h.subscribed, ?_, ?_⟩
      · dsimp only
        rw [haccepted, List.flatMap_append, Fanout.dueEvents_append, Fanout.dueEvents_new, ← List.append_assoc]
        exact congrArg (· ++ new.flatMap (List.replicate k)) hheard
      · cases new with
        | nil =>
            rw [List.map_nil, List.append_nil]
            exact h.serial
        | cons entry rest =>
            obtain rfl : rest = [] := List.eq_nil_of_length_eq_zero (by simpa using hlength)
            have hquiet : s.Quiet := by
              obtain ⟨event, timedOut, rfl⟩ | ⟨i, timedOut, rfl⟩ := hpush (List.cons_ne_nil _ _)
              · exact hserial
              · exact hserial
            exact serial_concat hquiet _
  | takeList entry before after hfanouts =>
      obtain rfl : after = [] := h.serial before _ after hfanouts nofun
      refine ⟨h.subscribed, ?_, serial_concat (h.done_before hfanouts) _⟩
      rw [hfanouts, Fanout.dueEvents_append, Fanout.dueEvents_cons, Fanout.due] at hheard
      dsimp only at hheard ⊢
      rw [Fanout.dueEvents_append, Fanout.dueEvents_cons, Fanout.due]
      dsimp only
      rw [h.subscribed]
      exact hheard
  | call entry other rest before after hfanouts =>
      obtain rfl : after = [] := h.serial before _ after hfanouts (by simp)
      have hdone := h.done_before hfanouts
      refine ⟨h.subscribed, ?_, serial_concat hdone _⟩
      rw [hfanouts, Fanout.dueEvents_append, Fanout.dueEvents_cons, Fanout.due, Fanout.dueEvents_eq_nil hdone,
        List.nil_append] at hheard
      dsimp only at hheard ⊢
      rw [heardBy_concat, Fanout.dueEvents_append, Fanout.dueEvents_cons, Fanout.due, Fanout.dueEvents_eq_nil hdone,
        List.nil_append]
      dsimp only
      rw [← hheard, List.count_cons, List.append_assoc]
      split
      · next hsame =>
          rw [if_pos (by simpa using hsame), List.replicate_succ]
          rfl
      · next hother =>
          rw [if_neg (by simpa using hother), List.nil_append, Nat.add_zero]
  | subscribe other =>
      refine ⟨?_, hheard, h.serial⟩
      dsimp only
      rw [List.count_append, h.subscribed, List.count_singleton,
        if_neg (by simpa using (show other ≠ callback from hloyal)), Nat.add_zero]
  | unsubscribe other =>
      refine ⟨?_, hheard, h.serial⟩
      dsimp only
      rw [List.count_erase_of_ne (Ne.symm hloyal), h.subscribed]

/-- A callback whose subscriptions stay has heard or will hear every accepted event as often as it is
subscribed, and nothing else, whatever the interleaving of the pushes, the pops and the fan-outs. With one
producer it hears them in the order in which the queue takes them. -/
theorem subscriber_hears (capacity : Int) (backpressure : BackpressurePolicy) (subscribers : List Nat)
    (callback : Nat) {actions : List (TapAction α)} (hloyal : ∀ action ∈ actions, Loyal callback action)
    {s : TappedQueue α} (hrun : Transition.run step actions (created capacity backpressure subscribers) = some s) :
    let expected := s.accepted.flatMap (List.replicate (subscribers.count callback))
    (∃ pending, (s.heardBy callback ++ pending).Perm expected ∧ (s.Quiet → pending = [])) ∧
      (Transition.Throughout step Serial actions (created capacity backpressure subscribers) →
        s.heardBy callback <+: expected ∧ (s.Quiet → s.heardBy callback = expected)) := by
  intro expected
  have hpending : s.Quiet → Fanout.dueEvents callback (subscribers.count callback) s.fanouts = [] :=
    Fanout.dueEvents_eq_nil
  constructor
  · have hfair : s.Fair callback (subscribers.count callback) :=
      Transition.invariant_throughout (fun hloyal' hstep h => Fair.step h hloyal' hstep) hrun
        (Transition.Throughout.of_forall hloyal _) ⟨rfl, List.Perm.refl _⟩
    exact ⟨_, hfair.heard, hpending⟩
  · intro hserial
    have hcondition : Transition.Throughout step (fun action s => Loyal callback action ∧ Serial action s) actions
        (created capacity backpressure subscribers) := by
      intro before action after t hsplit hbefore
      refine ⟨hloyal action ?_, hserial before action after t hsplit hbefore⟩
      rw [hsplit]
      exact List.mem_append_right _ List.mem_cons_self
    have horder : s.InOrder callback (subscribers.count callback) :=
      Transition.invariant_throughout (fun hcondition' hstep h => InOrder.step h hcondition' hstep) hrun hcondition
        ⟨rfl, rfl, fun before fanout after hsplit => by
          have hempty : ([] : List (Fanout α)) = before ++ fanout :: after := hsplit
          simp at hempty⟩
    have hheard := horder.heard
    refine ⟨⟨_, hheard⟩, fun hquiet => ?_⟩
    rwa [hpending hquiet, List.append_nil] at hheard

/-- A queue of one event, and two pushes whose fan-outs overlap: the second overtakes the first, whose event it also
evicts. Another callback comes in between. -/
def overtaken : List (TapAction Nat) :=
  [.queue (.push 7 false), .takeList 0, .queue (.push 8 false), .subscribe 5, .takeList 1, .call 1, .call 1, .call 0,
    .unsubscribe 5]

theorem subscriber_hears_overtaken : ∃ s : TappedQueue Nat,
    Transition.run step overtaken (created 1 .dropOldest [3]) = some s ∧ s.heardBy 3 = [(1, 8), (0, 7)] ∧
    let expected := s.accepted.flatMap (List.replicate (List.count 3 [3]))
    (∃ pending, (s.heardBy 3 ++ pending).Perm expected ∧ (s.Quiet → pending = [])) ∧
      (Transition.Throughout step Serial overtaken (created 1 .dropOldest [3]) →
        s.heardBy 3 <+: expected ∧ (s.Quiet → s.heardBy 3 = expected)) := by
  have hloyal : ∀ action ∈ overtaken, Loyal 3 action := by
    intro action haction
    simp only [overtaken, List.mem_cons, List.not_mem_nil, or_false] at haction
    rcases haction with rfl | rfl | rfl | rfl | rfl | rfl | rfl | rfl | rfl <;> simp [Loyal]
  exact ⟨_, rfl, by decide, subscriber_hears 1 .dropOldest [3] 3 hloyal rfl⟩

end TappedQueue

end ChronosMatch
