import ChronosMatch.Engine.Order

/-!
# Trade events and the bounded queue

`TradeEvent` and `TradeEventQueue` of `src/ipc/trade_queue.py`, the queue over any type of event. Every
method body runs under the queue's lock and is one step here. A `BLOCK` push waits without the lock: the
wait that ends by space or by `close` is the push taken at that later moment, so at a full queue only the
timeout is left. The time that events spend in the queue, and the subscribers, are left out.
-/

namespace ChronosMatch

structure TradeEvent where
  tradeId : String
  buyOrderId : Int
  sellOrderId : Int
  price : Binary64
  quantity : Int
  notional : Binary64
  timestampNs : Int
  symbol : String := "DEFAULT"
deriving DecidableEq

/-- `from_engine_dict` on a dict of `get_trades`, which has no id, notional or timestamp of its own;
`now` is the reading of the clock. -/
def TradeEvent.fromEngineDict (now : Int) (data : TradeDict) (sequence : Nat) : TradeEvent where
  tradeId := s!"TRD_{data.buyId}_{data.sellId}_{now}_{sequence}"
  buyOrderId := data.buyId
  sellOrderId := data.sellId
  price := data.price
  quantity := data.qty
  notional := data.price.mul (Binary64.ofInt data.qty)
  timestampNs := now

/-- What stands after the last of its separators determines the end of a list. -/
theorem eq_of_append_cons_eq {α : Type} {c : α} {l l' d d' : List α} (h : l ++ c :: d = l' ++ c :: d')
    (hd : c ∉ d) (hd' : c ∉ d') : d = d' := by
  rcases List.append_eq_append_iff.mp h with ⟨m, -, hm⟩ | ⟨m, -, hm⟩
  · cases m with
    | nil => exact (List.cons.inj hm).2
    | cons b m =>
        refine absurd ?_ hd
        rw [(List.cons.inj hm).2]
        exact List.mem_append_right _ List.mem_cons_self
  · cases m with
    | nil => exact ((List.cons.inj hm).2).symm
    | cons b m =>
        refine absurd ?_ hd'
        rw [(List.cons.inj hm).2]
        exact List.mem_append_right _ List.mem_cons_self

/-- Trades with different sequence numbers have different ids, whatever else is in them. -/
theorem TradeEvent.tradeId_injective {now now' : Int} {data data' : TradeDict} {m n : Nat}
    (h : (fromEngineDict now data m).tradeId = (fromEngineDict now' data' n).tradeId) : m = n := by
  have hsplit : ∀ (now : Int) (data : TradeDict) (k : Nat), (fromEngineDict now data k).tradeId.toList =
      ("TRD_" ++ toString data.buyId ++ "_" ++ toString data.sellId ++ "_" ++ toString now).toList ++
        '_' :: Nat.toDigits 10 k := by
    intro now data k
    have hid : (fromEngineDict now data k).tradeId = "TRD_" ++ toString data.buyId ++ "_" ++
        toString data.sellId ++ "_" ++ toString now ++ "_" ++ Nat.repr k := rfl
    rw [hid, String.toList_append, String.toList_append, Nat.toList_repr, List.append_assoc]
    rfl
  have hlist := congrArg String.toList h
  rw [hsplit, hsplit] at hlist
  have hdigits := eq_of_append_cons_eq hlist Nat.underscore_not_in_toDigits Nat.underscore_not_in_toDigits
  rw [← Nat.ofDigitChars_ten_toDigits (n := m), hdigits, Nat.ofDigitChars_ten_toDigits]

inductive BackpressurePolicy
  | dropOldest
  | dropNewest
  | block
  | raise
deriving DecidableEq

/-- `True`, `False` or `QueueFullError`. -/
inductive PushResult
  | accepted
  | refused
  | queueFull
deriving DecidableEq

structure TradeEventQueue (ε : Type) where
  capacity : Nat
  capacity_pos : 1 ≤ capacity
  backpressure : BackpressurePolicy
  queue : List ε := []
  closed : Bool := false
  sequence : Nat := 0
  totalPushed : Nat := 0
  totalPopped : Nat := 0
  droppedCount : Nat := 0
  highWatermark : Nat := 0

namespace TradeEventQueue

variable {ε : Type}

/-- `__init__`, which raises a capacity below 1 to 1. -/
def create (capacity : Int) (backpressure : BackpressurePolicy) : TradeEventQueue ε where
  capacity := (max 1 capacity).toNat
  capacity_pos := by omega
  backpressure := backpressure

/-- The end of a push that is accepted. -/
def append (event : ε) (q : TradeEventQueue ε) : TradeEventQueue ε :=
  { q with
    queue := q.queue ++ [event]
    totalPushed := q.totalPushed + 1
    highWatermark := max q.highWatermark (q.queue.length + 1) }

def push (event : ε) (q : TradeEventQueue ε) : PushResult × TradeEventQueue ε :=
  if q.closed then (.refused, q)
  else if q.capacity ≤ q.queue.length then
    match q.backpressure with
    | .dropOldest =>
        let q := { q with queue := q.queue.tail, droppedCount := q.droppedCount + 1 }
        (.accepted, q.append event)
    | .dropNewest => (.refused, { q with droppedCount := q.droppedCount + 1 })
    | .raise => (.queueFull, { q with droppedCount := q.droppedCount + 1 })
    | .block => (.refused, { q with droppedCount := q.droppedCount + 1 })
  else (.accepted, q.append event)

/-- What a push can do: nothing on a closed queue; on a full one count a refusal, or drop the oldest event to
make room; and else append its event. -/
inductive PushEffect (event : ε) (q : TradeEventQueue ε) : PushResult → TradeEventQueue ε → Prop
  | closed (hclosed : q.closed = true) : PushEffect event q .refused q
  | refused (hopen : q.closed = false) (hfull : q.capacity ≤ q.queue.length) (hpolicy : q.backpressure ≠ .dropOldest)
      {result : PushResult} (hresult : result ≠ .accepted) :
      PushEffect event q result { q with droppedCount := q.droppedCount + 1 }
  | evicted (hopen : q.closed = false) (hfull : q.capacity ≤ q.queue.length) (hpolicy : q.backpressure = .dropOldest)
      (oldest : ε) (rest : List ε) (hqueue : q.queue = oldest :: rest) :
      PushEffect event q .accepted (append event { q with queue := rest, droppedCount := q.droppedCount + 1 })
  | accepted (hopen : q.closed = false) (hroom : q.queue.length < q.capacity) :
      PushEffect event q .accepted (q.append event)

theorem push_effect (event : ε) (q : TradeEventQueue ε) : PushEffect event q (q.push event).1 (q.push event).2 := by
  rw [push]
  split
  · next hclosed => exact .closed hclosed
  · next hopen =>
      have hopen' : q.closed = false := Bool.eq_false_of_not_eq_true hopen
      split
      · next hfull =>
          split
          · next hpolicy =>
              obtain ⟨oldest, rest, hqueue⟩ := List.exists_cons_of_length_pos (Nat.lt_of_lt_of_le q.capacity_pos hfull)
              rw [hqueue]
              exact .evicted hopen' hfull hpolicy oldest rest hqueue
          all_goals
            next hpolicy => exact .refused hopen' hfull (by rw [hpolicy]; exact nofun) nofun
      · next hroom => exact .accepted hopen' (Nat.lt_of_not_le hroom)

/-- A push of a trade dict numbers it first, and the event is made with its number. -/
def pushDict {δ : Type} (fromEngineDict : δ → Nat → ε) (trade : δ) (q : TradeEventQueue ε) :
    PushResult × TradeEventQueue ε :=
  let seq := q.sequence + 1
  { q with sequence := seq }.push (fromEngineDict trade seq)

def popBatch (maxItems : Int) (q : TradeEventQueue ε) : List ε × TradeEventQueue ε :=
  let count := (min maxItems q.queue.length).toNat
  let batch := q.queue.take count
  (batch, { q with queue := q.queue.drop count, totalPopped := q.totalPopped + batch.length })

def popNowait (q : TradeEventQueue ε) : Option ε × TradeEventQueue ε :=
  match q.queue with
  | [] => (none, q)
  | event :: rest => (some event, { q with queue := rest, totalPopped := q.totalPopped + 1 })

def close (q : TradeEventQueue ε) : TradeEventQueue ε := { q with closed := true }

def clear (q : TradeEventQueue ε) : TradeEventQueue ε := { q with queue := [] }

theorem popBatch_queue (maxItems : Int) (q : TradeEventQueue ε) :
    (q.popBatch maxItems).1 ++ (q.popBatch maxItems).2.queue = q.queue :=
  List.take_append_drop _ _

end TradeEventQueue

end ChronosMatch
