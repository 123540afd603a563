import ChronosMatch.Base.Transition
import ChronosMatch.Engine.Agreement
import ChronosMatch.Ipc.Consumer
import ChronosMatch.Ipc.LockedRingFifo

/-!
# The order pipeline

A producer creates orders, packs them and puts the records into a locked ring; a consumer takes them out and
submits them to the compiled engine. The two interleave, also between the rounds of a `drain`. Whatever the
interleaving, the engine is as if it had been called directly.
-/

namespace ChronosMatch

open DataProcessor LockedRing

/-- A `drain` that returned: its limit, how many orders it found or were put while it ran, and how many it
says it processed. -/
structure DrainReturn where
  maxOrders : Option Int
  queued : Nat
  processed : Nat
deriving DecidableEq

/-- Where the consumer stands; `consumedBefore` counts the orders it had taken when the drain began. -/
inductive ConsumerPc
  | idle
  | draining (maxOrders : Option Int) (processed consumedBefore : Nat)
deriving DecidableEq

/-- The two processes, with the orders whose `put` succeeded, the orders that were taken out of the ring (each
with the memory that the engine found for it), and the drains that returned. -/
structure OrderPipeline where
  file : List UInt8
  producer : LockedRing
  consumer : RingBufferConsumer
  consumerPc : ConsumerPc := .idle
  sent : List Order := []
  consumed : List (Growth × Order) := []
  drains : List DrainReturn := []

inductive OrderPipelineAction
  | produce (now orderId : Int) (side : String) (price : Binary64) (quantity : Int) (timestampNs : Option Int)
  | processOne (grow : Growth)
  | drain (maxOrders : Option Int)
  | drainRound (grow : Growth)

namespace OrderPipeline

/-- `create_order`, `pack_order` and `put`, each of which may raise. -/
def produce (created : Except PipelineError Order) (s : OrderPipeline) : OrderPipeline :=
  match created with
  | .error _ => s
  | .ok order =>
      match packOrder order with
      | .error _ => s
      | .ok record =>
          match s.producer.put record s.file with
          | (.error _, file) => { s with file }
          | (.ok (), file) => { s with file, sent := s.sent ++ [order] }

/-- The order that a call of `process_one` takes out of the ring. -/
def taken (grow : Growth) (s : OrderPipeline) : List (Growth × Order) :=
  match s.consumer.ringBuffer.get s.file with
  | (.ok (some record), _) =>
      match unpackOrder record with
      | .ok order => [(grow, order)]
      | .error _ => []
  | _ => []

def processOne (grow : Growth) (s : OrderPipeline) : Except PipelineError Bool × OrderPipeline :=
  let (result, consumer, file) := s.consumer.processOne grow s.file
  (result, { s with consumer, file, consumed := s.consumed ++ s.taken grow })

/-- The end of a drain that returns. -/
def returnDrain (maxOrders : Option Int) (processed consumedBefore : Nat) (s : OrderPipeline) : OrderPipeline :=
  { s with
    consumerPc := .idle
    drains := s.drains ++ [⟨maxOrders, s.sent.length - consumedBefore, processed⟩] }

/-- One round of the loop of `drain`, from the test to the next. -/
def drainRound (grow : Growth) (maxOrders : Option Int) (processed consumedBefore : Nat) (s : OrderPipeline) :
    OrderPipeline :=
  if RingBufferConsumer.drainsOn maxOrders processed then
    match s.processOne grow with
    | (.error _, s) => { s with consumerPc := .idle }
    | (.ok false, s) => s.returnDrain maxOrders processed consumedBefore
    | (.ok true, s) => { s with consumerPc := .draining maxOrders (processed + 1) consumedBefore }
  else s.returnDrain maxOrders processed consumedBefore

def step : OrderPipelineAction → OrderPipeline → Option OrderPipeline
  | .produce now orderId side price quantity timestampNs, s =>
      some (s.produce (createOrder now orderId side price quantity timestampNs))
  | .processOne grow, s =>
      match s.consumerPc with
      | .idle => some (s.processOne grow).2
      | .draining _ _ _ => none
  | .drain maxOrders, s =>
      match s.consumerPc with
      | .idle => some { s with consumerPc := .draining maxOrders 0 s.consumed.length }
      | .draining _ _ _ => none
  | .drainRound grow, s =>
      match s.consumerPc with
      | .idle => none
      | .draining maxOrders processed consumedBefore => some (s.drainRound grow maxOrders processed consumedBefore)

/-- A new ring, with a consumer on a handle of its own. -/
def initial (file : List UInt8) (producer ringBuffer : LockedRing) (engine : MatchingEngine) : OrderPipeline :=
  { file, producer, consumer := { ringBuffer, engine } }

/-- The orders of the producers have finite prices. -/
def FinitePrice : OrderPipelineAction → Prop
  | .produce _ _ _ price _ _ => price.isFinite = true
  | _ => True

instance : DecidablePred FinitePrice
  | .produce _ _ _ price _ _ => inferInstanceAs (Decidable (price.isFinite = true))
  | .processOne _ => .isTrue trivial
  | .drain _ => .isTrue trivial
  | .drainRound _ => .isTrue trivial

end OrderPipeline

/-! ### Calling the engine directly -/

namespace OrderPipeline

/-- The orders that were consumed, as direct calls. -/
def directCalls (consumed : List (Growth × Order)) : List MatchingEngine.Call :=
  MatchingEngine.addOrders (consumed.map fun p => (p.1, p.2.args))

/-- The limits of the engine, for which it may raise also on a valid order. -/
def LimitReached (result : Except PyError Nat) : Prop :=
  ∃ err, result = .error err ∧ (err.isMemoryError = true ∨ err = .overflowError "Order count limit reached")

/-- How many orders a drain is to process. -/
def drainTarget (maxOrders : Option Int) (queued : Nat) : Nat :=
  match maxOrders with
  | none => queued
  | some maxOrders => min maxOrders.toNat queued

/-- The pipeline is transparent: the engine is as after direct calls, and nothing was lost on the way. -/
structure Transparent (start : MatchingEngine) (s : OrderPipeline) (queued : List Order) : Prop where
  sent : s.sent = s.consumed.map Prod.snd ++ queued
  ring : (decode s.file).map .ok = queued.map packOrder
  engine : s.consumer.engine = MatchingEngine.run (directCalls s.consumed) start
  processedCount : s.consumer.processedCount =
    (MatchingEngine.results (directCalls s.consumed) start).countP fun result => result.isOk
  limits : ∀ result ∈ MatchingEngine.results (directCalls s.consumed) start, result.isOk = true ∨ LimitReached result
  drains : ∀ d ∈ s.drains, d.processed = drainTarget d.maxOrders d.queued

/-- A drain between which and its end nothing else happens, and in which the engine does not raise, returns after
it has processed the orders it is to process. -/
def DrainReturns (s : OrderPipeline) (queued : List Order) (maxOrders : Option Int) : Prop :=
  ∀ (grows : List Growth) (last : Growth), grows.length = drainTarget maxOrders queued.length →
    (∀ result ∈ MatchingEngine.results (directCalls (grows.zip queued)) s.consumer.engine, result.isOk = true) →
    ∃ s', Transition.run step (.drain maxOrders :: (grows ++ [last]).map .drainRound) s = some s' ∧
      s'.consumerPc = .idle ∧ s'.consumed = s.consumed ++ grows.zip queued ∧
      s'.drains = s.drains ++ [⟨maxOrders, queued.length, drainTarget maxOrders queued.length⟩]

/-! ### The invariant -/

/-- How far a drain under way has come. -/
def DrainInv (s : OrderPipeline) : Prop :=
  match s.consumerPc with
  | .idle => True
  | .draining maxOrders processed consumedBefore =>
      consumedBefore + processed = s.consumed.length ∧ ∀ m ∈ maxOrders, processed ≤ m.toNat

structure Inv (c : Nat) (start : MatchingEngine) (s : OrderPipeline) (queued : List Order) : Prop extends
    Transparent start s queued where
  producer : s.producer.closed = false
  ringBuffer : s.consumer.ringBuffer.closed = false
  represents : ∃ queue : BoundedFifo (List UInt8) c, Represents c s.file queue
  valid : ∀ order ∈ s.sent, order.Fits ∧ order.args.Valid
  drain : s.DrainInv

theorem directCalls_concat (consumed : List (Growth × Order)) (grow : Growth) (order : Order) :
    directCalls (consumed ++ [(grow, order)]) = directCalls consumed ++ [.addOrder grow order.args] := by
  simp only [directCalls, MatchingEngine.addOrders, List.map_append, List.map_cons, List.map_nil]

theorem args_valid {order : Order} (hfits : order.Fits) (hfinite : order.price.isFinite = true)
    (hpositive : ¬ order.price ≤ Binary64.zero) (hquantity : 0 < order.quantity) : order.args.Valid where
  orderId := hfits.orderId
  side := by
    rw [Order.args, sideCode]
    split
    · exact .inl rfl
    · exact .inr rfl
  price := ⟨hfinite, by decide, Binary64.isNaN_of_isFinite hfinite,
    Price.key_pos ⟨order.price, hfinite, hpositive⟩⟩
  quantity := ⟨hquantity, hfits.quantity.2⟩
  timestamp := hfits.timestampNs

theorem addOrder_limit (grow : Growth) {args : OrderArgs} (hvalid : args.Valid) (e : MatchingEngine) :
    (e.addOrder grow args).1.isOk = true ∨ LimitReached (e.addOrder grow args).1 := by
  obtain ⟨order, hparse, -⟩ := MatchingEngine.parseOrder_ok hvalid
  rw [MatchingEngine.addOrder, hparse]
  dsimp only
  by_cases hfull : e.orderCount = 2 ^ 64 - 1
  · rw [MatchingEngine.submit, if_pos hfull]
    exact .inr ⟨_, rfl, .inr rfl⟩
  · rcases hsubmit : MatchingEngine.submit grow order e with ⟨result, e'⟩
    cases MatchingEngine.submit_effect hsubmit with
    | refused hcount _ => exact absurd hcount hfull
    | interrupted herr _ _ _ => exact .inr ⟨_, rfl, .inl herr⟩
    | accepted _ _ _ _ _ => exact .inl rfl

section Steps

variable {c : Nat} {start : MatchingEngine} {s : OrderPipeline} {queued : List Order}

theorem Inv.length_sent (h : Inv c start s queued) : s.sent.length = s.consumed.length + queued.length := by
  rw [h.sent, List.length_append, List.length_map]

theorem Inv.processOne_nil (h : Inv c start s []) (grow : Growth) : s.processOne grow = (.ok false, s) := by
  obtain ⟨queue, hqueue⟩ := h.represents
  have hempty : queue.dequeue = none := by
    rw [BoundedFifo.dequeue_eq_none, ← hqueue.decode, ← List.map_eq_nil_iff (f := Except.ok (ε := PipelineError)),
      h.ring, List.map_nil]
  have hget := hqueue.get_empty h.ringBuffer hempty
  rw [OrderPipeline.processOne, RingBufferConsumer.processOne, taken, hget]
  simp only [List.append_nil]

/-- The state after the first order of the queue was taken. -/
def take (grow : Growth) (order : Order) (file : List UInt8) (s : OrderPipeline) : OrderPipeline :=
  let outcome := s.consumer.engine.addOrder grow order.args
  { s with
    file
    consumer := { s.consumer with
      engine := outcome.2
      processedCount := s.consumer.processedCount + if outcome.1.isOk then 1 else 0 }
    consumed := s.consumed ++ [(grow, order)] }

theorem Inv.processOne_cons {order : Order} (h : Inv c start s (order :: queued)) (hc : c < 2 ^ 32) (grow : Growth) :
    ∃ file, s.processOne grow =
      (((s.consumer.engine.addOrder grow order.args).1.mapError .engine).map fun _ => true, s.take grow order file) ∧
      ∃ queue : BoundedFifo (List UInt8) c, Represents c file queue ∧ (decode file).map .ok = queued.map packOrder := by
  obtain ⟨queue, hqueue⟩ := h.represents
  obtain ⟨hfits, -⟩ := h.valid order (by rw [h.sent]; exact List.mem_append_right _ List.mem_cons_self)
  obtain ⟨record, hpack, hunpack⟩ := unpackOrder_packOrder hfits
  obtain ⟨items, hitems, hrest⟩ : ∃ items, decode s.file = record :: items ∧
      items.map Except.ok = queued.map packOrder := by
    have hring := h.ring
    rw [List.map_cons, hpack] at hring
    obtain ⟨record', items, hitems, hrecord, hrest⟩ := List.map_eq_cons_iff.mp hring
    cases hrecord
    exact ⟨items, hitems, hrest⟩
  rw [hqueue.decode] at hitems
  have hdequeue : queue.dequeue = some (record, ⟨items, by
      have := queue.length_le
      rw [hitems, List.length_cons] at this
      omega⟩) := BoundedFifo.dequeue_eq_some.mpr hitems
  obtain ⟨file, hget, hstored⟩ := hqueue.get hc h.ringBuffer hdequeue
  refine ⟨file, ?_, _, hstored, by rw [hstored.decode]; exact hrest⟩
  rw [OrderPipeline.processOne, RingBufferConsumer.processOne, taken, hget]
  dsimp only
  rw [hunpack]
  dsimp only
  rw [take]
  rcases s.consumer.engine.addOrder grow order.args with ⟨result, engine⟩
  cases result <;> rfl

theorem Inv.take {order : Order} (h : Inv c start s (order :: queued)) (grow : Growth) {file : List UInt8}
    (hrepresents : ∃ queue : BoundedFifo (List UInt8) c, Represents c file queue)
    (hring : (decode file).map .ok = queued.map packOrder) (pc : ConsumerPc)
    (hdrain : DrainInv { s.take grow order file with consumerPc := pc }) :
    Inv c start { s.take grow order file with consumerPc := pc } queued where
  sent := by
    refine h.sent.trans ?_
    rw [OrderPipeline.take, List.map_append, List.append_assoc]
    rfl
  ring := hring
  engine := by
    rw [OrderPipeline.take, directCalls_concat, MatchingEngine.run_append, ← h.engine]
    rfl
  processedCount := by
    rw [OrderPipeline.take, directCalls_concat, MatchingEngine.results_append, List.countP_append, ← h.engine,
      ← h.processedCount]
    exact congrArg (s.consumer.processedCount + ·) List.countP_singleton.symm
  limits := by
    intro result hresult
    rw [OrderPipeline.take, directCalls_concat, MatchingEngine.results_append, ← h.engine] at hresult
    rcases List.mem_append.mp hresult with hold | hnew
    · exact h.limits result hold
    · rw [List.mem_singleton.mp hnew]
      have hsent : order ∈ s.sent := by
        rw [h.sent]
        exact List.mem_append_right _ List.mem_cons_self
      exact addOrder_limit grow (h.valid order hsent).2 s.consumer.engine
  drains := h.drains
  producer := h.producer
  ringBuffer := h.ringBuffer
  represents := hrepresents
  valid := h.valid
  drain := hdrain

/-- An order that is not accepted, does not fit in a record or finds the ring full leaves everything as it was. -/
theorem Inv.produce (h : Inv c start s queued) (hc : c < 2 ^ 32) {now orderId : Int} {side : String}
    {price : Binary64} {quantity : Int} {timestampNs : Option Int} (hprice : price.isFinite = true) :
    ∃ queued', Inv c start (s.produce (createOrder now orderId side price quantity timestampNs)) queued' := by
  cases hcreate : createOrder now orderId side price quantity timestampNs with
  | error err => exact ⟨queued, h⟩
  | ok order =>
      rw [OrderPipeline.produce]
      cases hpack : packOrder order with
      | error err => exact ⟨queued, h⟩
      | ok record =>
          dsimp only
          obtain ⟨hside, hprice', hquantity⟩ := createOrder_eq_ok hcreate
          have hfits := packOrder_fits hside hpack
          obtain ⟨queue, hqueue⟩ := h.represents
          have hrecord := length_packOrder hpack
          cases henqueue : queue.enqueue record with
          | none =>
              rw [hqueue.put_full h.producer hrecord henqueue]
              exact ⟨queued, h⟩
          | some queue' =>
              obtain ⟨file, hput, hstored⟩ := hqueue.put hc h.producer hrecord henqueue
              rw [hput]
              refine ⟨queued ++ [order], ?_⟩
              have hring : (decode file).map .ok = (queued ++ [order]).map packOrder := by
                rw [hstored.decode, (BoundedFifo.enqueue_eq_some.mp henqueue).2, ← hqueue.decode, List.map_append,
                  List.map_append, h.ring, List.map_singleton, List.map_singleton, hpack]
              refine { h with
                sent := ?_
                ring := hring
                represents := ⟨queue', hstored⟩
                valid := ?_ }
              · rw [h.sent, List.append_assoc]
              · intro other hother
                rcases List.mem_append.mp hother with hold | hnew
                · exact h.valid other hold
                · rw [List.mem_singleton.mp hnew]
                  exact ⟨hfits, args_valid hfits (hprice'.1 ▸ hprice) (hprice'.1 ▸ hprice'.2) hquantity⟩

theorem Inv.processOne (h : Inv c start s queued) (hc : c < 2 ^ 32) (hpc : s.consumerPc = .idle) (grow : Growth) :
    ∃ queued', Inv c start (s.processOne grow).2 queued' := by
  cases queued with
  | nil =>
      rw [h.processOne_nil grow]
      exact ⟨[], h⟩
  | cons order queued =>
      obtain ⟨file, hprocess, queue, hqueue, hring⟩ := h.processOne_cons hc grow
      rw [hprocess]
      refine ⟨queued, h.take grow ⟨queue, hqueue⟩ hring s.consumerPc ?_⟩
      rw [DrainInv, hpc]
      trivial

theorem Inv.returnDrain (h : Inv c start s queued) {maxOrders : Option Int} {processed consumedBefore : Nat}
    (hpc : s.consumerPc = .draining maxOrders processed consumedBefore)
    (hstop : queued = [] ∨ RingBufferConsumer.drainsOn maxOrders processed = false) :
    Inv c start (s.returnDrain maxOrders processed consumedBefore) queued := by
  have hdrain := h.drain
  rw [DrainInv, hpc] at hdrain
  obtain ⟨hcount, hlimit⟩ := hdrain
  refine { h with drains := ?_, drain := trivial }
  intro d hd
  rcases List.mem_append.mp hd with hold | hnew
  · exact h.drains d hold
  · rw [List.mem_singleton.mp hnew]
    have hsent := h.length_sent
    dsimp only
    cases maxOrders with
    | none =>
        rcases hstop with rfl | hoff
        · rw [List.length_nil] at hsent
          rw [drainTarget]
          omega
        · cases hoff
    | some m =>
        have hle := hlimit m rfl
        rw [drainTarget]
        rcases hstop with rfl | hoff
        · rw [List.length_nil] at hsent
          omega
        · rw [RingBufferConsumer.drainsOn, decide_eq_false_iff_not] at hoff
          omega

theorem Inv.takeRound {order : Order} (h : Inv c start s (order :: queued)) {maxOrders : Option Int}
    {processed consumedBefore : Nat} (hpc : s.consumerPc = .draining maxOrders processed consumedBefore)
    (hon : RingBufferConsumer.drainsOn maxOrders processed = true) (grow : Growth) {file : List UInt8}
    (hrepresents : ∃ queue : BoundedFifo (List UInt8) c, Represents c file queue)
    (hring : (decode file).map .ok = queued.map packOrder) :
    Inv c start { s.take grow order file with consumerPc := .draining maxOrders (processed + 1) consumedBefore }
      queued := by
  have hdrain := h.drain
  rw [DrainInv, hpc] at hdrain
  refine h.take grow hrepresents hring _ ⟨?_, ?_⟩
  · rw [OrderPipeline.take, List.length_append, List.length_singleton, ← hdrain.1, Nat.add_assoc]
  · intro m hm
    rw [Option.mem_def.mp hm, RingBufferConsumer.drainsOn, decide_eq_true_eq] at hon
    omega

theorem Inv.drainRound (h : Inv c start s queued) (hc : c < 2 ^ 32) {maxOrders : Option Int}
    {processed consumedBefore : Nat} (hpc : s.consumerPc = .draining maxOrders processed consumedBefore)
    (grow : Growth) : ∃ queued', Inv c start (s.drainRound grow maxOrders processed consumedBefore) queued' := by
  rw [OrderPipeline.drainRound]
  split
  · next hon =>
      cases queued with
      | nil =>
          rw [h.processOne_nil grow]
          exact ⟨[], h.returnDrain hpc (.inl rfl)⟩
      | cons order queued =>
          obtain ⟨file, hprocess, queue, hqueue, hring⟩ := h.processOne_cons hc grow
          rw [hprocess]
          cases (s.consumer.engine.addOrder grow order.args).1 with
          | error err => exact ⟨queued, h.take grow ⟨queue, hqueue⟩ hring .idle trivial⟩
          | ok orderId => exact ⟨queued, h.takeRound hpc hon grow ⟨queue, hqueue⟩ hring⟩
  · next hoff => exact ⟨queued, h.returnDrain hpc (.inr (Bool.eq_false_iff.mpr hoff))⟩

theorem Inv.step (h : Inv c start s queued) (hc : c < 2 ^ 32) {action : OrderPipelineAction}
    (hfinite : FinitePrice action) {s' : OrderPipeline} (hstep : step action s = some s') :
    ∃ queued', Inv c start s' queued' := by
  cases action with
  | produce now orderId side price quantity timestampNs =>
      cases hstep
      exact h.produce hc hfinite
  | processOne grow =>
      rw [OrderPipeline.step] at hstep
      split at hstep
      · next hpc =>
          cases hstep
          exact h.processOne hc hpc grow
      · cases hstep
  | drain maxOrders =>
      rw [OrderPipeline.step] at hstep
      split at hstep
      · cases hstep
        exact ⟨queued, { h with drain := ⟨rfl, fun _ _ => Nat.zero_le _⟩ }⟩
      · cases hstep
  | drainRound grow =>
      rw [OrderPipeline.step] at hstep
      split at hstep
      · cases hstep
      · next hpc =>
          cases hstep
          exact h.drainRound hc hpc grow

theorem lt_drainTarget_iff (maxOrders : Option Int) (processed n : Nat) :
    processed < drainTarget maxOrders (processed + n) ↔
      RingBufferConsumer.drainsOn maxOrders processed = true ∧ 0 < n := by
  cases maxOrders with
  | none =>
      rw [drainTarget, RingBufferConsumer.drainsOn]
      simp
  | some m =>
      rw [drainTarget, RingBufferConsumer.drainsOn, decide_eq_true_eq]
      omega

theorem Inv.drainRound_stops (h : Inv c start s queued) (grow : Growth) {maxOrders : Option Int} {processed : Nat}
    (hstop : ¬ processed < drainTarget maxOrders (processed + queued.length)) (consumedBefore : Nat) :
    s.drainRound grow maxOrders processed consumedBefore = s.returnDrain maxOrders processed consumedBefore := by
  rw [OrderPipeline.drainRound]
  split
  · next hon =>
      have hempty : ¬ 0 < queued.length := by
        intro hsome
        exact hstop ((lt_drainTarget_iff maxOrders processed queued.length).mpr ⟨hon, hsome⟩)
      rw [List.length_pos_iff, not_not] at hempty
      subst hempty
      rw [h.processOne_nil grow]
  · rfl

theorem drainRound_takes {order : Order} {grow : Growth} {file : List UInt8}
    (hprocess : s.processOne grow =
      (((s.consumer.engine.addOrder grow order.args).1.mapError .engine).map fun _ => true, s.take grow order file))
    (hok : (s.consumer.engine.addOrder grow order.args).1.isOk = true) {maxOrders : Option Int} {processed : Nat}
    (hon : RingBufferConsumer.drainsOn maxOrders processed = true) (consumedBefore : Nat) :
    s.drainRound grow maxOrders processed consumedBefore =
      { s.take grow order file with consumerPc := .draining maxOrders (processed + 1) consumedBefore } := by
  rw [OrderPipeline.drainRound, if_pos hon, hprocess]
  cases hadd : (s.consumer.engine.addOrder grow order.args).1 with
  | error err =>
      rw [hadd] at hok
      cases hok
  | ok orderId => rfl

theorem Inv.drainRounds (hc : c < 2 ^ 32) (maxOrders : Option Int) (consumedBefore : Nat) (last : Growth)
    (grows : List Growth) {processed : Nat} (h : Inv c start s queued)
    (hpc : s.consumerPc = .draining maxOrders processed consumedBefore)
    (htarget : processed + grows.length = drainTarget maxOrders (processed + queued.length))
    (hok : ∀ result ∈ MatchingEngine.results (directCalls (grows.zip queued)) s.consumer.engine, result.isOk = true) :
    ∃ s', Transition.run OrderPipeline.step ((grows ++ [last]).map .drainRound) s = some s' ∧ s'.consumerPc = .idle ∧
      s'.consumed = s.consumed ++ grows.zip queued ∧
      s'.drains = s.drains ++ [⟨maxOrders, s.sent.length - consumedBefore, processed + grows.length⟩] := by
  induction grows generalizing s queued processed with
  | nil =>
      refine ⟨s.returnDrain maxOrders processed consumedBefore, ?_, rfl, (List.append_nil _).symm, rfl⟩
      have hround := h.drainRound_stops last (Nat.not_lt.mpr htarget.ge) consumedBefore
      simp only [List.nil_append, List.map_cons, List.map_nil, Transition.run, OrderPipeline.step, hpc, hround,
        Option.bind_some]
  | cons grow grows ih =>
      rw [List.length_cons] at htarget
      obtain ⟨hon, hsome⟩ := (lt_drainTarget_iff maxOrders processed queued.length).mp (by omega)
      obtain ⟨order, queued', rfl⟩ := List.exists_cons_of_length_pos hsome
      obtain ⟨file, hprocess, queue, hqueue, hring⟩ := h.processOne_cons hc grow
      have hround := drainRound_takes hprocess (hok _ List.mem_cons_self) hon consumedBefore
      have hnext := h.takeRound hpc hon grow ⟨queue, hqueue⟩ hring
      have htarget' : processed + 1 + grows.length = drainTarget maxOrders (processed + 1 + queued'.length) := by
        rw [List.length_cons] at htarget
        rw [Nat.add_assoc, Nat.add_comm 1, htarget, Nat.add_assoc, Nat.add_comm 1]
      obtain ⟨s', hrun, hidle, hconsumed, hdrains⟩ := ih hnext rfl htarget'
        (fun result hmem => hok result (List.mem_cons_of_mem _ hmem))
      refine ⟨s', ?_, hidle, ?_, ?_⟩
      · rw [List.cons_append, List.map_cons, Transition.run, OrderPipeline.step, hpc]
        dsimp only
        rw [hround]
        exact hrun
      · rw [hconsumed, List.zip_cons_cons]
        exact List.append_assoc ..
      · rw [hdrains, List.length_cons, Nat.add_assoc, Nat.add_comm 1]
        rfl

theorem Inv.drainReturns (h : Inv c start s queued) (hc : c < 2 ^ 32) (hidle : s.consumerPc = .idle)
    (maxOrders : Option Int) : s.DrainReturns queued maxOrders := by
  intro grows last hlength hok
  have hstart : Inv c start { s with consumerPc := .draining maxOrders 0 s.consumed.length } queued :=
    { h with drain := ⟨rfl, fun _ _ => Nat.zero_le _⟩ }
  obtain ⟨s', hrun, hpc, hconsumed, hdrains⟩ := hstart.drainRounds hc maxOrders s.consumed.length last grows rfl
    (by rw [Nat.zero_add, Nat.zero_add, hlength]) hok
  refine ⟨s', ?_, hpc, hconsumed, ?_⟩
  · rw [Transition.run, OrderPipeline.step, hidle]
    exact hrun
  · have hsent : s.sent.length - s.consumed.length = queued.length := by
      rw [h.length_sent, Nat.add_sub_cancel_left]
    rw [hdrains, Nat.zero_add, hlength]
    dsimp only
    rw [hsent]

end Steps

theorem inv_initial {capacity other : Int} {create : Bool} {file : List UInt8} {producer ringBuffer : LockedRing}
    (hcreate : LockedRing.init capacity true none = (.ok producer, some file))
    (hattach : LockedRing.init other create (some file) = (.ok ringBuffer, some file)) (start : MatchingEngine) :
    ∃ c, c < 2 ^ 32 ∧ Inv c start (initial file producer ringBuffer start) [] := by
  obtain ⟨c, hpos, hc, rfl, hrepresents⟩ := init_created_eq_ok hcreate
  have hother : ¬ other ≤ 0 := by
    intro hle
    rw [LockedRing.init, if_pos hle] at hattach
    cases hattach
  rw [hrepresents.reopen hother create] at hattach
  cases hattach
  refine ⟨c, hc, ?_⟩
  exact {
    sent := rfl
    ring := congrArg (List.map Except.ok) hrepresents.decode
    engine := rfl
    processedCount := rfl
    limits := fun result hmem => (by cases hmem)
    drains := fun d hd => (by cases hd)
    producer := rfl
    ringBuffer := rfl
    represents := ⟨_, hrepresents⟩
    valid := fun order hmem => (by cases hmem)
    drain := trivial }

/-- Whatever the interleaving of a producer and a consumer, the pipeline is transparent, and a drain that is left
alone returns after the orders it is to process. -/
theorem orderPipeline_run_transparent {capacity other : Int} {create : Bool} {file : List UInt8}
    {producer ringBuffer : LockedRing} {start : MatchingEngine}
    (hcreate : LockedRing.init capacity true none = (.ok producer, some file))
    (hattach : LockedRing.init other create (some file) = (.ok ringBuffer, some file))
    {actions : List OrderPipelineAction} (hfinite : ∀ action ∈ actions, FinitePrice action) {s : OrderPipeline}
    (hrun : Transition.run step actions (initial file producer ringBuffer start) = some s) :
    ∃ queued, Transparent start s queued ∧
      (s.consumerPc = .idle → ∀ maxOrders, s.DrainReturns queued maxOrders) := by
  obtain ⟨c, hc, hinit⟩ := inv_initial hcreate hattach start
  have hstep : ∀ {action t t'}, FinitePrice action → step action t = some t' →
      (∃ queued, Inv c start t queued) → ∃ queued, Inv c start t' queued := by
    intro action t t' hcondition hnext ⟨queued, hinv⟩
    exact hinv.step hc hcondition hnext
  obtain ⟨queued, h⟩ := Transition.invariant_throughout hstep hrun (.of_forall hfinite _) ⟨[], hinit⟩
  exact ⟨queued, h.toTransparent, fun hidle maxOrders => h.drainReturns hc hidle maxOrders⟩

/-! ### Two orders, with and without memory -/

def oneSlot : LockedRing := { capacity := 1 }

def oneSlotFile : List UInt8 := LockedRing.magicBytes ++ [1, 0, 0, 0] ++ List.replicate 45 0

def sendBuy : OrderPipelineAction := .produce 0 1 "buy" ⟨0x3FF0000000000000⟩ 5 none

def sendSell : OrderPipelineAction := .produce 0 2 "Sell" ⟨0x3FF0000000000000⟩ 3 none

theorem orderPipeline_run_transparent_fullRing :
    ∃ s, Transition.run step [sendBuy, sendSell, .drain none, .drainRound Growth.unlimited, sendSell,
        .drainRound Growth.unlimited, .drainRound Growth.unlimited]
        (initial oneSlotFile oneSlot oneSlot .empty) = some s ∧
      s.consumer.engine.trades.length = 1 ∧ s.drains = [⟨none, 2, 2⟩] ∧ ∃ queued, Transparent .empty s queued := by
  refine ⟨_, rfl, rfl, rfl, ?_⟩
  obtain ⟨queued, h, -⟩ := orderPipeline_run_transparent
    (show LockedRing.init 1 true none = (.ok oneSlot, some oneSlotFile) from rfl)
    (show LockedRing.init 5 false (some oneSlotFile) = (.ok oneSlot, some oneSlotFile) from rfl)
    (show ∀ action ∈ [sendBuy, sendSell, .drain none, .drainRound Growth.unlimited, sendSell,
      .drainRound Growth.unlimited, .drainRound Growth.unlimited], FinitePrice action by decide)
    (show Transition.run step _ (initial oneSlotFile oneSlot oneSlot .empty) = some _ from rfl)
  exact ⟨queued, h⟩

/-- The engine finds no memory for the first order: the order is consumed and not counted. -/
theorem not_processedCount_outOfMemory :
    LockedRing.init 1 true none = (.ok oneSlot, some oneSlotFile) ∧
      ∃ s, Transition.run step [sendBuy, .processOne fun _ _ => false] (initial oneSlotFile oneSlot oneSlot .empty) =
          some s ∧
        s.sent.length = 1 ∧ s.consumed.length = 1 ∧ decode s.file = [] ∧ s.consumer.processedCount = 0 :=
  ⟨rfl, _, rfl, rfl, rfl, rfl, rfl⟩

end OrderPipeline

end ChronosMatch
