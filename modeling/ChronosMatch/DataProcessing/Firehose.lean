import ChronosMatch.Analysis.Simulator
import ChronosMatch.DataProcessing.IpcBuffer
import ChronosMatch.Engine.FailedOrders

/-!
# The firehose and its consumer

`generate_and_write_orders` of `firehose.py` and `run_consumer` of `consumer.py`, two processes on one pipeline
buffer. The consumer submits what it reads to `MatchingEngine` of `src/engine`, which is the reference engine where
the extension was not built, or to the baseline book where the import fails. Whatever the interleaving, its engine
holds the first of the orders that the firehose drew.
-/

namespace ChronosMatch

open Bytes DataProcessor RingBuffer

/-! ### The functions of the source -/

/-- `0.02` -/
def sweepProbability : Binary64 := Binary64.ofInt 2 / Binary64.ofInt 100

/-- The body of the loop up to the call of `create_order`; the numbers come from the `random` module. -/
def drawOrder {σ : Type} (generator : RandomGenerator σ) (orderId : Int) (basePrice : Binary64) (rng : σ) :
    OrderDict × σ :=
  let (coin, rng) := generator.random rng
  let side := if coin < Binary64.half then "BUY" else "SELL"
  let (drift, rng) := generator.gauss rng
  let price := drawnPrice basePrice drift
  let (sweep, rng) := generator.random rng
  let (quantity, rng) :=
    if sweep < sweepProbability then generator.randint 500 2000 rng else generator.randint 1 100 rng
  ({ orderId, side, price, quantity }, rng)

/-- What `from src.engine.matching_engine import MatchingEngine` comes to: the class of the extension, the class that
the module defines where the extension was not built, or an `ImportError`. -/
inductive EngineImport
  | compiled
  | reference
  | failed

/-- The engine of the consumer. `USING_CYTHON` is true of the first two. -/
inductive ConsumerEngine
  | compiled (engine : MatchingEngine)
  | reference (engine : ReferenceEngine)
  | baseline (book : Baseline.OrderBook)

namespace ConsumerEngine

def create : EngineImport → ConsumerEngine
  | .compiled => compiled .empty
  | .reference => reference .empty
  | .failed => baseline {}

def addOrder (grow : Growth) (order : DataProcessor.Order) : ConsumerEngine → Except PyError Unit × ConsumerEngine
  | compiled engine =>
      let (result, engine) := engine.addOrder grow ⟨order.orderId, sideCode order.side, order.price, order.quantity,
        order.timestampNs⟩
      (result.map fun _ => (), compiled engine)
  | reference engine =>
      let (_, engine) := engine.addOrder ⟨order.orderId, sideCode order.side, order.price, order.quantity,
        order.timestampNs⟩
      (.ok (), reference engine)
  | baseline book =>
      let side := if order.side = "BUY" then "buy" else "sell"
      (.ok (), baseline (book.addOrder ⟨order.orderId, side, order.price, order.quantity, order.timestampNs⟩))

/-- `engine.get_trades()` where `USING_CYTHON`, and else `engine.trades`. -/
def trades : ConsumerEngine → List TradeDict
  | compiled engine => engine.getTrades
  | reference engine => engine.getTrades
  | baseline book => book.trades

end ConsumerEngine

/-- Where the consumer stands between two reads. -/
inductive ConsumerStatus
  | polling
  /-- The last read found nothing. -/
  | sleeping
  | finished
  | timedOut
  | raised (err : PipelineError)

/-- The two processes on their buffer, with the orders that were generated. `failed` is what the firehose raised. -/
structure Firehose (σ : Type) where
  pipeline : Pipeline
  rng : σ
  engine : ConsumerEngine
  generated : List DataProcessor.Order := []
  failed : Option PipelineError := none
  status : ConsumerStatus := .polling
  received : Nat := 0

inductive FirehoseAction
  /-- The next order up to the load of the write index; `now` is the reading of the clock. -/
  | generate (now : Int)
  | writer
  /-- The loop test of the consumer, and the load of the write index. -/
  | poll
  | reader (grow : Growth)
  | timeOut

namespace Firehose

variable {σ : Type} (generator : RandomGenerator σ)

/-- The buffer is new, and the consumer has attached to it. -/
def initial (numSlots : Nat) (seed : Int) (engineImport : EngineImport) : Firehose σ where
  pipeline := Pipeline.initial numSlots
  rng := generator.seeded seed
  engine := .create engineImport

def generate (now : Int) (s : Firehose σ) : Firehose σ :=
  let (order, rng) := drawOrder generator s.generated.length (Binary64.ofInt 100) s.rng
  let s := { s with rng }
  match createOrder now order.orderId order.side order.price order.quantity with
  | .error err => { s with failed := some err }
  | .ok order =>
      match packOrder order with
      | .error err => { s with failed := some err }
      | .ok packed =>
          { s with
            generated := s.generated ++ [order]
            pipeline := s.pipeline.startWrite packed }

/-- A step of `write`, whose last one raises where the index no longer fits. -/
def stepWriter (s : Firehose σ) : Option (Firehose σ) :=
  s.pipeline.stepWriter.map fun pipeline =>
    match s.pipeline.writerPc with
    | .publishing _ writeIndex =>
        match setWriteIndex (writeIndex + 1) s.pipeline.file with
        | .error err => { s with pipeline, failed := some err }
        | .ok _ => { s with pipeline }
    | _ => { s with pipeline }

/-- What the consumer does with the bytes that it read. -/
def submit (grow : Growth) (data : List UInt8) (s : Firehose σ) : Firehose σ :=
  match unpackOrder data with
  | .error err => { s with status := .raised err }
  | .ok order =>
      match s.engine.addOrder grow order with
      | (.error err, engine) => { s with engine, status := .raised (.engine err) }
      | (.ok (), engine) => { s with engine, received := s.received + 1 }

def stepReader (grow : Growth) (s : Firehose σ) : Option (Firehose σ) :=
  s.pipeline.stepReader.map fun pipeline =>
    match s.pipeline.readerPc with
    | .comparing _ =>
        { s with
          pipeline
          status := if pipeline.readerPc = .idle then .sleeping else s.status }
    | .publishing readIndex data =>
        match setReadIndex (readIndex + 1) s.pipeline.file with
        | .error err => { s with pipeline, status := .raised err }
        | .ok _ => submit grow data { s with pipeline }
    | _ => { s with pipeline }

/-- May the consumer go on with its loop? -/
def loops : ConsumerStatus → Bool
  | .polling => true
  | .sleeping => true
  | _ => false

/-- The firehose writes `numOrders` orders, and the consumer waits for `awaited` of them. -/
def step (numOrders awaited : Int) : FirehoseAction → Firehose σ → Option (Firehose σ)
  | .generate now, s =>
      if s.failed.isNone ∧ s.pipeline.writerPc = .idle ∧ (s.generated.length : Int) < numOrders then
        some (s.generate generator now)
      else none
  | .writer, s => if s.failed.isNone then s.stepWriter else none
  | .poll, s =>
      if loops s.status ∧ s.pipeline.readerPc = .idle then
        if (s.received : Int) < awaited then
          (Pipeline.step .startRead s.pipeline).map fun pipeline => { s with pipeline, status := .polling }
        else some { s with status := .finished }
      else none
  | .reader grow, s => s.stepReader grow
  | .timeOut, s =>
      match s.status with
      | .sleeping => if s.received = 0 then some { s with status := .timedOut } else none
      | _ => none

end Firehose

/-! ### The steps of the buffer -/

namespace Pipeline

/-- The record of a write that is under way. -/
def underway (p : Pipeline) : List (List UInt8) :=
  match p.writerPc with
  | .idle => []
  | .storing packedOrder _ => [packedOrder]
  | .publishing packedOrder _ => [packedOrder]

theorem length_underway {p p' : Pipeline} (hstep : p.stepWriter = some p') : p.underway.length = 1 := by
  rw [Pipeline.stepWriter] at hstep
  rw [underway]
  cases hpc : p.writerPc with
  | idle =>
      rw [hpc] at hstep
      cases hstep
  | storing packedOrder writeIndex => rfl
  | publishing packedOrder writeIndex => rfl

section Frames

variable {numSlots : Nat} {hslots : 0 < numSlots} {p p' : Pipeline}

/-- A step of the writer moves its record on and leaves the reader alone. -/
theorem Inv.stepWriter_frame (hinv : p.Inv numSlots hslots) (hbound : p.written.length + 1 < 2 ^ 64)
    (hstep : p.stepWriter = some p') : p'.written ++ p'.underway = p.written ++ p.underway ∧
      p'.returned = p.returned ∧ p'.readerPc = p.readerPc ∧
      ∀ packedOrder writeIndex, p.writerPc = .publishing packedOrder writeIndex →
        ∃ file, setWriteIndex (writeIndex + 1) p.file = .ok file := by
  have hpc := hinv.writerPc
  rw [WriterInv] at hpc
  rw [Pipeline.stepWriter] at hstep
  simp only [underway]
  split at hstep
  · cases hstep
  · next packedOrder writeIndex heq =>
      cases hstep
      rw [heq]
      exact ⟨rfl, rfl, rfl, fun _ _ hpublishing => by cases hpublishing⟩
  · next packedOrder writeIndex heq =>
      rw [heq] at hpc
      have hset : setWriteIndex (writeIndex + 1) p.file = .ok (store 0 (encodeLE 8 (writeIndex + 1)) p.file) :=
        if_pos (by rw [hpc.1]; exact hbound)
      rw [hset] at hstep
      cases hstep
      rw [heq]
      refine ⟨List.append_nil _, rfl, rfl, fun other index hpublishing => ?_⟩
      cases hpublishing
      exact ⟨_, hset⟩

theorem Inv.stepReader_frame (hinv : p.Inv numSlots hslots) (hbound : p.written.length < 2 ^ 64)
    (hstep : p.stepReader = some p') : p'.written = p.written ∧ p'.writerPc = p.writerPc ∧
      match p.readerPc with
      | .idle => False
      | .comparing _ => p'.returned = p.returned
      | .loading _ => p'.returned = p.returned
      | .publishing readIndex data => p'.returned = p.returned ++ [data] ∧ p'.readerPc = .idle ∧
          p.written[p.returned.length]? = some data ∧ ∃ file, setReadIndex (readIndex + 1) p.file = .ok file := by
  have hpc := hinv.readerPc
  rw [ReaderInv] at hpc
  rw [Pipeline.stepReader] at hstep
  cases heq : p.readerPc with
  | idle =>
      rw [heq] at hstep
      cases hstep
  | comparing writeIndex =>
      rw [heq] at hstep
      dsimp only at hstep
      split at hstep
      · cases hstep
        exact ⟨rfl, rfl, rfl⟩
      · cases hstep
        exact ⟨rfl, rfl, rfl⟩
  | loading readIndex =>
      rw [heq] at hstep
      cases hstep
      exact ⟨rfl, rfl, rfl⟩
  | publishing readIndex data =>
      rw [heq] at hpc hstep
      have hread : readIndex < p.written.length := (List.getElem?_eq_some_iff.mp hpc.2).1
      have hset : setReadIndex (readIndex + 1) p.file = .ok (store 8 (encodeLE 8 (readIndex + 1)) p.file) :=
        if_pos (by omega)
      dsimp only at hstep
      rw [hset] at hstep
      cases hstep
      exact ⟨rfl, rfl, rfl, rfl, by rw [← hpc.1]; exact hpc.2, _, hset⟩

end Frames

end Pipeline

/-! ### The engine of the consumer -/

namespace ConsumerEngine

/-- The import that leads to an engine of this kind. -/
def kind : ConsumerEngine → EngineImport
  | compiled _ => .compiled
  | reference _ => .reference
  | baseline _ => .failed

@[simp]
theorem kind_create (engineImport : EngineImport) : (create engineImport).kind = engineImport := by
  cases engineImport <;> rfl

@[simp]
theorem kind_addOrder (grow : Growth) (order : DataProcessor.Order) (engine : ConsumerEngine) :
    (engine.addOrder grow order).2.kind = engine.kind := by
  cases engine <;> rfl

/-- The engine holds the book of the orders. -/
def Holds (orders : List DataProcessor.Order) (engine : ConsumerEngine) : Prop :=
  ∃ feed : List COrder, orders.map Order.args = feed.map COrder.toArgs ∧
    match engine with
    | compiled engine => Refines engine (Book.empty.run feed) ∧ engine.orderCount = orders.length
    | reference engine => Simulates COrder.toObj (Book.empty.run feed) engine.toPyBook
    | baseline book => Simulates COrder.toBaseline (Book.empty.run feed) book

theorem holds_create (engineImport : EngineImport) : (create engineImport).Holds [] := by
  cases engineImport with
  | compiled => exact ⟨[], rfl, Refines.empty, rfl⟩
  | reference => exact ⟨[], rfl, Simulates.empty⟩
  | failed => exact ⟨[], rfl, Simulates.empty⟩

theorem Holds.trades {orders : List DataProcessor.Order} {engine : ConsumerEngine} (h : engine.Holds orders) :
    engine.trades = (Baseline.OrderBook.run (orders.map Order.args) {}).trades := by
  obtain ⟨feed, hfeed, hbook⟩ := h
  have hdirect : Simulates COrder.toBaseline (Book.empty.run feed)
      (Baseline.OrderBook.run (feed.map COrder.toArgs) {}) := Baseline.OrderBook.run_simulates feed Simulates.empty
  rw [hfeed, hdirect.trades]
  cases engine with
  | compiled engine => rw [ConsumerEngine.trades, MatchingEngine.getTrades, hbook.1.trades]
  | reference engine => rw [ConsumerEngine.trades, ReferenceEngine.getTrades, hbook.trades]
  | baseline book => rw [ConsumerEngine.trades, hbook.trades]

/-- A valid order comes on top of the others, or memory runs out. -/
theorem Holds.addOrder {orders : List DataProcessor.Order} {engine : ConsumerEngine} (h : engine.Holds orders)
    {order : DataProcessor.Order} (hvalid : order.args.Valid) (hcount : orders.length + 1 < 2 ^ 64) (grow : Growth) :
    match engine.addOrder grow order with
    | (.ok (), engine') => engine'.Holds (orders ++ [order])
    | (.error err, _) => err.isMemoryError = true := by
  obtain ⟨feed, hfeed, hbook⟩ := h
  obtain ⟨corder, hparse, hargs⟩ := MatchingEngine.parseOrder_ok hvalid
  have hfeed' : (orders ++ [order]).map Order.args = (feed ++ [corder]).map COrder.toArgs := by
    rw [List.map_append, List.map_append, hfeed, List.map_singleton, List.map_singleton, hargs]
  have hrun : Book.empty.run (feed ++ [corder]) = (Book.empty.run feed).submit corder := Book.run_concat _ _ _
  have hargs' : order.args =
      ⟨order.orderId, sideCode order.side, order.price, order.quantity, order.timestampNs⟩ := rfl
  cases engine with
  | compiled engine =>
      obtain ⟨hrefines, horders⟩ := hbook
      rcases hsubmit : MatchingEngine.submit grow corder engine with ⟨result, engine'⟩
      simp only [ConsumerEngine.addOrder, ← hargs', MatchingEngine.addOrder, hparse, hsubmit]
      cases MatchingEngine.submit_effect hsubmit with
      | refused hfull => omega
      | interrupted herr => exact herr
      | accepted hroom hmatched hstop hown hnext =>
          refine ⟨feed ++ [corder], hfeed', ?_, ?_⟩
          · rw [hrun]
            exact hrefines.submit (.accepted hroom hmatched hstop hown hnext)
          · rw [hnext, horders, List.length_append, List.length_singleton]
  | reference engine =>
      refine ⟨feed ++ [corder], hfeed', ?_⟩
      change Simulates COrder.toObj _ (engine.addOrder order.args).2.toPyBook
      rw [hrun, hargs, ReferenceEngine.addOrder_toArgs]
      exact hbook.submit COrder.toObj_embeds corder
  | baseline book =>
      refine ⟨feed ++ [corder], hfeed', ?_⟩
      have hname : (if order.side = "BUY" then "buy" else "sell") = Baseline.sideName (sideCode order.side) := by
        rw [sideCode]
        split
        · decide
        · decide
      have horder : (⟨order.orderId, if order.side = "BUY" then "buy" else "sell", order.price, order.quantity,
          order.timestampNs⟩ : Baseline.Order) = corder.toBaseline := by
        rw [COrder.toBaseline, ← hargs, hname]
        rfl
      rw [hrun, horder, Baseline.OrderBook.addOrder_toBaseline]
      exact hbook.submit COrder.toBaseline_embeds corder

/-- If no request for memory is refused, a valid order is taken. -/
theorem Holds.addOrder_unlimited {orders : List DataProcessor.Order} {engine : ConsumerEngine}
    (h : engine.Holds orders) {order : DataProcessor.Order} (hvalid : order.args.Valid)
    (hcount : orders.length < 2 ^ 63) : (engine.addOrder .unlimited order).1 = .ok () := by
  obtain ⟨feed, hfeed, hbook⟩ := h
  cases engine with
  | compiled engine =>
      obtain ⟨hrefines, horders⟩ := hbook
      obtain ⟨corder, hparse, -⟩ := MatchingEngine.parseOrder_ok hvalid
      have hargs : order.args =
          ⟨order.orderId, sideCode order.side, order.price, order.quantity, order.timestampNs⟩ := rfl
      have hlength := congrArg List.length hfeed
      rw [List.length_map, List.length_map] at hlength
      have hsize := Book.size_run_le feed .empty
      have hsmall : engine.trades.length + ((engine.resting corder.side).length +
          (engine.resting corder.side.opposite).length) < 2 ^ 63 := by
        rw [hrefines.resting, hrefines.resting, Book.length_resting, hrefines.trades]
        change (Book.run feed .empty).size < 2 ^ 63
        change (Book.run feed .empty).size ≤ 0 + feed.length at hsize
        omega
      have htaken := MatchingEngine.submit_unlimited corder (by omega) hsmall
      rcases hsubmit : MatchingEngine.submit .unlimited corder engine with ⟨result, engine'⟩
      rw [hsubmit] at htaken
      cases htaken
      simp only [ConsumerEngine.addOrder, ← hargs, MatchingEngine.addOrder, hparse, hsubmit]
      rfl
  | reference engine => rfl
  | baseline book => rfl

end ConsumerEngine

/-! ### The invariant -/

namespace Firehose

variable {σ : Type} {generator : RandomGenerator σ}

/-- What the engine holds, by how the consumer stands. -/
def Outcome (awaited : Int) (s : Firehose σ) : Prop :=
  match s.status with
  | .raised err => ∃ cause, err = .engine cause ∧ cause.isMemoryError = true
  | .finished => s.engine.Holds (s.generated.take s.received) ∧ s.received = awaited.toNat
  | .timedOut => s.engine.Holds (s.generated.take s.received) ∧ s.received = 0
  | _ => s.engine.Holds (s.generated.take s.received)

/-- What can be said of the two processes at any time. -/
structure Delivered (awaited : Int) (s : Firehose σ) : Prop where
  ids : s.generated.map (·.orderId) = (List.range s.generated.length).map fun i : Nat => (i : Int)
  valid : ∀ order ∈ s.generated, order.Fits ∧ order.args.Valid
  failed : s.failed = none
  received_le : s.received ≤ s.generated.length
  received_le_awaited : s.received ≤ awaited.toNat
  outcome : s.Outcome awaited

structure Inv (numSlots : Nat) (hslots : 0 < numSlots) (numOrders awaited : Int) (s : Firehose σ) : Prop extends
    Delivered awaited s where
  pipeline : s.pipeline.Inv numSlots hslots
  count : s.generated.length ≤ numOrders.toNat
  records : s.generated.map packOrder = (s.pipeline.written ++ s.pipeline.underway).map .ok
  returned : loops s.status → s.pipeline.returned.length = s.received
  reading : s.pipeline.readerPc ≠ .idle → s.status = .polling ∧ (s.received : Int) < awaited

/-! ### The firehose -/

theorem drawOrder_fits (hgenerator : generator.Documented) {orderId : Nat} (hid : orderId < 2 ^ 64) {now : Int}
    (hnow : 0 ≤ now ∧ now < 2 ^ 64) (rng : σ) :
    FitsRecord ((drawOrder generator orderId (Binary64.ofInt 100) rng).1, now) ∧
      (drawOrder generator orderId (Binary64.ofInt 100) rng).1.orderId = orderId := by
  obtain ⟨hfinite, hprice⟩ := drawnPrice_spec Binary64.moderate_hundred (hgenerator.gauss (generator.random rng).2)
  refine ⟨⟨⟨?_, hfinite, hprice, ?_⟩, ⟨?_, ?_⟩, hnow⟩, rfl⟩
  · rw [drawOrder]
    dsimp only
    split
    · exact .inl rfl
    · exact .inr rfl
  · rw [drawOrder]
    dsimp only
    split
    · have hrange := hgenerator.randint 500 2000 (generator.random (generator.gauss (generator.random rng).2).2).2
        (by decide)
      exact ⟨le_trans (by decide) hrange.1, hrange.2⟩
    · have hrange := hgenerator.randint 1 100 (generator.random (generator.gauss (generator.random rng).2).2).2
        (by decide)
      exact ⟨hrange.1, hrange.2.trans (by decide)⟩
  · exact Int.natCast_nonneg orderId
  · have : (drawOrder generator orderId (Binary64.ofInt 100) rng).1.orderId = orderId := rfl
    rw [this]
    omega

theorem generate_eq (hgenerator : generator.Documented) {s : Firehose σ} (hid : s.generated.length < 2 ^ 64) {now : Int}
    (hnow : 0 ≤ now ∧ now < 2 ^ 64) : ∃ (order : DataProcessor.Order) (packed : List UInt8) (rng : σ),
      order.orderId = s.generated.length ∧ order.Fits ∧ order.args.Valid ∧ packOrder order = .ok packed ∧
      s.generate generator now = { s with
        rng
        generated := s.generated ++ [order]
        pipeline := { s.pipeline with writerPc := .storing packed (getWriteIndex s.pipeline.file) } } := by
  obtain ⟨hrecord, horderId⟩ := drawOrder_fits hgenerator hid hnow s.rng
  rw [Firehose.generate]
  generalize drawOrder generator s.generated.length (Binary64.ofInt 100) s.rng = drawn at hrecord horderId ⊢
  obtain ⟨order, rng⟩ := drawn
  have hfits := recordedOrder_fits hrecord
  obtain ⟨packed, hpack, -⟩ := unpackOrder_packOrder hfits
  have hstart : s.pipeline.startWrite packed =
      { s.pipeline with writerPc := .storing packed (getWriteIndex s.pipeline.file) } :=
    if_neg (not_not.mpr (length_packOrder hpack))
  refine ⟨recordedOrder (order, now), packed, rng, horderId, hfits, directArgs_valid hrecord, hpack, ?_⟩
  have hcreate := createOrder_ok hrecord
  dsimp only at hcreate ⊢
  rw [hcreate]
  dsimp only
  rw [hpack]
  dsimp only
  rw [hstart]

section Steps

variable {numSlots : Nat} {hslots : 0 < numSlots} {numOrders awaited : Int} {s s' : Firehose σ}

theorem Inv.length_written (h : Inv numSlots hslots numOrders awaited s) :
    s.pipeline.written.length + s.pipeline.underway.length = s.generated.length := by
  have hlength := congrArg List.length h.records
  simp only [List.length_map, List.length_append] at hlength
  exact hlength.symm

theorem Outcome.holds (h : s.Outcome awaited) (hrunning : ∀ err, s.status ≠ .raised err) :
    s.engine.Holds (s.generated.take s.received) := by
  rw [Outcome] at h
  split at h
  · next err hraised => exact absurd hraised (hrunning err)
  · exact h.1
  · exact h.1
  · exact h

theorem ne_raised_of_loops (hloops : loops s.status = true) (err : PipelineError) : s.status ≠ .raised err := by
  intro hraised
  rw [hraised] at hloops
  cases hloops

theorem Outcome.append {engine : ConsumerEngine} {generated : List DataProcessor.Order} {received : Nat}
    (hle : received ≤ generated.length) (order : DataProcessor.Order) (h : engine.Holds (generated.take received)) :
    engine.Holds ((generated ++ [order]).take received) := by
  rwa [List.take_append_of_le_length hle]

theorem Inv.generate (h : Inv numSlots hslots numOrders awaited s) (hgenerator : generator.Documented)
    (hfit : numOrders ≤ numSlots) (hbound : numOrders < 2 ^ 64) {now : Int} (hnow : 0 ≤ now ∧ now < 2 ^ 64)
    (hidle : s.pipeline.writerPc = .idle) (hmore : (s.generated.length : Int) < numOrders) :
    Inv numSlots hslots numOrders awaited (s.generate generator now) := by
  have hid : s.generated.length < 2 ^ 64 := by omega
  obtain ⟨order, packed, rng, horderId, hfits, hvalid, hpack, heq⟩ := generate_eq hgenerator hid hnow
  have hunderway : s.pipeline.underway = [] := by rw [Pipeline.underway, hidle]
  have hwritten := h.length_written
  rw [hunderway, List.length_nil, Nat.add_zero] at hwritten
  have hroom : Pipeline.WriteFindsRoom numSlots (.startWrite packed) s.pipeline := by
    change pendingCount s.pipeline.file < numSlots
    rw [pendingCount, h.pipeline.writeIndex, h.pipeline.readIndex]
    omega
  have hpipeline := h.pipeline.startWrite hroom
  rw [Pipeline.startWrite, if_neg (not_not.mpr (length_packOrder hpack))] at hpipeline
  rw [heq]
  refine {
    ids := ?_
    valid := ?_
    failed := h.failed
    received_le := ?_
    received_le_awaited := h.received_le_awaited
    outcome := ?_
    pipeline := hpipeline
    count := ?_
    records := ?_
    returned := h.returned
    reading := h.reading }
  · rw [List.map_append, h.ids, List.length_append, List.length_singleton, List.range_succ, List.map_append]
    simp [horderId]
  · intro other hother
    rcases List.mem_append.mp hother with hold | hnew
    · exact h.valid other hold
    · rw [List.mem_singleton.mp hnew]
      exact ⟨hfits, hvalid⟩
  · rw [List.length_append]
    exact Nat.le_add_right_of_le h.received_le
  · have houtcome := h.outcome
    simp only [Outcome] at houtcome ⊢
    split at houtcome
    · exact houtcome
    · exact ⟨Outcome.append h.received_le _ houtcome.1, houtcome.2⟩
    · exact ⟨Outcome.append h.received_le _ houtcome.1, houtcome.2⟩
    · exact Outcome.append h.received_le _ houtcome
  · rw [List.length_append, List.length_singleton]
    omega
  · have hrecords := h.records
    rw [hunderway, List.append_nil] at hrecords
    rw [List.map_append, hrecords, List.map_append]
    simp [Pipeline.underway, hpack]

theorem Inv.stepWriter (h : Inv numSlots hslots numOrders awaited s) (hbound : numOrders < 2 ^ 64)
    (hstep : s.stepWriter = some s') : Inv numSlots hslots numOrders awaited s' := by
  obtain ⟨pipeline, hpipeline, rfl⟩ := Option.map_eq_some_iff.mp hstep
  have hcount := h.count
  have hlength := h.length_written
  rw [Pipeline.length_underway hpipeline] at hlength
  obtain ⟨hwritten, hreturned, hreader, hset⟩ := h.pipeline.stepWriter_frame (by omega) hpipeline
  have hmoved : Inv numSlots hslots numOrders awaited { s with pipeline } := {
    ids := h.ids
    valid := h.valid
    failed := h.failed
    received_le := h.received_le
    received_le_awaited := h.received_le_awaited
    outcome := h.outcome
    pipeline := h.pipeline.stepWriter hpipeline
    count := h.count
    records := by rw [hwritten, h.records]
    returned := by rw [hreturned]; exact h.returned
    reading := by rw [hreader]; exact h.reading }
  split
  · next packedOrder writeIndex heq =>
      obtain ⟨file, hfile⟩ := hset packedOrder writeIndex heq
      rw [hfile]
      exact hmoved
  · exact hmoved

/-! ### The consumer -/

theorem Inv.poll (h : Inv numSlots hslots numOrders awaited s) (hloops : loops s.status = true)
    (hidle : s.pipeline.readerPc = .idle) {pipeline : Pipeline} (hmore : (s.received : Int) < awaited)
    (hstart : Pipeline.step .startRead s.pipeline = some pipeline) :
    Inv numSlots hslots numOrders awaited { s with pipeline, status := .polling } := by
  have hroom : Pipeline.WriteFindsRoom numSlots .startRead s.pipeline := trivial
  have hpipeline := h.pipeline.step hroom hstart
  rw [Pipeline.step, if_pos hidle] at hstart
  cases hstart
  exact {
    ids := h.ids
    valid := h.valid
    failed := h.failed
    received_le := h.received_le
    received_le_awaited := h.received_le_awaited
    outcome := h.outcome.holds (ne_raised_of_loops hloops)
    pipeline := hpipeline
    count := h.count
    records := h.records
    returned := fun _ => h.returned hloops
    reading := fun _ => ⟨rfl, hmore⟩ }

theorem Inv.finish (h : Inv numSlots hslots numOrders awaited s) (hloops : loops s.status = true)
    (hidle : s.pipeline.readerPc = .idle) (hdone : ¬ (s.received : Int) < awaited) :
    Inv numSlots hslots numOrders awaited { s with status := .finished } := by
  have hle := h.received_le_awaited
  exact { h with
    outcome := ⟨h.outcome.holds (ne_raised_of_loops hloops), by dsimp only; omega⟩
    returned := fun hfinished => by cases hfinished
    reading := fun hbusy => absurd hidle hbusy }

theorem Inv.exists_next (h : Inv numSlots hslots numOrders awaited s) (hloops : loops s.status = true)
    {data : List UInt8} (hdata : s.pipeline.written[s.pipeline.returned.length]? = some data) :
    ∃ order, s.generated[s.received]? = some order ∧ unpackOrder data = .ok order := by
  rw [h.returned hloops] at hdata
  have hrecord : (s.generated.map packOrder)[s.received]? = some (.ok data) := by
    rw [h.records, List.getElem?_map, List.getElem?_append_left (List.getElem?_eq_some_iff.mp hdata).1, hdata]
    rfl
  rw [List.getElem?_map] at hrecord
  obtain ⟨order, horder, hpack⟩ := Option.map_eq_some_iff.mp hrecord
  obtain ⟨hfits, -⟩ := h.valid order (List.mem_of_getElem? horder)
  obtain ⟨packed, hpacked, hunpack⟩ := unpackOrder_packOrder hfits
  rw [hpack] at hpacked
  cases hpacked
  exact ⟨order, horder, hunpack⟩

/-- The last step of a read: the order comes into the engine, or memory runs out. -/
theorem Inv.submit (h : Inv numSlots hslots numOrders awaited s) (hbound : numOrders < 2 ^ 64)
    {pipeline : Pipeline} (hpipeline : pipeline.Inv numSlots hslots) {data : List UInt8}
    (hwritten : pipeline.written ++ pipeline.underway = s.pipeline.written ++ s.pipeline.underway)
    (hreturned : pipeline.returned = s.pipeline.returned ++ [data]) (hidle : pipeline.readerPc = .idle)
    (hdata : s.pipeline.written[s.pipeline.returned.length]? = some data) (hloops : loops s.status = true)
    (hmore : (s.received : Int) < awaited) (grow : Growth) :
    Inv numSlots hslots numOrders awaited (Firehose.submit grow data { s with pipeline }) := by
  obtain ⟨order, horder, hunpack⟩ := h.exists_next hloops hdata
  have hcount := h.count
  have hlt : s.received < s.generated.length := (List.getElem?_eq_some_iff.mp horder).1
  have htake : s.generated.take (s.received + 1) = s.generated.take s.received ++ [order] := by
    rw [List.take_add_one, horder]
    rfl
  have hlength : (s.generated.take s.received).length + 1 < 2 ^ 64 := by
    rw [List.length_take]
    omega
  have hvalid := (h.valid order (List.mem_of_getElem? horder)).2
  have hstep := (h.outcome.holds (ne_raised_of_loops hloops)).addOrder hvalid hlength grow
  rw [Firehose.submit, hunpack]
  dsimp only
  rcases hadd : s.engine.addOrder grow order with ⟨result, engine⟩
  rw [hadd] at hstep
  cases result with
  | error err =>
      exact {
        ids := h.ids
        valid := h.valid
        failed := h.failed
        received_le := h.received_le
        received_le_awaited := h.received_le_awaited
        outcome := ⟨err, rfl, hstep⟩
        pipeline := hpipeline
        count := h.count
        records := by rw [hwritten]; exact h.records
        returned := fun hraised => by cases hraised
        reading := fun hbusy => absurd hidle hbusy }
  | ok =>
      refine {
        ids := h.ids
        valid := h.valid
        failed := h.failed
        received_le := hlt
        received_le_awaited := by dsimp only; omega
        outcome := ?_
        pipeline := hpipeline
        count := h.count
        records := by rw [hwritten]; exact h.records
        returned := fun _ => by rw [hreturned, List.length_append, h.returned hloops]; rfl
        reading := fun hbusy => absurd hidle hbusy }
      have hholds : engine.Holds (s.generated.take (s.received + 1)) := by rw [htake]; exact hstep
      rw [Outcome]
      cases hstatus : s.status with
      | polling => exact hholds
      | sleeping => exact hholds
      | finished | timedOut | raised =>
          rw [hstatus] at hloops
          cases hloops

theorem Inv.read (h : Inv numSlots hslots numOrders awaited s) {pipeline : Pipeline}
    (hpipeline : pipeline.Inv numSlots hslots)
    (hwritten : pipeline.written ++ pipeline.underway = s.pipeline.written ++ s.pipeline.underway)
    (hreturned : pipeline.returned = s.pipeline.returned) (hpolling : s.status = .polling)
    (hmore : (s.received : Int) < awaited) {status : ConsumerStatus}
    (hstatus : pipeline.readerPc = .idle ∧ status = .sleeping ∨ status = .polling) :
    Inv numSlots hslots numOrders awaited { s with pipeline, status } := by
  have hloops : loops s.status = true := by rw [hpolling]; rfl
  refine {
    ids := h.ids
    valid := h.valid
    failed := h.failed
    received_le := h.received_le
    received_le_awaited := h.received_le_awaited
    outcome := ?_
    pipeline := hpipeline
    count := h.count
    records := by rw [hwritten]; exact h.records
    returned := fun _ => by rw [hreturned]; exact h.returned hloops
    reading := ?_ }
  · rcases hstatus with ⟨-, rfl⟩ | rfl
    · exact h.outcome.holds (ne_raised_of_loops hloops)
    · exact h.outcome.holds (ne_raised_of_loops hloops)
  · intro hbusy
    rcases hstatus with ⟨hidle, -⟩ | hpolling'
    · exact absurd hidle hbusy
    · exact ⟨hpolling', hmore⟩

theorem Inv.stepReader (h : Inv numSlots hslots numOrders awaited s) (hbound : numOrders < 2 ^ 64) {grow : Growth}
    (hstep : s.stepReader grow = some s') : Inv numSlots hslots numOrders awaited s' := by
  obtain ⟨pipeline, hpipeline, rfl⟩ := Option.map_eq_some_iff.mp hstep
  have hcount := h.count
  have hgenerated := h.length_written
  have hbusy : s.pipeline.readerPc ≠ .idle := by
    intro hidle
    rw [Pipeline.stepReader, hidle] at hpipeline
    cases hpipeline
  obtain ⟨hpolling, hmore⟩ := h.reading hbusy
  obtain ⟨hwritten, hwriter, hread⟩ := h.pipeline.stepReader_frame (by omega) hpipeline
  have hunderway : pipeline.written ++ pipeline.underway = s.pipeline.written ++ s.pipeline.underway := by
    rw [hwritten, Pipeline.underway, Pipeline.underway, hwriter]
  have hinv := h.pipeline.stepReader hpipeline
  cases hpc : s.pipeline.readerPc with
  | idle => exact absurd hpc hbusy
  | comparing writeIndex =>
      rw [hpc] at hread
      refine h.read hinv hunderway hread hpolling hmore ?_
      split
      · next hidle => exact .inl ⟨hidle, rfl⟩
      · exact .inr hpolling
  | loading readIndex =>
      rw [hpc] at hread
      exact h.read hinv hunderway hread hpolling hmore (.inr hpolling)
  | publishing readIndex data =>
      rw [hpc] at hread
      obtain ⟨hreturned, hidle, hdata, file, hset⟩ := hread
      dsimp only
      rw [hset]
      exact h.submit hbound hinv hunderway hreturned hidle hdata (by rw [hpolling]; rfl) hmore grow

end Steps

section Runs

variable {numSlots : Nat} {hslots : 0 < numSlots} {numOrders awaited : Int} {s s' : Firehose σ}

/-- A reading of the clock that fits a record. -/
def ReadsClock : FirehoseAction → Prop
  | .generate now => 0 ≤ now ∧ now < 2 ^ 64
  | _ => True

instance : DecidablePred ReadsClock
  | .generate now => inferInstanceAs (Decidable (0 ≤ now ∧ now < 2 ^ 64))
  | .writer => .isTrue trivial
  | .poll => .isTrue trivial
  | .reader _ => .isTrue trivial
  | .timeOut => .isTrue trivial

theorem Inv.step (h : Inv numSlots hslots numOrders awaited s) (hgenerator : generator.Documented)
    (hfit : numOrders ≤ numSlots) (hbound : numOrders < 2 ^ 64) {action : FirehoseAction} (hclock : ReadsClock action)
    (hstep : step generator numOrders awaited action s = some s') : Inv numSlots hslots numOrders awaited s' := by
  cases action with
  | generate now =>
      rw [Firehose.step] at hstep
      split at hstep
      · next hready =>
          cases hstep
          exact h.generate hgenerator hfit hbound hclock hready.2.1 hready.2.2
      · cases hstep
  | writer =>
      rw [Firehose.step, h.failed] at hstep
      exact h.stepWriter hbound hstep
  | poll =>
      rw [Firehose.step] at hstep
      split at hstep
      · next hready =>
          split at hstep
          · next hmore =>
              obtain ⟨pipeline, hstart, rfl⟩ := Option.map_eq_some_iff.mp hstep
              exact h.poll hready.1 hready.2 hmore hstart
          · next hdone =>
              cases hstep
              exact h.finish hready.1 hready.2 hdone
      · cases hstep
  | reader grow => exact h.stepReader hbound hstep
  | timeOut =>
      rw [Firehose.step] at hstep
      split at hstep
      · next hsleeping =>
          split at hstep
          · next hnone =>
              cases hstep
              have hloops : loops s.status = true := by rw [hsleeping]; rfl
              have hidle : s.pipeline.readerPc = .idle := by
                by_contra hbusy
                have hpolling := (h.reading hbusy).1
                rw [hsleeping] at hpolling
                cases hpolling
              exact { h with
                outcome := ⟨h.outcome.holds (ne_raised_of_loops hloops), hnone⟩
                returned := fun htimedOut => by cases htimedOut
                reading := fun hbusy => absurd hidle hbusy }
          · cases hstep
      · cases hstep

theorem kind_submit (grow : Growth) (data : List UInt8) (s : Firehose σ) :
    (submit grow data s).engine.kind = s.engine.kind := by
  rw [submit]
  split
  · rfl
  · next order hunpack =>
      have hkind := ConsumerEngine.kind_addOrder grow order s.engine
      rcases hadd : s.engine.addOrder grow order with ⟨_ | _, engine⟩
      · rw [hadd] at hkind
        exact hkind
      · rw [hadd] at hkind
        exact hkind

/-- The engine stays of the kind that was imported. -/
theorem kind_step {action : FirehoseAction} (hstep : step generator numOrders awaited action s = some s') :
    s'.engine.kind = s.engine.kind := by
  cases action with
  | generate now =>
      rw [Firehose.step] at hstep
      split at hstep
      · cases hstep
        simp only [Firehose.generate]
        split
        · rfl
        · split <;> rfl
      · cases hstep
  | writer =>
      rw [Firehose.step] at hstep
      split at hstep
      · obtain ⟨pipeline, -, rfl⟩ := Option.map_eq_some_iff.mp hstep
        split
        · split <;> rfl
        · rfl
      · cases hstep
  | poll =>
      rw [Firehose.step] at hstep
      split at hstep
      · split at hstep
        · obtain ⟨pipeline, -, rfl⟩ := Option.map_eq_some_iff.mp hstep
          rfl
        · cases hstep
          rfl
      · cases hstep
  | reader grow =>
      obtain ⟨pipeline, -, rfl⟩ := Option.map_eq_some_iff.mp hstep
      split
      · rfl
      · split
        · rfl
        · exact kind_submit _ _ _
      · rfl
  | timeOut =>
      rw [Firehose.step] at hstep
      split at hstep
      · split at hstep
        · cases hstep
          rfl
        · cases hstep
      · cases hstep

theorem inv_initial (numSlots : Nat) (hslots : 0 < numSlots) (numOrders awaited seed : Int)
    (engineImport : EngineImport) :
    Inv numSlots hslots numOrders awaited (initial generator numSlots seed engineImport) where
  ids := rfl
  valid := fun order horder => (by cases horder)
  failed := rfl
  received_le := Nat.le_refl 0
  received_le_awaited := Nat.zero_le _
  outcome := ConsumerEngine.holds_create engineImport
  pipeline := Pipeline.inv_initial numSlots hslots
  count := Nat.zero_le _
  records := rfl
  returned := fun _ => rfl
  reading := fun hbusy => absurd rfl hbusy

theorem inv_of_run (hgenerator : generator.Documented) (hslots : 0 < numSlots) (hfit : numOrders ≤ numSlots)
    (hbound : numOrders < 2 ^ 64) (seed : Int) (engineImport : EngineImport)
    {actions : List FirehoseAction} (hclock : ∀ action ∈ actions, ReadsClock action)
    (hrun : Transition.run (step generator numOrders awaited) actions (initial generator numSlots seed engineImport) =
      some s) : Inv numSlots hslots numOrders awaited s :=
  Transition.invariant_throughout
    (fun hclock' hstep hinv => Inv.step hinv hgenerator hfit hbound hclock' hstep) hrun
    (Transition.Throughout.of_forall hclock _)
    (inv_initial numSlots hslots numOrders awaited seed engineImport)

/-- Whatever the interleaving, the consumer's engine is of the kind that was imported and holds the first of the
orders that the firehose drew, in their order, as a book that was fed directly. Neither process fails but for want of
memory, and a consumer that finishes has taken as many as it awaited. -/
theorem firehose_delivers (hgenerator : generator.Documented) (hslots : 0 < numSlots) (hfit : numOrders ≤ numSlots)
    (hbound : numOrders < 2 ^ 64) (seed : Int) (engineImport : EngineImport)
    {actions : List FirehoseAction} (hclock : ∀ action ∈ actions, ReadsClock action)
    (hrun : Transition.run (step generator numOrders awaited) actions (initial generator numSlots seed engineImport) =
      some s) : s.Delivered awaited ∧ s.engine.kind = engineImport ∧
        ((∀ err, s.status ≠ .raised err) → s.engine.trades =
          (Baseline.OrderBook.run ((s.generated.take s.received).map Order.args) {}).trades) := by
  have hinv := inv_of_run hgenerator hslots hfit hbound seed engineImport hclock hrun
  have hpreserved : ∀ {action} {t t' : Firehose σ}, step generator numOrders awaited action t = some t' →
      t.engine.kind = engineImport → t'.engine.kind = engineImport := fun hstep h => (kind_step hstep).trans h
  have hkind := Transition.invariant hpreserved hrun (ConsumerEngine.kind_create engineImport)
  exact ⟨hinv.toDelivered, hkind, fun hrunning => (hinv.outcome.holds hrunning).trades⟩

end Runs

/-- Two orders, of which the second is being written while the first is read. -/
def overlap : List FirehoseAction :=
  [.generate 5, .writer, .writer, .poll, .generate 6, .reader .unlimited, .writer, .reader .unlimited,
    .reader .unlimited, .poll]

theorem firehose_delivers_overlap : ∃ s, Transition.run (step steadyGenerator 2 2) overlap
    (initial steadyGenerator 2 42 .compiled) = some s ∧ s.received = 1 ∧ s.Delivered 2 := by
  have hreceived : (Transition.run (step steadyGenerator 2 2) overlap
      (initial steadyGenerator 2 42 .compiled)).map Firehose.received = some 1 := by decide +kernel
  obtain ⟨s, hrun, hs⟩ := Option.map_eq_some_iff.mp hreceived
  exact ⟨s, hrun, hs, (firehose_delivers steadyGenerator_documented (by decide) (by decide) (by decide) 42
    .compiled (by decide) hrun).1⟩

end Firehose

end ChronosMatch
