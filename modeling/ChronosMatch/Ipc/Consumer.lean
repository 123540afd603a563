import ChronosMatch.Engine.Compiled
import ChronosMatch.Ipc.LockedRing

/-!
# The consumer

`RingBufferConsumer` of `src/ipc/consumer.py` on the compiled engine: it takes one record after the other out
of a ring and submits the order in it. The loop of `drain` is given by its single rounds, since a producer
may put records between them.
-/

namespace ChronosMatch

open DataProcessor

structure RingBufferConsumer where
  ringBuffer : LockedRing
  engine : MatchingEngine
  processedCount : Nat := 0

/-- The order as it is submitted to the engine. -/
def DataProcessor.Order.args (order : Order) : OrderArgs :=
  ⟨order.orderId, sideCode order.side, order.price, order.quantity, order.timestampNs⟩

namespace RingBufferConsumer

/-- `grow` is the memory the engine finds. -/
def processOne (grow : Growth) (consumer : RingBufferConsumer) (file : List UInt8) :
    Except PipelineError Bool × RingBufferConsumer × List UInt8 :=
  match consumer.ringBuffer.get file with
  | (.error err, file) => (.error err, consumer, file)
  | (.ok none, file) => (.ok false, consumer, file)
  | (.ok (some record), file) =>
      match unpackOrder record with
      | .error err => (.error err, consumer, file)
      | .ok order =>
          match consumer.engine.addOrder grow order.args with
          | (.error err, engine) => (.error (.engine err), { consumer with engine }, file)
          | (.ok _, engine) =>
              (.ok true, { consumer with engine, processedCount := consumer.processedCount + 1 }, file)

/-- Is the condition of the loop of `drain` met? -/
def drainsOn (maxOrders : Option Int) (processed : Nat) : Bool :=
  match maxOrders with
  | none => true
  | some maxOrders => decide ((processed : Int) < maxOrders)

end RingBufferConsumer

end ChronosMatch
