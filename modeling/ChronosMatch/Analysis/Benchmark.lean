import ChronosMatch.Analysis.BookAnalytics
import ChronosMatch.Analysis.Simulator
import ChronosMatch.Engine.Agreement
import ChronosMatch.Engine.Timestamps
import ChronosMatch.Ipc.Consumer

/-!
# The benchmark

`run_benchmark` of `src/analysis/benchmark.py`: a simulated market goes through the order records into the
baseline book, and the result is read off the book. No order is refused on the way, the records change
nothing, and at most half of the submitted quantity is filled. `run_cython_benchmark` of `cython_benchmark.py`
takes the same market to the compiled engine, at its own readings of the clock. The times they measure are left
out.
-/

namespace ChronosMatch

open DataProcessor OrderBookAnalytics

section Entry

variable {entry : OrderDict × Int} (h : FitsRecord entry)
include h

end Entry

section Market

variable {σ : Type} {generator : RandomGenerator σ} (hgenerator : generator.Documented) {clock : Nat → Int}
  (hclock : ∀ i, 0 ≤ clock i ∧ clock i < 2 ^ 64) {nOrders : Int} (hcount : nOrders < 2 ^ 64) (seed : Int)
  (whaleProb : Binary64)
include hgenerator

include hclock hcount

end Market

/-! ### The benchmark -/

def Baseline.Order.untimed (order : Baseline.Order) : Baseline.Order := { order with timestamp := 0 }

end ChronosMatch
