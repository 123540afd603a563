import ChronosMatch.Base.RoundedArithmetic
import ChronosMatch.Engine.Agreement
import ChronosMatch.Ipc.Consumer

/-!
# The mock market

`MockMarketSimulator` of `src/analysis/simulator.py`. The generator behind `random.Random` is a parameter; what
`Documented` asks of it is the range of `randint`, and that `gauss` draws no number of an absurd size.
-/

namespace ChronosMatch

open DataProcessor

/-- `random.Random`, with the calls that the simulator makes on it. -/
structure RandomGenerator (σ : Type) where
  seeded : Int → σ
  /-- Does `choice(["BUY", "SELL"])` take the first? -/
  choice : σ → Bool × σ
  /-- `gauss(0, 0.8)` -/
  gauss : σ → Binary64 × σ
  random : σ → Binary64 × σ
  randint : Int → Int → σ → Int × σ

structure RandomGenerator.Documented {σ : Type} (generator : RandomGenerator σ) : Prop where
  randint : ∀ (low high : Int) (rng : σ), low ≤ high →
    low ≤ (generator.randint low high rng).1 ∧ (generator.randint low high rng).1 ≤ high
  gauss : ∀ rng : σ, (generator.gauss rng).1.Moderate

/-- The dict of an order; `timestamp_ns` is there after `timestamped`. -/
structure OrderDict where
  orderId : Int
  side : String
  price : Binary64
  quantity : Int
  timestampNs : Option Int := none

/-- `round(max(1.0, base_price + drift), 2)` -/
def drawnPrice (basePrice drift : Binary64) : Binary64 :=
  let price := basePrice + drift
  (if Binary64.ofInt 1 < price then price else Binary64.ofInt 1).roundDecimal 2

structure MockMarketSimulator (σ : Type) where
  seed : Int
  basePrice : Binary64
  rng : σ
  nextId : Nat := 1

namespace MockMarketSimulator

variable {σ : Type} (generator : RandomGenerator σ)

/-- `__init__` -/
def create (seed : Int) (basePrice : Binary64) : MockMarketSimulator σ where
  seed := seed
  basePrice := basePrice
  rng := generator.seeded seed

def reset (seed : Option Int) (sim : MockMarketSimulator σ) : MockMarketSimulator σ :=
  let seed := seed.getD sim.seed
  { sim with
    seed
    rng := generator.seeded seed
    nextId := 1 }

/-- `_next_order` -/
def nextOrder (whaleProb : Binary64) (sim : MockMarketSimulator σ) : OrderDict × MockMarketSimulator σ :=
  let (first, rng) := generator.choice sim.rng
  let side := if first then "BUY" else "SELL"
  let (drift, rng) := generator.gauss rng
  let price := drawnPrice sim.basePrice drift
  let (sweep, rng) := generator.random rng
  let (quantity, rng) := if sweep < whaleProb then generator.randint 500 2000 rng else generator.randint 1 100 rng
  ({ orderId := sim.nextId, side, price, quantity }, { sim with rng, nextId := sim.nextId + 1 })

def orders (whaleProb : Binary64) : Nat → MockMarketSimulator σ → List OrderDict × MockMarketSimulator σ
  | 0, sim => ([], sim)
  | n + 1, sim =>
      let (order, sim) := nextOrder generator whaleProb sim
      let (rest, sim) := orders whaleProb n sim
      (order :: rest, sim)

/-- `generate`, and `stream` once it is used up. -/
def generate (n : Int) (whaleProb : Binary64) (sim : MockMarketSimulator σ) :
    List OrderDict × MockMarketSimulator σ :=
  orders generator whaleProb (max 0 n).toNat sim

/-- `0.05` -/
def priceStep : Binary64 := Binary64.ofInt 5 / Binary64.ofInt 100

/-- The two orders of a level of `balanced_book`. -/
def balancedLevel (basePrice : Binary64) (nextId level : Nat) : List OrderDict :=
  let offset := Binary64.ofInt level * priceStep
  [{ orderId := nextId
     side := "BUY"
     price := (basePrice + Binary64.ofInt 1 - offset).roundDecimal 2
     quantity := 10 },
    { orderId := (nextId + 1 : Nat)
      side := "SELL"
      price := (basePrice - Binary64.ofInt 1 + offset).roundDecimal 2
      quantity := 10 }]

def balancedLevels (basePrice : Binary64) : (level steps nextId : Nat) → List OrderDict
  | _, 0, _ => []
  | level, steps + 1, nextId =>
      balancedLevel basePrice nextId level ++ balancedLevels basePrice (level + 1) steps (nextId + 2)

def balancedBook (nEachSide : Int) (sim : MockMarketSimulator σ) : List OrderDict × MockMarketSimulator σ :=
  (balancedLevels sim.basePrice 0 nEachSide.toNat sim.nextId, { sim with nextId := sim.nextId + 2 * nEachSide.toNat })

/-- `now` is the reading of the clock after the orders were generated. -/
def timestamped (now : Int) (n : Int) (whaleProb : Binary64) (sim : MockMarketSimulator σ) :
    List OrderDict × MockMarketSimulator σ :=
  let (orders, sim) := generate generator n whaleProb sim
  (orders.mapIdx fun i order => { order with timestampNs := some (now + i) }, sim)

end MockMarketSimulator

/-! ### Simulated orders -/

/-- An order that every stage of the pipeline takes. -/
structure OrderDict.Simulated (order : OrderDict) : Prop where
  side : order.side = "BUY" ∨ order.side = "SELL"
  finite : order.price.isFinite = true
  price : Binary64.ofInt 1 ≤ order.price
  quantity : 1 ≤ order.quantity ∧ order.quantity ≤ 2000

theorem drawnPrice_spec {basePrice drift : Binary64} (hbase : basePrice.Moderate) (hdrift : drift.Moderate) :
    (drawnPrice basePrice drift).isFinite = true ∧ Binary64.ofInt 1 ≤ drawnPrice basePrice drift := by
  have hone : (Binary64.ofInt 1).toRat = 1 := Binary64.toRat_one
  have hsum : (basePrice + drift).isFinite = true := hbase.isFinite_add hdrift
  rw [drawnPrice]
  split
  · next hlt =>
      refine ⟨Binary64.isFinite_roundDecimal hsum 2, ?_⟩
      apply Binary64.le_roundDecimal hsum (by decide) (k := 1) (by rw [hone]; norm_num) (by decide)
      have hle := Binary64.toRat_mono (Binary64.le_of_lt hlt)
      rw [hone] at hle
      exact_mod_cast hle
  · exact ⟨by decide, by decide⟩

/-- What `create_order` makes of an order and a reading of the clock. -/
def recordedOrder (entry : OrderDict × Int) : DataProcessor.Order :=
  ⟨entry.1.orderId, entry.1.side, entry.1.price, entry.1.quantity, entry.2⟩

/-- The arguments of a call that submits the order as it is. -/
def directArgs (entry : OrderDict × Int) : OrderArgs := (recordedOrder entry).args

/-- An order and a reading of the clock that fit a record. -/
structure FitsRecord (entry : OrderDict × Int) : Prop where
  simulated : entry.1.Simulated
  orderId : 0 ≤ entry.1.orderId ∧ entry.1.orderId < 2 ^ 64
  clock : 0 ≤ entry.2 ∧ entry.2 < 2 ^ 64

theorem zero_lt_of_one_le {price : Binary64} (h : Binary64.ofInt 1 ≤ price) : Binary64.zero < price := by
  have hkey : Binary64.zero.key < (Binary64.ofInt 1).key := by decide
  exact ⟨by decide, h.2.1, hkey.trans_le h.2.2⟩

section Record

variable {entry : OrderDict × Int} (h : FitsRecord entry)
include h

theorem upper_side : upper entry.1.side = entry.1.side := by
  rcases h.simulated.side with hside | hside
  · rw [hside]
    rfl
  · rw [hside]
    rfl

theorem createOrder_ok : createOrder entry.2 entry.1.orderId entry.1.side entry.1.price entry.1.quantity =
    .ok (recordedOrder entry) := by
  have hquantity := h.simulated.quantity
  have hid := h.orderId
  have hname : ¬ (entry.1.side ≠ "BUY" ∧ entry.1.side ≠ "SELL") := by
    rcases h.simulated.side with hside | hside <;> simp [hside]
  have hprice := Binary64.not_le_of_lt (zero_lt_of_one_le h.simulated.price)
  simp only [createOrder, Option.getD_none, upper_side h]
  rw [if_neg hname, if_neg (by omega), if_neg hprice, if_neg (by omega)]
  rfl

theorem recordedOrder_fits : (recordedOrder entry).Fits := by
  have hquantity := h.simulated.quantity
  have hrange : 0 ≤ entry.1.quantity ∧ entry.1.quantity < 2 ^ 64 := by omega
  exact ⟨h.simulated.side, h.orderId, hrange, h.clock⟩

theorem directArgs_valid : (directArgs entry).Valid := by
  have hquantity := h.simulated.quantity
  have hrange : 1 ≤ entry.1.quantity ∧ entry.1.quantity < 2 ^ 64 := by omega
  refine ⟨h.orderId, ?_, ⟨h.simulated.finite, zero_lt_of_one_le h.simulated.price⟩, hrange, h.clock⟩
  rw [directArgs, Order.args, sideCode]
  split
  · exact .inl rfl
  · exact .inr rfl

end Record

namespace MockMarketSimulator

variable {σ : Type} {generator : RandomGenerator σ}

theorem nextOrder_spec (hgenerator : generator.Documented) (whaleProb : Binary64) {sim : MockMarketSimulator σ}
    (hbase : sim.basePrice.Moderate) :
    let (order, sim') := nextOrder generator whaleProb sim
    order.Simulated ∧ order.orderId = sim.nextId ∧ order.timestampNs = none ∧
      sim'.nextId = sim.nextId + 1 ∧ sim'.basePrice = sim.basePrice ∧ sim'.seed = sim.seed := by
  rw [nextOrder]
  dsimp only
  obtain ⟨hfinite, hprice⟩ := drawnPrice_spec hbase (hgenerator.gauss (generator.choice sim.rng).2)
  refine ⟨⟨?_, hfinite, hprice, ?_⟩, rfl, rfl, rfl, rfl, rfl⟩
  · split
    · exact .inl rfl
    · exact .inr rfl
  · dsimp only
    split
    · have hrange := hgenerator.randint 500 2000 (generator.random (generator.gauss (generator.choice sim.rng).2).2).2
        (by decide)
      exact ⟨le_trans (by decide) hrange.1, hrange.2⟩
    · have hrange := hgenerator.randint 1 100 (generator.random (generator.gauss (generator.choice sim.rng).2).2).2
        (by decide)
      exact ⟨hrange.1, hrange.2.trans (by decide)⟩

/-- A number of orders in a row: all of them simulated, with consecutive ids. -/
theorem orders_spec (hgenerator : generator.Documented) (whaleProb : Binary64) (n : Nat)
    {sim : MockMarketSimulator σ} (hbase : sim.basePrice.Moderate) :
    let (produced, sim') := orders generator whaleProb n sim
    (∀ order ∈ produced, order.Simulated ∧ order.timestampNs = none) ∧
      produced.map OrderDict.orderId = (List.range n).map (fun i => ((sim.nextId + i : Nat) : Int)) ∧
      sim'.nextId = sim.nextId + n ∧ sim'.basePrice = sim.basePrice ∧ sim'.seed = sim.seed := by
  induction n generalizing sim with
  | zero => exact ⟨by simp, rfl, rfl, rfl, rfl⟩
  | succ n ih =>
      have hfirst := nextOrder_spec hgenerator whaleProb hbase
      rcases hstep : nextOrder generator whaleProb sim with ⟨order, sim'⟩
      rw [hstep] at hfirst
      obtain ⟨horder, hid, htimestamp, hnext, hprice, hseed⟩ := hfirst
      have hbase' : sim'.basePrice.Moderate := by rwa [hprice]
      have hrest := ih hbase'
      rcases hrun : orders generator whaleProb n sim' with ⟨rest, sim''⟩
      rw [hrun] at hrest
      obtain ⟨hall, hids, hnext', hprice', hseed'⟩ := hrest
      rw [orders, hstep]
      dsimp only
      rw [hrun]
      refine ⟨?_, ?_, by rw [hnext']; omega, hprice'.trans hprice, hseed'.trans hseed⟩
      · intro order hmem
        rcases List.mem_cons.mp hmem with rfl | hmem
        · exact ⟨horder, htimestamp⟩
        · exact hall order hmem
      · rw [List.map_cons, hid, hids, hnext, List.range_succ_eq_map, List.map_cons, List.map_map]
        congr 1
        apply List.map_congr_left
        intro i _
        rw [Function.comp_apply]
        congr 1
        omega

theorem orders_add (whaleProb : Binary64) (m n : Nat) (sim : MockMarketSimulator σ) :
    orders generator whaleProb (m + n) sim =
      ((orders generator whaleProb m sim).1 ++
          (orders generator whaleProb n (orders generator whaleProb m sim).2).1,
        (orders generator whaleProb n (orders generator whaleProb m sim).2).2) := by
  induction m generalizing sim with
  | zero => rw [Nat.zero_add]; rfl
  | succ m ih =>
      rw [Nat.succ_add, orders]
      dsimp only
      rw [ih]
      rfl

/-! ### Runs of the simulator -/

inductive SimulatorCall
  | reset (seed : Option Int)
  | generate (n : Int) (whaleProb : Binary64)
  | balancedBook (nEachSide : Int)
  | timestamped (now n : Int) (whaleProb : Binary64)

variable (generator) in
/-- The simulator after a list of calls. -/
def run : List SimulatorCall → MockMarketSimulator σ → MockMarketSimulator σ
  | [], sim => sim
  | .reset seed :: calls, sim => run calls (sim.reset generator seed)
  | .generate n whaleProb :: calls, sim => run calls (sim.generate generator n whaleProb).2
  | .balancedBook nEachSide :: calls, sim => run calls (sim.balancedBook nEachSide).2
  | .timestamped now n whaleProb :: calls, sim => run calls (sim.timestamped generator now n whaleProb).2

variable (generator) in
/-- A market that is generated in pieces. -/
def generateEach (whaleProb : Binary64) : List Int → MockMarketSimulator σ → List OrderDict
  | [], _ => []
  | n :: ns, sim =>
      (sim.generate generator n whaleProb).1 ++ generateEach whaleProb ns (sim.generate generator n whaleProb).2

theorem generateEach_eq (whaleProb : Binary64) (ns : List Int) (sim : MockMarketSimulator σ) :
    generateEach generator whaleProb ns sim =
      (orders generator whaleProb (ns.map fun n => (max 0 n).toNat).sum sim).1 := by
  induction ns generalizing sim with
  | nil => rfl
  | cons n ns ih => rw [generateEach, ih, generate, List.map_cons, List.sum_cons, orders_add]

theorem basePrice_orders (whaleProb : Binary64) (n : Nat) (sim : MockMarketSimulator σ) :
    (orders generator whaleProb n sim).2.basePrice = sim.basePrice := by
  induction n generalizing sim with
  | zero => rfl
  | succ n ih => exact ih _

theorem basePrice_run (calls : List SimulatorCall) (sim : MockMarketSimulator σ) :
    (run generator calls sim).basePrice = sim.basePrice := by
  induction calls generalizing sim with
  | nil => rfl
  | cons call calls ih =>
      cases call with
      | reset seed => exact ih _
      | generate n whaleProb => exact (ih _).trans (basePrice_orders whaleProb _ sim)
      | balancedBook nEachSide => exact ih _
      | timestamped now n whaleProb => exact (ih _).trans (basePrice_orders whaleProb _ sim)

/-- Whatever was called before a reset, the market after it is that of a new simulator with the same seed,
however it is cut into pieces. Its orders have the ids from 1 on, and every stage of the pipeline takes them. -/
theorem market_after_reset (hgenerator : generator.Documented) (seed : Int) {basePrice : Binary64}
    (hbase : basePrice.Moderate) (calls : List SimulatorCall) (newSeed : Option Int) (whaleProb : Binary64)
    (ns : List Int) :
    let sim := run generator calls (create generator seed basePrice)
    let market := generateEach generator whaleProb ns (sim.reset generator newSeed)
    let total : Nat := (ns.map fun n => (max 0 n).toNat).sum
    market = ((create generator (newSeed.getD sim.seed) basePrice).generate generator (total : Int) whaleProb).1 ∧
      market.map OrderDict.orderId = (List.range total).map (fun i => ((i + 1 : Nat) : Int)) ∧
      ∀ order ∈ market, order.Simulated := by
  intro sim market total
  have hprice : sim.basePrice = basePrice := basePrice_run calls _
  have hreset : sim.reset generator newSeed = create generator (newSeed.getD sim.seed) basePrice := by
    rw [reset, hprice]
    rfl
  have hmarket : market = (orders generator whaleProb total (create generator (newSeed.getD sim.seed) basePrice)).1 := by
    rw [← hreset]
    exact generateEach_eq whaleProb ns _
  have hfresh : (create generator (newSeed.getD sim.seed) basePrice).basePrice.Moderate := hbase
  obtain ⟨hall, hids, -⟩ := orders_spec hgenerator whaleProb total hfresh
  refine ⟨?_, ?_, ?_⟩
  · rw [hmarket, generate, max_eq_right (Int.natCast_nonneg total), Int.toNat_natCast]
  · rw [hmarket, hids]
    apply List.map_congr_left
    intro i _
    rw [Nat.add_comm]
    rfl
  · intro order hmem
    rw [hmarket] at hmem
    exact (hall order hmem).1

end MockMarketSimulator

/-- A generator that counts its calls: it takes the sides in turn, and always the lowest number. -/
def steadyGenerator : RandomGenerator Nat where
  seeded seed := seed.toNat
  choice rng := (rng % 2 = 0, rng + 1)
  gauss rng := (Binary64.zero, rng + 1)
  random rng := (Binary64.zero, rng + 1)
  randint low _ rng := (low, rng + 2)

theorem steadyGenerator_documented : steadyGenerator.Documented where
  randint low high _ hle := ⟨le_refl low, hle⟩
  gauss _ := by
    change Binary64.zero.Moderate
    refine ⟨by decide, ?_⟩
    rw [Binary64.toRat_zero, abs_zero]
    positivity

theorem MockMarketSimulator.market_after_reset_steady :
    let sim := run steadyGenerator [.generate 2 (Binary64.ofInt 1), .reset (some 7)]
      (create steadyGenerator 42 (Binary64.ofInt 100))
    let market := generateEach steadyGenerator (Binary64.ofInt 0) [2, -1, 1] (sim.reset steadyGenerator none)
    market = ((create steadyGenerator 7 (Binary64.ofInt 100)).generate steadyGenerator 3 (Binary64.ofInt 0)).1 ∧
      market.map OrderDict.orderId = [1, 2, 3] ∧ ∀ order ∈ market, order.Simulated :=
  market_after_reset steadyGenerator_documented 42 Binary64.moderate_hundred
    [.generate 2 (Binary64.ofInt 1), .reset (some 7)] none (Binary64.ofInt 0) [2, -1, 1]

end ChronosMatch
