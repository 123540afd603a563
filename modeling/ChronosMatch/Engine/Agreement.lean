import ChronosMatch.Engine.BookInvariant
import ChronosMatch.Engine.PythonBook

/-!
# The engines agree

The compiled engine refines the book and the two Python engines simulate it, so all three agree on every
feed of valid orders that the compiled engine takes. It takes no more than it can count.
-/

namespace ChronosMatch

/-! ### Valid orders -/

/-- The orders that the engines are specified for. -/
structure OrderArgs.Valid (args : OrderArgs) : Prop where
  orderId : 0 ≤ args.orderId ∧ args.orderId < 2 ^ 64
  side : args.side = Side.buy.code ∨ args.side = Side.sell.code
  price : args.price.isFinite = true ∧ Binary64.zero < args.price
  quantity : 1 ≤ args.quantity ∧ args.quantity < 2 ^ 64
  timestamp : 0 ≤ args.timestamp ∧ args.timestamp < 2 ^ 64

namespace MatchingEngine

theorem toUInt_ok {width : Nat} {n : Int} (h : 0 ≤ n ∧ n < 2 ^ width) :
    ∃ m : Nat, toUInt width n = .ok m ∧ n = m := by
  refine ⟨n.toNat, ?_, (Int.toNat_of_nonneg h.1).symm⟩
  rw [toUInt, if_neg (by omega), if_pos h.2]

theorem checkSide_ok {n : Int} (h : n = Side.buy.code ∨ n = Side.sell.code) :
    ∃ side : Side, checkSide n = .ok side ∧ n = side.code := by
  rcases h with rfl | rfl
  · exact ⟨.buy, rfl, rfl⟩
  · exact ⟨.sell, rfl, rfl⟩

theorem checkPrice_ok {x : Binary64} (h : x.isFinite = true ∧ Binary64.zero < x) :
    ∃ price : Price, checkPrice x = .ok price ∧ x = price.value := by
  have hpositive := Binary64.not_le_of_lt h.2
  refine ⟨⟨x, h.1, hpositive⟩, ?_, rfl⟩
  rw [checkPrice, dif_pos ⟨h.1, hpositive⟩]

/-- Validation accepts a valid order and loses nothing of it. -/
theorem parseOrder_ok {args : OrderArgs} (h : args.Valid) :
    ∃ order, parseOrder args = .ok order ∧ args = order.toArgs := by
  obtain ⟨orderId, hparseId, hid⟩ := toUInt_ok h.orderId
  obtain ⟨quantity, hparseQuantity, hquantity⟩ := toUInt_ok ⟨by have := h.quantity.1; omega, h.quantity.2⟩
  obtain ⟨timestamp, hparseTimestamp, htimestamp⟩ := toUInt_ok h.timestamp
  obtain ⟨side, hparseSide, hside⟩ := checkSide_ok h.side
  obtain ⟨price, hparsePrice, hprice⟩ := checkPrice_ok h.price
  have hcode : 0 ≤ args.side ∧ args.side < 2 ^ 8 := by
    rw [hside]
    cases side <;> decide
  obtain ⟨code, hparseCode, hcodeEq⟩ := toUInt_ok hcode
  rw [hcodeEq] at hparseSide
  have hpos : quantity ≠ 0 := by
    have := h.quantity.1
    omega
  have hcheckQuantity : checkQuantity quantity = .ok quantity := if_neg hpos
  refine ⟨⟨orderId, side, price, quantity, timestamp⟩, ?_, ?_⟩
  · simp only [parseOrder, bind, Except.bind, pure, Except.pure, hparseId, hparseCode, hparseQuantity,
      hparseTimestamp, hparseSide, hparsePrice, hcheckQuantity]
  · cases args
    simp only [COrder.toArgs, OrderArgs.mk.injEq]
    exact ⟨hid, hside, hprice, hquantity, htimestamp⟩

theorem parseOrders_ok {feed : List (Growth × OrderArgs)} (h : ∀ p ∈ feed, p.2.Valid) :
    ∃ orders : List COrder, feed.map (parseOrder ∘ Prod.snd) = orders.map .ok ∧
      feed.map Prod.snd = orders.map COrder.toArgs := by
  induction feed with
  | nil => exact ⟨[], rfl, rfl⟩
  | cons p feed ih =>
      obtain ⟨order, hparse, hargs⟩ := parseOrder_ok (h p List.mem_cons_self)
      obtain ⟨orders, hparses, hargss⟩ := ih fun q hq => h q (List.mem_cons_of_mem _ hq)
      refine ⟨order :: orders, ?_, ?_⟩
      · rw [List.map_cons, List.map_cons, hparses, Function.comp_apply, hparse]
      · rw [List.map_cons, List.map_cons, hargss, hargs]

end MatchingEngine

/-! ### Runs of the three engines -/

namespace MatchingEngine

/-- One `add_order` call for each order, with the growths that the call meets. -/
def addOrders (feed : List (Growth × OrderArgs)) : List Call := feed.map fun p => .addOrder p.1 p.2

theorem addOrder_parsed (grow : Growth) {args : OrderArgs} {order : COrder} (hparse : parseOrder args = .ok order)
    (e : MatchingEngine) : ∃ result e', SubmitEffect order e result e' ∧
      (Call.addOrder grow args).submissions e = [(order, result)] ∧
      ((Call.addOrder grow args).perform e).2 = e' := by
  rcases hsubmit : submit grow order e with ⟨result, e'⟩
  refine ⟨result, e', submit_effect hsubmit, ?_, ?_⟩
  · simp only [Call.submissions, hparse, hsubmit]
  · simp only [Call.perform, addOrder, hparse, hsubmit]
    cases result <;> rfl

theorem submissions_append (calls calls' : List Call) (e : MatchingEngine) :
    submissions (calls ++ calls') e = submissions calls e ++ submissions calls' (run calls e) := by
  induction calls generalizing e with
  | nil => rfl
  | cons call calls ih => rw [List.cons_append, submissions, submissions, run, ih, List.append_assoc]

theorem run_append (calls calls' : List Call) (e : MatchingEngine) :
    run (calls ++ calls') e = run calls' (run calls e) := by
  induction calls generalizing e with
  | nil => rfl
  | cons call calls ih => exact ih _

theorem undisturbed_append {log log' : List Submission} (h : Undisturbed log) (h' : Undisturbed log') :
    Undisturbed (log ++ log') := by
  intro submission hmem
  rcases List.mem_append.mp hmem with hmem | hmem
  · exact h submission hmem
  · exact h' submission hmem

end MatchingEngine

/-- The compiled engine holds the book. -/
structure Refines (e : MatchingEngine) (book : Book) : Prop where
  resting : ∀ side, e.resting side = book.resting side
  trades : e.trades = book.trades

theorem Refines.empty : Refines .empty .empty :=
  ⟨fun side => by cases side <;> rfl, rfl⟩

/-- An accepted order does to the engine what it does to the book. -/
theorem Refines.submit {e e' : MatchingEngine} {book : Book} {order : COrder} (h : Refines e book)
    (heffect : MatchingEngine.SubmitEffect order e (.ok ()) e') : Refines e' (book.submit order) := by
  cases heffect with
  | accepted hroom hmatched hstop hown hcount =>
      have hfilling := hmatched.filled.fillAll_eq hstop
      rw [h.resting, ← Book.filling] at hfilling
      refine ⟨Side.forall order.side ?_ ?_, ?_⟩
      · rw [hown, book.submit_resting_same, hfilling, h.resting]
      · rw [hmatched.opposite, book.submit_resting_opposite, hfilling]
      · rw [hmatched.trades, book.submit_trades, hfilling, h.trades]

/-- The engine takes every order of the feed. -/
def MatchingEngine.Takes (feed : List (Growth × OrderArgs)) (e : MatchingEngine) : Prop :=
  ∀ submission ∈ submissions (addOrders feed) e, submission.2 = .ok ()

/-- As long as its count has room and memory lasts, the engine takes valid orders. -/
theorem MatchingEngine.takes_of_room {feed : List (Growth × OrderArgs)} {orders : List COrder} {e : MatchingEngine}
    (horders : feed.map (parseOrder ∘ Prod.snd) = orders.map .ok) (hcount : e.orderCount + feed.length < 2 ^ 64)
    (hmemory : Undisturbed (submissions (addOrders feed) e)) : e.Takes feed := by
  induction feed generalizing e orders with
  | nil => exact fun _ hmem => by cases hmem
  | cons p feed ih =>
      obtain ⟨order, orders, rfl, hparse, hrest⟩ := List.map_eq_cons_iff.mp horders.symm
      obtain ⟨result, e', heffect, hlog, hperform⟩ := addOrder_parsed p.1 hparse.symm e
      rw [List.length_cons] at hcount
      simp only [Takes, addOrders, List.map_cons, submissions, hlog, hperform] at hmemory ⊢
      have hbroke := hmemory _ List.mem_cons_self
      have hnext : result = .ok () ∧ e'.orderCount = e.orderCount + 1 := by
        cases heffect with
        | refused hfull => omega
        | interrupted herr =>
            rw [brokeOff, herr] at hbroke
            cases hbroke
        | accepted _ _ _ _ hcount => exact ⟨rfl, hcount⟩
      intro submission hmem
      rcases List.mem_cons.mp hmem with rfl | hmem
      · exact hnext.1
      · exact ih hrest.symm (by omega) (fun other hother => hmemory other (List.mem_cons_of_mem _ hother))
          submission hmem

theorem Refines.run {feed : List (Growth × OrderArgs)} {orders : List COrder} {e : MatchingEngine} {book : Book}
    (h : Refines e book) (horders : feed.map (MatchingEngine.parseOrder ∘ Prod.snd) = orders.map .ok)
    (htakes : e.Takes feed) : Refines (MatchingEngine.run (MatchingEngine.addOrders feed) e) (book.run orders) := by
  induction feed generalizing e book orders with
  | nil =>
      obtain rfl : orders = [] := by simpa using horders.symm
      exact h
  | cons p feed ih =>
      obtain ⟨order, orders, rfl, hparse, hrest⟩ := List.map_eq_cons_iff.mp horders.symm
      obtain ⟨result, e', heffect, hlog, hperform⟩ := MatchingEngine.addOrder_parsed p.1 hparse.symm e
      simp only [MatchingEngine.Takes, MatchingEngine.addOrders, List.map_cons, MatchingEngine.submissions, hlog,
        hperform] at htakes
      obtain rfl : result = .ok () := htakes _ List.mem_cons_self
      simp only [MatchingEngine.addOrders, List.map_cons, MatchingEngine.run, Book.run, hperform]
      exact ih (h.submit heffect) hrest.symm fun submission hmem =>
        htakes submission (List.mem_cons_of_mem _ hmem)

/-- The same trades, and the same book once the Python lists are sorted. -/
structure Agrees {α : Type} (F : OrderFields α) (f : COrder → α) (e : MatchingEngine) (b : PyBook α) : Prop where
  trades : b.trades = e.getTrades
  buyOrders : b.sortedBuys F = e.buyOrders.map f
  sellOrders : b.sortedSells F = e.sellOrders.map f

theorem Simulates.agrees {α : Type} {F : OrderFields α} {f : COrder → α} {e : MatchingEngine} {book : Book}
    {b : PyBook α} (h : Simulates f book b) (hf : Embeds F f) (hrefines : Refines e book) : Agrees F f e b := by
  refine ⟨?_, ?_, ?_⟩
  · rw [h.trades, MatchingEngine.getTrades, hrefines.trades]
  · rw [← show e.resting .buy = e.buyOrders from rfl, hrefines.resting]
    exact h.sorted hf .buy
  · rw [← show e.resting .sell = e.sellOrders from rfl, hrefines.resting]
    exact h.sorted hf .sell

/-- After every prefix of a feed the compiled engine holds the book, as long as it neither refuses an order for its
count nor runs out of memory. -/
theorem refines_prefix (feed : List (Growth × OrderArgs)) (hvalid : ∀ p ∈ feed, p.2.Valid)
    (hcount : feed.length < 2 ^ 64)
    (hmemory : MatchingEngine.Undisturbed (MatchingEngine.submissions (MatchingEngine.addOrders feed) .empty))
    (k : Nat) : ∃ orders : List COrder, (feed.take k).map Prod.snd = orders.map COrder.toArgs ∧
      Refines (MatchingEngine.run (MatchingEngine.addOrders (feed.take k)) .empty) (Book.empty.run orders) := by
  have hsplit : MatchingEngine.addOrders feed =
      MatchingEngine.addOrders (feed.take k) ++ MatchingEngine.addOrders (feed.drop k) := by
    rw [MatchingEngine.addOrders, MatchingEngine.addOrders, MatchingEngine.addOrders, ← List.map_append,
      List.take_append_drop]
  rw [hsplit, MatchingEngine.submissions_append] at hmemory
  obtain ⟨orders, horders, hargs⟩ := MatchingEngine.parseOrders_ok fun p (hp : p ∈ feed.take k) =>
    hvalid p (List.mem_of_mem_take hp)
  have hlength : (feed.take k).length ≤ feed.length := by
    rw [List.length_take]
    exact Nat.min_le_right _ _
  have hroom : MatchingEngine.empty.orderCount + (feed.take k).length < 2 ^ 64 := by
    change 0 + (feed.take k).length < 2 ^ 64
    omega
  exact ⟨orders, hargs, Refines.empty.run horders (MatchingEngine.takes_of_room horders hroom
    fun submission hmem => hmemory submission (List.mem_append_left _ hmem))⟩

/-- After every prefix of a feed the three engines agree, as long as the compiled one neither refuses
an order for its count nor runs out of memory. -/
theorem engines_agree (feed : List (Growth × OrderArgs)) (hvalid : ∀ p ∈ feed, p.2.Valid)
    (hcount : feed.length < 2 ^ 64)
    (hmemory : MatchingEngine.Undisturbed (MatchingEngine.submissions (MatchingEngine.addOrders feed) .empty))
    (k : Nat) :
    Agrees COrderObj.fields COrder.toObj (MatchingEngine.run (MatchingEngine.addOrders (feed.take k)) .empty)
        (ReferenceEngine.run ((feed.take k).map Prod.snd) .empty).toPyBook ∧
      Agrees Baseline.Order.fields COrder.toBaseline
        (MatchingEngine.run (MatchingEngine.addOrders (feed.take k)) .empty)
        (Baseline.OrderBook.run ((feed.take k).map Prod.snd) {}) := by
  obtain ⟨orders, hargs, hrefines⟩ := refines_prefix feed hvalid hcount hmemory k
  rw [hargs]
  exact ⟨(ReferenceEngine.run_simulates orders .empty).agrees COrder.toObj_embeds hrefines,
    (Baseline.OrderBook.run_simulates orders .empty).agrees COrder.toBaseline_embeds hrefines⟩

/-- Late timestamps, a tie and a partial fill: two buys out of order, one more at the first one's price
and timestamp, and a sell that reaches into the second. -/
def lateFeed : List (Growth × OrderArgs) :=
  [(.unlimited, ⟨7, 0, Binary64.ofInt 100, 5, 20⟩), (.unlimited, ⟨3, 0, Binary64.ofInt 100, 4, 10⟩),
    (.unlimited, ⟨7, 0, Binary64.ofInt 100, 2, 20⟩), (.unlimited, ⟨1, 1, Binary64.ofInt 99, 6, 5⟩)]

theorem engines_agree_lateFeed :
    Agrees COrderObj.fields COrder.toObj (MatchingEngine.run (MatchingEngine.addOrders (lateFeed.take 4)) .empty)
        (ReferenceEngine.run ((lateFeed.take 4).map Prod.snd) .empty).toPyBook ∧
      Agrees Baseline.Order.fields COrder.toBaseline
        (MatchingEngine.run (MatchingEngine.addOrders (lateFeed.take 4)) .empty)
        (Baseline.OrderBook.run ((lateFeed.take 4).map Prod.snd) {}) := by
  refine engines_agree lateFeed ?_ (by decide) (by decide) 4
  intro p hp
  simp only [lateFeed, List.mem_cons, List.not_mem_nil, or_false] at hp
  rcases hp with rfl | rfl | rfl | rfl <;>
    exact ⟨by decide, by decide, by decide, by decide, by decide⟩

/-! ### The limits of the compiled engine -/

/-- A sell and a buy that fill each other. -/
def crossedPair : List (Growth × OrderArgs) :=
  [(.unlimited, ⟨1, 1, Binary64.ofInt 100, 1, 1⟩), (.unlimited, ⟨2, 0, Binary64.ofInt 100, 1, 2⟩)]

def hundred : Price := ⟨Binary64.ofInt 100, by decide, by decide⟩

def crossedSell : COrder := ⟨1, .sell, hundred, 1, 1⟩

def crossedBuy : COrder := ⟨2, .buy, hundred, 1, 2⟩

namespace MatchingEngine

/-- An engine without resting buys. -/
def sellSided (orderCount : Nat) (sellOrders : List COrder) (trades : List CTrade) (sellCapacity tradeCapacity : Nat) :
    MatchingEngine :=
  { orderCount, sellOrders, trades, sellCapacity, tradeCapacity }

theorem submit_crossedSell {orderCount : Nat} (hroom : orderCount ≠ 2 ^ 64 - 1) (trades : List CTrade)
    (sellCapacity tradeCapacity : Nat) : ∃ sellCapacity',
      submit .unlimited crossedSell (sellSided orderCount [] trades sellCapacity tradeCapacity) =
        (.ok (), sellSided (orderCount + 1) [crossedSell] trades sellCapacity' tradeCapacity) := by
  obtain ⟨sellCapacity', hcapacity⟩ := ensureCapacity_unlimited "Sell order capacity overflow"
    "Unable to allocate sell order buffer" (show 0 < 2 ^ 63 by decide) sellCapacity
  have hensure : ensureSellCapacity .unlimited (sellSided orderCount [] trades sellCapacity tradeCapacity) =
      .ok sellCapacity' := hcapacity
  have hinsert : insertSell .unlimited crossedSell (sellSided orderCount [] trades sellCapacity tradeCapacity) =
      .ok (sellSided orderCount [crossedSell] trades sellCapacity' tradeCapacity) := by
    rw [insertSell, hensure]
    rfl
  have hmatch : matchSell .unlimited crossedSell (sellSided orderCount [] trades sellCapacity tradeCapacity) =
      (.ok (), sellSided orderCount [crossedSell] trades sellCapacity' tradeCapacity) := by
    rw [matchSell, matchOrder]
    dsimp only [sellSided, resting, Side.opposite, matchLoop, withResting] at hinsert ⊢
    rw [if_pos (by decide), hinsert]
  refine ⟨sellCapacity', ?_⟩
  rw [submit, if_neg (show (sellSided orderCount [] trades sellCapacity tradeCapacity).orderCount ≠ _ from hroom),
    if_neg (by decide), hmatch]
  rfl

theorem submit_crossedBuy {orderCount : Nat} (hroom : orderCount ≠ 2 ^ 64 - 1) {trades : List CTrade}
    (htrades : trades.length < 2 ^ 63) (sellCapacity tradeCapacity : Nat) : ∃ tradeCapacity',
      submit .unlimited crossedBuy (sellSided orderCount [crossedSell] trades sellCapacity tradeCapacity) =
        (.ok (), sellSided (orderCount + 1) [] (trades ++ [⟨2, 1, hundred, 1⟩]) sellCapacity tradeCapacity') := by
  obtain ⟨tradeCapacity', hcapacity⟩ := ensureCapacity_unlimited "Trade capacity overflow"
    "Unable to allocate trade buffer" htrades tradeCapacity
  have hensure : ensureTradeCapacity .unlimited trades tradeCapacity = .ok tradeCapacity' := hcapacity
  have hmatch : matchBuy .unlimited crossedBuy
      (sellSided orderCount [crossedSell] trades sellCapacity tradeCapacity) =
      (.ok (), sellSided orderCount [] (trades ++ [⟨2, 1, hundred, 1⟩]) sellCapacity tradeCapacity') := by
    rw [matchBuy, matchOrder]
    dsimp only [sellSided, resting, Side.opposite, matchLoop, withResting]
    rw [if_pos (by decide), hensure]
    rfl
  refine ⟨tradeCapacity', ?_⟩
  rw [submit, if_neg (show (sellSided orderCount _ trades sellCapacity tradeCapacity).orderCount ≠ _ from hroom),
    if_pos (by decide), hmatch]
  rfl

theorem parseOrder_crossedSell : parseOrder ⟨1, 1, Binary64.ofInt 100, 1, 1⟩ = .ok crossedSell := by
  rfl

theorem parseOrder_crossedBuy : parseOrder ⟨2, 0, Binary64.ofInt 100, 1, 2⟩ = .ok crossedBuy := by
  rfl

theorem run_crossedPair {orderCount : Nat} (hroom : orderCount + 1 < 2 ^ 64 - 1) {trades : List CTrade}
    (htrades : trades.length < 2 ^ 63) (sellCapacity tradeCapacity : Nat) :
    let e := sellSided orderCount [] trades sellCapacity tradeCapacity
    submissions (addOrders crossedPair) e = [(crossedSell, .ok ()), (crossedBuy, .ok ())] ∧
      ∃ sellCapacity' tradeCapacity', run (addOrders crossedPair) e =
        sellSided (orderCount + 2) [] (trades ++ [⟨2, 1, hundred, 1⟩]) sellCapacity' tradeCapacity' := by
  obtain ⟨sellCapacity', hsell⟩ := submit_crossedSell (show orderCount ≠ 2 ^ 64 - 1 by omega) trades sellCapacity
    tradeCapacity
  obtain ⟨tradeCapacity', hbuy⟩ := submit_crossedBuy (show orderCount + 1 ≠ 2 ^ 64 - 1 by omega) htrades
    sellCapacity' tradeCapacity
  refine ⟨?_, sellCapacity', tradeCapacity', ?_⟩
  · simp only [addOrders, crossedPair, List.map_cons, List.map_nil, submissions, Call.submissions, Call.perform,
      addOrder, parseOrder_crossedSell, parseOrder_crossedBuy, hsell, hbuy, List.append_nil, List.singleton_append]
  · simp only [addOrders, crossedPair, List.map_cons, List.map_nil, run, Call.perform, addOrder,
      parseOrder_crossedSell, parseOrder_crossedBuy, hsell, hbuy]

theorem run_crossedPairs (n : Nat) {orderCount : Nat} (hroom : orderCount + 2 * n < 2 ^ 64) {trades : List CTrade}
    (htrades : trades.length + n ≤ 2 ^ 63) (sellCapacity tradeCapacity : Nat) :
    let calls := addOrders (List.replicate n crossedPair).flatten
    let e := sellSided orderCount [] trades sellCapacity tradeCapacity
    Undisturbed (submissions calls e) ∧ ∃ trades' sellCapacity' tradeCapacity',
      run calls e = sellSided (orderCount + 2 * n) [] trades' sellCapacity' tradeCapacity' ∧
        trades'.length = trades.length + n := by
  induction n generalizing orderCount trades sellCapacity tradeCapacity with
  | zero => exact ⟨fun _ hmem => (by cases hmem), trades, sellCapacity, tradeCapacity, rfl, rfl⟩
  | succ n ih =>
      obtain ⟨hlog, sellCapacity₁, tradeCapacity₁, hpair⟩ := run_crossedPair
        (show orderCount + 1 < 2 ^ 64 - 1 by omega) (show trades.length < 2 ^ 63 by omega) sellCapacity tradeCapacity
      have hlength : (trades ++ [(⟨2, 1, hundred, 1⟩ : CTrade)]).length = trades.length + 1 := by simp
      obtain ⟨hrest, trades', sellCapacity', tradeCapacity', hrun, htrades'⟩ := ih
        (show orderCount + 2 + 2 * n < 2 ^ 64 by omega) (by rw [hlength]; omega) sellCapacity₁ tradeCapacity₁
      have hsplit : addOrders (List.replicate (n + 1) crossedPair).flatten =
          addOrders crossedPair ++ addOrders (List.replicate n crossedPair).flatten := by
        rw [List.replicate_succ, List.flatten_cons, addOrders, List.map_append]
        rfl
      refine ⟨?_, trades', sellCapacity', tradeCapacity', ?_, ?_⟩
      · rw [hsplit, submissions_append, hlog, hpair]
        exact undisturbed_append (by decide) hrest
      · rw [hsplit, run_append, hpair, hrun]
        congr 1
        omega
      · rw [htrades', hlength]
        omega

theorem run_lastPair {orderCount : Nat} (hlast : orderCount + 2 = 2 ^ 64) (trades : List CTrade)
    (sellCapacity tradeCapacity : Nat) :
    let e := sellSided orderCount [] trades sellCapacity tradeCapacity
    Undisturbed (submissions (addOrders crossedPair) e) ∧ ∃ sellCapacity', run (addOrders crossedPair) e =
      sellSided (orderCount + 1) [crossedSell] trades sellCapacity' tradeCapacity := by
  obtain ⟨sellCapacity', hsell⟩ := submit_crossedSell (show orderCount ≠ 2 ^ 64 - 1 by omega) trades sellCapacity
    tradeCapacity
  have hbuy : submit .unlimited crossedBuy (sellSided (orderCount + 1) [crossedSell] trades sellCapacity'
      tradeCapacity) = (.error (.overflowError "Order count limit reached"),
        sellSided (orderCount + 1) [crossedSell] trades sellCapacity' tradeCapacity) :=
    if_pos (show orderCount + 1 = 2 ^ 64 - 1 by omega)
  refine ⟨?_, sellCapacity', ?_⟩
  · simp only [addOrders, crossedPair, List.map_cons, List.map_nil, submissions, Call.submissions, Call.perform,
      addOrder, parseOrder_crossedSell, parseOrder_crossedBuy, hsell, hbuy, List.append_nil, List.singleton_append]
    decide
  · simp only [addOrders, crossedPair, List.map_cons, List.map_nil, run, Call.perform, addOrder,
      parseOrder_crossedSell, parseOrder_crossedBuy, hsell, hbuy]

end MatchingEngine

theorem ReferenceEngine.run_crossedPairs (n : Nat) (trades : List TradeDict) (orderCount : Nat) :
    ∃ trades', run ((List.replicate n crossedPair).flatten.map Prod.snd)
        { buyOrders := [], sellOrders := [], trades, orderCount } =
      { buyOrders := [], sellOrders := [], trades := trades', orderCount := orderCount + 2 * n } ∧
        trades'.length = trades.length + n := by
  induction n generalizing trades orderCount with
  | zero => exact ⟨trades, rfl, rfl⟩
  | succ n ih =>
      obtain ⟨trades', hrun, hlength⟩ := ih (trades ++ [⟨2, 1, Binary64.ofInt 100, 1⟩]) (orderCount + 2)
      refine ⟨trades', ?_, ?_⟩
      · rw [List.replicate_succ, List.flatten_cons, List.map_append, ReferenceEngine.run_append]
        have hpair : run (crossedPair.map Prod.snd) { buyOrders := [], sellOrders := [], trades, orderCount } =
          { buyOrders := [], sellOrders := [], trades := trades ++ [⟨2, 1, Binary64.ofInt 100, 1⟩],
            orderCount := orderCount + 2 } := by
          rfl
        rw [hpair, hrun]
        congr 1
        omega
      · rw [hlength, List.length_append, List.length_singleton]
        omega

/-- An order for which `realloc` fails. -/
def noMemory : List (Growth × OrderArgs) := [(fun _ _ => false, ⟨1, 0, Binary64.ofInt 100, 1, 1⟩)]

/-- One order more than the compiled engine counts. -/
def tooManyOrders : List (Growth × OrderArgs) := (List.replicate (2 ^ 63) crossedPair).flatten

theorem states_tooManyOrders {n : Nat} (hlast : n + 1 = 2 ^ 63) :
    let feed := (List.replicate (n + 1) crossedPair).flatten
    MatchingEngine.Undisturbed (MatchingEngine.submissions (MatchingEngine.addOrders feed) .empty) ∧
      (∃ orderCount trades sellCapacity tradeCapacity, MatchingEngine.run (MatchingEngine.addOrders feed) .empty =
        MatchingEngine.sellSided orderCount [crossedSell] trades sellCapacity tradeCapacity ∧ trades.length = n) ∧
      ∃ trades orderCount, ReferenceEngine.run (feed.map Prod.snd) .empty =
        { buyOrders := [], sellOrders := [], trades, orderCount } ∧ trades.length = n + 1 := by
  obtain ⟨hundisturbed, trades, sellCapacity, tradeCapacity, hrun, hlength⟩ :=
    MatchingEngine.run_crossedPairs n (show 0 + 2 * n < 2 ^ 64 by omega)
      (show ([] : List CTrade).length + n ≤ 2 ^ 63 by rw [List.length_nil]; omega) 0 0
  obtain ⟨hdisturbed, sellCapacity', hrun'⟩ :=
    MatchingEngine.run_lastPair (show 0 + 2 * n + 2 = 2 ^ 64 by omega) trades sellCapacity tradeCapacity
  obtain ⟨trades', hreference, hlength'⟩ := ReferenceEngine.run_crossedPairs (n + 1) [] 0
  have hsplit : MatchingEngine.addOrders (List.replicate (n + 1) crossedPair).flatten =
      MatchingEngine.addOrders (List.replicate n crossedPair).flatten ++ MatchingEngine.addOrders crossedPair := by
    rw [List.replicate_succ', List.flatten_append, MatchingEngine.addOrders, List.map_append]
    simp [MatchingEngine.addOrders]
  have hempty : MatchingEngine.empty = MatchingEngine.sellSided 0 [] [] 0 0 := rfl
  refine ⟨?_, ⟨0 + 2 * n + 1, trades, sellCapacity', tradeCapacity, ?_, ?_⟩, trades', 0 + 2 * (n + 1), hreference, ?_⟩
  · rw [hsplit, MatchingEngine.submissions_append, hempty, hrun]
    exact MatchingEngine.undisturbed_append hundisturbed hdisturbed
  · rw [hsplit, MatchingEngine.run_append, hempty, hrun, hrun']
  · rw [hlength, List.length_nil, Nat.zero_add]
  · rw [hlength', List.length_nil, Nat.zero_add]

theorem run_tooManyOrders {n : Nat} (hlast : n + 1 = 2 ^ 63) :
    let feed := (List.replicate (n + 1) crossedPair).flatten
    MatchingEngine.Undisturbed (MatchingEngine.submissions (MatchingEngine.addOrders feed) .empty) ∧
      ¬ Agrees COrderObj.fields COrder.toObj (MatchingEngine.run (MatchingEngine.addOrders feed) .empty)
        (ReferenceEngine.run (feed.map Prod.snd) .empty).toPyBook := by
  obtain ⟨hundisturbed, ⟨orderCount, trades, sellCapacity, tradeCapacity, hrun, hlength⟩, trades', orderCount',
    hreference, hlength'⟩ := states_tooManyOrders hlast
  refine ⟨hundisturbed, fun hagrees => ?_⟩
  have hcounts := congrArg List.length hagrees.trades
  rw [hrun, hreference, MatchingEngine.getTrades, List.length_map] at hcounts
  have hdiffer : trades'.length = trades.length := hcounts
  omega

theorem valid_crossedPairs (n : Nat) : ∀ p ∈ (List.replicate n crossedPair).flatten, p.2.Valid := by
  intro p hp
  obtain ⟨pair, hpair, hp⟩ := List.mem_flatten.mp hp
  rw [List.eq_of_mem_replicate hpair] at hp
  simp only [crossedPair, List.mem_cons, List.not_mem_nil, or_false] at hp
  rcases hp with rfl | rfl <;> exact ⟨by decide, by decide, by decide, by decide, by decide⟩

theorem valid_noMemory : ∀ p ∈ noMemory, p.2.Valid := by
  intro p hp
  rw [List.mem_singleton.mp hp]
  exact ⟨by decide, by decide, by decide, by decide, by decide⟩

/-- What the compiled engine refuses the reference engine takes: an order that it has no count for, and one that
it has no memory for. -/
theorem not_agrees_tooManyOrders :
    ((∀ p ∈ tooManyOrders, p.2.Valid) ∧
      MatchingEngine.Undisturbed (MatchingEngine.submissions (MatchingEngine.addOrders tooManyOrders) .empty) ∧
      ¬ Agrees COrderObj.fields COrder.toObj
        (MatchingEngine.run (MatchingEngine.addOrders tooManyOrders) .empty)
        (ReferenceEngine.run (tooManyOrders.map Prod.snd) .empty).toPyBook) ∧
    ((∀ p ∈ noMemory, p.2.Valid) ∧
      ¬ Agrees COrderObj.fields COrder.toObj (MatchingEngine.run (MatchingEngine.addOrders noMemory) .empty)
        (ReferenceEngine.run (noMemory.map Prod.snd) .empty).toPyBook) := by
  have hlast : 2 ^ 63 - 1 + 1 = 2 ^ 63 := Nat.sub_add_cancel (Nat.two_pow_pos 63)
  have hrun := run_tooManyOrders hlast
  rw [hlast] at hrun
  exact ⟨⟨valid_crossedPairs _, hrun⟩, valid_noMemory, fun hagrees => absurd hagrees.buyOrders (by decide)⟩

end ChronosMatch
