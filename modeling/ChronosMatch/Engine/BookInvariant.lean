import ChronosMatch.Engine.Runs

/-!
# The book invariant

In every reachable state both sides of the book are in price-time-arrival order, hold only what is left
of accepted orders, and do not cross. Arrival numbers are not part of the engine; the invariant says that
the resting orders can be numbered by the accepted orders they come from.
-/

namespace ChronosMatch

/-- The order is what is left of the accepted order with this arrival number. -/
def RestsAs (history : List COrder) (side : Side) (arrival : Nat) (order : COrder) : Prop :=
  ∃ submitted, history[arrival]? = some submitted ∧ submitted.side = side ∧
    order = { submitted with quantity := order.quantity } ∧
    0 < order.quantity ∧ order.quantity ≤ submitted.quantity

/-- Best price first, then earliest timestamp, then first arrival. -/
def Precedes (side : Side) (a b : Nat × COrder) : Prop :=
  side.Better a.2.price b.2.price ∨
  (a.2.price = b.2.price ∧
    (a.2.timestamp < b.2.timestamp ∨ (a.2.timestamp = b.2.timestamp ∧ a.1 < b.1)))

/-- A numbering of the resting orders of a side by the accepted orders they come from, in order. -/
structure Numbering (history : List COrder) (side : Side) (orders : List COrder)
    (numbered : List (Nat × COrder)) : Prop where
  orders_eq : numbered.map Prod.snd = orders
  rests : ∀ p ∈ numbered, RestsAs history side p.1 p.2
  ordered : numbered.Pairwise (Precedes side)

/-! ### Numberings -/

theorem precedes_iff {side : Side} {a b : Nat × COrder} : Precedes side a b ↔
    a.2.rank side < b.2.rank side ∨ (a.2.rank side = b.2.rank side ∧ a.1 < b.1) := by
  rw [COrder.rank_lt_iff, COrder.rank_eq_iff, Precedes]
  tauto

theorem pairwise_precedes (side : Side) (numbered : List (Nat × COrder)) :
    numbered.Pairwise (Precedes side) ↔ Ranked.TieSorted (fun p => p.2.rank side) Prod.fst numbered := by
  rw [Ranked.TieSorted]
  exact List.Pairwise.iff fun {a b} => precedes_iff

theorem RestsAs.append {history : List COrder} {side : Side} {arrival : Nat} {order : COrder}
    (h : RestsAs history side arrival order) (later : List COrder) :
    RestsAs (history ++ later) side arrival order := by
  obtain ⟨submitted, hget, hrest⟩ := h
  obtain ⟨hlt, -⟩ := List.getElem?_eq_some_iff.mp hget
  exact ⟨submitted, by rw [List.getElem?_append_left hlt, hget], hrest⟩

theorem RestsAs.arrival_lt {history : List COrder} {side : Side} {arrival : Nat} {order : COrder}
    (h : RestsAs history side arrival order) : arrival < history.length := by
  obtain ⟨_, hget, _⟩ := h
  exact (List.getElem?_eq_some_iff.mp hget).1

theorem Numbering.append {history : List COrder} {side : Side} {orders : List COrder}
    {numbered : List (Nat × COrder)} (h : Numbering history side orders numbered) (later : List COrder) :
    Numbering (history ++ later) side orders numbered :=
  ⟨h.orders_eq, fun p hp => (h.rests p hp).append later, h.ordered⟩

theorem Numbering.sorted {history : List COrder} {side : Side} {orders : List COrder}
    {numbered : List (Nat × COrder)} (h : Numbering history side orders numbered) :
    Ranked.Sorted (COrder.rank side) orders := by
  rw [← h.orders_eq]
  exact List.pairwise_map.mpr ((pairwise_precedes side numbered).mp h.ordered).sorted

/-- Fills of numbered orders: some from the front, each in whole, and perhaps a part of the next one. -/
inductive NumberedFills (side : Side) (order : COrder) :
    List (Nat × COrder) → List ((Nat × COrder) × Nat) → List (Nat × COrder) → Prop
  | whole (filled rest : List (Nat × COrder)) (hcross : ∀ p ∈ filled, crosses side p.2 order = true) :
      NumberedFills side order (filled ++ rest) (filled.map fun p => (p, p.2.quantity)) rest
  | part (filled rest : List (Nat × COrder)) (best : Nat × COrder) (taken : Nat)
      (hcross : ∀ p ∈ filled ++ [best], crosses side p.2 order = true) (hpos : 0 < taken)
      (hlt : taken < best.2.quantity) :
      NumberedFills side order (filled ++ best :: rest) ((filled.map fun p => (p, p.2.quantity)) ++ [(best, taken)])
        ((best.1, { best.2 with quantity := best.2.quantity - taken }) :: rest)

theorem NumberedFills.cons {side : Side} {order : COrder} {resting left : List (Nat × COrder)}
    {fills : List ((Nat × COrder) × Nat)} (h : NumberedFills side order resting fills left) {best : Nat × COrder}
    (hcross : crosses side best.2 order = true) :
    NumberedFills side order (best :: resting) ((best, best.2.quantity) :: fills) left := by
  cases h with
  | whole filled rest hfilled => exact .whole (best :: filled) _ (List.forall_mem_cons.mpr ⟨hcross, hfilled⟩)
  | part filled rest next taken hfilled hpos hlt =>
      exact .part (best :: filled) rest next taken (List.forall_mem_cons.mpr ⟨hcross, hfilled⟩) hpos hlt

theorem NumberedFills.of_withQuantity {side : Side} {order : COrder} {quantity : Nat}
    {resting left : List (Nat × COrder)} {fills : List ((Nat × COrder) × Nat)}
    (h : NumberedFills side { order with quantity } resting fills left) :
    NumberedFills side order resting fills left := by
  cases h with
  | whole filled rest hfilled => exact .whole filled _ hfilled
  | part filled rest next taken hfilled hpos hlt => exact .part filled rest next taken hfilled hpos hlt

theorem Fills.numbered {side : Side} {order remainder : COrder} {resting left : List COrder}
    {fills : List (COrder × Nat)} (h : Fills side order resting fills remainder left)
    {numbered : List (Nat × COrder)} (hnumbered : numbered.map Prod.snd = resting) :
    ∃ numberedFills numberedLeft, NumberedFills side order numbered numberedFills numberedLeft ∧
      numberedFills.map (fun fill => (fill.1.2, fill.2)) = fills ∧ numberedLeft.map Prod.snd = left := by
  induction h generalizing numbered with
  | none => exact ⟨[], numbered, .whole [] numbered (fun p hp => by cases hp), rfl, hnumbered⟩
  | whole hcross hpos hle next ih =>
      obtain ⟨best, tail, rfl, rfl, htail⟩ := List.map_eq_cons_iff.mp hnumbered
      obtain ⟨numberedFills, numberedLeft, hfills, rfl, rfl⟩ := ih htail
      exact ⟨(best, best.2.quantity) :: numberedFills, numberedLeft, hfills.of_withQuantity.cons hcross, rfl, rfl⟩
  | @part order _ rest hcross hpos hlt =>
      obtain ⟨best, tail, rfl, rfl, rfl⟩ := List.map_eq_cons_iff.mp hnumbered
      exact ⟨[(best, order.quantity)], _, .part [] tail best order.quantity
        (fun p hp => by rwa [List.mem_singleton.mp hp]) hpos hlt, rfl, rfl⟩

/-- Fills take numbered orders from the front and lower the quantity of at most one more. -/
theorem NumberedFills.numbering {side : Side} {order : COrder} {numbered left : List (Nat × COrder)}
    {fills : List ((Nat × COrder) × Nat)} (h : NumberedFills side order numbered fills left)
    {history : List COrder} {resting : List COrder} (hnum : Numbering history side.opposite resting numbered) :
    Numbering history side.opposite (left.map Prod.snd) left := by
  obtain ⟨-, hrests, hordered⟩ := hnum
  cases h with
  | whole filled rest hcross =>
      exact ⟨rfl, fun p hp => hrests p (List.mem_append_right _ hp), (List.pairwise_append.mp hordered).2.1⟩
  | part filled rest best taken hcross hpos hlt =>
      have hordered' := (List.pairwise_append.mp hordered).2.1
      refine ⟨rfl, ?_, ?_⟩
      · intro p hp
        rcases List.mem_cons.mp hp with rfl | hp
        · obtain ⟨submitted, hget, hside, hsame, -, hle⟩ := hrests best (List.mem_append_right _ List.mem_cons_self)
          refine ⟨submitted, hget, hside, ?_, Nat.sub_pos_of_lt hlt, (Nat.sub_le _ _).trans hle⟩
          rw [hsame]
        · exact hrests p (List.mem_append_right _ (List.mem_cons_of_mem _ hp))
      · obtain ⟨hhead, htail⟩ := List.pairwise_cons.mp hordered'
        exact List.pairwise_cons.mpr ⟨fun p hp => hhead p hp, htail⟩

theorem Fills.numbering {side : Side} {order remainder : COrder} {resting left : List COrder}
    {fills : List (COrder × Nat)} (h : Fills side order resting fills remainder left)
    {history : List COrder} {numbered : List (Nat × COrder)}
    (hnum : Numbering history side.opposite resting numbered) :
    ∃ numbered', Numbering history side.opposite left numbered' := by
  obtain ⟨numberedFills, numberedLeft, hfills, -, rfl⟩ := h.numbered hnum.orders_eq
  exact ⟨numberedLeft, hfills.numbering hnum⟩

theorem Numbering.insertAfter {history : List COrder} {side : Side} {orders : List COrder}
    {numbered : List (Nat × COrder)} (h : Numbering history side orders numbered) {order remainder : COrder}
    (hrests : RestsAs (history ++ [order]) side history.length remainder) :
    Numbering (history ++ [order]) side (Ranked.insertAfter (COrder.rank side) remainder orders)
      (Ranked.insertAfter (fun p => p.2.rank side) (history.length, remainder) numbered) := by
  refine ⟨?_, ?_, ?_⟩
  · rw [Ranked.map_insertAfter (fun p => p.2.rank side) (COrder.rank side) Prod.snd _ _ (fun _ => rfl),
      h.orders_eq]
  · intro p hp
    rcases (Ranked.mem_insertAfter _).mp hp with rfl | hp
    · exact hrests
    · exact (h.rests p hp).append _
  · rw [pairwise_precedes]
    exact ((pairwise_precedes side numbered).mp h.ordered).insertAfter fun p hp => (h.rests p hp).arrival_lt

/-! ### The invariant -/

namespace MatchingEngine

structure BookInvariant (history : List COrder) (e : MatchingEngine) : Prop where
  ordered : ∀ side, ∃ numbered, Numbering history side (e.resting side) numbered
  positive : ∀ side, ∀ order ∈ e.resting side, 0 < order.quantity ∧ order.side = side
  uncrossed : ∀ bid ∈ e.buyOrders, ∀ ask ∈ e.sellOrders, bid.price < ask.price

theorem uncrossed_iff (side : Side) (e : MatchingEngine) :
    (∀ bid ∈ e.buyOrders, ∀ ask ∈ e.sellOrders, bid.price < ask.price) ↔
      ∀ own ∈ e.resting side, ∀ other ∈ e.resting side.opposite, crosses side other own = false := by
  cases side with
  | buy => simp only [resting, Side.opposite, crosses, decide_eq_false_iff_not, not_le]
  | sell =>
      simp only [resting, Side.opposite, crosses, ge_iff_le, decide_eq_false_iff_not, not_le]
      exact ⟨fun h own hown other hother => h other hother own hown,
        fun h bid hbid ask hask => h ask hask bid hbid⟩

/-! ### Preservation -/

theorem BookInvariant.ofNumbering {history : List COrder} {e : MatchingEngine}
    (hordered : ∀ side, ∃ numbered, Numbering history side (e.resting side) numbered)
    (huncrossed : ∀ bid ∈ e.buyOrders, ∀ ask ∈ e.sellOrders, bid.price < ask.price) :
    BookInvariant history e := by
  refine ⟨hordered, fun side order horder => ?_, huncrossed⟩
  obtain ⟨numbered, hnum⟩ := hordered side
  rw [← hnum.orders_eq] at horder
  obtain ⟨p, hp, rfl⟩ := List.mem_map.mp horder
  obtain ⟨submitted, -, hside, hsame, hpos, -⟩ := hnum.rests p hp
  exact ⟨hpos, by rw [hsame]; exact hside⟩

theorem BookInvariant.interrupted {history : List COrder} {e e' : MatchingEngine} {order remainder : COrder}
    {fills : List (COrder × Nat)} {left : List COrder} (h : BookInvariant history e)
    (hmatched : Matched order.side order remainder fills left e e')
    (hown : e'.resting order.side = e.resting order.side) : BookInvariant history e' := by
  obtain ⟨numbered, hnum⟩ := h.ordered order.side.opposite
  obtain ⟨numbered', hnum'⟩ := hmatched.filled.numbering hnum
  refine .ofNumbering (Side.forall order.side ?_ ⟨numbered', ?_⟩) ((uncrossed_iff order.side e').mpr ?_)
  · rw [hown]
    exact h.ordered order.side
  · rw [hmatched.opposite]
    exact hnum'
  · rw [hown, hmatched.opposite]
    intro own hmem other hother
    obtain ⟨before, hbefore, hprice⟩ := hmatched.filled.exists_price hother
    rw [crosses_congr hprice.symm rfl]
    exact (uncrossed_iff order.side e).mp h.uncrossed own hmem before hbefore

theorem BookInvariant.accepted {history : List COrder} {e e' : MatchingEngine} {order remainder : COrder}
    {fills : List (COrder × Nat)} {left : List COrder} (h : BookInvariant history e)
    (hmatched : Matched order.side order remainder fills left e e')
    (hstop : Exhausted order.side remainder left)
    (hown : e'.resting order.side = if 0 < remainder.quantity
      then Ranked.insertAfter (COrder.rank order.side) remainder (e.resting order.side)
      else e.resting order.side) : BookInvariant (history ++ [order]) e' := by
  obtain ⟨ownNumbered, hownNum⟩ := h.ordered order.side
  obtain ⟨numbered, hnum⟩ := h.ordered order.side.opposite
  obtain ⟨numbered', hnum'⟩ := hmatched.filled.numbering hnum
  obtain ⟨hremainder, hle⟩ := hmatched.filled.remainder_eq
  have hbefore : ∀ own ∈ e.resting order.side, ∀ other ∈ left, crosses order.side other own = false := by
    intro own hmem other hother
    obtain ⟨before, hmemBefore, hprice⟩ := hmatched.filled.exists_price hother
    rw [crosses_congr hprice.symm rfl]
    exact (uncrossed_iff order.side e).mp h.uncrossed own hmem before hmemBefore
  refine .ofNumbering (Side.forall order.side ?_ ⟨numbered', ?_⟩) ((uncrossed_iff order.side e').mpr ?_)
  · rw [hown]
    split
    · next hpos =>
        refine ⟨_, hownNum.insertAfter ⟨order, by simp, rfl, hremainder, hpos, hle⟩⟩
    · exact ⟨ownNumbered, hownNum.append _⟩
  · rw [hmatched.opposite]
    exact hnum'.append _
  · rw [hown, hmatched.opposite]
    split
    · next hpos =>
        intro own hmem other hother
        rcases (Ranked.mem_insertAfter _).mp hmem with rfl | hmem
        · have hhead := hstop.resolve_left (Nat.ne_of_gt hpos)
          exact crosses_eq_false_of_head hnum'.sorted hhead hother
        · exact hbefore own hmem other hother
    · exact hbefore

theorem BookInvariant.empty : BookInvariant [] empty := by
  refine .ofNumbering (fun side => ⟨[], ?_, by simp, List.Pairwise.nil⟩) (by simp [MatchingEngine.empty])
  cases side <;> rfl

theorem BookInvariant.submit {history : List COrder} {e e' : MatchingEngine} {order : COrder}
    {result : Except PyError Unit} (heffect : SubmitEffect order e result e') (h : BookInvariant history e) :
    BookInvariant (history ++ MatchingEngine.accepted [(order, result)]) e' := by
  cases heffect with
  | refused => simpa using h
  | interrupted herr hmatched hown hcount => simpa using h.interrupted hmatched hown
  | accepted hroom hmatched hstop hown hcount => simpa using h.accepted hmatched hstop hown

theorem Trace.bookInvariant {e : MatchingEngine} {log : List Submission} (h : Trace empty log e) :
    BookInvariant (MatchingEngine.accepted log) e := by
  have hinv := h.invariant BookInvariant (fun _ => BookInvariant.submit) [] BookInvariant.empty
  rwa [List.nil_append] at hinv

/-- The book invariant holds after every list of calls, whatever they return and whatever growths fail. -/
theorem bookInvariant_run (calls : List Call) :
    BookInvariant (accepted (submissions calls empty)) (run calls empty) :=
  (run_trace calls empty).bookInvariant

/-! ### The order count -/

/-- The count bounds each side of the book and stays a 64-bit number. -/
structure Counted (e : MatchingEngine) : Prop where
  resting : ∀ side, (e.resting side).length ≤ e.orderCount
  bounded : e.orderCount < 2 ^ 64

theorem Counted.empty : Counted empty :=
  ⟨fun side => by cases side <;> exact le_rfl, by decide⟩

theorem Counted.submit {e e' : MatchingEngine} {order : COrder} {result : Except PyError Unit}
    (heffect : SubmitEffect order e result e') (h : Counted e) : Counted e' := by
  cases heffect with
  | refused => exact h
  | interrupted herr hmatched hown hcount =>
      refine ⟨Side.forall order.side ?_ ?_, by rw [hcount]; exact h.bounded⟩
      · rw [hown, hcount]
        exact h.resting order.side
      · rw [hmatched.opposite, hcount]
        exact hmatched.filled.length_le.trans (h.resting _)
  | accepted hroom hmatched hstop hown hcount =>
      have hbounded := h.bounded
      have hownLength := h.resting order.side
      refine ⟨Side.forall order.side ?_ ?_, by omega⟩
      · rw [hown, hcount]
        split
        · rw [(Ranked.perm_insertAfter _ _ _).length_eq, List.length_cons]
          omega
        · omega
      · rw [hmatched.opposite, hcount]
        exact hmatched.filled.length_le.trans ((h.resting _).trans (Nat.le_succ _))

/-- In no run does a count of orders wrap, so the lengths of the lists stand for them. -/
theorem counted_run (calls : List Call) : Counted (run calls empty) :=
  (run_trace calls empty).invariant (fun _ => Counted) (fun _ => Counted.submit) [] Counted.empty

end MatchingEngine

end ChronosMatch
