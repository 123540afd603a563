import ChronosMatch.Engine.BookInvariant

/-!
# Conservation of quantity

As long as memory lasts and ids are distinct, what was submitted under an id is what was traded under it
plus what still rests. One match moves quantity between the two sides fill by fill, so everything follows
from sums over its fills.
-/

namespace ChronosMatch

/-- The id of the order that a trade fills on a side. -/
def CTrade.idOn (trade : CTrade) : Side → Nat
  | .buy => trade.buyId
  | .sell => trade.sellId

/-- The quantity traded under an id on a side. -/
def tradedQuantity (side : Side) (orderId : Nat) (trades : List CTrade) : Nat :=
  ((trades.filter fun trade => trade.idOn side = orderId).map CTrade.quantity).sum

/-- The quantity resting under an id. -/
def restingQuantity (orderId : Nat) (orders : List COrder) : Nat :=
  ((orders.filter fun order => order.orderId = orderId).map COrder.quantity).sum

/-! ### Sums over the fills of a match -/

/-- The quantity that fills take from orders of an id. -/
def takenQuantity (orderId : Nat) (fills : List (COrder × Nat)) : Nat :=
  ((fills.filter fun fill => fill.1.orderId = orderId).map Prod.snd).sum

@[simp] theorem idOn_tradeBetween_same (side : Side) (order best : COrder) (quantity : Nat) :
    (tradeBetween side order best quantity).idOn side = order.orderId := by
  cases side <;> rfl

@[simp] theorem idOn_tradeBetween_opposite (side : Side) (order best : COrder) (quantity : Nat) :
    (tradeBetween side order best quantity).idOn side.opposite = best.orderId := by
  cases side <;> rfl

@[simp] theorem quantity_tradeBetween (side : Side) (order best : COrder) (quantity : Nat) :
    (tradeBetween side order best quantity).quantity = quantity := by
  cases side <;> rfl

theorem restingQuantity_cons (orderId : Nat) (order : COrder) (orders : List COrder) :
    restingQuantity orderId (order :: orders) =
      (if order.orderId = orderId then order.quantity else 0) + restingQuantity orderId orders := by
  rw [restingQuantity, List.filter_cons]
  split <;> simp_all [restingQuantity]

theorem takenQuantity_cons (orderId : Nat) (fill : COrder × Nat) (fills : List (COrder × Nat)) :
    takenQuantity orderId (fill :: fills) =
      (if fill.1.orderId = orderId then fill.2 else 0) + takenQuantity orderId fills := by
  rw [takenQuantity, List.filter_cons]
  split <;> simp_all [takenQuantity]

theorem tradedQuantity_append (side : Side) (orderId : Nat) (trades trades' : List CTrade) :
    tradedQuantity side orderId (trades ++ trades') =
      tradedQuantity side orderId trades + tradedQuantity side orderId trades' := by
  simp only [tradedQuantity, List.filter_append, List.map_append, List.sum_append]

theorem tradedQuantity_same (side : Side) (order : COrder) (orderId : Nat) (fills : List (COrder × Nat)) :
    tradedQuantity side orderId (fills.map fun fill => tradeBetween side order fill.1 fill.2) =
      if order.orderId = orderId then (fills.map Prod.snd).sum else 0 := by
  simp only [tradedQuantity, List.filter_map, List.map_map, Function.comp_def, idOn_tradeBetween_same,
    quantity_tradeBetween]
  split <;> simp_all

theorem tradedQuantity_opposite (side : Side) (order : COrder) (orderId : Nat) (fills : List (COrder × Nat)) :
    tradedQuantity side.opposite orderId (fills.map fun fill => tradeBetween side order fill.1 fill.2) =
      takenQuantity orderId fills := by
  simp only [tradedQuantity, takenQuantity, List.filter_map, List.map_map, Function.comp_def,
    idOn_tradeBetween_opposite, quantity_tradeBetween]

theorem Fills.sum_eq {side : Side} {order remainder : COrder} {resting left : List COrder}
    {fills : List (COrder × Nat)} (h : Fills side order resting fills remainder left) :
    order.quantity = (fills.map Prod.snd).sum + remainder.quantity := by
  induction h with
  | none => simp
  | whole hcross hpos hle next ih =>
      rw [List.map_cons, List.sum_cons]
      dsimp only at ih
      omega
  | part => simp

theorem Fills.restingQuantity_eq {side : Side} {order remainder : COrder} {resting left : List COrder}
    {fills : List (COrder × Nat)} (h : Fills side order resting fills remainder left) (orderId : Nat) :
    restingQuantity orderId resting = takenQuantity orderId fills + restingQuantity orderId left := by
  induction h with
  | none => simp [takenQuantity]
  | whole hcross hpos hle next ih =>
      rw [restingQuantity_cons, takenQuantity_cons, ih]
      split <;> omega
  | part hcross hpos hlt =>
      rw [restingQuantity_cons, takenQuantity_cons, restingQuantity_cons, takenQuantity]
      dsimp only
      split
      · simp
        omega
      · simp

theorem Fills.mem_resting {side : Side} {order remainder : COrder} {resting left : List COrder}
    {fills : List (COrder × Nat)} (h : Fills side order resting fills remainder left)
    (hpositive : ∀ best ∈ resting, 0 < best.quantity) {fill : COrder × Nat} (hfill : fill ∈ fills) :
    fill.1 ∈ resting ∧ 0 < fill.2 := by
  induction h with
  | none => cases hfill
  | whole hcross hpos hle next ih =>
      rcases List.mem_cons.mp hfill with rfl | hfill
      · exact ⟨List.mem_cons_self, hpositive _ List.mem_cons_self⟩
      · obtain ⟨hmem, hpos⟩ := ih (fun best hbest => hpositive best (List.mem_cons_of_mem _ hbest)) hfill
        exact ⟨List.mem_cons_of_mem _ hmem, hpos⟩
  | part hcross hpos hlt =>
      rw [List.mem_singleton] at hfill
      subst hfill
      exact ⟨List.mem_cons_self, hpos⟩

theorem Fills.ids_sublist {side : Side} {order remainder : COrder} {resting left : List COrder}
    {fills : List (COrder × Nat)} (h : Fills side order resting fills remainder left) :
    (left.map COrder.orderId).Sublist (resting.map COrder.orderId) := by
  induction h with
  | none => exact List.Sublist.refl _
  | whole hcross hpos hle next ih => exact ih.cons _
  | part => exact List.Sublist.refl _

theorem restingQuantity_eq_zero {orderId : Nat} {orders : List COrder}
    (h : ∀ order ∈ orders, order.orderId ≠ orderId) : restingQuantity orderId orders = 0 := by
  rw [restingQuantity, List.filter_eq_nil_iff.mpr]
  · rfl
  · simpa using h

theorem tradedQuantity_eq_zero {side : Side} {orderId : Nat} {trades : List CTrade}
    (h : ∀ trade ∈ trades, trade.idOn side ≠ orderId) : tradedQuantity side orderId trades = 0 := by
  rw [tradedQuantity, List.filter_eq_nil_iff.mpr]
  · rfl
  · simpa using h

theorem restingQuantity_insertAfter (orderId : Nat) (side : Side) (order : COrder) (orders : List COrder) :
    restingQuantity orderId (Ranked.insertAfter (COrder.rank side) order orders) =
      (if order.orderId = orderId then order.quantity else 0) + restingQuantity orderId orders := by
  rw [← restingQuantity_cons, restingQuantity, restingQuantity]
  exact (((Ranked.perm_insertAfter _ order orders).filter _).map _).sum_eq

/-! ### Preservation -/

namespace MatchingEngine

/-- The trades and the book account for the accepted orders. -/
structure Conserved (history : List COrder) (e : MatchingEngine) : Prop where
  balanced : ∀ order ∈ history, order.quantity =
    tradedQuantity order.side order.orderId e.trades + restingQuantity order.orderId (e.resting order.side)
  restsOnce : ∀ order ∈ history, ∀ side,
    (e.resting side).countP (fun resting => resting.orderId = order.orderId) ≤ if side = order.side then 1 else 0
  named : ∀ trade ∈ e.trades, ∀ side, ∃ order ∈ history, order.side = side ∧ order.orderId = trade.idOn side
  positive : ∀ trade ∈ e.trades, 0 < trade.quantity

/-- `Conserved` in the form that a submission preserves. -/
structure Accounts (history : List COrder) (e : MatchingEngine) : Prop where
  book : BookInvariant history e
  balanced : ∀ order ∈ history, order.quantity =
    tradedQuantity order.side order.orderId e.trades + restingQuantity order.orderId (e.resting order.side)
  distinct : ∀ side, ((e.resting side).map COrder.orderId).Nodup
  named : ∀ trade ∈ e.trades, ∀ side, ∃ order ∈ history, order.side = side ∧ order.orderId = trade.idOn side
  positive : ∀ trade ∈ e.trades, 0 < trade.quantity

theorem BookInvariant.exists_submitted {history : List COrder} {e : MatchingEngine} (h : BookInvariant history e)
    {side : Side} {order : COrder} (horder : order ∈ e.resting side) :
    ∃ submitted ∈ history, submitted.side = side ∧ submitted.orderId = order.orderId := by
  obtain ⟨numbered, hnum⟩ := h.ordered side
  rw [← hnum.orders_eq] at horder
  obtain ⟨p, hp, rfl⟩ := List.mem_map.mp horder
  obtain ⟨submitted, hget, hside, hsame, -⟩ := hnum.rests p hp
  exact ⟨submitted, List.mem_of_getElem? hget, hside, by rw [hsame]⟩

section Accepted

variable {history : List COrder} {e e' : MatchingEngine} {order remainder : COrder} {fills : List (COrder × Nat)}
  {left : List COrder}

theorem Accounts.fresh_resting (h : Accounts history e)
    (hfresh : ∀ submitted ∈ history, submitted.orderId ≠ order.orderId) (side : Side) :
    ∀ resting ∈ e.resting side, resting.orderId ≠ order.orderId := by
  intro resting hresting
  obtain ⟨submitted, hmem, -, hid⟩ := h.book.exists_submitted hresting
  exact hid ▸ hfresh submitted hmem

theorem restingQuantity_own (hremainder : remainder.orderId = order.orderId)
    (hown : e'.resting order.side = if 0 < remainder.quantity
      then Ranked.insertAfter (COrder.rank order.side) remainder (e.resting order.side)
      else e.resting order.side) (orderId : Nat) :
    restingQuantity orderId (e'.resting order.side) =
      (if order.orderId = orderId then remainder.quantity else 0) +
        restingQuantity orderId (e.resting order.side) := by
  rw [hown]
  split
  · rw [restingQuantity_insertAfter, hremainder]
  · next hzero =>
      have : remainder.quantity = 0 := by omega
      rw [this, ite_self, Nat.zero_add]

theorem Accounts.trade (h : Accounts history e) (hmatched : Matched order.side order remainder fills left e e')
    {trade : CTrade} (htrade : trade ∈ e'.trades) : 0 < trade.quantity ∧
      ∀ side, ∃ submitted ∈ history ++ [order], submitted.side = side ∧ submitted.orderId = trade.idOn side := by
  obtain ⟨hfilled, -, htrades⟩ := hmatched
  rw [htrades] at htrade
  rcases List.mem_append.mp htrade with htrade | htrade
  · refine ⟨h.positive trade htrade, fun side => ?_⟩
    obtain ⟨submitted, hmem, hnamed⟩ := h.named trade htrade side
    exact ⟨submitted, List.mem_append_left _ hmem, hnamed⟩
  · obtain ⟨fill, hfill, rfl⟩ := List.mem_map.mp htrade
    obtain ⟨hresting, hpos⟩ := hfilled.mem_resting (fun best hbest => (h.book.positive _ best hbest).1) hfill
    refine ⟨by rwa [quantity_tradeBetween], Side.forall order.side ?_ ?_⟩
    · exact ⟨order, by simp, rfl, by rw [idOn_tradeBetween_same]⟩
    · obtain ⟨submitted, hmem, hside, hid⟩ := h.book.exists_submitted hresting
      exact ⟨submitted, List.mem_append_left _ hmem, hside, by rw [idOn_tradeBetween_opposite, hid]⟩

theorem Accounts.accepted (h : Accounts history e)
    (hfresh : ∀ submitted ∈ history, submitted.orderId ≠ order.orderId)
    (hmatched : Matched order.side order remainder fills left e e')
    (hstop : Exhausted order.side remainder left)
    (hown : e'.resting order.side = if 0 < remainder.quantity
      then Ranked.insertAfter (COrder.rank order.side) remainder (e.resting order.side)
      else e.resting order.side) : Accounts (history ++ [order]) e' := by
  obtain ⟨hfilled, hopposite, htrades⟩ := hmatched
  have hremainder : remainder.orderId = order.orderId := by rw [hfilled.remainder_eq.1]
  have hfreshTrades : ∀ trade ∈ e.trades, trade.idOn order.side ≠ order.orderId := by
    intro trade htrade
    obtain ⟨submitted, hmem, -, hid⟩ := h.named trade htrade order.side
    exact hid ▸ hfresh submitted hmem
  have hownQuantity := restingQuantity_own hremainder hown
  refine ⟨h.book.accepted ⟨hfilled, hopposite, htrades⟩ hstop hown, ?_, ?_,
    fun trade htrade => (h.trade ⟨hfilled, hopposite, htrades⟩ htrade).2,
    fun trade htrade => (h.trade ⟨hfilled, hopposite, htrades⟩ htrade).1⟩
  · intro submitted hmem
    rw [htrades, tradedQuantity_append]
    rcases List.mem_append.mp hmem with hmem | hmem
    · have hbalance := h.balanced submitted hmem
      rcases Side.eq_or_eq_opposite order.side submitted.side with hside | hside
      · rw [hside] at hbalance ⊢
        have hid := (hfresh submitted hmem).symm
        rw [tradedQuantity_same, hownQuantity, if_neg hid, if_neg hid]
        omega
      · rw [hside] at hbalance ⊢
        rw [tradedQuantity_opposite, hopposite]
        have := hfilled.restingQuantity_eq submitted.orderId
        omega
    · rw [List.mem_singleton] at hmem
      subst hmem
      rw [tradedQuantity_eq_zero hfreshTrades, tradedQuantity_same, hownQuantity, if_pos rfl, if_pos rfl,
        restingQuantity_eq_zero (h.fresh_resting hfresh _)]
      have := hfilled.sum_eq
      omega
  · refine Side.forall order.side ?_ ?_
    · rw [hown]
      split
      · rw [((Ranked.perm_insertAfter _ remainder _).map COrder.orderId).nodup_iff, List.map_cons,
          List.nodup_cons, hremainder]
        refine ⟨fun hmem => ?_, h.distinct order.side⟩
        obtain ⟨resting, hresting, hid⟩ := List.mem_map.mp hmem
        exact h.fresh_resting hfresh _ resting hresting hid
      · exact h.distinct order.side
    · rw [hopposite]
      exact hfilled.ids_sublist.nodup (h.distinct order.side.opposite)

end Accepted

theorem Accounts.empty : Accounts [] empty := by
  refine ⟨BookInvariant.empty, by simp, fun side => ?_, by simp [MatchingEngine.empty], by simp [MatchingEngine.empty]⟩
  cases side <;> exact List.nodup_nil

/-- With distinct ids, the resting orders of one id are at most one, on the side it was submitted to. -/
theorem Accounts.restsOnce {history : List COrder} {e : MatchingEngine} (h : Accounts history e)
    (hdistinct : (history.map COrder.orderId).Nodup) {order : COrder} (horder : order ∈ history) (side : Side) :
    (e.resting side).countP (fun resting => resting.orderId = order.orderId) ≤ if side = order.side then 1 else 0 := by
  have hcount : (e.resting side).countP (fun resting => resting.orderId = order.orderId) =
      ((e.resting side).map COrder.orderId).count order.orderId := by
    rw [List.count, List.countP_map]
    rfl
  rw [hcount]
  split
  · exact List.nodup_iff_count_le_one.mp (h.distinct side) order.orderId
  · next hside =>
      rw [Nat.le_zero, List.count_eq_zero]
      intro hmem
      obtain ⟨resting, hresting, hid⟩ := List.mem_map.mp hmem
      obtain ⟨submitted, hsubmitted, rfl, hsame⟩ := h.book.exists_submitted hresting
      have := List.inj_on_of_nodup_map hdistinct hsubmitted horder (hsame.trans hid)
      exact hside (by rw [this])

/-- What accepted orders with new ids preserve holds after every run with distinct ids, as long as memory lasts.
Submissions that were rejected may be among the calls. -/
theorem run_invariant_distinct (Inv : List COrder → MatchingEngine → Prop) (hempty : Inv [] empty)
    (hstep : ∀ {history : List COrder} {order remainder : COrder} {fills : List (COrder × Nat)} {left : List COrder}
      {e e' : MatchingEngine}, (∀ submitted ∈ history, submitted.orderId ≠ order.orderId) →
      Matched order.side order remainder fills left e e' → Exhausted order.side remainder left →
      (e'.resting order.side = if 0 < remainder.quantity
        then Ranked.insertAfter (COrder.rank order.side) remainder (e.resting order.side)
        else e.resting order.side) → Inv history e → Inv (history ++ [order]) e')
    (calls : List Call) (hmemory : Undisturbed (submissions calls empty))
    (hdistinct : ((accepted (submissions calls empty)).map COrder.orderId).Nodup) :
    Inv (accepted (submissions calls empty)) (run calls empty) := by
  have hinvariant : ((accepted (submissions calls empty)).map COrder.orderId).Nodup →
      Inv (accepted (submissions calls empty)) (run calls empty) := by
    refine (run_trace calls empty).invariant
      (fun history e => (history.map COrder.orderId).Nodup → Inv history e) ?_ [] (fun _ => hempty)
    intro history order e result e' hmem heffect h hnodup
    cases heffect with
    | refused =>
        rw [accepted_cons_error, accepted_nil, List.append_nil] at hnodup ⊢
        exact h hnodup
    | interrupted herr => exact absurd (hmemory _ hmem) (by simp [brokeOff, herr])
    | accepted hroom hmatched hstop hown hcount =>
        rw [accepted_cons_ok, accepted_nil] at hnodup ⊢
        rw [List.map_append, List.nodup_append] at hnodup
        refine hstep (fun submitted hsubmitted => ?_) hmatched hstop hown (h hnodup.1)
        exact hnodup.2.2 _ (List.mem_map_of_mem hsubmitted) _ (by simp)
  exact hinvariant hdistinct

theorem accounts_run (calls : List Call) (hmemory : Undisturbed (submissions calls empty))
    (hdistinct : ((accepted (submissions calls empty)).map COrder.orderId).Nodup) :
    Accounts (accepted (submissions calls empty)) (run calls empty) :=
  run_invariant_distinct Accounts Accounts.empty
    (fun hfresh hmatched hstop hown h => h.accepted hfresh hmatched hstop hown)
    calls hmemory hdistinct

/-- No quantity is created or lost in a run with distinct ids. Submissions that were rejected may be
among the calls. -/
theorem conserved_run (calls : List Call) (hmemory : Undisturbed (submissions calls empty))
    (hdistinct : ((accepted (submissions calls empty)).map COrder.orderId).Nodup) :
    Conserved (accepted (submissions calls empty)) (run calls empty) := by
  have h := accounts_run calls hmemory hdistinct
  exact ⟨h.balanced, fun order horder side => h.restsOnce hdistinct horder side, h.named, h.positive⟩

/-- Two sells at 100 and 101, then a buy that fills the first and part of the second. -/
def twoFills : List Call :=
  [.addOrder .unlimited ⟨1, 1, Binary64.ofInt 100, 5, 10⟩,
    .addOrder .unlimited ⟨2, 1, Binary64.ofInt 101, 5, 11⟩,
    .addOrdersBatch .unlimited [.tuple ⟨3, 0, Binary64.ofInt 101, 8, 12⟩, .wrongLength]]

theorem conserved_run_twoFills : Conserved (accepted (submissions twoFills empty)) (run twoFills empty) :=
  conserved_run twoFills (by decide) (by decide)

end MatchingEngine

end ChronosMatch
