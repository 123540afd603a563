import Mathlib.Algebra.Order.BigOperators.Group.List
import Mathlib.Algebra.Order.Group.Nat
import ChronosMatch.Base.Levels
import ChronosMatch.Engine.Conservation

/-!
# Every trade finishes an order

A fill takes all that is left of one of its two orders, and an order of which nothing is left neither trades nor
rests again. So a pair of ids names at most one trade of the log, and there are fewer trades than accepted
orders.
-/

namespace ChronosMatch

/-! ### The fills of one match -/

/-- A fill takes the whole resting order, or with it the incoming order is filled. -/
theorem Fills.finishes {side : Side} {order remainder : COrder} {resting left : List COrder}
    {fills : List (COrder × Nat)} (h : Fills side order resting fills remainder left) {n : Nat}
    (hn : n < fills.length) :
    fills[n].2 = fills[n].1.quantity ∨ order.quantity = ((fills.take (n + 1)).map Prod.snd).sum := by
  induction h generalizing n with
  | none => exact absurd hn (Nat.not_lt_zero n)
  | whole hcross hpos hle next ih =>
      cases n with
      | zero => exact .inl rfl
      | succ n =>
          apply (ih (Nat.lt_of_succ_lt_succ hn)).imp id
          intro hfilled
          rw [List.take_succ_cons, List.map_cons, List.sum_cons, ← hfilled]
          dsimp only
          omega
  | part hcross hpos hlt =>
      obtain rfl : n = 0 := by simpa using hn
      simp

namespace MatchingEngine

/-! ### Trades and accepted orders -/

section Accepted

variable {history : List COrder} {e e' : MatchingEngine} {order remainder : COrder} {fills : List (COrder × Nat)}
  {left : List COrder}

/-- There are never more trades and resting orders together than accepted orders, and fewer trades. -/
structure FewerTrades (history : List COrder) (e : MatchingEngine) : Prop where
  bounded : e.trades.length + (e.buyOrders.length + e.sellOrders.length) ≤ history.length
  fewer : history ≠ [] → e.trades.length < history.length

theorem length_resting (side : Side) (e : MatchingEngine) :
    (e.resting side).length + (e.resting side.opposite).length = e.buyOrders.length + e.sellOrders.length := by
  cases side with
  | buy => rfl
  | sell => exact Nat.add_comm _ _

theorem FewerTrades.accepted (h : FewerTrades history e)
    (hmatched : Matched order.side order remainder fills left e e')
    (hown : e'.resting order.side = if 0 < remainder.quantity
      then Ranked.insertAfter (COrder.rank order.side) remainder (e.resting order.side)
      else e.resting order.side) : FewerTrades (history ++ [order]) e' := by
  obtain ⟨hfilled, hopposite, htrades⟩ := hmatched
  have hbounded := h.bounded
  have hbefore := length_resting order.side e
  have hafter := length_resting order.side e'
  have hlog : e'.trades.length = e.trades.length + fills.length := by simp [htrades]
  have hrests : (e'.resting order.side).length =
      if 0 < remainder.quantity then (e.resting order.side).length + 1 else (e.resting order.side).length := by
    rw [hown]
    split
    · rw [(Ranked.perm_insertAfter _ remainder _).length_eq, List.length_cons]
    · rfl
  rw [hopposite] at hafter
  have hcount : e'.trades.length + (e'.buyOrders.length + e'.sellOrders.length) ≤ history.length + 1 ∧
      e'.trades.length < history.length + 1 := by
    rcases hfilled.length_eq with hall | ⟨hlast, hzero, hleft⟩
    · split at hrests <;> omega
    · rw [hzero, if_neg (Nat.lt_irrefl 0)] at hrests
      omega
  refine ⟨?_, fun _ => ?_⟩
  · rw [List.length_append, List.length_singleton]
    exact hcount.1
  · rw [List.length_append, List.length_singleton]
    exact hcount.2

/-- The first `n` trades fill the order. -/
def FilledAfter (trades : List CTrade) (n : Nat) (order : COrder) : Prop :=
  order.quantity = tradedQuantity order.side order.orderId (trades.take n)

/-- The trade of the number is one of the order, and nothing of the order is left after it. -/
def Finishes (trades : List CTrade) (n : Nat) (order : COrder) : Prop :=
  (∃ trade, trades[n]? = some trade ∧ trade.idOn order.side = order.orderId) ∧ FilledAfter trades (n + 1) order

theorem Finishes.append {trades : List CTrade} {n : Nat} {submitted : COrder} (h : Finishes trades n submitted)
    (trades' : List CTrade) : Finishes (trades ++ trades') n submitted := by
  obtain ⟨⟨trade, htrade, hid⟩, hfilled⟩ := h
  have hlt := (List.getElem?_eq_some_iff.mp htrade).1
  refine ⟨⟨trade, ?_, hid⟩, ?_⟩
  · rw [List.getElem?_append_left hlt, htrade]
  · rw [FilledAfter, List.take_append_of_le_length hlt]
    exact hfilled

theorem Matched.take_trades (hmatched : Matched order.side order remainder fills left e e') (n : Nat) :
    e'.trades.take (e.trades.length + n) =
      e.trades ++ (fills.take n).map fun fill => tradeBetween order.side order fill.1 fill.2 := by
  rw [hmatched.trades, List.take_length_add_append, List.map_take]

theorem Matched.getElem?_trades (hmatched : Matched order.side order remainder fills left e e') {n : Nat}
    (hn : n < fills.length) :
    e'.trades[e.trades.length + n]? = some (tradeBetween order.side order fills[n].1 fills[n].2) := by
  rw [hmatched.trades, List.getElem?_append_right (Nat.le_add_right _ _), Nat.add_sub_cancel_left, List.getElem?_map,
    List.getElem?_eq_getElem hn]
  rfl

theorem Accounts.finishes_resting (h : Accounts history e)
    (hmatched : Matched order.side order remainder fills left e e') {n : Nat} (hn : n < fills.length)
    (hwhole : fills[n].2 = fills[n].1.quantity) :
    ∃ submitted ∈ history, Finishes e'.trades (e.trades.length + n) submitted := by
  have hfront := hmatched.filled.fills_prefix
  have hresting : fills[n].1 ∈ e.resting order.side.opposite :=
    hfront.subset (List.mem_map_of_mem (List.getElem_mem hn))
  obtain ⟨submitted, hmem, hside, hid⟩ := h.book.exists_submitted hresting
  have hrests : restingQuantity submitted.orderId (e.resting order.side.opposite) = fills[n].1.quantity := by
    rw [hid]
    exact Levels.total_of_nodup COrder.orderId COrder.quantity (h.distinct _) hresting
  have htaken : takenQuantity submitted.orderId (fills.take (n + 1)) = fills[n].2 := by
    rw [hid]
    refine Levels.total_of_nodup (fun fill : COrder × Nat => fill.1.orderId) Prod.snd ?_ ?_
    · have hnodup := ((hfront.sublist.map COrder.orderId).nodup (h.distinct _))
      rw [List.map_map] at hnodup
      exact ((List.take_sublist (n + 1) fills).map _).nodup hnodup
    · exact List.mem_take_iff_getElem.mpr ⟨n, by omega, rfl⟩
  have hbalance := h.balanced submitted hmem
  rw [hside, hrests, ← hwhole] at hbalance
  refine ⟨submitted, hmem, ⟨_, hmatched.getElem?_trades hn, ?_⟩, ?_⟩
  · rw [hside, idOn_tradeBetween_opposite, hid]
  · rw [FilledAfter, Nat.add_assoc, hmatched.take_trades, tradedQuantity_append, hside, tradedQuantity_opposite, htaken]
    exact hbalance

theorem Accounts.finishes_incoming (h : Accounts history e)
    (hfresh : ∀ submitted ∈ history, submitted.orderId ≠ order.orderId)
    (hmatched : Matched order.side order remainder fills left e e') {n : Nat} (hn : n < fills.length)
    (hfilled : order.quantity = ((fills.take (n + 1)).map Prod.snd).sum) :
    Finishes e'.trades (e.trades.length + n) order := by
  have hnew : ∀ trade ∈ e.trades, trade.idOn order.side ≠ order.orderId := by
    intro trade htrade
    obtain ⟨submitted, hmem, -, hid⟩ := h.named trade htrade order.side
    exact hid ▸ hfresh submitted hmem
  refine ⟨⟨_, hmatched.getElem?_trades hn, idOn_tradeBetween_same _ _ _ _⟩, ?_⟩
  rw [FilledAfter, Nat.add_assoc, hmatched.take_trades, tradedQuantity_append, tradedQuantity_eq_zero hnew,
    tradedQuantity_same, if_pos rfl, Nat.zero_add]
  exact hfilled

/-- Every trade finishes one of its orders. -/
def AllFinish (history : List COrder) (e : MatchingEngine) : Prop :=
  ∀ n < e.trades.length, ∃ order ∈ history, Finishes e.trades n order

theorem AllFinish.accepted (h : AllFinish history e) (haccounts : Accounts history e)
    (hfresh : ∀ submitted ∈ history, submitted.orderId ≠ order.orderId)
    (hmatched : Matched order.side order remainder fills left e e') : AllFinish (history ++ [order]) e' := by
  intro n hn
  rcases Nat.lt_or_ge n e.trades.length with hold | hnew
  · obtain ⟨submitted, hmem, hfinishes⟩ := h n hold
    refine ⟨submitted, List.mem_append_left _ hmem, ?_⟩
    rw [hmatched.trades]
    exact hfinishes.append _
  · obtain ⟨k, rfl⟩ := Nat.exists_eq_add_of_le hnew
    have hk : k < fills.length := by
      rw [hmatched.trades, List.length_append, List.length_map] at hn
      omega
    rcases hmatched.filled.finishes hk with hwhole | hfilled
    · obtain ⟨submitted, hmem, hfinishes⟩ := haccounts.finishes_resting hmatched hk hwhole
      exact ⟨submitted, List.mem_append_left _ hmem, hfinishes⟩
    · exact ⟨order, by simp, haccounts.finishes_incoming hfresh hmatched hk hfilled⟩

end Accepted

/-! ### Orders of which nothing is left -/

/-- The order is in none of the trades from a number on, and does not rest. -/
structure Gone (e : MatchingEngine) (n : Nat) (order : COrder) : Prop where
  trades : ∀ trade ∈ e.trades.drop n, ∀ side, trade.idOn side ≠ order.orderId
  book : ∀ side, ∀ resting ∈ e.resting side, resting.orderId ≠ order.orderId

theorem le_restingQuantity {resting : COrder} {orders : List COrder} (h : resting ∈ orders) :
    resting.quantity ≤ restingQuantity resting.orderId orders := by
  apply List.le_sum_of_mem
  apply List.mem_map_of_mem
  simp [h]

theorem le_tradedQuantity {side : Side} {trade : CTrade} {trades : List CTrade} (h : trade ∈ trades) :
    trade.quantity ≤ tradedQuantity side (trade.idOn side) trades := by
  apply List.le_sum_of_mem
  apply List.mem_map_of_mem
  simp [h]

theorem Accounts.gone {history : List COrder} {e : MatchingEngine} (h : Accounts history e)
    (hdistinct : (history.map COrder.orderId).Nodup) {order : COrder} (horder : order ∈ history) {n : Nat}
    (hfilled : FilledAfter e.trades n order) : Gone e n order := by
  have hbalance := h.balanced order horder
  have hsplit := tradedQuantity_append order.side order.orderId (e.trades.take n) (e.trades.drop n)
  rw [List.take_append_drop] at hsplit
  rw [FilledAfter] at hfilled
  have hsame : ∀ submitted ∈ history, submitted.orderId = order.orderId → submitted.side = order.side := by
    intro submitted hmem hid
    rw [List.inj_on_of_nodup_map hdistinct hmem horder hid]
  constructor
  · intro trade htrade side hid
    obtain ⟨submitted, hmem, hside, hnamed⟩ := h.named trade (List.mem_of_mem_drop htrade) side
    have hside' : side = order.side := hside.symm.trans (hsame submitted hmem (hnamed.trans hid))
    have hpositive := h.positive trade (List.mem_of_mem_drop htrade)
    have hle := @le_tradedQuantity order.side _ _ htrade
    rw [← hside', hid, hside'] at hle
    omega
  · intro side resting hresting hid
    obtain ⟨submitted, hmem, hside, hnamed⟩ := h.book.exists_submitted hresting
    have hside' : side = order.side := hside.symm.trans (hsame submitted hmem (hnamed.trans hid))
    have hpositive := (h.book.positive side resting hresting).1
    have hle := le_restingQuantity hresting
    rw [hid, hside'] at hle
    omega

/-! ### Runs -/

/-- What the trade log of a run with distinct ids looks like. -/
structure FinishedOrders (history : List COrder) (e : MatchingEngine) : Prop where
  finishes : ∀ n < e.trades.length, ∃ order ∈ history, Finishes e.trades n order
  gone : ∀ n < e.trades.length, ∀ order ∈ history, Finishes e.trades n order → Gone e (n + 1) order
  distinct : (e.trades.map fun trade => (trade.buyId, trade.sellId)).Nodup
  fewer : history ≠ [] → e.trades.length < history.length

/-- A pair of ids stands for one trade, since one of its orders is gone after it. -/
theorem nodup_pairs {history : List COrder} {e : MatchingEngine} (hfinish : AllFinish history e)
    (hgone : ∀ n < e.trades.length, ∀ order ∈ history, Finishes e.trades n order → Gone e (n + 1) order) :
    (e.trades.map fun trade => (trade.buyId, trade.sellId)).Nodup := by
  rw [List.Nodup, List.pairwise_map, List.pairwise_iff_getElem]
  intro i j hi hj hlt hpair
  obtain ⟨order, horder, hfinishes⟩ := hfinish i hi
  obtain ⟨trade, htrade, hid⟩ := hfinishes.1
  have hearlier : e.trades[i] = trade := by
    rwa [List.getElem?_eq_getElem hi, Option.some.injEq] at htrade
  have hlater : e.trades[j] ∈ e.trades.drop (i + 1) := by
    apply List.mem_drop_iff_getElem.mpr
    exact ⟨j - (i + 1), by omega, by congr 1; omega⟩
  apply (hgone i hi order horder hfinishes).trades _ hlater order.side
  obtain ⟨hbuy, hsell⟩ := Prod.mk.inj hpair
  rw [← hid, ← hearlier]
  cases order.side with
  | buy => exact hbuy.symm
  | sell => exact hsell.symm

theorem finishedOrders_run (calls : List Call) (hmemory : Undisturbed (submissions calls empty))
    (hdistinct : ((accepted (submissions calls empty)).map COrder.orderId).Nodup) :
    FinishedOrders (accepted (submissions calls empty)) (run calls empty) := by
  have haccounts := accounts_run calls hmemory hdistinct
  have hfinish : AllFinish (accepted (submissions calls empty)) (run calls empty) := by
    refine (run_invariant_distinct (fun history e => Accounts history e ∧ AllFinish history e)
      ⟨Accounts.empty, fun n hn => (Nat.not_lt_zero n hn).elim⟩ ?_ calls hmemory hdistinct).2
    intro history order remainder fills left e e' hfresh hmatched hstop hown h
    exact ⟨h.1.accepted hfresh hmatched hstop hown, h.2.accepted h.1 hfresh hmatched⟩
  have hfewer : FewerTrades (accepted (submissions calls empty)) (run calls empty) := by
    refine run_invariant_distinct FewerTrades ⟨Nat.le_refl 0, fun h => (h rfl).elim⟩ ?_ calls hmemory hdistinct
    intro history order remainder fills left e e' hfresh hmatched hstop hown h
    exact h.accepted hmatched hown
  have hgone : ∀ n < (run calls empty).trades.length, ∀ order ∈ accepted (submissions calls empty),
      Finishes (run calls empty).trades n order → Gone (run calls empty) (n + 1) order :=
    fun n _ order horder h => haccounts.gone hdistinct horder h.2
  exact ⟨hfinish, hgone, nodup_pairs hfinish hgone, hfewer.fewer⟩

theorem finishedOrders_run_twoFills :
    FinishedOrders (accepted (submissions twoFills empty)) (run twoFills empty) :=
  finishedOrders_run twoFills (by decide) (by decide)

end MatchingEngine

end ChronosMatch
