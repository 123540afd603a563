import ChronosMatch.Engine.BookInvariant
import ChronosMatch.Monitor.DepthLadders

/-!
# When the depth of a book wraps

`get_book_depth` adds in `uint64_t`. No call bounds what may rest on a side, so the totals it returns are exact in
some reachable books only; in those the levels are exact as well.
-/

namespace ChronosMatch

open Levels

namespace MatchingEngine

theorem scanLevels_toNat (maxLevels : Int) (orders : List COrder) :
    scanLevels maxLevels orders = scanLevels maxLevels.toNat orders := by
  have hstep : LevelScan.step maxLevels = LevelScan.step maxLevels.toNat := by
    funext s order
    have hfull (n : Nat) : (maxLevels ≤ (n : Int)) = ((maxLevels.toNat : Int) ≤ (n : Int)) := by
      rw [Int.ofNat_le, Int.toNat_le]
    simp only [LevelScan.step, hfull]
  rw [scanLevels, scanLevels, hstep]

theorem sorted_run (calls : List Call) (side : Side) :
    Ranked.Sorted (COrder.rank side) ((run calls empty).resting side) := by
  obtain ⟨numbered, hnumbering⟩ := (bookInvariant_run calls).ordered side
  exact hnumbering.sorted

end MatchingEngine

/-- What `get_book_depth` returns is what rests: the totals of the sides and the quantities of the levels, which the
other two functions show as well. -/
def DepthExact (maxLevels : Int) (e : MatchingEngine) : Prop :=
  ∀ book, e.getBookDepth maxLevels = .ok book →
    (book.totalBidQty = restingTotal e.buyOrders ∧ book.totalAskQty = restingTotal e.sellOrders) ∧
    (∃ bids asks, SideLevels .buy e.buyOrders bids ∧ SideLevels .sell e.sellOrders asks ∧
      book.bidLevels = (bids.take maxLevels.toNat).map ladderItem ∧
      book.askLevels = (asks.take maxLevels.toNat).map ladderItem) ∧
    (0 ≤ maxLevels → ∀ r, SameOrders e r → ShowLadders maxLevels.toNat e r)

/-- The depth of a reachable book is exact if and only if what rests on each side fits in 64 bits. -/
theorem depthExact_run_iff (calls : List MatchingEngine.Call) (maxLevels : Int) :
    let e := MatchingEngine.run calls .empty
    DepthExact maxLevels e ↔
      (-2 ^ 31 ≤ maxLevels ∧ maxLevels < 2 ^ 31 → ∀ side, restingTotal (e.resting side) < 2 ^ 64) := by
  intro e
  have hsorted := MatchingEngine.sorted_run calls
  rw [DepthExact, MatchingEngine.getBookDepth]
  split
  · next hint =>
      have htotal (side : Side) : (MatchingEngine.scanLevels maxLevels (e.resting side)).total =
          restingTotal (e.resting side) % 2 ^ 64 :=
        MatchingEngine.total_scanLevels maxLevels _
      constructor
      · intro hexact _ side
        obtain ⟨⟨hbid, hask⟩, -, -⟩ := hexact _ rfl
        have hside : (MatchingEngine.scanLevels maxLevels (e.resting side)).total = restingTotal (e.resting side) := by
          cases side with
          | buy => exact hbid
          | sell => exact hask
        rw [← hside, htotal]
        exact Nat.mod_lt _ (by decide)
      · intro hall book hbook
        cases hbook
        have hfits := hall hint
        have hside (side : Side) := scanLevels_sideLevels
          (isLevels_runs COrder.quantity (keySorted_of_sorted (hsorted side))) (hsorted side) (hfits side) maxLevels.toNat
        simp only [← MatchingEngine.scanLevels_toNat] at hside
        obtain ⟨hbidLevels, hbidTotal⟩ := hside .buy
        obtain ⟨haskLevels, haskTotal⟩ := hside .sell
        refine ⟨⟨hbidTotal, haskTotal⟩, ⟨_, _, isLevels_runs COrder.quantity (keySorted_of_sorted (hsorted .buy)),
          isLevels_runs COrder.quantity (keySorted_of_sorted (hsorted .sell)), hbidLevels, haskLevels⟩, ?_⟩
        intro _ r hsame
        apply ladders_of_sorted hsorted hsame ?_ hfits
        omega
  · next hout => exact iff_of_true (fun book hbook => by cases hbook) fun hint => absurd hint hout

/-- Two buyers of half the range at one price, and nothing seems to rest. -/
theorem not_depthExact_twoHalves :
    let half : OrderArgs := ⟨1, 0, Binary64.ofInt 100, 2 ^ 63, 0⟩
    let e := MatchingEngine.run [.addOrder .unlimited half, .addOrder .unlimited { half with orderId := 2 }] .empty
    e.getBookDepth 5 = .ok {
      bidLevels := [(Binary64.ofInt 100, 0)]
      askLevels := []
      totalBidQty := 0
      totalAskQty := 0
      bidOrderCount := 2
      askOrderCount := 0 } ∧
    e.getOrderBookDepth 5 = .ok ([(Binary64.ofInt 100, 2 ^ 64)], []) ∧
    ¬ DepthExact 5 e := by
  intro half e
  have hdepth : e.getBookDepth 5 = .ok {
      bidLevels := [(Binary64.ofInt 100, 0)]
      askLevels := []
      totalBidQty := 0
      totalAskQty := 0
      bidOrderCount := 2
      askOrderCount := 0 } := by decide +kernel
  refine ⟨hdepth, by decide +kernel, fun hexact => ?_⟩
  obtain ⟨⟨hbid, -⟩, -, -⟩ := hexact _ hdepth
  exact absurd hbid (by decide +kernel)

end ChronosMatch
