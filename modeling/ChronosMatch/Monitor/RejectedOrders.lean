import ChronosMatch.Monitor.WhaleEvents

/-!
# What a rejected order leaves on the dashboard

`add_custom_order` shows the order, records its size and checks it for a whale before it asks the engine. When the
engine raises, all of that stays, unless it was on the dashboard already.
-/

namespace ChronosMatch

/-! ### Bounded deques -/

theorem eq_replicate_of_concat_eq_cons {α : Type} {l : List α} {a b : α} (h : l ++ [a] = b :: l) :
    b = a ∧ l = List.replicate l.length a := by
  induction l generalizing b with
  | nil =>
      obtain ⟨rfl, -⟩ := List.cons.inj h
      exact ⟨rfl, rfl⟩
  | cons c l ih =>
      obtain ⟨rfl, hrest⟩ := List.cons.inj h
      obtain ⟨rfl, hl⟩ := ih hrest
      refine ⟨rfl, ?_⟩
      rw [List.length_cons, List.replicate_succ, ← hl]

/-- Appending to a deque leaves it as it was only when it is full of the same element. -/
theorem pushBounded_eq_self_iff {α : Type} (maxlen : Nat) (l : List α) (a : α) :
    pushBounded maxlen l a = l ↔ l = List.replicate maxlen a := by
  rw [pushBounded]
  constructor
  · intro hsame
    have hlength := congrArg List.length hsame
    rw [List.length_drop, List.length_append, List.length_singleton] at hlength
    obtain rfl : l.length = maxlen := by omega
    cases l with
    | nil => rfl
    | cons b l =>
        rw [Nat.add_sub_cancel_left, List.cons_append, List.drop_one, List.tail_cons] at hsame
        obtain ⟨rfl, hl⟩ := eq_replicate_of_concat_eq_cons hsame
        rw [List.length_cons, List.replicate_succ, ← hl]
  · intro hfull
    subst hfull
    rw [List.length_replicate, ← List.replicate_succ', List.drop_replicate]
    congr 1
    omega

namespace LatencyMonitor

/-- What the dashboard shows of the orders, and what its next alerts depend on. -/
structure SameDashboard (m m' : LatencyMonitor) : Prop where
  whaleEvents : m'.whaleEvents = m.whaleEvents
  rollingOrderQuantities : m'.rollingOrderQuantities = m.rollingOrderQuantities
  threshold : m'.getCurrentWhaleThreshold = m.getCurrentWhaleThreshold
  lastOrderInfo : m'.lastOrderInfo = m.lastOrderInfo
  allLatenciesNs : m'.allLatenciesNs = m.allLatenciesNs
  rollingLatenciesNs : m'.rollingLatenciesNs = m.rollingLatenciesNs
  lastProcessedTradeIdx : m'.lastProcessedTradeIdx = m.lastProcessedTradeIdx

/-- The order is the last one shown, all sizes recorded are its own, and if it is a whale all events are its own. -/
def AlreadyShown (info : OrderInfo) (m : LatencyMonitor) : Prop :=
  m.lastOrderInfo = some info ∧ m.rollingOrderQuantities = List.replicate 200 info.quantity ∧
    (m.getCurrentWhaleThreshold ≤ info.quantity → m.whaleEvents = List.replicate 50 (restingOrder info))

theorem onOrderSubmitted_fields (info : OrderInfo) (m : LatencyMonitor) :
    (m.onOrderSubmitted info).rollingOrderQuantities = pushBounded 200 m.rollingOrderQuantities info.quantity ∧
    (m.onOrderSubmitted info).whaleThreshold = m.whaleThreshold ∧
    (m.onOrderSubmitted info).relative = m.relative ∧
    (m.onOrderSubmitted info).lastOrderInfo = m.lastOrderInfo ∧
    (m.onOrderSubmitted info).allLatenciesNs = m.allLatenciesNs ∧
    (m.onOrderSubmitted info).rollingLatenciesNs = m.rollingLatenciesNs ∧
    (m.onOrderSubmitted info).lastProcessedTradeIdx = m.lastProcessedTradeIdx := by
  rw [onOrderSubmitted]
  split
  · simp only [recordWhale, and_self]
  · simp only [and_self]

theorem submitOrder_raised {d : Dispatch} {info : OrderInfo} {m : LatencyMonitor} {err : PyError}
    (h : (m.engine.addOrder d.grow info.args).1 = .error err) : ∃ engine, m.submitOrder d info =
      (.error err, { ({ m with lastOrderInfo := info } : LatencyMonitor).onOrderSubmitted info with engine }) := by
  have hsubmitted := (sameCursor_onOrderSubmitted info { m with lastOrderInfo := info }).engine
  rw [submitOrder]
  dsimp only
  rw [hsubmitted]
  rcases hadd : m.engine.addOrder d.grow info.args with ⟨result, engine⟩
  rw [hadd] at h
  cases h
  exact ⟨engine, rfl⟩

theorem sameDashboard_onOrderSubmitted_iff (info : OrderInfo) (m : LatencyMonitor) (engine : Engine) :
    SameDashboard m { ({ m with lastOrderInfo := info } : LatencyMonitor).onOrderSubmitted info with engine } ↔
      AlreadyShown info m := by
  obtain ⟨hquantities, hthreshold, hrelative, hinfo, hall, hrolling, hindex⟩ :=
    onOrderSubmitted_fields info { m with lastOrderInfo := info }
  have hevents := whaleEvents_onOrderSubmitted info { m with lastOrderInfo := info }
  have hfull := pushBounded_eq_self_iff 200 m.rollingOrderQuantities info.quantity
  rw [submittedEvents] at hevents
  generalize ({ m with lastOrderInfo := info } : LatencyMonitor).onOrderSubmitted info = submitted at *
  have hsame (h : pushBounded 200 m.rollingOrderQuantities info.quantity = m.rollingOrderQuantities) :
      submitted.getCurrentWhaleThreshold = m.getCurrentWhaleThreshold :=
    threshold_congr hthreshold hrelative (hquantities.trans h)
  constructor
  · intro hdashboard
    have hpushed := hquantities.symm.trans hdashboard.rollingOrderQuantities
    refine ⟨hdashboard.lastOrderInfo.symm.trans hinfo, hfull.mp hpushed, fun hwhale => ?_⟩
    rw [hsame hpushed, if_pos hwhale] at hevents
    exact (pushBounded_eq_self_iff 50 _ _).mp (hevents.symm.trans hdashboard.whaleEvents)
  · rintro ⟨hshown, hsizes, hwhales⟩
    have hpushed := hfull.mpr hsizes
    refine ⟨?_, hquantities.trans hpushed, hsame hpushed, hinfo.trans hshown.symm, hall, hrolling, hindex⟩
    refine hevents.trans ?_
    rw [hsame hpushed]
    split
    · next hwhale => exact (pushBounded_eq_self_iff 50 _ _).mpr (hwhales hwhale)
    · rfl

/-- A call whose order the engine raises on leaves no trace only if the dashboard showed nothing but that order. -/
theorem rejected_traceless_iff (d : Dispatch) (clock : Nat → Int) (orderId : Int) (side : SideArg) (price : Binary64)
    (quantity timestampNs : Int) (m : LatencyMonitor) :
    let info : OrderInfo := ⟨orderId, side.name, price, quantity, timestampNs⟩
    let call := m.addCustomOrder d clock orderId side price quantity timestampNs
    (∀ err, call.1 = .error err → SameDashboard m call.2.2) ↔
      ((∃ err, (m.engine.addOrder d.grow info.args).1 = .error err) → AlreadyShown info m) := by
  intro info call
  rcases hadd : (m.engine.addOrder d.grow info.args).1 with err | res
  · obtain ⟨engine, hsubmit⟩ := submitOrder_raised hadd
    have hcall : call = (.error err, [],
        { ({ m with lastOrderInfo := info } : LatencyMonitor).onOrderSubmitted info with engine }) := by
      simp only [call, addCustomOrder, hsubmit, info]
    rw [hcall]
    constructor
    · intro hsame _
      exact (sameDashboard_onOrderSubmitted_iff info m engine).mp (hsame err rfl)
    · intro hshown _ _
      exact (sameDashboard_onOrderSubmitted_iff info m engine).mpr (hshown ⟨err, rfl⟩)
  · have hresult : (m.submitOrder d info).1 = .ok res := by
      rw [← hadd, ← submitOrder_addOrder]
    have hcall : call.1 = .ok res := by
      simp only [call, addCustomOrder]
      rcases hsubmit : m.submitOrder d info with ⟨result, m'⟩
      rw [hsubmit] at hresult
      cases hresult
      rfl
    refine iff_of_true (fun err herr => ?_) ?_
    · rw [hcall] at herr
      cases herr
    · rintro ⟨err, herr⟩
      cases herr

/-- A buy order of the size of a whale, with a negative price. -/
theorem not_rejected_traceless_negativePrice :
    let m : LatencyMonitor := { engine := .compiled .empty }
    let call := m.addCustomOrder ⟨.unlimited, 0⟩ (fun _ => 0) 1 (.code 0) (Binary64.ofInt (-1)) 500 0
    call.1 = .error (.valueError "price must be finite and greater than zero") ∧
      call.2.2.whaleEvents.map (fun event => (event.eventType, event.orderId)) = [(.restingOrder, some 1)] ∧
      ¬ SameDashboard m call.2.2 := by
  intro m call
  have hevents : call.2.2.whaleEvents.map (fun event => (event.eventType, event.orderId)) =
      [(.restingOrder, some 1)] := by decide +kernel
  refine ⟨by decide +kernel, hevents, fun hsame => ?_⟩
  rw [hsame.whaleEvents] at hevents
  cases hevents

end LatencyMonitor

end ChronosMatch
