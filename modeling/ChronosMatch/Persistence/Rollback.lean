import ChronosMatch.Persistence.ExactlyOnce

/-!
# Saves that are rolled back

Where every failed attempt is rolled back and no id comes twice, nothing is ever replayed over rows of its
own: the table is exactly what was saved, and no trade counts as a duplicate.
-/

namespace ChronosMatch

open FirstOccurrence

/-- Every attempt that fails in the move is rolled back. -/
def Move.RollsBack : Move SaveCall → Prop
  | .save call => SQLiteTradeRepository.RollsBack call.attempts
  | _ => True

/-- A save of new ids stores nothing or all of its batch. -/
theorem saveEvents_rollsBack {call : SaveCall} {batch : List TradeEvent} {r r' : SQLiteTradeRepository}
    {result : Option (Nat × Nat)} (hrollback : SQLiteTradeRepository.RollsBack call.attempts)
    (hsave : saveEvents call batch r = (result, r')) (hstorable : ∀ ev ∈ batch, ev.Storable)
    (hids : ((r.contents ++ batch.map TradeEvent.content).map TradeRecord.tradeId).Nodup) :
    (result = none ∧ r'.contents = r.contents) ∨
      (result = some (batch.length, 0) ∧ r'.contents = r.contents ++ batch.map TradeEvent.content) := by
  by_cases hbatch : batch = []
  · rw [hbatch] at hsave ⊢
    cases hsave
    exact .inr ⟨rfl, (List.append_nil _).symm⟩
  · obtain ⟨rows, hrows, heq⟩ := saveEvents_eq call hbatch r
    have hstored : (r.insertAll rows).contents = r.contents ++ batch.map TradeEvent.content := by
      rw [SQLiteTradeRepository.contents_insertAll hrows hstorable, absorb_eq_append _ hids]
    have hlength : rows.length = batch.length := by
      have := congrArg List.length hrows
      rwa [List.length_map, List.length_map] at this
    have hinserted : (r.insertAll rows).table.length - r.table.length = batch.length := by
      have := congrArg List.length hstored
      simp only [SQLiteTradeRepository.contents, List.length_append, List.length_map] at this
      omega
    have hattempts := SQLiteTradeRepository.saveAttempts_rollsBack rows hrollback r.maxRetries 0 r
    rw [← heq, hsave] at hattempts
    rcases hattempts with ⟨hraised, htable⟩ | ⟨htable, hreturned⟩
    · exact .inl ⟨hraised, by rw [SQLiteTradeRepository.contents, htable]; rfl⟩
    · refine .inr ⟨?_, ?_⟩
      · exact hreturned.trans (by rw [hinserted, hlength, Nat.sub_self])
      · rw [← hstored, SQLiteTradeRepository.contents, htable]
        rfl

/-- The table is what was saved, and nothing was a duplicate. -/
structure Verbatim (s : Shared SQLiteTradeRepository TradeEvent) : Prop where
  contents : s.repository.contents = s.journal.saved.flatten.map TradeEvent.content
  duplicates : s.worker.metrics.duplicateCount = 0

theorem Verbatim.step {move : Move SaveCall} {pc pc' : Pc TradeEvent}
    {s s' : Shared SQLiteTradeRepository TradeEvent} (heffect : ThreadEffect saveEvents move pc s pc' s')
    (hrollback : move.RollsBack) (haccount : Accounted pc s)
    (hstorable : ∀ ev ∈ s.journal.popped, ev.Storable)
    (hids : (s.journal.popped.map TradeEvent.tradeId).Nodup) (h : Verbatim s) : Verbatim s' := by
  have hhandStorable : ∀ ev ∈ inHand pc s, ev.Storable := fun ev hev => hstorable ev (haccount.hand_subset hev)
  have hnew : s.journal.abandoned = [] →
      ((s.repository.contents ++ (inHand pc s).map TradeEvent.content).map TradeRecord.tradeId).Nodup := by
    intro hnone
    rw [haccount.popped, hnone, List.append_nil] at hids
    rw [h.contents, ← List.map_append, List.map_map]
    exact hids
  cases heffect.onRepository with
  | untouched hrepository hsaved hreceived hpersisted hduplicates =>
      exact ⟨by rw [hrepository, hsaved, h.contents], by rw [hduplicates, h.duplicates]⟩
  | raised call hmove hnone hsave hsaved hreceived hpersisted hduplicates =>
      rw [hmove] at hrollback
      rcases saveEvents_rollsBack hrollback hsave hhandStorable (hnew hnone) with ⟨-, hcontents⟩ | ⟨hresult, -⟩
      · exact ⟨by rw [hcontents, hsaved, h.contents], by rw [hduplicates, h.duplicates]⟩
      · cases hresult
  | returned call hmove hnone inserted duplicates hsave hsaved hreceived hpersisted hduplicates =>
      rw [hmove] at hrollback
      rcases saveEvents_rollsBack hrollback hsave hhandStorable (hnew hnone) with ⟨hraised, -⟩ | ⟨hresult, hcontents⟩
      · cases hraised
      · cases hresult
        refine ⟨?_, by rw [hduplicates, h.duplicates]⟩
        rw [hcontents, h.contents, hsaved, List.flatten_concat, List.map_append]

theorem length_table_saveEvents {call : SaveCall} {batch : List TradeEvent} {r r' : SQLiteTradeRepository}
    {result : Option (Nat × Nat)} (hrollback : SQLiteTradeRepository.RollsBack call.attempts)
    (hsave : saveEvents call batch r = (result, r')) :
    r'.table.length = r.table.length + (result.map Prod.fst).getD 0 := by
  by_cases hbatch : batch = []
  · rw [hbatch] at hsave
    cases hsave
    rfl
  · obtain ⟨rows, -, heq⟩ := saveEvents_eq call hbatch r
    have hgrows : r.table.length ≤ (r.insertAll rows).table.length := by
      rw [SQLiteTradeRepository.table_insertAll]
      exact (prefix_absorb _ _ _).length_le
    have hattempts := SQLiteTradeRepository.saveAttempts_rollsBack rows hrollback r.maxRetries 0 r
    rw [← heq, hsave] at hattempts
    rcases hattempts with ⟨hraised, htable⟩ | ⟨htable, hreturned⟩
    · rw [show result = none from hraised, show r'.table = r.table from htable]
      rfl
    · rw [show result = _ from hreturned, show r'.table = _ from htable]
      exact (Nat.add_sub_cancel' hgrows).symm

theorem ThreadEffect.rows {move : Move SaveCall} {pc pc' : Pc TradeEvent}
    {s s' : Shared SQLiteTradeRepository TradeEvent} (heffect : ThreadEffect saveEvents move pc s pc' s')
    (hrollback : move.RollsBack) (h : s.repository.table.length = s.worker.metrics.tradesPersisted) :
    s'.repository.table.length = s'.worker.metrics.tradesPersisted := by
  cases heffect.onRepository with
  | untouched hrepository hsaved hreceived hpersisted hduplicates => rw [hrepository, hpersisted, h]
  | raised call hmove hnone hsave hsaved hreceived hpersisted hduplicates =>
      rw [hmove] at hrollback
      rw [length_table_saveEvents hrollback hsave, hpersisted, h]
      rfl
  | returned call hmove hnone inserted duplicates hsave hsaved hreceived hpersisted hduplicates =>
      rw [hmove] at hrollback
      rw [length_table_saveEvents hrollback hsave, hpersisted, h]
      rfl

end ChronosMatch
