import ChronosMatch.Persistence.Repository

/-!
# The counts of a batch insert

Any sequence of calls of `save_trades_batch` on a fresh ledger, each with whatever its attempts meet, as long
as a failed attempt is rolled back. A failed attempt may leave its inserts in `total_changes`, but every attempt
reads the counter again before it begins, so the difference counts its own inserts only.
-/

namespace ChronosMatch

open FirstOccurrence

/-- A call of `save_trades_batch`: the clock, what its attempts meet, and the batch. -/
structure BatchCall where
  nowIso : String
  attempts : Nat → SaveAttempt
  trades : List TradeRecord

namespace BatchCall

/-- The rows that the call binds. -/
def rows (call : BatchCall) : List TradeRecord :=
  call.trades.map fun t => { t with
    createdAt := if t.createdAt = "" then call.nowIso else t.createdAt
    persistedAt := if t.persistedAt = "" then call.nowIso else t.persistedAt }

def perform (call : BatchCall) (r : SQLiteTradeRepository) : Option (Nat × Nat) × SQLiteTradeRepository :=
  r.saveTradesBatch call.nowIso call.attempts call.trades

/-- The batch can be bound and stored, and what fails is rolled back. -/
structure Regular (call : BatchCall) : Prop where
  bindable : ∀ t ∈ call.trades, t.bindable = true
  storable : ∀ t ∈ call.trades, t.price.isNaN = false ∧ t.notional.isNaN = false
  rollsBack : SQLiteTradeRepository.RollsBack call.attempts

/-- The ledger after the calls. -/
def run (calls : List BatchCall) (r : SQLiteTradeRepository) : SQLiteTradeRepository :=
  calls.foldl (fun r call => (call.perform r).2) r

/-- The rows of the calls that return. -/
def successfulRows : List BatchCall → SQLiteTradeRepository → List TradeRecord
  | [], _ => []
  | call :: calls, r =>
      (if (call.perform r).1.isSome then call.rows else []) ++ successfulRows calls (call.perform r).2

/-- What a call is to do with the batch: it returns the number of new ids and the number of repeated ones, with
the new ones stored, or raises and changes nothing. -/
structure InsertsOnce (call : BatchCall) (r : SQLiteTradeRepository) : Prop where
  returned : ∀ inserted duplicates, (call.perform r).1 = some (inserted, duplicates) →
    duplicates = repeats TradeRecord.tradeId r.table call.rows ∧
    inserted + duplicates = call.rows.length ∧
    (∀ n, ¬ IsRepeat TradeRecord.tradeId r.table call.rows n → call.rows[n] ∈ (call.perform r).2.table)
  raised : (call.perform r).1 = none → (call.perform r).2.table = r.table

/-- The call looks at no attempt but the first `made`, and makes another one only after a transient error. -/
structure Makes (call : BatchCall) (r : SQLiteTradeRepository) (made : Nat) : Prop where
  only : ∀ attempts, (∀ n < made, attempts n = call.attempts n) →
    { call with attempts }.perform r = call.perform r
  transient : ∀ n, n + 1 < made → ∃ stored counted, call.attempts n = .fails true stored counted

end BatchCall

/-! ### The attempts of a call -/

namespace SQLiteTradeRepository

@[simp] theorem maxRetries_insertAll (rows : List TradeRecord) (r : SQLiteTradeRepository) :
    (r.insertAll rows).maxRetries = r.maxRetries := rfl

theorem maxRetries_saveAttempts (rows : List TradeRecord) (attempts : Nat → SaveAttempt) (left attempt : Nat)
    (r : SQLiteTradeRepository) : (saveAttempts rows attempts left attempt r).2.maxRetries = r.maxRetries := by
  induction left generalizing attempt r with
  | zero => rfl
  | succ left ih =>
      rw [saveAttempts]
      cases attempts attempt with
      | commits =>
          dsimp only
          split <;> simp
      | fails transient stored counted =>
          dsimp only
          split
          · rw [ih]
            split <;> simp
          · split <;> simp

/-- A save makes as many attempts as are left, and another one only after a transient error. -/
theorem saveAttempts_made (rows : List TradeRecord) (attempts : Nat → SaveAttempt) (left attempt : Nat)
    (r : SQLiteTradeRepository) : ∃ made ≤ left,
      (∀ attempts', (∀ n < made, attempts' (attempt + n) = attempts (attempt + n)) →
        saveAttempts rows attempts' left attempt r = saveAttempts rows attempts left attempt r) ∧
      ∀ n, n + 1 < made → ∃ stored counted, attempts (attempt + n) = .fails true stored counted := by
  induction left generalizing attempt r with
  | zero => exact ⟨0, le_rfl, fun _ _ => rfl, fun n hn => absurd hn (Nat.not_lt_zero _)⟩
  | succ left ih =>
      cases hattempt : attempts attempt with
      | commits =>
          refine ⟨1, Nat.succ_pos left, fun attempts' hagree => ?_, fun n hn => by omega⟩
          have hfirst : attempts' attempt = .commits := (hagree 0 Nat.one_pos).trans hattempt
          rw [saveAttempts, saveAttempts, hfirst, hattempt]
      | fails transient stored counted =>
          cases transient with
          | false =>
              refine ⟨1, Nat.succ_pos left, fun attempts' hagree => ?_, fun n hn => by omega⟩
              have hfirst : attempts' attempt = .fails false stored counted :=
                (hagree 0 Nat.one_pos).trans hattempt
              rw [saveAttempts, saveAttempts, hfirst, hattempt]
              rfl
          | true =>
              -- the loop goes on from the next attempt, with the repository that the failed one left
              obtain ⟨made, hmade, hagrees, htransient⟩ := ih (attempt + 1)
                (if stored && rows.all TradeRecord.bindable then r.insertAll rows
                  else { r with totalChanges := r.totalChanges + counted })
              refine ⟨made + 1, Nat.succ_le_succ hmade, fun attempts' hagree => ?_, fun n hn => ?_⟩
              · have hfirst : attempts' attempt = .fails true stored counted :=
                  (hagree 0 (Nat.succ_pos made)).trans hattempt
                rw [saveAttempts, saveAttempts, hfirst, hattempt]
                apply hagrees
                intro n hn
                have hlater := hagree (n + 1) (Nat.succ_lt_succ hn)
                rwa [show attempt + (n + 1) = attempt + 1 + n by omega] at hlater
              · cases n with
                | zero => exact ⟨stored, counted, hattempt⟩
                | succ n =>
                    have hlater := htransient n (Nat.lt_of_succ_lt_succ hn)
                    rwa [show attempt + 1 + n = attempt + (n + 1) by omega] at hlater

end SQLiteTradeRepository

namespace BatchCall

variable {call : BatchCall}

theorem perform_eq (call : BatchCall) (r : SQLiteTradeRepository) : call.perform r =
    if call.trades.isEmpty then (some (0, 0), r)
    else SQLiteTradeRepository.saveAttempts call.rows call.attempts r.maxRetries 0 r := rfl

theorem maxRetries_perform (call : BatchCall) (r : SQLiteTradeRepository) :
    (call.perform r).2.maxRetries = r.maxRetries := by
  rw [perform_eq]
  split
  · rfl
  · apply SQLiteTradeRepository.maxRetries_saveAttempts

theorem maxRetries_run (calls : List BatchCall) (r : SQLiteTradeRepository) :
    (run calls r).maxRetries = r.maxRetries := by
  induction calls generalizing r with
  | nil => rfl
  | cons call calls ih => exact (ih _).trans (maxRetries_perform call r)

theorem makes_perform (call : BatchCall) (r : SQLiteTradeRepository) : ∃ made ≤ r.maxRetries, call.Makes r made := by
  by_cases hempty : call.trades.isEmpty
  · refine ⟨0, Nat.zero_le _, fun attempts _ => ?_, fun n hn => by omega⟩
    rw [perform_eq, perform_eq, if_pos hempty, if_pos hempty]
  · obtain ⟨made, hmade, honly, htransient⟩ :=
      SQLiteTradeRepository.saveAttempts_made call.rows call.attempts r.maxRetries 0 r
    simp only [Nat.zero_add] at honly htransient
    refine ⟨made, hmade, fun attempts hagree => ?_, htransient⟩
    rw [perform_eq, perform_eq, if_neg hempty, if_neg hempty]
    exact honly attempts hagree

/-! ### What a call stores -/

theorem Regular.table_insertAll (hregular : call.Regular) (r : SQLiteTradeRepository) :
    (r.insertAll call.rows).table = absorb TradeRecord.tradeId r.table call.rows := by
  rw [SQLiteTradeRepository.table_insertAll]
  congr 1
  apply List.filter_eq_self.mpr
  intro row hrow
  obtain ⟨t, ht, rfl⟩ := List.mem_map.mp hrow
  obtain ⟨hprice, hnotional⟩ := hregular.storable t ht
  simp [SQLiteTradeRepository.notNull, hprice, hnotional]

/-- A regular call raises and changes nothing, or absorbs its rows and counts those that repeat an id. -/
theorem Regular.perform_cases (hregular : call.Regular) (r : SQLiteTradeRepository) :
    ((call.perform r).1 = none ∧ (call.perform r).2.table = r.table) ∨
    ∃ inserted, (call.perform r).1 = some (inserted, repeats TradeRecord.tradeId r.table call.rows) ∧
      inserted + repeats TradeRecord.tradeId r.table call.rows = call.rows.length ∧
      (call.perform r).2.table = absorb TradeRecord.tradeId r.table call.rows := by
  rw [perform_eq]
  split
  · next hempty =>
      right
      have hnone : call.rows = [] := by simpa [rows] using hempty
      rw [hnone, repeats_nil]
      simp
  · have hattempts :=
      SQLiteTradeRepository.saveAttempts_rollsBack call.rows hregular.rollsBack r.maxRetries 0 r
    rw [hregular.table_insertAll r] at hattempts
    have hlength := length_absorb TradeRecord.tradeId r.table call.rows
    have hgrows := (prefix_absorb TradeRecord.tradeId r.table call.rows).length_le
    have hduplicates : call.rows.length -
        ((absorb TradeRecord.tradeId r.table call.rows).length - r.table.length) =
          repeats TradeRecord.tradeId r.table call.rows := by omega
    rw [hduplicates] at hattempts
    apply hattempts.imp_right
    intro hstored
    refine ⟨_, hstored.2, ?_, hstored.1⟩
    omega

theorem Regular.insertsOnce (hregular : call.Regular) (r : SQLiteTradeRepository) : call.InsertsOnce r := by
  obtain ⟨hraised, htable⟩ | ⟨inserted, hreturned, hcount, htable⟩ := hregular.perform_cases r
  · constructor
    · intro inserted duplicates hreturned
      simp [hraised] at hreturned
    · exact fun _ => htable
  · constructor
    · intro inserted' duplicates hresult
      obtain ⟨rfl, rfl⟩ : inserted = inserted' ∧ _ = duplicates := by simpa [hreturned] using hresult
      refine ⟨rfl, hcount, fun n hnew => ?_⟩
      rw [htable]
      apply getElem_mem_absorb
      exact hnew
    · intro hraised
      simp [hreturned] at hraised

theorem table_run {calls : List BatchCall} (hregular : ∀ call ∈ calls, call.Regular)
    (r : SQLiteTradeRepository) :
    (run calls r).table = absorb TradeRecord.tradeId r.table (successfulRows calls r) := by
  induction calls generalizing r with
  | nil => rfl
  | cons call calls ih =>
      obtain ⟨hcall, hcalls⟩ := List.forall_mem_cons.mp hregular
      have hrest := ih hcalls (call.perform r).2
      rw [successfulRows, absorb_append]
      apply hrest.trans
      congr 1
      obtain ⟨hraised, htable⟩ | ⟨inserted, hreturned, -, htable⟩ := hcall.perform_cases r
      · simp [hraised, htable]
      · simp [hreturned, htable]

end BatchCall

/-- After any calls the table is the first occurrence of every id in the batches that were saved, and the next
call counts exactly the ids that are stored or come twice, or raises and changes nothing, after at most
`max_retries` attempts. -/
theorem SQLiteTradeRepository.saveTradesBatch_idempotent (maxRetries : Int) {calls : List BatchCall}
    {call : BatchCall} (hcalls : ∀ earlier ∈ calls, earlier.Regular) (hcall : call.Regular) :
    (BatchCall.run calls (create maxRetries)).table =
        firsts TradeRecord.tradeId (BatchCall.successfulRows calls (create maxRetries)) ∧
      call.InsertsOnce (BatchCall.run calls (create maxRetries)) ∧
      ∃ made ≤ (max 1 maxRetries).toNat, call.Makes (BatchCall.run calls (create maxRetries)) made := by
  refine ⟨BatchCall.table_run hcalls (create maxRetries), hcall.insertsOnce _, ?_⟩
  have hmade := call.makes_perform (BatchCall.run calls (create maxRetries))
  rwa [BatchCall.maxRetries_run] at hmade

def savedTrade (tradeId : String) : TradeRecord where
  tradeId
  buyOrderId := 1
  sellOrderId := 2
  price := Binary64.ofInt 100
  quantity := 5
  notional := Binary64.ofInt 500
  timestampNs := 1000

/-- The first attempt inserts a row before it finds the database locked. -/
def lockedOnce (tradeIds : List String) : BatchCall where
  nowIso := "2026-01-01T00:00:00+00:00"
  attempts n := if n = 0 then .fails true false 1 else .commits
  trades := tradeIds.map savedTrade

theorem regular_lockedOnce (tradeIds : List String) : (lockedOnce tradeIds).Regular where
  bindable t ht := by
    obtain ⟨tradeId, -, rfl⟩ := List.mem_map.mp ht
    rfl
  storable t ht := by
    obtain ⟨tradeId, -, rfl⟩ := List.mem_map.mp ht
    exact ⟨rfl, rfl⟩
  rollsBack n transient stored counted hattempt := by
    simp only [lockedOnce] at hattempt
    split at hattempt
    · cases hattempt
      rfl
    · cases hattempt

theorem SQLiteTradeRepository.saveTradesBatch_idempotent_lockedOnce :
    (BatchCall.run [lockedOnce ["A", "A"]] (create 3)).table = firsts TradeRecord.tradeId
        (BatchCall.successfulRows [lockedOnce ["A", "A"]] (create 3)) ∧
      (lockedOnce ["B", "A", "B"]).InsertsOnce (BatchCall.run [lockedOnce ["A", "A"]] (create 3)) ∧
      ∃ made ≤ 3, (lockedOnce ["B", "A", "B"]).Makes (BatchCall.run [lockedOnce ["A", "A"]] (create 3)) made :=
  saveTradesBatch_idempotent 3 (by simp [regular_lockedOnce]) (regular_lockedOnce _)

example : ((lockedOnce ["B", "A", "B"]).perform
    (BatchCall.run [lockedOnce ["A", "A"]] (SQLiteTradeRepository.create 3))).1 = some (1, 2) := by decide

end ChronosMatch
