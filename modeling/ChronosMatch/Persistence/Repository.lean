import ChronosMatch.Base.FirstOccurrence
import ChronosMatch.Ipc.TradeQueue
import ChronosMatch.Persistence.Worker

/-!
# The SQLite ledger

`TradeRecord` and `SQLiteTradeRepository` of `src/persistence/repository.py`. The table is the list of its
rows by rowid. A transaction is atomic; what an attempt meets (a commit, a busy database, another error,
an error after the commit) is an input, and so are the readings of the clock. A NaN is stored as NULL,
which the NOT NULL columns make `INSERT OR IGNORE` skip.
-/

namespace ChronosMatch

structure TradeRecord where
  tradeId : String
  buyOrderId : Int
  sellOrderId : Int
  price : Binary64
  quantity : Int
  notional : Binary64
  timestampNs : Int
  symbol : String := "DEFAULT"
  createdAt : String := ""
  persistedAt : String := ""
deriving DecidableEq

namespace TradeRecord

/-- `__post_init__`, with the two readings of the clock. -/
def postInit (now : String × String) (t : TradeRecord) : TradeRecord :=
  { t with
    createdAt := if t.createdAt = "" then now.1 else t.createdAt
    persistedAt := if t.persistedAt = "" then now.2 else t.persistedAt
    notional := if t.notional ≤ Binary64.zero ∧ t.price > Binary64.zero ∧ t.quantity > 0
      then (t.price.mul (Binary64.ofInt t.quantity)).roundDecimal 4 else t.notional }

/-- Everything but the two times that the ledger adds. -/
def content (t : TradeRecord) : TradeRecord := { t with createdAt := "", persistedAt := "" }

/-- Can `sqlite3` bind the integers? It raises `OverflowError` outside the signed 64-bit range. -/
def bindable (t : TradeRecord) : Bool :=
  [t.buyOrderId, t.sellOrderId, t.quantity, t.timestampNs].all fun n => -2 ^ 63 ≤ n ∧ n < 2 ^ 63

end TradeRecord

/-- The record that the worker makes of an event. -/
def TradeEvent.toRecord (now : String × String) (ev : TradeEvent) : TradeRecord :=
  TradeRecord.postInit now {
    tradeId := ev.tradeId
    buyOrderId := ev.buyOrderId
    sellOrderId := ev.sellOrderId
    price := ev.price
    quantity := ev.quantity
    notional := ev.notional
    timestampNs := ev.timestampNs
    symbol := ev.symbol }

/-- What one attempt of a save meets. `counted` is what a transaction that is rolled back leaves in
`total_changes`. -/
inductive SaveAttempt
  | commits
  | fails (transient stored : Bool) (counted : Nat)

structure SQLiteTradeRepository where
  maxRetries : Nat
  maxRetries_pos : 1 ≤ maxRetries
  table : List TradeRecord := []
  totalChanges : Nat := 0

namespace SQLiteTradeRepository

/-- `__init__` on a fresh database -/
def create (maxRetries : Int) : SQLiteTradeRepository where
  maxRetries := (max 1 maxRetries).toNat
  maxRetries_pos := one_le_toNat_max _

def insertOrIgnore (table : List TradeRecord) (row : TradeRecord) : List TradeRecord :=
  if row.price.isNaN ∨ row.notional.isNaN then table else FirstOccurrence.keep TradeRecord.tradeId table row

/-- `executemany` in a transaction that commits. -/
def insertAll (rows : List TradeRecord) (r : SQLiteTradeRepository) : SQLiteTradeRepository :=
  let table := rows.foldl insertOrIgnore r.table
  { r with table, totalChanges := r.totalChanges + (table.length - r.table.length) }

/-- The attempts that are left of a save, from a certain one on. -/
def saveAttempts (rows : List TradeRecord) (attempts : Nat → SaveAttempt) :
    (left attempt : Nat) → SQLiteTradeRepository → Option (Nat × Nat) × SQLiteTradeRepository
  | 0, _, r => (none, r)
  | left + 1, attempt, r =>
      match attempts attempt with
      | .commits =>
          if rows.all TradeRecord.bindable then
            let changesBefore := r.totalChanges
            let r := r.insertAll rows
            let inserted := r.totalChanges - changesBefore
            (some (inserted, rows.length - inserted), r)
          else (none, r)
      | .fails transient stored counted =>
          let r := if stored && rows.all TradeRecord.bindable then r.insertAll rows
            else { r with totalChanges := r.totalChanges + counted }
          if transient then saveAttempts rows attempts left (attempt + 1) r else (none, r)

def saveTradesBatch (nowIso : String) (attempts : Nat → SaveAttempt) (trades : List TradeRecord)
    (r : SQLiteTradeRepository) : Option (Nat × Nat) × SQLiteTradeRepository :=
  if trades.isEmpty then (some (0, 0), r)
  else
    let rows := trades.map fun t => { t with
      createdAt := if t.createdAt = "" then nowIso else t.createdAt
      persistedAt := if t.persistedAt = "" then nowIso else t.persistedAt }
    saveAttempts rows attempts r.maxRetries 0 r

end SQLiteTradeRepository

/-- What a call from the worker meets: the clock while it makes the records and the rows, and the
attempts. -/
structure SaveCall where
  clock : Nat → String × String
  nowIso : String
  attempts : Nat → SaveAttempt

/-- The SQLite repository as the worker uses it. -/
def saveEvents : SaveTradesBatch SQLiteTradeRepository TradeEvent SaveCall := fun call batch r =>
  r.saveTradesBatch call.nowIso call.attempts (batch.mapIdx fun i ev => ev.toRecord (call.clock i))

/-! ### What a save stores -/

/-- The content of the record of an event. -/
def TradeEvent.content (ev : TradeEvent) : TradeRecord := (ev.toRecord ("", "")).content

/-- Does the ledger take the record of the event? -/
def TradeEvent.Storable (ev : TradeEvent) : Prop := ev.price.isNaN = false ∧ ev.notional.isNaN = false

/-- The record of an event without NaNs has none, also when it gets a notional of its own. -/
theorem TradeEvent.Storable.content {ev : TradeEvent} (h : ev.Storable) :
    ev.content.price.isNaN = false ∧ ev.content.notional.isNaN = false := by
  refine ⟨h.1, ?_⟩
  simp only [TradeEvent.content, toRecord, TradeRecord.postInit, TradeRecord.content]
  split
  · next hrecompute =>
      obtain ⟨-, hprice, hquantity⟩ := hrecompute
      have hpriceZero : ev.price.magnitude ≠ 0 := by
        intro hzero
        have hkey := ((Binary64.lt_def _ _).mp hprice).2.2
        rw [show Binary64.zero.key = 0 by decide, Binary64.key, hzero] at hkey
        simp at hkey
      exact Binary64.isNaN_roundDecimal (Binary64.isNaN_mul_of_ne_zero h.1 (Binary64.isNaN_ofInt _) hpriceZero
        (Binary64.magnitude_ofInt_ne_zero (by omega))) 4
  · exact h.2

namespace SQLiteTradeRepository

/-- The contents of the table, by rowid. -/
def contents (r : SQLiteTradeRepository) : List TradeRecord := r.table.map TradeRecord.content

/-- Does a row satisfy the NOT NULL constraints? -/
def notNull (row : TradeRecord) : Bool := !row.price.isNaN && !row.notional.isNaN

theorem foldl_insertOrIgnore (rows table : List TradeRecord) : rows.foldl insertOrIgnore table =
    FirstOccurrence.absorb TradeRecord.tradeId table (rows.filter notNull) := by
  induction rows generalizing table with
  | nil => rfl
  | cons row rows ih =>
      rw [List.foldl_cons, ih, insertOrIgnore, List.filter_cons]
      by_cases hnull : row.price.isNaN ∨ row.notional.isNaN
      · have : notNull row = false := by
          rcases hnull with h | h <;> simp [notNull, h]
        rw [if_pos hnull, this, if_neg Bool.false_ne_true]
      · have : notNull row = true := by simpa [notNull] using hnull
        rw [if_neg hnull, this, if_pos rfl, FirstOccurrence.absorb_cons]

theorem table_insertAll (rows : List TradeRecord) (r : SQLiteTradeRepository) : (r.insertAll rows).table =
    FirstOccurrence.absorb TradeRecord.tradeId r.table (rows.filter notNull) :=
  foldl_insertOrIgnore rows r.table

theorem table_insertAll_insertAll (rows : List TradeRecord) (r : SQLiteTradeRepository) :
    ((r.insertAll rows).insertAll rows).table = (r.insertAll rows).table := by
  rw [table_insertAll, table_insertAll, FirstOccurrence.absorb_absorb_self]

theorem length_table_insertAll (rows : List TradeRecord) (r : SQLiteTradeRepository) :
    (r.insertAll rows).table.length ≤ r.table.length + rows.length := by
  rw [table_insertAll]
  have h := (FirstOccurrence.sublist_absorb TradeRecord.tradeId r.table (rows.filter notNull)).length_le
  rw [List.length_append] at h
  have := List.length_filter_le notNull rows
  omega

theorem contents_insertAll {rows : List TradeRecord} {batch : List TradeEvent}
    (hcontent : rows.map TradeRecord.content = batch.map TradeEvent.content)
    (hstorable : ∀ ev ∈ batch, ev.Storable) (r : SQLiteTradeRepository) :
    (r.insertAll rows).contents =
      FirstOccurrence.absorb TradeRecord.tradeId r.contents (batch.map TradeEvent.content) := by
  have hrows : rows.filter notNull = rows := by
    refine List.filter_eq_self.mpr fun row hrow => ?_
    have hmem : row.content ∈ batch.map TradeEvent.content := hcontent ▸ List.mem_map_of_mem hrow
    obtain ⟨ev, hev, heq⟩ := List.mem_map.mp hmem
    obtain ⟨hprice, hnotional⟩ := (hstorable ev hev).content
    rw [heq] at hprice hnotional
    rw [notNull, show row.price.isNaN = false from hprice, show row.notional.isNaN = false from hnotional]
    rfl
  rw [contents, table_insertAll, hrows,
    FirstOccurrence.map_absorb TradeRecord.tradeId TradeRecord.tradeId TradeRecord.content (fun _ => rfl), hcontent,
    contents]

/-- What a save can do: raise with nothing stored, raise with the batch stored, or return with the batch
stored and every record counted once. -/
inductive SaveEffect (r : SQLiteTradeRepository) (rows : List TradeRecord) :
    Option (Nat × Nat) → SQLiteTradeRepository → Prop
  | raised {r' : SQLiteTradeRepository} (htable : r'.table = r.table) : SaveEffect r rows none r'
  | raisedAfterStoring {r' : SQLiteTradeRepository} (htable : r'.table = (r.insertAll rows).table) :
      SaveEffect r rows none r'
  | returned {r' : SQLiteTradeRepository} {inserted duplicates : Nat}
      (htable : r'.table = (r.insertAll rows).table) (hcount : inserted + duplicates = rows.length) :
      SaveEffect r rows (some (inserted, duplicates)) r'

/-- Only the table of the repository matters to what a save does to it. -/
theorem SaveEffect.of_table {r r' r'' : SQLiteTradeRepository} {rows : List TradeRecord}
    {result : Option (Nat × Nat)} (h : SaveEffect r' rows result r'')
    (htable : r'.table = r.table ∨ r'.table = (r.insertAll rows).table) : SaveEffect r rows result r'' := by
  have hinsert : (r'.insertAll rows).table = (r.insertAll rows).table := by
    rcases htable with heq | heq
    · rw [table_insertAll, table_insertAll, heq]
    · rw [table_insertAll, heq, ← table_insertAll, table_insertAll_insertAll]
  cases h with
  | raised hsame =>
      rcases htable with heq | heq
      · exact .raised (hsame.trans heq)
      · exact .raisedAfterStoring (hsame.trans heq)
  | raisedAfterStoring hstored => exact .raisedAfterStoring (hstored.trans hinsert)
  | returned hstored hcount => exact .returned (hstored.trans hinsert) hcount

theorem saveAttempts_effect (rows : List TradeRecord) (attempts : Nat → SaveAttempt) (left attempt : Nat)
    (r : SQLiteTradeRepository) : SaveEffect r rows (saveAttempts rows attempts left attempt r).1
      (saveAttempts rows attempts left attempt r).2 := by
  induction left generalizing attempt r with
  | zero => exact .raised rfl
  | succ left ih =>
      rw [saveAttempts]
      cases attempts attempt with
      | commits =>
          dsimp only
          split
          · refine .returned rfl ?_
            have := length_table_insertAll rows r
            simp only [insertAll] at this ⊢
            omega
          · exact .raised rfl
      | fails transient stored counted =>
          dsimp only
          have htable : ∀ r', (r' = if (stored && rows.all TradeRecord.bindable) = true then r.insertAll rows
              else { r with totalChanges := r.totalChanges + counted }) →
              r'.table = r.table ∨ r'.table = (r.insertAll rows).table := by
            rintro r' rfl
            split
            · exact .inr rfl
            · exact .inl rfl
          generalize (if (stored && rows.all TradeRecord.bindable) = true then r.insertAll rows
            else { r with totalChanges := r.totalChanges + counted }) = r' at htable
          split
          · exact (ih (attempt + 1) r').of_table (htable r' rfl)
          · rcases htable r' rfl with heq | heq
            · exact .raised heq
            · exact .raisedAfterStoring heq

/-- Every attempt that fails is rolled back. -/
def RollsBack (attempts : Nat → SaveAttempt) : Prop :=
  ∀ n transient stored counted, attempts n = .fails transient stored counted → stored = false

/-- Where failed attempts are rolled back, a save that raises stores nothing, and one that returns says
how many rows it added. -/
theorem saveAttempts_rollsBack (rows : List TradeRecord) {attempts : Nat → SaveAttempt}
    (hrollback : RollsBack attempts) (left attempt : Nat) (r : SQLiteTradeRepository) :
    ((saveAttempts rows attempts left attempt r).1 = none ∧
        (saveAttempts rows attempts left attempt r).2.table = r.table) ∨
      ((saveAttempts rows attempts left attempt r).2.table = (r.insertAll rows).table ∧
        (saveAttempts rows attempts left attempt r).1 = some ((r.insertAll rows).table.length - r.table.length,
          rows.length - ((r.insertAll rows).table.length - r.table.length))) := by
  induction left generalizing attempt r with
  | zero => exact .inl ⟨rfl, rfl⟩
  | succ left ih =>
      rw [saveAttempts]
      cases hattempt : attempts attempt with
      | commits =>
          dsimp only
          split
          · have hchanges : (r.insertAll rows).totalChanges - r.totalChanges =
                (r.insertAll rows).table.length - r.table.length := by
              rw [insertAll, Nat.add_sub_cancel_left]
            exact .inr ⟨rfl, by rw [hchanges]⟩
          · exact .inl ⟨rfl, rfl⟩
      | fails transient stored counted =>
          obtain rfl := hrollback attempt transient stored counted hattempt
          dsimp only
          rw [Bool.false_and, if_neg Bool.false_ne_true]
          split
          · exact ih (attempt + 1) { r with totalChanges := r.totalChanges + counted }
          · exact .inl ⟨rfl, rfl⟩

end SQLiteTradeRepository

end ChronosMatch
