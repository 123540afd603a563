import ChronosMatch.Base.Transition
import ChronosMatch.Persistence.ReadBack

/-!
# Reading the ledger while it grows

`get_trade_count`, `get_latest_trades`, `query_aggregate_stats`, and a reader that pages through the table with
`get_trades` while others save. `INSERT OR IGNORE` only appends, so an offset keeps its meaning: the pages join to
a prefix of the table, and a page that is not full reaches its end.

How the database adds up a column of doubles depends on its version, and is a parameter: a function of the values
in the order of the rows, which gives `NULL` where there are none or where the sum is not a number.
-/

namespace ChronosMatch

open FirstOccurrence

/-! ### The queries -/

structure AggregateStats where
  tradeCount : Nat
  totalVolume : Int
  totalNotional : Binary64
  vwap : Binary64

namespace SQLiteTradeRepository

def getTradeCount (r : SQLiteTradeRepository) : Nat := r.table.length

/-- `ORDER BY rowid DESC LIMIT ?` -/
def selectLatest (limit : Int) (r : SQLiteTradeRepository) : List TradeRecord :=
  let rows := r.table.reverse
  if limit < 0 then rows else rows.take limit.toNat

/-- `get_latest_trades`, or `none` when the limit cannot be bound. -/
def getLatestTrades (clock : Nat → String × String) (limit : Int) (r : SQLiteTradeRepository) :
    Option (List TradeRecord) :=
  if -2 ^ 63 ≤ limit ∧ limit < 2 ^ 63 then
    some ((r.selectLatest limit).mapIdx fun i row => row.postInit (clock i)).reverse
  else none

/-- `SUM` of integers, which raises where a sum on the way does not fit in 64 bits. -/
def sumIntegers (ns : List Int) : Option Int :=
  ns.foldlM (fun total n => if -2 ^ 63 ≤ total + n ∧ total + n < 2 ^ 63 then some (total + n) else none) 0

/-- `query_aggregate_stats`, or `none` when the sum of the quantities raises. -/
def queryAggregateStats (sumReals : List Binary64 → Option Binary64) (r : SQLiteTradeRepository) :
    Option AggregateStats :=
  (sumIntegers (r.table.map (·.quantity))).map fun volume =>
    let notional := (sumReals (r.table.map (·.notional))).getD Binary64.zero
    { tradeCount := r.getTradeCount
      totalVolume := volume
      totalNotional := notional
      vwap := if 0 < volume then notional / Binary64.ofInt volume else Binary64.zero }

end SQLiteTradeRepository

/-! ### A reader -/

/-- The repository with a reader of its pages. `caughtUp` says that the last page was not full and nothing was saved
since. -/
structure LedgerReader where
  repository : SQLiteTradeRepository
  records : List TradeRecord := []
  caughtUp : Bool := false

/-- A save gives the arguments of the records that it constructs, each with the readings of the clock. -/
inductive LedgerAction
  | save (nowIso : String) (attempts : Nat → SaveAttempt) (trades : List (TradeRecord × (String × String)))
  | page (clock : Nat → String × String) (limit : Int)

namespace LedgerReader

/-- The next page, from the records on that were read. -/
def page (clock : Nat → String × String) (limit : Int) (s : LedgerReader) : LedgerReader :=
  match s.repository.getTrades clock limit s.records.length with
  | none => s
  | some page =>
      { s with
        records := s.records ++ page
        caughtUp := decide (limit < 0 ∨ (page.length : Int) < limit) }

def step : LedgerAction → LedgerReader → Option LedgerReader
  | .save nowIso attempts trades, s =>
      let records := trades.map fun trade => trade.1.postInit trade.2
      some { s with
        repository := (s.repository.saveTradesBatch nowIso attempts records).2
        caughtUp := false }
  | .page clock limit, s => some (s.page clock limit)

/-- The clock reads no empty text. -/
def ReadsTimes : LedgerAction → Prop
  | .save _ _ trades => ∀ trade ∈ trades, trade.2.1 ≠ "" ∧ trade.2.2 ≠ ""
  | .page _ _ => True

end LedgerReader

/-! ### Rows that are read as they are -/

namespace TradeRecord

/-- A record made again of the row is the row. -/
def Settled (t : TradeRecord) : Prop := ∀ now, t.postInit now = t

theorem settled_postInit {now : String × String} (hfirst : now.1 ≠ "") (hsecond : now.2 ≠ "") (t : TradeRecord) :
    (t.postInit now).Settled := by
  intro later
  have hcontent := content_postInit_postInit now later t
  have hcreated : (t.postInit now).createdAt ≠ "" := by
    rw [postInit]
    dsimp only
    split
    · exact hfirst
    · assumption
  have hpersisted : (t.postInit now).persistedAt ≠ "" := by
    rw [postInit]
    dsimp only
    split
    · exact hsecond
    · assumption
  generalize t.postInit now = u at hcontent hcreated hpersisted
  cases u
  simp only [postInit, content, TradeRecord.mk.injEq, and_true, true_and] at hcontent hcreated hpersisted ⊢
  exact ⟨hcontent, if_neg hcreated, if_neg hpersisted⟩

theorem Settled.createdAt {t : TradeRecord} (h : t.Settled) : t.createdAt ≠ "" ∧ t.persistedAt ≠ "" := by
  have hnow := h ("a", "a")
  constructor
  · intro hempty
    have heq := congrArg TradeRecord.createdAt hnow
    simp [postInit, hempty] at heq
  · intro hempty
    have heq := congrArg TradeRecord.persistedAt hnow
    simp [postInit, hempty] at heq

end TradeRecord

theorem mapIdx_postInit {rows : List TradeRecord} (h : ∀ row ∈ rows, row.Settled) (clock : Nat → String × String) :
    (rows.mapIdx fun i row => row.postInit (clock i)) = rows := by
  apply List.ext_getElem
  · rw [List.length_mapIdx]
  · intro n hn hn'
    rw [List.getElem_mapIdx]
    exact h _ (List.getElem_mem hn') (clock n)

/-! ### Saving only appends -/

theorem forall_prefix_cons {α : Type} {p : List α → Prop} {x : α} {xs : List α} :
    (∀ front, front <+: x :: xs → p front) ↔ p [] ∧ ∀ front, front <+: xs → p (x :: front) := by
  constructor
  · intro h
    exact ⟨h [] List.nil_prefix, fun front hfront => h (x :: front) (List.cons_prefix_cons.mpr ⟨rfl, hfront⟩)⟩
  · rintro ⟨hnil, hcons⟩ front hfront
    rcases List.prefix_cons_iff.mp hfront with rfl | ⟨rest, rfl, hrest⟩
    · exact hnil
    · exact hcons rest hrest

namespace SQLiteTradeRepository

theorem table_insertAll_append (rows : List TradeRecord) (r : SQLiteTradeRepository) :
    ∃ new, (r.insertAll rows).table = r.table ++ new ∧ ∀ row ∈ new, row ∈ rows := by
  rw [table_insertAll]
  obtain ⟨new, hnew⟩ := prefix_absorb TradeRecord.tradeId r.table (rows.filter notNull)
  refine ⟨new, hnew.symm, ?_⟩
  intro row hrow
  have hsublist := sublist_absorb TradeRecord.tradeId r.table (rows.filter notNull)
  rw [← hnew, List.append_sublist_append_left] at hsublist
  exact List.mem_of_mem_filter (hsublist.subset hrow)

/-- Whatever a save meets, it appends some of its records. -/
theorem table_saveTradesBatch (nowIso : String) (attempts : Nat → SaveAttempt) {trades : List TradeRecord}
    (hsettled : ∀ t ∈ trades, t.Settled) (r : SQLiteTradeRepository) :
    ∃ new, (r.saveTradesBatch nowIso attempts trades).2.table = r.table ++ new ∧ ∀ row ∈ new, row ∈ trades := by
  have hrows : (trades.map fun t => { t with
      createdAt := if t.createdAt = "" then nowIso else t.createdAt
      persistedAt := if t.persistedAt = "" then nowIso else t.persistedAt }) = trades := by
    conv_rhs => rw [← List.map_id trades]
    apply List.map_congr_left
    intro t ht
    obtain ⟨hcreated, hpersisted⟩ := (hsettled t ht).createdAt
    rw [if_neg hcreated, if_neg hpersisted]
    rfl
  rw [saveTradesBatch, hrows]
  split
  · exact ⟨[], (List.append_nil _).symm, by simp⟩
  · rcases hsave : saveAttempts trades attempts r.maxRetries 0 r with ⟨result, r'⟩
    have heffect := saveAttempts_effect trades attempts r.maxRetries 0 r
    rw [hsave] at heffect
    cases heffect with
    | raised htable => exact ⟨[], by rw [htable, List.append_nil], by simp⟩
    | raisedAfterStoring htable =>
        rw [htable]
        exact table_insertAll_append trades r
    | returned htable =>
        rw [htable]
        exact table_insertAll_append trades r

theorem nodup_saveTradesBatch (nowIso : String) (attempts : Nat → SaveAttempt) (trades : List TradeRecord)
    {r : SQLiteTradeRepository} (h : (r.table.map TradeRecord.tradeId).Nodup) :
    ((r.saveTradesBatch nowIso attempts trades).2.table.map TradeRecord.tradeId).Nodup := by
  rw [saveTradesBatch]
  split
  · exact h
  · generalize (trades.map fun t => { t with
      createdAt := if t.createdAt = "" then nowIso else t.createdAt
      persistedAt := if t.persistedAt = "" then nowIso else t.persistedAt }) = rows
    have heffect := saveAttempts_effect rows attempts r.maxRetries 0 r
    have hinserted : ((r.insertAll rows).table.map TradeRecord.tradeId).Nodup := by
      rw [table_insertAll]
      exact nodup_absorb TradeRecord.tradeId h _
    cases hresult : (saveAttempts rows attempts r.maxRetries 0 r).1 with
    | none =>
        rw [hresult] at heffect
        cases heffect with
        | raised htable => rwa [htable]
        | raisedAfterStoring htable => rwa [htable]
    | some counts =>
        rw [hresult] at heffect
        cases heffect with
        | returned htable => rwa [htable]

theorem getLatestTrades_eq {r : SQLiteTradeRepository} (hsettled : ∀ row ∈ r.table, row.Settled)
    (clock : Nat → String × String) {limit : Int} (hlimit : 0 ≤ limit) (hbound : limit < 2 ^ 63) :
    r.getLatestTrades clock limit = some (r.table.drop (r.table.length - limit.toNat)) := by
  have hlatest : r.selectLatest limit = (r.table.drop (r.table.length - limit.toNat)).reverse := by
    rw [selectLatest, if_neg (by omega), List.take_reverse]
  have hrows : ∀ row ∈ (r.table.drop (r.table.length - limit.toNat)).reverse, row.Settled := by
    intro row hrow
    exact hsettled row (List.mem_of_mem_drop (List.mem_reverse.mp hrow))
  rw [getLatestTrades, if_pos ⟨by omega, hbound⟩, hlatest, mapIdx_postInit hrows, List.reverse_reverse]

/-- No sum on the way leaves the range of 64 bits. -/
def SumsFit (ns : List Int) : Prop := ∀ front, front <+: ns → -2 ^ 63 ≤ front.sum ∧ front.sum < 2 ^ 63

/-- The sum is there exactly if it can be reached. -/
theorem sumIntegers_eq_some_iff {ns : List Int} {total : Int} :
    sumIntegers ns = some total ↔ SumsFit ns ∧ total = ns.sum := by
  have hfold : ∀ (ns : List Int) (start : Int), -2 ^ 63 ≤ start ∧ start < 2 ^ 63 → (ns.foldlM (fun total n =>
      if -2 ^ 63 ≤ total + n ∧ total + n < 2 ^ 63 then some (total + n) else none) start = some total ↔
        (∀ front, front <+: ns → -2 ^ 63 ≤ start + front.sum ∧ start + front.sum < 2 ^ 63) ∧
          total = start + ns.sum) := by
    intro ns
    induction ns with
    | nil =>
        intro start hstart
        simp only [List.foldlM_nil, List.prefix_nil, forall_eq, List.sum_nil, add_zero, hstart, true_and]
        exact ⟨fun h => (Option.some.inj h).symm, fun h => congrArg some h.symm⟩
    | cons n ns ih =>
        intro start hstart
        simp only [List.foldlM_cons, forall_prefix_cons, List.sum_nil, List.sum_cons, add_zero, ← add_assoc, hstart,
          true_and]
        split
        · next hfits => exact ih _ hfits
        · next hover =>
            refine iff_of_false (by simp) fun h => hover ?_
            have hfirst := h.1 [] List.nil_prefix
            rwa [List.sum_nil, add_zero] at hfirst
  have hzero := hfold ns 0 (by decide)
  simp only [zero_add] at hzero
  exact hzero

end SQLiteTradeRepository

/-- A trade of 5 at 100. -/
def tradeRecord (tradeId : String) : TradeRecord where
  tradeId := tradeId
  buyOrderId := 1
  sellOrderId := 2
  price := Binary64.ofInt 100
  quantity := 5
  notional := Binary64.zero
  timestampNs := 7

/-! ### The reader -/

namespace LedgerReader

/-- The statistics of the records that were read. -/
structure Describes (sumReals : List Binary64 → Option Binary64) (stats : AggregateStats)
    (records : List TradeRecord) : Prop where
  tradeCount : stats.tradeCount = records.length
  totalVolume : stats.totalVolume = (records.map (·.quantity)).sum
  totalNotional : stats.totalNotional = (sumReals (records.map (·.notional))).getD Binary64.zero
  vwap : stats.vwap = if 0 < stats.totalVolume
    then stats.totalNotional / Binary64.ofInt stats.totalVolume else Binary64.zero

/-- What the reader has, and what the queries say. -/
structure Faithful (sumReals : List Binary64 → Option Binary64) (s : LedgerReader) : Prop where
  read : s.records <+: s.repository.table
  once : (s.records.map TradeRecord.tradeId).Nodup
  caughtUp : s.caughtUp = true → s.records = s.repository.table ∧
    s.repository.getTradeCount = s.records.length ∧
    ∀ stats, s.repository.queryAggregateStats sumReals = some stats ↔
      SQLiteTradeRepository.SumsFit (s.records.map (·.quantity)) ∧ Describes sumReals stats s.records
  latest : ∀ clock (limit : Int), 0 ≤ limit → limit < 2 ^ 63 → s.repository.getLatestTrades clock limit =
    some (s.repository.table.drop (s.repository.getTradeCount - limit.toNat))

structure Inv (s : LedgerReader) : Prop where
  read : s.records <+: s.repository.table
  settled : ∀ row ∈ s.repository.table, row.Settled
  ids : (s.repository.table.map TradeRecord.tradeId).Nodup
  caughtUp : s.caughtUp = true → s.records = s.repository.table

theorem queryAggregateStats_eq_some_iff (sumReals : List Binary64 → Option Binary64) (r : SQLiteTradeRepository)
    (stats : AggregateStats) : r.queryAggregateStats sumReals = some stats ↔
      SQLiteTradeRepository.SumsFit (r.table.map (·.quantity)) ∧ Describes sumReals stats r.table := by
  rw [SQLiteTradeRepository.queryAggregateStats, Option.map_eq_some_iff]
  constructor
  · rintro ⟨volume, hvolume, rfl⟩
    obtain ⟨hfit, rfl⟩ := SQLiteTradeRepository.sumIntegers_eq_some_iff.mp hvolume
    exact ⟨hfit, rfl, rfl, rfl, rfl⟩
  · rintro ⟨hfit, hstats⟩
    refine ⟨_, SQLiteTradeRepository.sumIntegers_eq_some_iff.mpr ⟨hfit, rfl⟩, ?_⟩
    obtain ⟨tradeCount, totalVolume, totalNotional, vwap⟩ := stats
    obtain ⟨rfl, rfl, rfl, hvwap⟩ := hstats
    dsimp only at hvwap
    rw [hvwap]
    rfl

theorem Inv.faithful {s : LedgerReader} (h : s.Inv) (sumReals : List Binary64 → Option Binary64) :
    s.Faithful sumReals where
  read := h.read
  once := (h.read.sublist.map _).nodup h.ids
  caughtUp := by
    intro hcaughtUp
    have heq := h.caughtUp hcaughtUp
    refine ⟨heq, by rw [heq]; rfl, ?_⟩
    rw [heq]
    exact queryAggregateStats_eq_some_iff sumReals s.repository
  latest := fun clock limit => SQLiteTradeRepository.getLatestTrades_eq h.settled clock

theorem Inv.save {s : LedgerReader} (h : s.Inv) (nowIso : String) (attempts : Nat → SaveAttempt)
    {trades : List (TradeRecord × (String × String))} (htimes : ReadsTimes (.save nowIso attempts trades)) :
    Inv { s with
      repository := (s.repository.saveTradesBatch nowIso attempts
        (trades.map fun trade => trade.1.postInit trade.2)).2
      caughtUp := false } := by
  have hsettled : ∀ t ∈ trades.map fun trade => trade.1.postInit trade.2, t.Settled := by
    intro t ht
    obtain ⟨trade, htrade, rfl⟩ := List.mem_map.mp ht
    obtain ⟨hfirst, hsecond⟩ := htimes trade htrade
    exact TradeRecord.settled_postInit hfirst hsecond trade.1
  obtain ⟨new, htable, hnew⟩ := SQLiteTradeRepository.table_saveTradesBatch nowIso attempts hsettled s.repository
  refine ⟨?_, ?_, SQLiteTradeRepository.nodup_saveTradesBatch nowIso attempts _ h.ids, fun hfalse => by cases hfalse⟩
  · rw [htable]
    exact h.read.trans (List.prefix_append _ _)
  · intro row hrow
    rw [htable] at hrow
    rcases List.mem_append.mp hrow with hold | hrow
    · exact h.settled row hold
    · exact hsettled row (hnew row hrow)

theorem Inv.getTrades {s : LedgerReader} (h : s.Inv) {clock : Nat → String × String} {limit : Int}
    {page : List TradeRecord} (hpage : s.repository.getTrades clock limit s.records.length = some page) :
    page = if limit < 0 then s.repository.table.drop s.records.length
      else (s.repository.table.drop s.records.length).take limit.toNat := by
  rw [SQLiteTradeRepository.getTrades] at hpage
  split at hpage
  · have hrows : s.repository.selectRows limit s.records.length = if limit < 0
        then s.repository.table.drop s.records.length
        else (s.repository.table.drop s.records.length).take limit.toNat := rfl
    have hsettled : ∀ row ∈ s.repository.selectRows limit s.records.length, row.Settled := by
      intro row hrow
      rw [hrows] at hrow
      split at hrow
      · exact h.settled row (List.mem_of_mem_drop hrow)
      · exact h.settled row (List.mem_of_mem_drop (List.mem_of_mem_take hrow))
    rw [mapIdx_postInit hsettled, hrows] at hpage
    exact (Option.some.inj hpage).symm
  · cases hpage

theorem Inv.page {s : LedgerReader} (h : s.Inv) (clock : Nat → String × String) (limit : Int) :
    (s.page clock limit).Inv := by
  obtain ⟨rest, hrest⟩ := h.read
  have hdrop : s.repository.table.drop s.records.length = rest := by
    rw [← hrest, List.drop_left]
  rw [LedgerReader.page]
  split
  · exact h
  · next page hpage =>
      have hrows := h.getTrades hpage
      rw [hdrop] at hrows
      refine ⟨?_, h.settled, h.ids, ?_⟩
      · have hprefix : page <+: rest := by
          rw [hrows]
          split
          · exact List.prefix_rfl
          · exact List.take_prefix _ _
        dsimp only
        rw [← hrest]
        exact List.prefix_append_right_inj _ |>.mpr hprefix
      · intro hcaughtUp
        have hshort : limit < 0 ∨ (page.length : Int) < limit := of_decide_eq_true hcaughtUp
        have hwhole : page = rest := by
          rcases hshort with hall | hshort
          · rw [hrows, if_pos hall]
          · rw [if_neg (by omega)] at hrows
            rw [hrows, List.length_take] at hshort
            rw [hrows]
            exact List.take_of_length_le (by omega)
        dsimp only
        rw [hwhole, hrest]

theorem Inv.step {s s' : LedgerReader} (h : s.Inv) {action : LedgerAction} (htimes : ReadsTimes action)
    (hstep : step action s = some s') : s'.Inv := by
  cases action with
  | save nowIso attempts trades =>
      cases hstep
      exact h.save nowIso attempts htimes
  | page clock limit =>
      cases hstep
      exact h.page clock limit

/-- However saves and pages interleave, and whatever the saves meet: the reader has the first rows of the table,
each trade once and in the order in which it was stored, and after a page that is not full it has them all. -/
theorem reader_faithful (sumReals : List Binary64 → Option Binary64) {maxRetries : Int}
    {actions : List LedgerAction} {s : LedgerReader} (htimes : ∀ action ∈ actions, ReadsTimes action)
    (hrun : Transition.run step actions ⟨.create maxRetries, [], false⟩ = some s) : s.Faithful sumReals := by
  refine Inv.faithful (Transition.invariant_throughout (fun htimes hstep hinv => Inv.step hinv htimes hstep) hrun
    (Transition.Throughout.of_forall htimes _) ?_) sumReals
  exact ⟨List.prefix_rfl, fun row hrow => (by cases hrow), List.nodup_nil, fun hfalse => by cases hfalse⟩

/-- A sum that is rounded after each value. -/
def addInOrder : List Binary64 → Option Binary64
  | [] => none
  | x :: xs =>
      let sum := xs.foldl (· + ·) x
      if sum.isNaN then none else some sum

/-- A page, a save that fails after it has stored one new trade, and another page. -/
def twoPages : List LedgerAction :=
  [.save "n" (fun _ => .commits) [(tradeRecord "a", ("t", "t"))], .page (fun _ => ("u", "u")) 1,
    .save "n" (fun _ => .fails false true 0) [(tradeRecord "b", ("t", "t")), (tradeRecord "a", ("t", "t"))],
    .page (fun _ => ("u", "u")) 2]

theorem reader_faithful_twoPages : ∃ s, Transition.run step twoPages ⟨.create 3, [], false⟩ = some s ∧
    s.records.map TradeRecord.tradeId = ["a", "b"] ∧ s.caughtUp = true ∧ s.Faithful addInOrder := by
  have hread : (Transition.run step twoPages ⟨.create 3, [], false⟩).map
      (fun s => (s.records.map TradeRecord.tradeId, s.caughtUp)) = some (["a", "b"], true) := by decide +kernel
  obtain ⟨s, hrun, hs⟩ := Option.map_eq_some_iff.mp hread
  have htimes : ∀ action ∈ twoPages, ReadsTimes action := by
    intro action haction
    simp only [twoPages, List.mem_cons, List.not_mem_nil, or_false] at haction
    rcases haction with rfl | rfl | rfl | rfl <;> simp [ReadsTimes]
  exact ⟨s, hrun, (Prod.ext_iff.mp hs).1, (Prod.ext_iff.mp hs).2, reader_faithful addInOrder htimes hrun⟩

end LedgerReader

end ChronosMatch
