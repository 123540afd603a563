import ChronosMatch.Persistence.Rollback

/-!
# What is read back from the ledger

A trade goes from a dict to an event, a record and a row, and `get_trades` makes a record of the row again.
Nothing is lost on the way but for the integers: they are documented as unsigned 64-bit, and SQLite binds the
signed ones. A batch with a trade above them is not stored at all.
-/

namespace ChronosMatch

/-! ### From a dict to an event -/

/-- A dict that `from_engine_dict` is given. A key that it does not have is `none`. -/
structure EngineDict where
  tradeId : Option String := none
  buyId : Option Int := none
  sellId : Option Int := none
  price : Option Binary64 := none
  qty : Option Int := none
  quantity : Option Int := none
  notional : Option Binary64 := none
  timestampNs : Option Int := none
  timestamp : Option Int := none
  symbol : Option String := none

/-- `from_engine_dict` on any dict. -/
def TradeEvent.ofEngineDict (now : Int) (data : EngineDict) (sequence : Int) : TradeEvent :=
  let buyId := data.buyId.getD 0
  let sellId := data.sellId.getD 0
  let price := data.price.getD Binary64.zero
  let qty := (data.qty <|> data.quantity).getD 0
  let ts := (data.timestampNs <|> data.timestamp).getD now
  { tradeId := (data.tradeId.filter (· ≠ "")).getD s!"TRD_{buyId}_{sellId}_{ts}_{sequence}"
    buyOrderId := buyId
    sellOrderId := sellId
    price
    quantity := qty
    notional := data.notional.getD (price.mul (Binary64.ofInt qty))
    timestampNs := ts
    symbol := data.symbol.getD "DEFAULT" }

/-- The keys of a dict of `get_trades`. -/
def TradeDict.toEngineDict (data : TradeDict) : EngineDict :=
  { buyId := data.buyId, sellId := data.sellId, price := data.price, qty := data.qty }

theorem TradeEvent.ofEngineDict_toEngineDict (now : Int) (data : TradeDict) (sequence : Nat) :
    ofEngineDict now data.toEngineDict sequence = fromEngineDict now data sequence := rfl

namespace TradeEvent

def integers (ev : TradeEvent) : List Int := [ev.buyOrderId, ev.sellOrderId, ev.quantity, ev.timestampNs]

/-- An event as the schema documents it. -/
structure Documented (ev : TradeEvent) : Prop where
  integers : ∀ n ∈ ev.integers, 0 ≤ n ∧ n < 2 ^ 64
  price : ev.price.isFinite = true ∧ Binary64.zero < ev.price
  notional : ev.notional = ev.price.mul (Binary64.ofInt ev.quantity)

/-- The order ids, the quantity and the timestamp are below the signed limit. -/
def FitsSigned (ev : TradeEvent) : Prop := ∀ n ∈ ev.integers, n < 2 ^ 63

end TradeEvent

/-! ### Reading -/

namespace SQLiteTradeRepository

/-- `ORDER BY rowid ASC LIMIT ? OFFSET ?`. A negative limit is no limit, and a negative offset none. -/
def selectRows (limit offset : Int) (r : SQLiteTradeRepository) : List TradeRecord :=
  let rows := r.table.drop offset.toNat
  if limit < 0 then rows else rows.take limit.toNat

/-- `get_trades`, or `none` when a bound cannot be bound. -/
def getTrades (clock : Nat → String × String) (limit offset : Int) (r : SQLiteTradeRepository) :
    Option (List TradeRecord) :=
  if [limit, offset].all fun n => -2 ^ 63 ≤ n ∧ n < 2 ^ 63 then
    some ((r.selectRows limit offset).mapIdx fun i row => row.postInit (clock i))
  else none

end SQLiteTradeRepository

/-- The events of a batch of dicts, each with the reading of the clock and its number. -/
def eventsOf (batch : List (Int × EngineDict × Int)) : List TradeEvent :=
  batch.map fun (now, data, sequence) => TradeEvent.ofEngineDict now data sequence

/-- The batch is saved whole, and `get_trades` over the table ends with its records. -/
def StoredAndReadBack (call : SaveCall) (batch : List (Int × EngineDict × Int)) (r : SQLiteTradeRepository) : Prop :=
  let records := (eventsOf batch).mapIdx fun i ev => ev.toRecord (call.clock i)
  let saved := r.saveTradesBatch call.nowIso call.attempts records
  saved.1 = some (batch.length, 0) ∧
    ∀ clock (limit : Int), saved.2.table.length ≤ limit → limit < 2 ^ 63 → ∃ before read,
      saved.2.getTrades clock limit 0 = some (before ++ read) ∧ before.length = r.table.length ∧
        read.map TradeRecord.content = records.map TradeRecord.content

/-! ### The contents of a record -/

namespace TradeRecord

/-- What a record is made again of does not depend on the times in it. -/
theorem content_postInit_congr {t u : TradeRecord} (h : t.content = u.content) (now now' : String × String) :
    (t.postInit now).content = (u.postInit now').content := by
  cases t
  cases u
  simp only [content, TradeRecord.mk.injEq, and_true] at h
  obtain ⟨rfl, rfl, rfl, rfl, rfl, rfl, rfl, rfl⟩ := h
  rfl

/-- A record made again of a record is the same: a notional that is recomputed is the one it had. -/
theorem content_postInit_postInit (now now' : String × String) (t : TradeRecord) :
    ((t.postInit now).postInit now').content = (t.postInit now).content := by
  simp only [content, postInit, TradeRecord.mk.injEq, and_true, true_and]
  split
  · split
    · rfl
    · rfl
  · rfl

end TradeRecord

theorem TradeEvent.content_toRecord (now : String × String) (ev : TradeEvent) :
    (ev.toRecord now).content = ev.content :=
  TradeRecord.content_postInit_congr rfl now ("", "")

theorem TradeEvent.content_postInit {row : TradeRecord} {ev : TradeEvent} (h : row.content = ev.content)
    (now : String × String) : (row.postInit now).content = ev.content := by
  rw [TradeRecord.content_postInit_congr h now now]
  exact TradeRecord.content_postInit_postInit _ _ _

namespace TradeEvent

variable {ev : TradeEvent}

theorem Documented.storable (h : ev.Documented) : ev.Storable := by
  refine ⟨Binary64.isNaN_of_isFinite h.price.1, ?_⟩
  rw [h.notional]
  exact Price.isNaN_mul_ofInt ⟨ev.price, h.price.1, Binary64.not_le_of_lt h.price.2⟩ ev.quantity

theorem Documented.bindable_iff (h : ev.Documented) : ev.content.bindable = true ↔ ev.FitsSigned := by
  rw [TradeRecord.bindable, List.all_eq_true]
  apply forall₂_congr
  intro n hn
  have := (h.integers n hn).1
  simp only [decide_eq_true_eq]
  omega

end TradeEvent

/-! ### Saving -/

/-- Where every attempt commits, a save returns if all of its rows can be bound, and else raises. -/
theorem saveEvents_isSome_iff {call : SaveCall} (hhealthy : ∀ n, call.attempts n = .commits) (events : List TradeEvent)
    (r : SQLiteTradeRepository) :
    (saveEvents call events r).1.isSome ↔ ∀ ev ∈ events, ev.content.bindable = true := by
  by_cases hevents : events = []
  · rw [hevents]
    exact iff_of_true rfl (fun ev hev => by cases hev)
  · obtain ⟨rows, hrows, hsave⟩ := saveEvents_eq call hevents r
    have hall : rows.all TradeRecord.bindable = true ↔ ∀ ev ∈ events, ev.content.bindable = true := by
      have hsame : rows.all TradeRecord.bindable = (events.map TradeEvent.content).all TradeRecord.bindable := by
        rw [← hrows, List.all_map]
        rfl
      rw [hsame, List.all_map, List.all_eq_true]
      rfl
    obtain ⟨left, hleft⟩ := Nat.exists_eq_add_of_le' r.maxRetries_pos
    rw [hsave, hleft, SQLiteTradeRepository.saveAttempts, hhealthy, ← hall]
    dsimp only
    split
    · next hbindable => simp [hbindable]
    · next hunbindable => simp [hunbindable]

theorem rollsBack_of_commits {attempts : Nat → SaveAttempt} (h : ∀ n, attempts n = .commits) :
    SQLiteTradeRepository.RollsBack attempts := by
  intro n transient stored counted hfails
  rw [h] at hfails
  cases hfails

/-! ### Both ways -/

theorem SQLiteTradeRepository.getTrades_whole (clock : Nat → String × String) {limit : Int}
    {r : SQLiteTradeRepository} (hlimit : (r.table.length : Int) ≤ limit) (hbound : limit < 2 ^ 63) :
    r.getTrades clock limit 0 = some (r.table.mapIdx fun i row => row.postInit (clock i)) := by
  have hrows : r.selectRows limit 0 = r.table := by
    rw [selectRows, if_neg (by omega), Int.toNat_zero, List.drop_zero]
    exact List.take_of_length_le (by omega)
  rw [getTrades, hrows, if_pos]
  simp
  omega

theorem content_records (clock : Nat → String × String) (events : List TradeEvent) :
    (events.mapIdx fun i ev => ev.toRecord (clock i)).map TradeRecord.content = events.map TradeEvent.content := by
  apply List.ext_getElem
  · rw [List.length_map, List.length_mapIdx, List.length_map]
  · intro n hn hn'
    rw [List.getElem_map, List.getElem_mapIdx, List.getElem_map]
    exact TradeEvent.content_toRecord _ _

theorem content_reread {rows : List TradeRecord} {events : List TradeEvent}
    (h : rows.map TradeRecord.content = events.map TradeEvent.content) (clock : Nat → String × String) :
    (rows.mapIdx fun i row => row.postInit (clock i)).map TradeRecord.content = events.map TradeEvent.content := by
  have hlength : rows.length = events.length := by
    have hlengths := congrArg List.length h
    rwa [List.length_map, List.length_map] at hlengths
  apply List.ext_getElem
  · rw [List.length_map, List.length_mapIdx, List.length_map, hlength]
  · intro n hn hn'
    rw [List.length_map] at hn hn'
    rw [List.length_mapIdx] at hn
    have hrow : rows[n].content = events[n].content := by
      have hget := congrArg (fun l => l[n]?) h
      simpa [List.getElem?_eq_getElem hn, List.getElem?_eq_getElem hn'] using hget
    rw [List.getElem_map, List.getElem_mapIdx, List.getElem_map]
    exact TradeEvent.content_postInit hrow (clock n)

/-- A batch that the ledger does not know is stored and read back if and only if its order ids, quantities and
timestamps are below the signed limit. -/
theorem storedAndReadBack_iff {call : SaveCall} (hhealthy : ∀ n, call.attempts n = .commits)
    (batch : List (Int × EngineDict × Int)) (hdocumented : ∀ ev ∈ eventsOf batch, ev.Documented)
    (r : SQLiteTradeRepository)
    (hids : (r.table.map TradeRecord.tradeId ++ (eventsOf batch).map TradeEvent.tradeId).Nodup) :
    StoredAndReadBack call batch r ↔ ∀ ev ∈ eventsOf batch, ev.FitsSigned := by
  have hreturns := saveEvents_isSome_iff hhealthy (eventsOf batch) r
  have hfits : (∀ ev ∈ eventsOf batch, ev.content.bindable = true) ↔ ∀ ev ∈ eventsOf batch, ev.FitsSigned :=
    forall₂_congr fun ev hev => (hdocumented ev hev).bindable_iff
  rcases hsave : saveEvents call (eventsOf batch) r with ⟨result, r'⟩
  rw [hsave, hfits] at hreturns
  rw [StoredAndReadBack, show r.saveTradesBatch call.nowIso call.attempts _ = (result, r') from hsave, ← hreturns]
  constructor
  · rintro ⟨hresult, -⟩
    rw [show result = some _ from hresult]
    rfl
  · intro hsome
    have hids' : ((r.contents ++ (eventsOf batch).map TradeEvent.content).map TradeRecord.tradeId).Nodup := by
      rw [List.map_append, SQLiteTradeRepository.contents, List.map_map, List.map_map]
      exact hids
    rcases saveEvents_rollsBack (rollsBack_of_commits hhealthy) hsave (fun ev hev => (hdocumented ev hev).storable)
      hids' with ⟨hnone, -⟩ | ⟨hresult, hcontents⟩
    · rw [hnone] at hsome
      cases hsome
    · refine ⟨?_, fun clock limit hlimit hbound => ?_⟩
      · rw [hresult, eventsOf, List.length_map]
      · obtain ⟨old, new, htable, hold, hnew⟩ := List.map_eq_append_iff.mp hcontents
        have hlength := congrArg List.length hold
        rw [List.length_map, SQLiteTradeRepository.contents, List.length_map] at hlength
        refine ⟨old.mapIdx fun i row => row.postInit (clock i),
          new.mapIdx fun i row => row.postInit (clock (i + old.length)), ?_, ?_, ?_⟩
        · rw [SQLiteTradeRepository.getTrades_whole clock hlimit hbound, htable, List.mapIdx_append]
        · rw [List.length_mapIdx, hlength]
        · rw [content_records]
          exact content_reread hnew fun i => clock (i + old.length)

/-- A trade of 5 at 100 whose buy has a certain id. -/
def tradeOfBuy (buyId : Int) : List (Int × EngineDict × Int) :=
  [(0, { buyId, sellId := some 2, price := some (Binary64.ofInt 100), qty := some 5, timestampNs := some 7 }, 1)]

def healthySave : SaveCall := ⟨fun _ => ("a", "b"), "n", fun _ => .commits⟩

theorem storedAndReadBack_iff_smallId :
    StoredAndReadBack healthySave (tradeOfBuy 1) (.create 3) ↔ ∀ ev ∈ eventsOf (tradeOfBuy 1), ev.FitsSigned := by
  refine storedAndReadBack_iff (fun _ => rfl) (tradeOfBuy 1) ?_ (.create 3) (List.nodup_singleton _)
  intro ev hev
  rw [List.mem_singleton.mp hev]
  exact ⟨by decide, by decide, rfl⟩

/-- The id is an unsigned 64-bit integer that SQLite cannot bind. -/
theorem not_storedAndReadBack_largeId : (∀ ev ∈ eventsOf (tradeOfBuy (2 ^ 63)), ev.Documented) ∧
    ¬ StoredAndReadBack healthySave (tradeOfBuy (2 ^ 63)) (.create 3) := by
  refine ⟨fun ev hev => ?_, fun hstored => ?_⟩
  · rw [List.mem_singleton.mp hev]
    exact ⟨by decide, by decide, rfl⟩
  · cases hstored.1

end ChronosMatch
