import ChronosMatch.Engine.Validation
import ChronosMatch.Ipc.OrderPipeline

/-!
# From the producer to the engine

What becomes of an order that `create_order` accepts: `pack_order` makes 33 bytes of it, `unpack_order` makes an
order of 33 bytes, and the consumer submits that one to the compiled engine. The three check different things.
-/

namespace ChronosMatch

open Bytes

namespace DataProcessor

theorem createOrder_eq_order {now orderId : Int} {side : String} {price : Binary64} {quantity : Int}
    {timestampNs : Option Int} {order : Order}
    (h : createOrder now orderId side price quantity timestampNs = .ok order) :
    order = ⟨orderId, upper side, price, quantity, timestampNs.getD now⟩ ∧ 0 ≤ orderId := by
  simp only [createOrder] at h
  split_ifs at h with hside hid hprice hquantity
  exact ⟨(Except.ok.inj h).symm, not_lt.mp hid⟩

/-! ### Decoding undoes encoding -/

/-- An order that `create_order` accepted, with integers that the record can hold and a price that is a number. -/
structure Recordable (order : Order) : Prop where
  created : ∃ now orderId side price quantity timestampNs,
    createOrder now orderId side price quantity timestampNs = .ok order
  orderId : 0 ≤ order.orderId ∧ order.orderId < 2 ^ 64
  quantity : 0 ≤ order.quantity ∧ order.quantity < 2 ^ 64
  timestampNs : 0 ≤ order.timestampNs ∧ order.timestampNs < 2 ^ 64
  price : order.price.isNaN = false

theorem Recordable.fits {order : Order} (h : Recordable order) : order.Fits := by
  obtain ⟨now, orderId, side, price, quantity, timestampNs, hcreate⟩ := h.created
  exact ⟨(createOrder_eq_ok hcreate).1, h.orderId, h.quantity, h.timestampNs⟩

theorem packOrder_roundTrip {order : Order} (h : Recordable order) :
    ∃ data, packOrder order = .ok data ∧ data.length = orderSize ∧ unpackOrder data = .ok order ∧
      ∀ other, Recordable other → packOrder other = .ok data → other = order := by
  obtain ⟨data, hpack, hunpack⟩ := unpackOrder_packOrder h.fits
  refine ⟨data, hpack, length_packOrder hpack, hunpack, fun other hother hsame => ?_⟩
  obtain ⟨data', hpack', hunpack'⟩ := unpackOrder_packOrder hother.fits
  have hdata : data' = data := by
    rw [hsame] at hpack'
    exact (Except.ok.inj hpack').symm
  rw [hdata, hunpack] at hunpack'
  exact (Except.ok.inj hunpack').symm

/-- A sell with the largest integers and an infinite price, spelt in mixed case. -/
def largestSell : Order := ⟨2 ^ 64 - 1, "SELL", ⟨0x7FF0000000000000⟩, 2 ^ 64 - 1, 2 ^ 64 - 1⟩

theorem packOrder_roundTrip_largestSell : ∃ data, packOrder largestSell = .ok data ∧ data.length = orderSize ∧
    unpackOrder data = .ok largestSell ∧
      ∀ other, Recordable other → packOrder other = .ok data → other = largestSell :=
  packOrder_roundTrip ⟨⟨0, 2 ^ 64 - 1, "sElL", ⟨0x7FF0000000000000⟩, 2 ^ 64 - 1, some (2 ^ 64 - 1), by decide⟩,
    by decide, by decide, by decide, by decide⟩

/-! ### Encoding undoes decoding -/

/-- The decoder raises `ValueError`, or it has found what the encoder makes of the order. -/
def ExactlyDecoded (data : List UInt8) : Prop :=
  (∃ message, unpackOrder data = .error (.valueError message)) ∨
    ∃ order, unpackOrder data = .ok order ∧ packOrder order = .ok data

theorem slices_record {data : List UInt8} (hlength : data.length = orderSize) :
    slice 0 8 data ++ (slice 8 1 data ++ (slice 9 8 data ++ (slice 17 8 data ++ slice 25 8 data))) = data := by
  rw [slice_append_slice 17 8 8, slice_append_slice 9 8 16, slice_append_slice 8 1 24, slice_append_slice 0 8 25]
  have hwhole := slice_length data
  rwa [hlength] at hwhole

theorem field_record {data : List UInt8} (hlength : data.length = orderSize) {offset width : Nat}
    (hwithin : offset + width ≤ orderSize) : decodeLE (slice offset width data) < 256 ^ width ∧
      encodeLE width (decodeLE (slice offset width data)) = slice offset width data := by
  have hfield : (slice offset width data).length = width := length_slice (hlength ▸ hwithin)
  have hlt := decodeLE_lt (slice offset width data)
  have hencode := encodeLE_decodeLE (slice offset width data)
  rw [hfield] at hlt hencode
  exact ⟨hlt, hencode⟩

theorem sideCode_unpacked (code : Nat) :
    (sideCode (if (code : Int) = Side.buy.code then "BUY" else "SELL")).toNat = if code = 0 then 0 else 1 := by
  by_cases hzero : code = 0
  · subst hzero
    rfl
  · have hcode : ¬ (code : Int) = Side.buy.code := fun heq => hzero (Int.ofNat.inj heq)
    rw [if_neg hcode, if_neg hzero]
    rfl

/-- Encoding the decoded order gives back the record, but for its side, which is written anew. -/
theorem packOrder_unpackOrder {data : List UInt8} (hlength : data.length = orderSize) : ∃ order,
    unpackOrder data = .ok order ∧ packOrder order = .ok (slice 0 8 data ++
      (encodeLE 1 (if decodeLE (slice 8 1 data) = 0 then 0 else 1) ++ (slice 9 8 data ++
        (slice 17 8 data ++ slice 25 8 data)))) := by
  obtain ⟨hid, hidField⟩ := field_record hlength (show 0 + 8 ≤ orderSize by decide)
  obtain ⟨hprice, hpriceField⟩ := field_record hlength (show 9 + 8 ≤ orderSize by decide)
  obtain ⟨hquantity, hquantityField⟩ := field_record hlength (show 17 + 8 ≤ orderSize by decide)
  obtain ⟨htimestamp, htimestampField⟩ := field_record hlength (show 25 + 8 ≤ orderSize by decide)
  have hbits : (BitVec.ofNat 64 (decodeLE (slice 9 8 data))).toNat = decodeLE (slice 9 8 data) := by
    rw [BitVec.toNat_ofNat]
    exact Nat.mod_eq_of_lt hprice
  refine ⟨_, if_neg (not_not.mpr hlength), ?_⟩
  rw [packOrder]
  dsimp only
  rw [if_pos (by omega), sideCode_unpacked, hbits]
  simp only [Int.toNat_natCast, hidField, hpriceField, hquantityField, htimestampField]

/-- The side byte that is written anew is the old one for 0 and 1 only. -/
theorem sideByte_iff (byte : UInt8) :
    encodeLE 1 (if decodeLE [byte] = 0 then 0 else 1) = [byte] ↔ byte = 0 ∨ byte = 1 := by
  by_cases hzero : byte = 0
  · rw [hzero]
    exact iff_of_true rfl (.inl rfl)
  · have hnonzero : decodeLE [byte] ≠ 0 := by
      intro heq
      apply hzero
      apply UInt8.toNat_inj.mp
      simpa [decodeLE] using heq
    rw [if_neg hnonzero]
    constructor
    · intro hone
      exact .inr (List.singleton_inj.mp hone).symm
    · rintro (h | rfl)
      · exact absurd h hzero
      · rfl

/-- The decoder is exact but for records of the right length whose side byte is neither 0 nor 1. -/
theorem exactlyDecoded_iff (data : List UInt8) :
    ExactlyDecoded data ↔ (data.length = orderSize → data[8]? = some 0 ∨ data[8]? = some 1) := by
  by_cases hlength : data.length = orderSize
  · obtain ⟨order, hunpack, hpack⟩ := packOrder_unpackOrder hlength
    have hbyte : 8 < data.length := by
      rw [hlength]
      decide
    have hside : slice 8 1 data = [data[8]] := by
      rw [slice, List.drop_eq_getElem_cons hbyte, List.take_succ_cons, List.take_zero]
    have hexact : ExactlyDecoded data ↔ packOrder order = .ok data := by
      constructor
      · rintro (⟨message, hraises⟩ | ⟨order', hunpack', hpack'⟩)
        · rw [hunpack] at hraises
          cases hraises
        · rw [hunpack] at hunpack'
          rwa [Except.ok.inj hunpack']
      · exact fun hpack' => .inr ⟨order, hunpack, hpack'⟩
    have hwritten : packOrder order = .ok data ↔ data[8] = 0 ∨ data[8] = 1 := by
      rw [hpack, Except.ok.injEq, ← sideByte_iff, ← hside]
      conv_lhs => rhs; rw [← slices_record hlength]
      rw [List.append_cancel_left_eq, List.append_cancel_right_eq]
    rw [hexact, hwritten, List.getElem?_eq_getElem hbyte, Option.some.injEq, Option.some.injEq]
    exact ⟨fun h _ => h, fun h => h hlength⟩
  · exact iff_of_true (.inl ⟨_, if_pos hlength⟩) fun h => absurd h hlength

/-- A record of a buy with side byte 0, but for that byte. -/
def corruptedRecord : List UInt8 :=
  [1, 0, 0, 0, 0, 0, 0, 0, 2, 0, 0, 0, 0, 0, 0, 0xF0, 0x3F, 5, 0, 0, 0, 0, 0, 0, 0, 7, 0, 0, 0, 0, 0, 0, 0]

/-- A record with side byte 2 comes out as a sell that the engine accepts, and is not what is packed for it. -/
theorem not_exactlyDecoded_corruptedRecord : ¬ ExactlyDecoded corruptedRecord ∧
    ∃ order, unpackOrder corruptedRecord = .ok order ∧ order.side = "SELL" ∧
      packOrder order ≠ .ok corruptedRecord ∧
      (MatchingEngine.empty.addOrder .unlimited order.args).1 = .ok 1 := by
  have hunpack : unpackOrder corruptedRecord = .ok ⟨1, "SELL", ⟨0x3FF0000000000000⟩, 5, 7⟩ := by decide
  have hpack : packOrder ⟨1, "SELL", ⟨0x3FF0000000000000⟩, 5, 7⟩ ≠ .ok corruptedRecord := by decide
  refine ⟨?_, _, hunpack, rfl, hpack, by decide⟩
  rintro (⟨message, hraises⟩ | ⟨order, hunpack', hpack'⟩)
  · rw [hunpack] at hraises
    cases hraises
  · rw [hunpack] at hunpack'
    rw [← Except.ok.inj hunpack'] at hpack'
    exact hpack hpack'

/-! ### What a validated producer can send -/

/-- The engine takes the order whenever it can count one more and finds the memory. -/
def TakenByEngine (args : OrderArgs) : Prop :=
  ∀ (grow : Growth) (e : MatchingEngine), e.orderCount ≠ 2 ^ 64 - 1 →
    MatchingEngine.brokeOff (e.addOrder grow args).1 = false → ∃ orderId, (e.addOrder grow args).1 = .ok orderId

theorem takenByEngine_iff (args : OrderArgs) : TakenByEngine args ↔ args.Valid := by
  constructor
  · intro htaken
    cases hparse : MatchingEngine.parseOrder args with
    | ok order => exact MatchingEngine.valid_of_parseOrder hparse
    | error err =>
        have hrejected : (MatchingEngine.empty.addOrder .unlimited args).1 = .error err := by
          rw [MatchingEngine.addOrder, hparse]
        have hmemory : MatchingEngine.brokeOff (MatchingEngine.empty.addOrder .unlimited args).1 = false := by
          rw [hrejected]
          exact MatchingEngine.isMemoryError_parseOrder hparse
        obtain ⟨orderId, hok⟩ := htaken .unlimited .empty (by decide) hmemory
        rw [hrejected] at hok
        cases hok
  · intro hvalid grow e hroom hmemory
    obtain ⟨order, hparse, -⟩ := MatchingEngine.parseOrder_ok hvalid
    rw [MatchingEngine.addOrder, hparse] at hmemory ⊢
    dsimp only at hmemory ⊢
    rcases hsubmit : MatchingEngine.submit grow order e with ⟨result, e'⟩
    rw [hsubmit] at hmemory
    cases MatchingEngine.submit_effect hsubmit with
    | refused hcount => exact absurd hcount hroom
    | interrupted herr =>
        rw [MatchingEngine.brokeOff, herr] at hmemory
        cases hmemory
    | accepted => exact ⟨order.orderId, rfl⟩

/-- The order is packed, and the consumer's engine takes what is unpacked. -/
def ReachesEngine (order : Order) : Prop :=
  ∃ data received, packOrder order = .ok data ∧ unpackOrder data = .ok received ∧ TakenByEngine received.args

/-- An accepted order reaches the engine if and only if its integers fit the record and its price is finite. -/
theorem reachesEngine_iff {now orderId : Int} {side : String} {price : Binary64} {quantity : Int}
    {timestampNs : Option Int} {order : Order}
    (hcreate : createOrder now orderId side price quantity timestampNs = .ok order) :
    ReachesEngine order ↔ orderId < 2 ^ 64 ∧ quantity < 2 ^ 64 ∧
      (0 ≤ timestampNs.getD now ∧ timestampNs.getD now < 2 ^ 64) ∧ price.isFinite = true := by
  obtain ⟨hside, ⟨-, hpositive⟩, hquantity⟩ := createOrder_eq_ok hcreate
  obtain ⟨rfl, hid⟩ := createOrder_eq_order hcreate
  constructor
  · rintro ⟨data, received, hpack, hunpack, htaken⟩
    have hfits := packOrder_fits hside hpack
    obtain ⟨data', hpack', hunpack'⟩ := unpackOrder_packOrder hfits
    rw [hpack] at hpack'
    rw [← Except.ok.inj hpack', hunpack] at hunpack'
    rw [Except.ok.inj hunpack'] at htaken
    exact ⟨hfits.orderId.2, hfits.quantity.2, hfits.timestampNs, ((takenByEngine_iff _).mp htaken).price.1⟩
  · rintro ⟨hidLt, hquantityLt, htimestamp, hfinite⟩
    have hfits : Order.Fits ⟨orderId, upper side, price, quantity, timestampNs.getD now⟩ :=
      ⟨hside, ⟨hid, hidLt⟩, ⟨Int.le_of_lt hquantity, hquantityLt⟩, htimestamp⟩
    obtain ⟨data, hpack, hunpack⟩ := unpackOrder_packOrder hfits
    exact ⟨data, _, hpack, hunpack,
      (takenByEngine_iff _).mpr (OrderPipeline.args_valid hfits hfinite hpositive hquantity)⟩

theorem reachesEngine_iff_mixedCase : ReachesEngine ⟨1, "BUY", ⟨0x3FF0000000000000⟩, 5, 7⟩ ↔
    (1 : Int) < 2 ^ 64 ∧ (5 : Int) < 2 ^ 64 ∧
      (0 ≤ (some (7 : Int)).getD 0 ∧ (some (7 : Int)).getD 0 < 2 ^ 64) ∧
      (⟨0x3FF0000000000000⟩ : Binary64).isFinite = true :=
  @reachesEngine_iff 0 1 "bUy" ⟨0x3FF0000000000000⟩ 5 (some 7) _ (by decide)

/-- Accepted orders with an infinite price, with a NaN for a price, with an order id of 65 bits and with a negative
time: the engine rejects the first two, and the others are not packed. -/
theorem not_reachesEngine_infinitePrice :
    (∃ order, createOrder 0 1 "BUY" ⟨0x7FF0000000000000⟩ 5 (some 7) = .ok order ∧ ¬ ReachesEngine order) ∧
      (∃ order, createOrder 0 1 "BUY" ⟨0x7FF8000000000000⟩ 5 (some 7) = .ok order ∧ ¬ ReachesEngine order) ∧
      (∃ order, createOrder 0 (2 ^ 64) "BUY" ⟨0x3FF0000000000000⟩ 5 (some 7) = .ok order ∧ ¬ ReachesEngine order) ∧
      ∃ order, createOrder 0 1 "BUY" ⟨0x3FF0000000000000⟩ 5 (some (-1)) = .ok order ∧ ¬ ReachesEngine order := by
  have hfails : ∀ (orderId timestampNs : Int) (price : Binary64) (order : Order),
      createOrder 0 orderId "BUY" price 5 (some timestampNs) = .ok order →
      ¬ (orderId < 2 ^ 64 ∧ (5 : Int) < 2 ^ 64 ∧ (0 ≤ timestampNs ∧ timestampNs < 2 ^ 64) ∧ price.isFinite = true) →
      ∃ order, createOrder 0 orderId "BUY" price 5 (some timestampNs) = .ok order ∧ ¬ ReachesEngine order :=
    fun _ _ _ order hcreate hnot => ⟨order, hcreate, fun hreaches => hnot ((reachesEngine_iff hcreate).mp hreaches)⟩
  exact ⟨hfails 1 7 ⟨0x7FF0000000000000⟩ _ rfl (by decide), hfails 1 7 ⟨0x7FF8000000000000⟩ _ rfl (by decide),
    hfails (2 ^ 64) 7 ⟨0x3FF0000000000000⟩ _ rfl (by decide), hfails 1 (-1) ⟨0x3FF0000000000000⟩ _ rfl (by decide)⟩

end DataProcessor

end ChronosMatch
