import ChronosMatch.Base.Bytes
import ChronosMatch.Engine.Order

/-!
# Order records

`DataProcessor` of `src/data_processing/processor.py`: how an order is checked, and the 33 bytes it
travels in between the processes.
-/

namespace ChronosMatch

open Bytes

/-- The exceptions of the order pipeline, with the texts of its own messages. -/
inductive PipelineError
  | valueError (message : String)
  | bufferError (message : String)
  | structError
  | indexError
  | zeroDivisionError
  | fileNotFound
  | engine (err : PyError)
deriving DecidableEq

namespace DataProcessor

structure Order where
  orderId : Int
  side : String
  price : Binary64
  quantity : Int
  timestampNs : Int
deriving DecidableEq

/-- `str.upper` of a character, as far as the letters of `BUY` and `SELL` go: besides the ASCII letters
only the long s becomes one of them. -/
def upperChar (c : Char) : Char := if c = 'ſ' then 'S' else c.toUpper

def upper (text : String) : String := String.ofList (text.toList.map upperChar)

/-- `now` is the reading of the clock. -/
def createOrder (now orderId : Int) (side : String) (price : Binary64) (quantity : Int)
    (timestampNs : Option Int := none) : Except PipelineError Order :=
  let timestampNs := timestampNs.getD now
  let side := upper side
  if side ≠ "BUY" ∧ side ≠ "SELL" then .error (.valueError "side must be BUY or SELL")
  else if orderId < 0 then .error (.valueError "order_id must be non-negative")
  else if price ≤ Binary64.zero then .error (.valueError "price must be greater than zero")
  else if quantity ≤ 0 then .error (.valueError "quantity must be greater than zero")
  else .ok { orderId, side, price, quantity, timestampNs }

/-- `ORDER_SIZE`, of the format `<QB dQQ`. -/
def orderSize : Nat := 8 + 1 + 8 + 8 + 8

/-- The integer code of a side's name, in `pack_order` and in the consumer. -/
def sideCode (side : String) : Int := if side = "BUY" then Side.buy.code else Side.sell.code

/-- `struct.pack`, which takes unsigned integers of 64 bits. -/
def packOrder (order : Order) : Except PipelineError (List UInt8) :=
  let fits := fun n : Int => 0 ≤ n ∧ n < 2 ^ 64
  if fits order.orderId ∧ fits order.quantity ∧ fits order.timestampNs then
    .ok (encodeLE 8 order.orderId.toNat ++ (encodeLE 1 (sideCode order.side).toNat ++
      (encodeLE 8 order.price.bits.toNat ++ (encodeLE 8 order.quantity.toNat ++ encodeLE 8 order.timestampNs.toNat))))
  else .error .structError

def unpackOrder (data : List UInt8) : Except PipelineError Order :=
  if data.length ≠ orderSize then
    .error (.valueError s!"Invalid order size: expected {orderSize} bytes, got {data.length} bytes")
  else
    let sideValue : Int := decodeLE (slice 8 1 data)
    .ok {
      orderId := decodeLE (slice 0 8 data)
      side := if sideValue = Side.buy.code then "BUY" else "SELL"
      price := ⟨BitVec.ofNat 64 (decodeLE (slice 9 8 data))⟩
      quantity := decodeLE (slice 17 8 data)
      timestampNs := decodeLE (slice 25 8 data) }

/-- An order whose integers are unsigned 64-bit numbers, as the record stores them. -/
structure Order.Fits (order : Order) : Prop where
  side : order.side = "BUY" ∨ order.side = "SELL"
  orderId : 0 ≤ order.orderId ∧ order.orderId < 2 ^ 64
  quantity : 0 ≤ order.quantity ∧ order.quantity < 2 ^ 64
  timestampNs : 0 ≤ order.timestampNs ∧ order.timestampNs < 2 ^ 64

theorem length_packOrder {order : Order} {data : List UInt8} (hpack : packOrder order = .ok data) :
    data.length = orderSize := by
  rw [packOrder] at hpack
  split at hpack
  · rw [← Except.ok.inj hpack]
    simp only [List.length_append, length_encodeLE]
    rfl
  · cases hpack

theorem createOrder_eq_ok {now orderId : Int} {side : String} {price : Binary64} {quantity : Int}
    {timestampNs : Option Int} {order : Order}
    (h : createOrder now orderId side price quantity timestampNs = .ok order) :
    (order.side = "BUY" ∨ order.side = "SELL") ∧ (order.price = price ∧ ¬ price ≤ Binary64.zero) ∧
      0 < order.quantity := by
  simp only [createOrder] at h
  split_ifs at h with hside hid hprice hquantity
  rw [← Except.ok.inj h]
  exact ⟨by tauto, ⟨rfl, hprice⟩, not_le.mp hquantity⟩

theorem packOrder_fits {order : Order} {data : List UInt8} (hside : order.side = "BUY" ∨ order.side = "SELL")
    (h : packOrder order = .ok data) : order.Fits := by
  rw [packOrder] at h
  split at h
  · next hfits => exact ⟨hside, hfits.1, hfits.2.1, hfits.2.2⟩
  · cases h

/-- A record gives back the order it was packed from. -/
theorem unpackOrder_packOrder {order : Order} (hfits : order.Fits) :
    ∃ data, packOrder order = .ok data ∧ unpackOrder data = .ok order := by
  obtain ⟨hside, horderId, hquantity, htimestamp⟩ := hfits
  have hdecode : ∀ {n : Int}, 0 ≤ n ∧ n < 2 ^ 64 → (decodeLE (encodeLE 8 n.toNat) : Int) = n := by
    intro n hn
    rw [decodeLE_encodeLE (by omega)]
    omega
  have hprice : decodeLE (encodeLE 8 order.price.bits.toNat) = order.price.bits.toNat :=
    decodeLE_encodeLE order.price.bits.isLt
  have hcode : decodeLE (encodeLE 1 (sideCode order.side).toNat) = (sideCode order.side).toNat := by
    rcases hside with hbuy | hsell
    · rw [hbuy]
      rfl
    · rw [hsell]
      rfl
  have hname : (if ((sideCode order.side).toNat : Int) = Side.buy.code then "BUY" else "SELL") = order.side := by
    rcases hside with hbuy | hsell
    · rw [hbuy]
      rfl
    · rw [hsell]
      rfl
  refine ⟨_, if_pos ⟨horderId, hquantity, htimestamp⟩, ?_⟩
  rw [unpackOrder, if_neg (by simp [orderSize])]
  simp (disch := simp) only [slice_append_left, slice_append_right, slice_encodeLE, length_encodeLE, Nat.reduceSub,
    Nat.sub_self, hcode, hname, hdecode horderId, hdecode hquantity, hdecode htimestamp, hprice,
    BitVec.ofNat_toNat, BitVec.setWidth_eq]

end DataProcessor

end ChronosMatch
