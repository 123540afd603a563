import ChronosMatch.Base.Slots
import ChronosMatch.DataProcessing.Processor

/-!
# The locked ring buffer

`MmapRingBuffer` of `src/ipc/ring_buffer.py`, here `LockedRing`, over the bytes of its file. Every operation
runs under the lock of the file and is one step. What stands in the file afterwards is returned beside the
result, since an operation may fail after a store. Failures of the operating system are left out.
-/

namespace ChronosMatch

open Bytes DataProcessor

namespace LockedRing

/-! ### The header -/

/-- `b"CHRONOS1"` -/
def magicBytes : List UInt8 := [0x43, 0x48, 0x52, 0x4F, 0x4E, 0x4F, 0x53, 0x31]

/-- The size of `<8sIIII`. -/
def headerSize : Nat := 24

structure Header where
  magic : List UInt8
  capacity : Nat
  readIdx : Nat
  writeIdx : Nat
  count : Nat
deriving DecidableEq

namespace Header

/-- `HEADER.pack`, which takes unsigned integers of 32 bits. -/
def pack (header : Header) : Except PipelineError (List UInt8) :=
  if header.capacity < 2 ^ 32 ∧ header.readIdx < 2 ^ 32 ∧ header.writeIdx < 2 ^ 32 ∧ header.count < 2 ^ 32 then
    .ok (header.magic ++ (encodeLE 4 header.capacity ++ (encodeLE 4 header.readIdx ++
      (encodeLE 4 header.writeIdx ++ encodeLE 4 header.count))))
  else .error .structError

/-- `HEADER.unpack` of the first 24 bytes. -/
def unpack (file : List UInt8) : Header where
  magic := slice 0 8 file
  capacity := decodeLE (slice 8 4 file)
  readIdx := decodeLE (slice 12 4 file)
  writeIdx := decodeLE (slice 16 4 file)
  count := decodeLE (slice 20 4 file)

end Header

/-- Assignment to `_map[:HEADER_SIZE]`. -/
def storeHeader (header : Header) (file : List UInt8) : Except PipelineError Unit × List UInt8 :=
  match header.pack with
  | .error err => (.error err, file)
  | .ok data => (.ok (), store 0 data file)

end LockedRing

/-- What a handle keeps. -/
structure LockedRing where
  capacity : Int
  closed : Bool := false
deriving DecidableEq

namespace LockedRing

/-- Closing the file inside the lock makes releasing the lock fail, whatever was to be raised. -/
def closedFileError : PipelineError := .valueError "I/O operation on closed file"

/-- The part of `__init__` under the lock. -/
def initLocked (capacity : Int) (create : Bool) (file : List UInt8) : Except PipelineError LockedRing × List UInt8 :=
  if slice 0 8 file ≠ magicBytes ∧ create = false then (.error closedFileError, file)
  else
    let (result, file) :=
      if slice 0 8 file ≠ magicBytes then
        storeHeader ⟨magicBytes, capacity.toNat, 0, 0, 0⟩ (List.replicate file.length 0)
      else (.ok (), file)
    match result with
    | .error err => (.error err, file)
    | .ok () =>
        let header := Header.unpack file
        let expectedSize := headerSize + header.capacity * 33
        if header.magic ≠ magicBytes ∨ header.capacity = 0 ∨ file.length ≠ expectedSize ∨
            header.capacity ≤ header.readIdx ∨ header.capacity ≤ header.writeIdx ∨ header.capacity < header.count then
          (.error closedFileError, file)
        else (.ok { capacity := header.capacity }, file)

/-- `__init__`; `none` stands for a file that does not exist. -/
def init (capacity : Int) (create : Bool) (file : Option (List UInt8)) :
    Except PipelineError LockedRing × Option (List UInt8) :=
  if capacity ≤ 0 then (.error (.valueError "capacity must be positive"), file)
  else if create then
    let file := file.getD []
    let file := if file.length = 0 then List.replicate (headerSize + capacity.toNat * 33) 0 else file
    if file.length < headerSize then (.error (.valueError "Invalid ring buffer file"), some file)
    else
      let (result, file) := initLocked capacity create file
      (result, some file)
  else
    match file with
    | none => (.error .fileNotFound, none)
    | some file =>
        if file.length < headerSize then (.error (.valueError "Invalid ring buffer header"), some file)
        else
          let (result, file) := initLocked capacity create file
          (result, some file)

/-- `_locked` -/
def locked (ring : LockedRing) : Except PipelineError Unit :=
  if ring.closed then .error (.valueError "Ring buffer is closed") else .ok ()

/-- A `%` that raises on a zero divisor. -/
def next (idx cap : Nat) : Except PipelineError Nat :=
  if cap = 0 then .error .zeroDivisionError else .ok ((idx + 1) % cap)

def put (record : List UInt8) (ring : LockedRing) (file : List UInt8) : Except PipelineError Unit × List UInt8 :=
  if record.length ≠ 33 then (.error (.valueError "record must be exactly 33 bytes"), file)
  else
    match ring.locked with
    | .error err => (.error err, file)
    | .ok () =>
        let header := Header.unpack file
        if header.count = header.capacity then (.error (.bufferError "Ring buffer is full"), file)
        else
          let offset := headerSize + header.writeIdx * 33
          if file.length < offset + 33 then (.error .indexError, file)
          else
            let file := store offset record file
            match next header.writeIdx header.capacity with
            | .error err => (.error err, file)
            | .ok writeIdx =>
                storeHeader ⟨magicBytes, header.capacity, header.readIdx, writeIdx, header.count + 1⟩ file

def get (ring : LockedRing) (file : List UInt8) : Except PipelineError (Option (List UInt8)) × List UInt8 :=
  match ring.locked with
  | .error err => (.error err, file)
  | .ok () =>
      let header := Header.unpack file
      if header.count = 0 then (.ok none, file)
      else
        let offset := headerSize + header.readIdx * 33
        let record := slice offset 33 file
        match next header.readIdx header.capacity with
        | .error err => (.error err, file)
        | .ok readIdx =>
            let (result, file) :=
              storeHeader ⟨magicBytes, header.capacity, readIdx, header.writeIdx, header.count - 1⟩ file
            (result.map fun () => some record, file)

/-- `__len__` -/
def len (ring : LockedRing) (file : List UInt8) : Except PipelineError Nat :=
  ring.locked.map fun () => (Header.unpack file).count

def close (ring : LockedRing) : LockedRing := { ring with closed := true }

/-! ### What the stores leave -/

theorem unpack_store_slot {offset : Nat} {data file : List UInt8} (hfits : offset + data.length ≤ file.length)
    (hoffset : headerSize ≤ offset) : Header.unpack (store offset data file) = Header.unpack file := by
  have hfield : ∀ a n, a + n ≤ headerSize → slice a n (store offset data file) = slice a n file :=
    fun a n h => slice_store_of_disjoint hfits (.inl (Nat.le_trans h hoffset))
  simp only [Header.unpack, hfield 0 8 (by decide), hfield 8 4 (by decide), hfield 12 4 (by decide),
    hfield 16 4 (by decide), hfield 20 4 (by decide)]

theorem storeHeader_eq (header : Header) (file : List UInt8) (hfile : headerSize ≤ file.length)
    (hmagic : header.magic.length = 8)
    (hcapacity : header.capacity < 2 ^ 32) (hread : header.readIdx < 2 ^ 32) (hwrite : header.writeIdx < 2 ^ 32)
    (hcount : header.count < 2 ^ 32) :
    ∃ stored, storeHeader header file = (.ok (), stored) ∧ stored.length = file.length ∧
      Header.unpack stored = header ∧
      ∀ a n, headerSize ≤ a → slice a n stored = slice a n file := by
  set data := header.magic ++ (encodeLE 4 header.capacity ++ (encodeLE 4 header.readIdx ++
    (encodeLE 4 header.writeIdx ++ encodeLE 4 header.count))) with hdata
  have hlength : data.length = headerSize := by simp [hdata, hmagic, headerSize]
  have hfits : 0 + data.length ≤ file.length := by rwa [hlength, Nat.zero_add]
  have hpack : header.pack = .ok data := if_pos ⟨hcapacity, hread, hwrite, hcount⟩
  refine ⟨store 0 data file, ?_, length_store hfits, ?_, fun a n ha => ?_⟩
  · rw [storeHeader, hpack]
  · have hfield : ∀ a n, a + n ≤ headerSize → slice a n (store 0 data file) = slice a n data := by
      intro a n ha
      rw [slice_store_of_within hfits (Nat.zero_le _) (by rwa [hlength, Nat.zero_add]), Nat.sub_zero]
    have hmagicField : slice 0 8 header.magic = header.magic := by
      rw [← hmagic, slice_length]
    simp only [Header.unpack, hfield 0 8 (by decide), hfield 8 4 (by decide), hfield 12 4 (by decide),
      hfield 16 4 (by decide), hfield 20 4 (by decide)]
    simp (disch := simp [hmagic]) only [hdata, slice_append_left, slice_append_right, slice_encodeLE,
      length_encodeLE, hmagic, hmagicField, Nat.reduceSub, Nat.sub_self,
      decodeLE_encodeLE (show header.capacity < 256 ^ 4 from hcapacity),
      decodeLE_encodeLE (show header.readIdx < 256 ^ 4 from hread),
      decodeLE_encodeLE (show header.writeIdx < 256 ^ 4 from hwrite),
      decodeLE_encodeLE (show header.count < 256 ^ 4 from hcount)]
  · apply slice_store_of_disjoint hfits
    rw [hlength, Nat.zero_add]
    exact .inr ha

/-! ### Opening -/

/-- The checks on the metadata of a file that has the magic. -/
def Accepts (file : List UInt8) : Prop :=
  let header := Header.unpack file
  header.magic = magicBytes ∧ file.length = headerSize + header.capacity * 33 ∧ header.readIdx < header.capacity ∧
    header.writeIdx < header.capacity ∧ header.count ≤ header.capacity

instance (file : List UInt8) : Decidable (Accepts file) := inferInstanceAs (Decidable (_ ∧ _))

theorem Accepts.headerSize_le {file : List UInt8} (haccepts : Accepts file) : headerSize ≤ file.length := by
  rw [haccepts.2.1]
  exact Nat.le_add_right _ _

section Init

variable {capacity : Int} {create : Bool} {file : List UInt8}

theorem init_nonpositive (hcapacity : capacity ≤ 0) (content : Option (List UInt8)) :
    init capacity create content = (.error (.valueError "capacity must be positive"), content) :=
  if_pos hcapacity

theorem init_long (create : Bool) (hcapacity : ¬ capacity ≤ 0) (hlong : headerSize ≤ file.length) :
    init capacity create (some file) =
      ((initLocked capacity create file).1, some (initLocked capacity create file).2) := by
  have hnonempty : file.length ≠ 0 := by
    rw [headerSize] at hlong
    omega
  have hshort : ¬ file.length < headerSize := Nat.not_lt.mpr hlong
  rw [init, if_neg hcapacity]
  cases create with
  | true => simp only [if_true, Option.getD_some, if_neg hnonempty, if_neg hshort]
  | false => simp only [Bool.false_eq_true, if_false, if_neg hshort]

theorem init_new (hcapacity : ¬ capacity ≤ 0) :
    init capacity true none =
      ((initLocked capacity true (List.replicate (headerSize + capacity.toNat * 33) 0)).1,
        some (initLocked capacity true (List.replicate (headerSize + capacity.toNat * 33) 0)).2) := by
  have hsize : ¬ headerSize + capacity.toNat * 33 < headerSize := Nat.not_lt.mpr (Nat.le_add_right _ _)
  simp only [init, if_neg hcapacity, if_true, Option.getD_none, List.length_nil, List.length_replicate, if_neg hsize]

theorem init_empty (hcapacity : ¬ capacity ≤ 0) : init capacity true (some []) = init capacity true none := by
  rw [init, init, if_neg hcapacity, if_neg hcapacity]
  rfl

theorem init_short (hcapacity : ¬ capacity ≤ 0) (hshort : file.length < headerSize)
    (hcreate : create = true → file.length ≠ 0) :
    ∃ err, init capacity create (some file) = (.error err, some file) := by
  rw [init, if_neg hcapacity]
  cases create with
  | true =>
      refine ⟨.valueError "Invalid ring buffer file", ?_⟩
      simp only [if_true, Option.getD_some, if_neg (hcreate rfl), if_pos hshort]
  | false =>
      refine ⟨.valueError "Invalid ring buffer header", ?_⟩
      simp only [Bool.false_eq_true, if_false, if_pos hshort]

theorem initLocked_magic (hmagic : slice 0 8 file = magicBytes) : initLocked capacity create file =
    (if Accepts file then .ok { capacity := (Header.unpack file).capacity } else .error closedFileError, file) := by
  rw [initLocked, if_neg (fun hforeign => hforeign.1 hmagic), if_neg (not_not.mpr hmagic)]
  dsimp only
  by_cases haccepts : Accepts file
  · rw [if_pos haccepts, if_neg]
    obtain ⟨hheader, hlength, hread, hwrite, hcount⟩ := haccepts
    simp only [hheader, hlength, ne_eq, not_true_eq_false, false_or, not_or]
    omega
  · rw [if_neg haccepts, if_pos]
    by_contra hchecked
    apply haccepts
    simp only [not_or, ne_eq, not_not, not_le] at hchecked
    obtain ⟨hheader, -, hlength, hread, hwrite, hcount⟩ := hchecked
    exact ⟨hheader, hlength, hread, hwrite, Nat.le_of_not_lt hcount⟩

theorem initLocked_attach (hmagic : slice 0 8 file ≠ magicBytes) :
    initLocked capacity false file = (.error closedFileError, file) :=
  if_pos ⟨hmagic, rfl⟩

/-- With `create` a file without the magic is wiped and gets a new header, which is then checked like any other. -/
theorem initLocked_create (hmagic : slice 0 8 file ≠ magicBytes) (hlong : headerSize ≤ file.length) {c : Nat}
    (hc : c < 2 ^ 32) : ∃ stored, stored.length = file.length ∧ Header.unpack stored = ⟨magicBytes, c, 0, 0, 0⟩ ∧
      initLocked c true file = initLocked c true stored := by
  obtain ⟨stored, hstore, hlength, hunpack, -⟩ := storeHeader_eq ⟨magicBytes, c, 0, 0, 0⟩
    (List.replicate file.length 0) (by rwa [List.length_replicate]) rfl hc (Nat.two_pow_pos 32) (Nat.two_pow_pos 32)
    (Nat.two_pow_pos 32)
  have hstored : slice 0 8 stored = magicBytes := congrArg Header.magic hunpack
  refine ⟨stored, by rw [hlength, List.length_replicate], hunpack, ?_⟩
  rw [initLocked, if_neg (fun hforeign => Bool.noConfusion hforeign.2), if_pos hmagic, Int.toNat_natCast, hstore,
    initLocked, if_neg (fun hforeign => Bool.noConfusion hforeign.2), if_neg (not_not.mpr hstored)]

/-- A capacity that does not fit in the header is found out after the wipe. -/
theorem initLocked_create_overflow (hmagic : slice 0 8 file ≠ magicBytes) {c : Nat} (hc : 2 ^ 32 ≤ c) :
    initLocked c true file = (.error .structError, List.replicate file.length 0) := by
  have hpack : Header.pack ⟨magicBytes, c, 0, 0, 0⟩ = .error .structError :=
    if_neg fun hfits => Nat.not_lt.mpr hc hfits.1
  rw [initLocked, if_neg (fun hforeign => Bool.noConfusion hforeign.2), if_pos hmagic, Int.toNat_natCast, storeHeader,
    hpack]

end Init

end LockedRing

end ChronosMatch
