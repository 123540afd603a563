import ChronosMatch.Base.BoundedFifo
import ChronosMatch.Ipc.LockedRing

/-!
# The locked ring buffer is a bounded queue

Handles open, use and close the file of one ring. What they see is a bounded queue: the operations on the
bytes give the results of the operations on the queue, and an operation that the queue refuses changes no
byte.
-/

namespace ChronosMatch

open Bytes

namespace LockedRing

/-! ### Operations and their results -/

/-- An operation, by the number of the handle it is called on. -/
inductive Op
  | open (capacity : Int) (create : Bool)
  | put (handle : Nat) (record : List UInt8)
  | get (handle : Nat)
  | len (handle : Nat)
  | close (handle : Nat)
deriving DecidableEq

inductive Result
  | opened (capacity : Int)
  | stored
  | record (data : List UInt8)
  | empty
  | length (n : Nat)
  | closed
  | noHandle
  | raised (err : PipelineError)
deriving DecidableEq

/-- The results of the operations that add or remove a record. -/
def Result.changes : Result → Bool
  | stored => true
  | record _ => true
  | _ => false

structure System where
  file : Option (List UInt8) := none
  handles : List LockedRing := []

namespace System

/-- Run an operation on the map of an open handle. -/
def onHandle (handle : Nat) (s : System) (f : LockedRing → List UInt8 → Result × List UInt8) :
    Result × System :=
  match s.handles[handle]?, s.file with
  | some ring, some file =>
      let (result, file) := f ring file
      (result, { s with file := some file })
  | _, _ => (.noHandle, s)

def perform : Op → System → Result × System
  | .open capacity create, s =>
      match LockedRing.init capacity create s.file with
      | (.error err, file) => (.raised err, { s with file })
      | (.ok ring, file) => (.opened ring.capacity, ⟨file, s.handles ++ [ring]⟩)
  | .put handle record, s => s.onHandle handle fun ring file =>
      match ring.put record file with
      | (.error err, file) => (.raised err, file)
      | (.ok (), file) => (.stored, file)
  | .get handle, s => s.onHandle handle fun ring file =>
      match ring.get file with
      | (.error err, file) => (.raised err, file)
      | (.ok none, file) => (.empty, file)
      | (.ok (some data), file) => (.record data, file)
  | .len handle, s => s.onHandle handle fun ring file =>
      match ring.len file with
      | .error err => (.raised err, file)
      | .ok n => (.length n, file)
  | .close handle, s =>
      match s.handles[handle]? with
      | none => (.noHandle, s)
      | some ring => (.closed, { s with handles := s.handles.set handle ring.close })

/-- The first handle creates the file. -/
def create (capacity : Nat) : System := (perform (.open capacity true) {}).2

end System

/-! ### The queue -/

/-- The same, of a queue: a handle is no more than whether it was closed. -/
structure FifoSystem (capacity : Nat) where
  queue : BoundedFifo (List UInt8) capacity := .empty
  handles : List Bool := []

namespace FifoSystem

variable {c : Nat}

def onHandle (handle : Nat) (s : FifoSystem c)
    (f : BoundedFifo (List UInt8) c → Result × BoundedFifo (List UInt8) c) : Result × FifoSystem c :=
  match s.handles[handle]? with
  | none => (.noHandle, s)
  | some true => (.raised (.valueError "Ring buffer is closed"), s)
  | some false =>
      let (result, queue) := f s.queue
      (result, { s with queue })

def perform : Op → FifoSystem c → Result × FifoSystem c
  | .open capacity _, s =>
      if capacity ≤ 0 then (.raised (.valueError "capacity must be positive"), s)
      else (.opened c, { s with handles := s.handles ++ [false] })
  | .put handle record, s =>
      if s.handles.length ≤ handle then (.noHandle, s)
      else if record.length ≠ 33 then (.raised (.valueError "record must be exactly 33 bytes"), s)
      else s.onHandle handle fun queue =>
        match queue.enqueue record with
        | none => (.raised (.bufferError "Ring buffer is full"), queue)
        | some queue => (.stored, queue)
  | .get handle, s => s.onHandle handle fun queue =>
      match queue.dequeue with
      | none => (.empty, queue)
      | some (data, queue) => (.record data, queue)
  | .len handle, s => s.onHandle handle fun queue => (.length queue.items.length, queue)
  | .close handle, s =>
      if s.handles.length ≤ handle then (.noHandle, s)
      else (.closed, { s with handles := s.handles.set handle true })

def create : FifoSystem c := { handles := [false] }

end FifoSystem

/-! ### What the bytes stand for -/

/-- The records of the ring, oldest first. -/
def decode (file : List UInt8) : List (List UInt8) :=
  let header := Header.unpack file
  (List.range header.count).map fun i => slice (headerSize + (header.readIdx + i) % header.capacity * 33) 33 file

/-- The slots behind the header of a ring. -/
def layout (c : Nat) (hc : 0 < c) : SlotLayout where
  header := headerSize
  count := c
  size := 33
  count_pos := hc

/-- The bytes are well formed and hold the records of the queue. -/
structure Represents (c : Nat) (file : List UInt8) (queue : BoundedFifo (List UInt8) c) : Prop where
  length : file.length = headerSize + c * 33
  magic : (Header.unpack file).magic = magicBytes
  capacity : (Header.unpack file).capacity = c
  readIdx_lt : (Header.unpack file).readIdx < c
  writeIdx : ((Header.unpack file).readIdx + (Header.unpack file).count) % c = (Header.unpack file).writeIdx
  decode : decode file = queue.items

section Represents

variable {c : Nat} {file : List UInt8} {queue : BoundedFifo (List UInt8) c}

theorem Represents.pos (h : Represents c file queue) : 0 < c := Nat.zero_lt_of_lt h.readIdx_lt

theorem Represents.headerSize_le (h : Represents c file queue) : headerSize ≤ file.length := by
  rw [h.length]
  exact Nat.le_add_right _ _

theorem Represents.contents (h : Represents c file queue) :
    (layout c h.pos).contents (Header.unpack file).readIdx (Header.unpack file).count file = queue.items := by
  rw [← h.decode, LockedRing.decode, h.capacity]
  rfl

theorem Represents.count (h : Represents c file queue) : (Header.unpack file).count = queue.items.length := by
  rw [← h.contents, SlotLayout.length_contents]

theorem Represents.writeIdx_lt (h : Represents c file queue) : (Header.unpack file).writeIdx < c := by
  rw [← h.writeIdx]
  exact Nat.mod_lt _ h.pos

theorem Represents.length_record (h : Represents c file queue) {record : List UInt8} (hrecord : record ∈ queue.items) :
    record.length = 33 := by
  rw [← h.contents] at hrecord
  exact (layout c h.pos).length_of_mem_contents h.length hrecord

theorem Represents.of_header {stored : List UInt8} {header : Header} (hpos : 0 < c)
    (hlength : stored.length = headerSize + c * 33) (hunpack : Header.unpack stored = header)
    (hmagic : header.magic = magicBytes) (hcapacity : header.capacity = c) (hread : header.readIdx < c)
    (hwrite : (header.readIdx + header.count) % c = header.writeIdx)
    (hcontents : (layout c hpos).contents header.readIdx header.count stored = queue.items) :
    Represents c stored queue := by
  subst hunpack
  refine ⟨hlength, hmagic, hcapacity, hread, hwrite, ?_⟩
  rw [← hcontents, LockedRing.decode, hcapacity]
  rfl

theorem locked_of_open {ring : LockedRing} (hopen : ring.closed = false) : ring.locked = .ok () := by
  rw [locked, hopen, if_neg Bool.false_ne_true]

theorem locked_of_closed {ring : LockedRing} (hclosed : ring.closed = true) :
    ring.locked = .error (.valueError "Ring buffer is closed") := by
  rw [locked, hclosed, if_pos rfl]

theorem Represents.put (h : Represents c file queue) (hc : c < 2 ^ 32) {ring : LockedRing} (hopen : ring.closed = false)
    {record : List UInt8} (hrecord : record.length = 33) {queue' : BoundedFifo (List UInt8) c}
    (henqueue : queue.enqueue record = some queue') :
    ∃ stored, ring.put record file = (.ok (), stored) ∧ Represents c stored queue' := by
  obtain ⟨hroom, hitems⟩ := BoundedFifo.enqueue_eq_some.mp henqueue
  have hpos := h.pos
  have hcount := h.count
  rw [LockedRing.put, if_neg (not_not.mpr hrecord), locked_of_open hopen]
  dsimp only
  rw [h.capacity, if_neg (by omega)]
  -- the record goes behind the last one
  have hslot : headerSize + (Header.unpack file).writeIdx * 33 =
      (layout c hpos).offset ((Header.unpack file).readIdx + (Header.unpack file).count) := by
    rw [SlotLayout.offset, ← h.writeIdx]
    rfl
  have hfits := (layout c hpos).offset_le ((Header.unpack file).readIdx + (Header.unpack file).count)
  have hheader := (layout c hpos).header_le_offset ((Header.unpack file).readIdx + (Header.unpack file).count)
  have hcontents := (layout c hpos).contents_store h.length hrecord
    (Header.unpack file).readIdx (hcount ▸ hroom : (Header.unpack file).count < c)
  rw [h.contents, ← hitems] at hcontents
  rw [hslot]
  generalize (layout c hpos).offset ((Header.unpack file).readIdx + (Header.unpack file).count) = offset at *
  have hfits' : offset + record.length ≤ file.length := by
    rw [hrecord, h.length]
    exact hfits
  have hlength : (store offset record file).length = file.length := length_store hfits'
  rw [if_neg (by omega), LockedRing.next, if_neg (by omega)]
  obtain ⟨stored, hstore, hstored, hunpack, hslots⟩ := storeHeader_eq
    ⟨magicBytes, c, (Header.unpack file).readIdx, ((Header.unpack file).writeIdx + 1) % c,
      (Header.unpack file).count + 1⟩ (store offset record file) (by rw [hlength]; exact h.headerSize_le) rfl hc
    (h.readIdx_lt.trans hc) ((Nat.mod_lt _ hpos).trans hc) (lt_of_le_of_lt (by dsimp only; omega) hc)
  refine ⟨stored, hstore, .of_header hpos (hstored.trans (hlength.trans h.length)) hunpack rfl rfl h.readIdx_lt ?_ ?_⟩
  · rw [← h.writeIdx, Nat.mod_add_mod]
    rfl
  · rw [← hcontents]
    exact (layout c hpos).contents_congr (fun seq => hslots _ _ ((layout c hpos).header_le_offset seq)) _ _

theorem Represents.put_full (h : Represents c file queue) {ring : LockedRing} (hopen : ring.closed = false)
    {record : List UInt8} (hrecord : record.length = 33) (henqueue : queue.enqueue record = none) :
    ring.put record file = (.error (.bufferError "Ring buffer is full"), file) := by
  rw [LockedRing.put, if_neg (not_not.mpr hrecord), locked_of_open hopen]
  dsimp only
  rw [h.capacity, if_pos (h.count.trans (BoundedFifo.enqueue_eq_none.mp henqueue))]

theorem Represents.get (h : Represents c file queue) (hc : c < 2 ^ 32) {ring : LockedRing} (hopen : ring.closed = false)
    {record : List UInt8} {queue' : BoundedFifo (List UInt8) c} (hdequeue : queue.dequeue = some (record, queue')) :
    ∃ stored, ring.get file = (.ok (some record), stored) ∧ Represents c stored queue' := by
  have hitems := BoundedFifo.dequeue_eq_some.mp hdequeue
  have hpos := h.pos
  have hcount := h.count
  have hbound := queue.length_le
  have hcontents := h.contents
  rw [hitems, List.length_cons] at hcount hbound
  rw [hcount, SlotLayout.contents_succ, hitems] at hcontents
  obtain ⟨hrecord, hrest⟩ := List.cons.inj hcontents
  have hoffset : headerSize + (Header.unpack file).readIdx * 33 =
      (layout c hpos).offset (Header.unpack file).readIdx := by
    rw [SlotLayout.offset, show (layout c hpos).count = c from rfl, Nat.mod_eq_of_lt h.readIdx_lt]
    rfl
  rw [LockedRing.get, locked_of_open hopen]
  dsimp only
  rw [h.capacity, if_neg (by omega), LockedRing.next, if_neg (by omega)]
  obtain ⟨stored, hstore, hstored, hunpack, hslots⟩ := storeHeader_eq
    ⟨magicBytes, c, ((Header.unpack file).readIdx + 1) % c, (Header.unpack file).writeIdx,
      (Header.unpack file).count - 1⟩ file h.headerSize_le rfl hc ((Nat.mod_lt _ hpos).trans hc)
    (h.writeIdx_lt.trans hc) (lt_of_le_of_lt (by dsimp only; omega) hc)
  refine ⟨stored, ?_, .of_header hpos (hstored.trans h.length) hunpack rfl rfl (Nat.mod_lt _ hpos) ?_ ?_⟩
  · dsimp only
    rw [hstore, hoffset, show slice ((layout c hpos).offset (Header.unpack file).readIdx) 33 file = record from hrecord]
    rfl
  · dsimp only
    rw [Nat.mod_add_mod, ← h.writeIdx, hcount, Nat.add_sub_cancel, Nat.add_assoc, Nat.add_comm 1]
  · dsimp only
    rw [(layout c hpos).contents_congr (fun seq => hslots _ _ ((layout c hpos).header_le_offset seq)), hcount,
      Nat.add_sub_cancel]
    exact ((layout c hpos).contents_start_congr (Nat.mod_mod _ _) _ _).trans hrest

theorem Represents.get_empty (h : Represents c file queue) {ring : LockedRing} (hopen : ring.closed = false)
    (hdequeue : queue.dequeue = none) : ring.get file = (.ok none, file) := by
  rw [LockedRing.get, locked_of_open hopen]
  exact if_pos (by rw [h.count, BoundedFifo.dequeue_eq_none.mp hdequeue]; rfl)

theorem Represents.accepts (h : Represents c file queue) : Accepts file := by
  have hread := h.readIdx_lt
  have hwrite := h.writeIdx_lt
  have hcount := queue.length_le
  rw [Accepts, h.capacity, h.count]
  exact ⟨h.magic, h.length, hread, hwrite, hcount⟩

/-- Whatever the arguments, opening the file again keeps the capacity and the bytes. -/
theorem Represents.reopen (h : Represents c file queue) {capacity : Int} (hcapacity : ¬ capacity ≤ 0) (create : Bool) :
    LockedRing.init capacity create (some file) = (.ok { capacity := c }, some file) := by
  rw [init_long create hcapacity h.headerSize_le, initLocked_magic h.magic, if_pos h.accepts, h.capacity]

theorem Accepts.represents_new {c : Nat} {file : List UInt8} (haccepts : Accepts file)
    (hunpack : Header.unpack file = ⟨magicBytes, c, 0, 0, 0⟩) : Represents c file BoundedFifo.empty := by
  obtain ⟨-, hlength, hread, -, -⟩ := haccepts
  rw [hunpack] at hlength hread
  exact .of_header hread hlength hunpack rfl rfl hread (Nat.zero_mod c) rfl

theorem slice_new (c : Nat) : slice 0 8 (List.replicate (headerSize + c * 33) (0 : UInt8)) ≠ magicBytes := by
  rw [slice_replicate, Nat.min_eq_left (by rw [headerSize]; omega)]
  decide

theorem init_created (hpos : 0 < c) (hc : c < 2 ^ 32) :
    ∃ file, LockedRing.init c true none = (.ok { capacity := c }, some file) ∧
      Represents c file BoundedFifo.empty := by
  have hcapacity : ¬ (c : Int) ≤ 0 := by omega
  have hlong : headerSize ≤ (List.replicate (headerSize + c * 33) (0 : UInt8)).length := by
    rw [List.length_replicate]
    exact Nat.le_add_right _ _
  obtain ⟨stored, hlength, hunpack, hlocked⟩ := initLocked_create (slice_new c) hlong hc
  have haccepts : Accepts stored := by
    simp [Accepts, hunpack, hlength, hpos]
  refine ⟨stored, ?_, haccepts.represents_new hunpack⟩
  rw [init_new hcapacity, Int.toNat_natCast, hlocked, initLocked_magic haccepts.1, if_pos haccepts, hunpack]

/-- A ring is created on a new file only with a capacity that fits in its header. -/
theorem init_created_eq_ok {capacity : Int} {ring : LockedRing}
    (h : LockedRing.init capacity true none = (.ok ring, some file)) :
    ∃ c : Nat, 1 ≤ c ∧ c < 2 ^ 32 ∧ ring = { capacity := c } ∧ Represents c file BoundedFifo.empty := by
  by_cases hpositive : capacity ≤ 0
  · rw [init_nonpositive hpositive] at h
    cases h
  obtain ⟨c, rfl⟩ := Int.eq_ofNat_of_zero_le (not_le.mp hpositive).le
  have hpos : 0 < c := by omega
  by_cases hc : c < 2 ^ 32
  · obtain ⟨file', hinit, hrepresents⟩ := init_created hpos hc
    rw [hinit] at h
    cases h
    exact ⟨c, hpos, hc, rfl, hrepresents⟩
  · -- the header cannot be packed
    rw [init_new hpositive, Int.toNat_natCast, initLocked_create_overflow (slice_new c) (Nat.le_of_not_lt hc)] at h
    cases h

end Represents

/-! ### Refinement -/

section Refinement

variable {c : Nat} {s : System} {t : FifoSystem c}

/-- The file holds the queue, and the handles are open in both or in none. -/
structure Refines (s : System) (t : FifoSystem c) : Prop where
  file : ∃ file, s.file = some file ∧ Represents c file t.queue
  handles : s.handles.map LockedRing.closed = t.handles
  capacity : ∀ ring ∈ s.handles, ring.capacity = c

/-- One operation on both: the results are the same, and only a record that comes or goes changes a byte. -/
structure SameStep (s : System) (left : Result × System) (right : Result × FifoSystem c) : Prop where
  result : left.1 = right.1
  refines : Refines left.2 right.2
  unchanged : left.1.changes = false → left.2.file = s.file

theorem SameStep.refused (h : Refines s t) (result : Result) : SameStep s (result, s) (result, t) :=
  ⟨rfl, h, fun _ => rfl⟩

theorem System.sameFile {file : List UInt8} (hfile : s.file = some file) : { s with file := some file } = s := by
  rw [← hfile]

theorem Refines.length_handles (h : Refines s t) : s.handles.length = t.handles.length := by
  rw [← h.handles, List.length_map]

theorem Refines.exists_handle (h : Refines s t) {handle : Nat} (hhandle : ¬ t.handles.length ≤ handle) :
    ∃ ring, s.handles[handle]? = some ring :=
  ⟨_, List.getElem?_eq_getElem (h.length_handles ▸ Nat.lt_of_not_le hhandle)⟩

theorem Refines.onHandle_none (h : Refines s t) {handle : Nat} (hhandle : t.handles.length ≤ handle)
    (f : LockedRing → List UInt8 → Result × List UInt8) : s.onHandle handle f = (.noHandle, s) := by
  rw [System.onHandle, List.getElem?_eq_none (h.length_handles ▸ hhandle)]

theorem Refines.onHandle (h : Refines s t) (handle : Nat) {f : LockedRing → List UInt8 → Result × List UInt8}
    {g : BoundedFifo (List UInt8) c → Result × BoundedFifo (List UInt8) c}
    (hclosed : ∀ ring file, ring.closed = true → f ring file = (.raised (.valueError "Ring buffer is closed"), file))
    (hopen : ∀ ring file, ring.closed = false → Represents c file t.queue →
      (f ring file).1 = (g t.queue).1 ∧ Represents c (f ring file).2 (g t.queue).2 ∧
        ((f ring file).1.changes = false → (f ring file).2 = file)) :
    SameStep s (s.onHandle handle f) (t.onHandle handle g) := by
  obtain ⟨file, hfile, hrepresents⟩ := h.file
  have hhandle : t.handles[handle]? = s.handles[handle]?.map LockedRing.closed := by
    rw [← h.handles, List.getElem?_map]
  rw [System.onHandle, FifoSystem.onHandle, hhandle, hfile]
  cases hring : s.handles[handle]? with
  | none => exact .refused h _
  | some ring =>
      rw [Option.map_some]
      cases hflag : ring.closed with
      | true =>
          dsimp only
          rw [hclosed ring file hflag, System.sameFile hfile]
          exact .refused h _
      | false =>
          obtain ⟨hresult, hnext, hunchanged⟩ := hopen ring file hflag hrepresents
          refine ⟨hresult, ⟨⟨_, rfl, hnext⟩, h.handles, h.capacity⟩, fun hchanges => ?_⟩
          rw [hfile]
          exact congrArg some (hunchanged hchanges)

theorem Refines.perform_open (h : Refines s t) (capacity : Int) (create : Bool) :
    SameStep s (System.perform (.open capacity create) s) (FifoSystem.perform (.open capacity create) t) := by
  obtain ⟨file, hfile, hrepresents⟩ := h.file
  rw [System.perform, FifoSystem.perform, hfile]
  by_cases hcapacity : capacity ≤ 0
  · rw [LockedRing.init, if_pos hcapacity, if_pos hcapacity]
    dsimp only
    rw [System.sameFile hfile]
    exact .refused h _
  · rw [hrepresents.reopen hcapacity create, if_neg hcapacity]
    refine ⟨rfl, ⟨⟨file, rfl, hrepresents⟩, ?_, ?_⟩, fun _ => hfile.symm⟩
    · rw [List.map_append, h.handles]
      rfl
    · intro ring hring
      rcases List.mem_append.mp hring with hold | hnew
      · exact h.capacity ring hold
      · rw [List.mem_singleton.mp hnew]

/-- The length of the record is checked first, also of a closed handle. -/
theorem Refines.perform_put (h : Refines s t) (hc : c < 2 ^ 32) (handle : Nat) (record : List UInt8) :
    SameStep s (System.perform (.put handle record) s) (FifoSystem.perform (.put handle record) t) := by
  rw [System.perform, FifoSystem.perform]
  by_cases hhandle : t.handles.length ≤ handle
  · rw [if_pos hhandle, h.onHandle_none hhandle]
    exact .refused h _
  rw [if_neg hhandle]
  by_cases hrecord : record.length = 33
  · rw [if_neg (not_not.mpr hrecord)]
    apply h.onHandle handle
    · intro ring file hclosed
      rw [LockedRing.put, if_neg (not_not.mpr hrecord), locked_of_closed hclosed]
    · intro ring file hopen hrepresents
      cases henqueue : t.queue.enqueue record with
      | none =>
          rw [hrepresents.put_full hopen hrecord henqueue]
          exact ⟨rfl, hrepresents, fun _ => rfl⟩
      | some queue =>
          obtain ⟨stored, hput, hstored⟩ := hrepresents.put hc hopen hrecord henqueue
          rw [hput]
          exact ⟨rfl, hstored, fun hchanges => Bool.noConfusion hchanges⟩
  · obtain ⟨file, hfile, -⟩ := h.file
    obtain ⟨ring, hring⟩ := h.exists_handle hhandle
    rw [if_pos hrecord, System.onHandle, hring, hfile]
    dsimp only
    rw [LockedRing.put, if_pos hrecord]
    dsimp only
    rw [System.sameFile hfile]
    exact .refused h _

theorem Refines.perform_get (h : Refines s t) (hc : c < 2 ^ 32) (handle : Nat) :
    SameStep s (System.perform (.get handle) s) (FifoSystem.perform (.get handle) t) := by
  rw [System.perform, FifoSystem.perform]
  apply h.onHandle handle
  · intro ring file hclosed
    rw [LockedRing.get, locked_of_closed hclosed]
  · intro ring file hopen hrepresents
    cases hdequeue : t.queue.dequeue with
    | none =>
        rw [hrepresents.get_empty hopen hdequeue]
        exact ⟨rfl, hrepresents, fun _ => rfl⟩
    | some next =>
        obtain ⟨stored, hget, hstored⟩ := hrepresents.get hc hopen hdequeue
        rw [hget]
        exact ⟨rfl, hstored, fun hchanges => Bool.noConfusion hchanges⟩

theorem Refines.perform_len (h : Refines s t) (handle : Nat) :
    SameStep s (System.perform (.len handle) s) (FifoSystem.perform (.len handle) t) := by
  rw [System.perform, FifoSystem.perform]
  apply h.onHandle handle
  · intro ring file hclosed
    rw [LockedRing.len, locked_of_closed hclosed]
    rfl
  · intro ring file hopen hrepresents
    rw [LockedRing.len, locked_of_open hopen]
    exact ⟨congrArg Result.length hrepresents.count, hrepresents, fun _ => rfl⟩

theorem Refines.perform_close (h : Refines s t) (handle : Nat) :
    SameStep s (System.perform (.close handle) s) (FifoSystem.perform (.close handle) t) := by
  rw [System.perform, FifoSystem.perform]
  by_cases hhandle : t.handles.length ≤ handle
  · rw [if_pos hhandle, List.getElem?_eq_none (h.length_handles ▸ hhandle)]
    exact .refused h _
  · obtain ⟨opened, hopened⟩ := h.exists_handle hhandle
    rw [if_neg hhandle, hopened]
    refine ⟨rfl, ⟨h.file, ?_, ?_⟩, fun _ => rfl⟩
    · rw [List.map_set, h.handles]
      rfl
    · intro ring hring
      rcases List.mem_or_eq_of_mem_set hring with hold | rfl
      · exact h.capacity ring hold
      · exact h.capacity opened (List.mem_of_getElem? hopened)

theorem Refines.perform (h : Refines s t) (hc : c < 2 ^ 32) (op : Op) :
    SameStep s (System.perform op s) (FifoSystem.perform op t) := by
  cases op with
  | «open» capacity create => exact h.perform_open capacity create
  | put handle record => exact h.perform_put hc handle record
  | get handle => exact h.perform_get hc handle
  | len handle => exact h.perform_len handle
  | close handle => exact h.perform_close handle

end Refinement

/-! ### Runs -/

/-- Perform the operations in order and collect their results. -/
def performAll {σ : Type} (perform : Op → σ → Result × σ) : List Op → σ → List Result × σ
  | [], s => ([], s)
  | op :: ops, s =>
      let (result, s) := perform op s
      let (results, s) := performAll perform ops s
      (result :: results, s)

variable {c : Nat}

theorem Refines.performAll (hc : c < 2 ^ 32) (ops : List Op) {s : System} {t : FifoSystem c} (h : Refines s t) :
    (performAll System.perform ops s).1 = (LockedRing.performAll FifoSystem.perform ops t).1 ∧
      Refines (LockedRing.performAll System.perform ops s).2 (LockedRing.performAll FifoSystem.perform ops t).2 := by
  induction ops generalizing s t with
  | nil => exact ⟨rfl, h⟩
  | cons op ops ih =>
      have hstep := h.perform hc op
      obtain ⟨hresults, hrefines⟩ := ih hstep.refines
      exact ⟨congrArg₂ List.cons hstep.result hresults, hrefines⟩

theorem refines_create (hpos : 1 ≤ c) (hc : c < 2 ^ 32) : Refines (System.create c) (FifoSystem.create (c := c)) := by
  obtain ⟨file, hinit, hrepresents⟩ := init_created hpos hc
  have hcreate : System.create c = ⟨some file, [{ capacity := c }]⟩ := by
    rw [System.create, System.perform, hinit]
    rfl
  rw [hcreate]
  exact ⟨⟨file, rfl, hrepresents⟩, rfl, fun ring hring => by rw [List.mem_singleton.mp hring]⟩

/-- A ring that was created on a new file gives the results of a bounded queue, whatever is performed on it by
whichever handles. After any operations its bytes are well formed and stand for the queue, and the next
operation changes none of them unless it adds or removes a record. -/
theorem performAll_refines (hpos : 1 ≤ c) (hc : c < 2 ^ 32) (ops : List Op) :
    let ring := LockedRing.performAll System.perform ops (System.create c)
    let fifo := LockedRing.performAll FifoSystem.perform ops (FifoSystem.create (c := c))
    ring.1 = fifo.1 ∧ Refines ring.2 fifo.2 ∧ (∀ record ∈ fifo.2.queue.items, record.length = 33) ∧
      ∀ op, SameStep ring.2 (System.perform op ring.2) (FifoSystem.perform op fifo.2) := by
  obtain ⟨hresults, hrefines⟩ := (refines_create hpos hc).performAll hc ops
  obtain ⟨file, -, hrepresents⟩ := hrefines.file
  exact ⟨hresults, hrefines, fun record hrecord => hrepresents.length_record hrecord, hrefines.perform hc⟩

theorem performAll_refines_twoHandles :
    let ops := [.open 7 false, .put 0 (List.replicate 33 1), .put 1 (List.replicate 33 2), .close 0, .get 1,
      .put 1 (List.replicate 33 3), .len 1]
    (LockedRing.performAll System.perform ops (System.create 1)).1 =
      [.opened 1, .stored, .raised (.bufferError "Ring buffer is full"), .closed, .record (List.replicate 33 1),
        .stored, .length 1] := by
  exact (performAll_refines (by decide) (by decide) _).1.trans (by decide)

end LockedRing

end ChronosMatch
