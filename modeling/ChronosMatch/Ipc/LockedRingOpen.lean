import ChronosMatch.Ipc.LockedRingFifo

/-!
# Opening a locked ring on any file

What `__init__` makes of a file that may hold anything. A file without the magic is wiped before the checks, and the
checks compare each counter of the header with the capacity, but not the counters with each other.
-/

namespace ChronosMatch

open Bytes

namespace LockedRing

/-! ### Refused files -/

/-- If opening raises, the bytes that were in the file are there still. -/
def RefusalKeeps (capacity : Int) (create : Bool) (file : List UInt8) : Prop :=
  ∀ err left, init capacity create (some file) = (.error err, left) → ∃ bytes, left = some bytes ∧ file <+: bytes

/-- A file that is initialised although it does not have the length of the ring that was asked for, or although the
capacity does not fit in a header. In the second case no header follows the wipe. -/
def WipedThenRefused (capacity : Int) (create : Bool) (file : List UInt8) : Prop :=
  0 < capacity ∧ create = true ∧ headerSize ≤ file.length ∧ slice 0 8 file ≠ magicBytes ∧
    if capacity < 2 ^ 32 then file.length ≠ headerSize + capacity.toNat * 33
    else file ≠ List.replicate file.length 0

theorem RefusalKeeps.of_unchanged {capacity : Int} {create : Bool} {file : List UInt8} {result}
    (h : init capacity create (some file) = (result, some file)) : RefusalKeeps capacity create file := by
  intro err left herr
  rw [h] at herr
  obtain ⟨-, rfl⟩ := Prod.mk.inj herr
  exact ⟨file, rfl, List.prefix_refl file⟩

/-- Initialising a file loses its bytes exactly if the checks that follow refuse what was asked for. -/
theorem refusalKeeps_create {c : Nat} {file : List UInt8} (hpos : 0 < c) (hlong : headerSize ≤ file.length)
    (hmagic : slice 0 8 file ≠ magicBytes) : RefusalKeeps c true file ↔
      if c < 2 ^ 32 then file.length = headerSize + c * 33 else file = List.replicate file.length 0 := by
  have hinit := init_long true (by omega : ¬ (c : Int) ≤ 0) hlong
  split
  · next hc =>
      obtain ⟨stored, hlength, hunpack, hlocked⟩ := initLocked_create hmagic hlong hc
      have hstored : slice 0 8 stored = magicBytes := congrArg Header.magic hunpack
      have haccepts : Accepts stored ↔ file.length = headerSize + c * 33 := by
        simp [Accepts, hunpack, hlength, hpos]
      rw [hlocked, initLocked_magic hstored] at hinit
      constructor
      · intro hkeeps
        by_contra hsize
        rw [if_neg (fun h => hsize (haccepts.mp h))] at hinit
        obtain ⟨bytes, hbytes, hprefix⟩ := hkeeps _ _ hinit
        have hsame : file = stored := by
          cases hbytes
          exact hprefix.eq_of_length hlength.symm
        exact hmagic (hsame ▸ hstored)
      · intro hsize err left herr
        rw [hinit, if_pos (haccepts.mpr hsize)] at herr
        cases herr
  · next hc =>
      rw [initLocked_create_overflow hmagic (Nat.le_of_not_lt hc)] at hinit
      constructor
      · intro hkeeps
        obtain ⟨bytes, hbytes, hprefix⟩ := hkeeps _ _ hinit
        cases hbytes
        exact hprefix.eq_of_length List.length_replicate.symm
      · intro hzero
        apply RefusalKeeps.of_unchanged
        rw [hinit, ← hzero]

/-- A refused open destroys what was in the file exactly when the file was long enough for a header, did not
have the magic and was to be created with another length. -/
theorem refusalKeeps_iff (capacity : Int) (create : Bool) (file : List UInt8) :
    RefusalKeeps capacity create file ↔ ¬ WipedThenRefused capacity create file := by
  rcases le_or_gt capacity 0 with hnonpositive | hpositive
  · exact iff_of_true (.of_unchanged (init_nonpositive hnonpositive _)) fun hwiped => absurd hwiped.1 (by omega)
  have hcapacity : ¬ capacity ≤ 0 := not_le.mpr hpositive
  rcases lt_or_ge file.length headerSize with hshort | hlong
  · refine iff_of_true ?_ fun hwiped => absurd hwiped.2.2.1 (by omega)
    by_cases hempty : create = true ∧ file.length = 0
    · obtain ⟨rfl, hlength⟩ := hempty
      obtain rfl := List.length_eq_zero_iff.mp hlength
      -- there was nothing in the file, whatever it holds now
      intro err left herr
      rw [init_empty hcapacity, init_new hcapacity] at herr
      exact ⟨_, (Prod.mk.inj herr).2.symm, List.nil_prefix⟩
    · obtain ⟨err, hinit⟩ := init_short hcapacity hshort fun hcreate hlength => hempty ⟨hcreate, hlength⟩
      exact .of_unchanged hinit
  have hinit := init_long create hcapacity hlong
  by_cases hmagic : slice 0 8 file = magicBytes
  · refine iff_of_true ?_ fun hwiped => hwiped.2.2.2.1 hmagic
    rw [initLocked_magic hmagic] at hinit
    exact .of_unchanged hinit
  cases create with
  | false =>
      refine iff_of_true ?_ fun hwiped => Bool.noConfusion hwiped.2.1
      rw [initLocked_attach hmagic] at hinit
      exact .of_unchanged hinit
  | true =>
      obtain ⟨c, rfl⟩ := Int.eq_ofNat_of_zero_le hpositive.le
      rw [refusalKeeps_create (by omega) hlong hmagic]
      have hfits : (c : Int) < 2 ^ 32 ↔ c < 2 ^ 32 := by omega
      simp only [WipedThenRefused, hpositive, hlong, hmagic, hfits, Int.toNat_natCast, true_and, ne_eq, not_false_eq_true]
      split
      · exact not_not.symm
      · exact not_not.symm

/-- A file of some other program, one byte longer than a header. -/
theorem not_refusalKeeps_foreign : init 1 true (some (List.replicate 25 0x78)) = (.error closedFileError,
      some ([0x43, 0x48, 0x52, 0x4F, 0x4E, 0x4F, 0x53, 0x31, 1] ++ List.replicate 16 0)) ∧
    ¬ RefusalKeeps 1 true (List.replicate 25 0x78) := by
  have hinit : init 1 true (some (List.replicate 25 0x78)) = (.error closedFileError,
      some ([0x43, 0x48, 0x52, 0x4F, 0x4E, 0x4F, 0x53, 0x31, 1] ++ List.replicate 16 0)) := by
    decide +kernel
  refine ⟨hinit, fun hkeeps => ?_⟩
  obtain ⟨bytes, hbytes, hprefix⟩ := hkeeps _ _ hinit
  cases hbytes
  exact absurd hprefix (by decide)

/-! ### Accepted files -/

/-- The counters say one thing: the records end where the next one goes. -/
structure Header.Consistent (header : Header) : Prop where
  count_le : header.count ≤ header.capacity
  readIdx_lt : header.readIdx < header.capacity
  writeIdx : (header.readIdx + header.count) % header.capacity = header.writeIdx

/-- From here on the handle, and whoever opens the file later, see a queue that starts with the records in the
slots: every operation gives the result of the queue, and after any of them the slots hold what is in the queue.
-/
def InOrder (ring : LockedRing) (file : List UInt8) : Prop :=
  ∃ queue : BoundedFifo (List UInt8) (Header.unpack file).capacity, queue.items = decode file ∧
    ∀ ops : List Op,
      let left := performAll System.perform ops ⟨some file, [ring]⟩
      let right := performAll FifoSystem.perform ops ⟨queue, [false]⟩
      left.1 = right.1 ∧ Refines left.2 right.2

/-- Opening raises, or leaves a file with a consistent header that serves as a queue. -/
def OpensInOrder (capacity : Int) (create : Bool) (file : List UInt8) : Prop :=
  ∀ ring left, init capacity create (some file) = (.ok ring, left) →
    ∃ opened, left = some opened ∧ (Header.unpack opened).Consistent ∧ InOrder ring opened

/-- A file that passes every check although its counters contradict each other. -/
def AcceptedInconsistent (capacity : Int) (file : List UInt8) : Prop :=
  let header := Header.unpack file
  0 < capacity ∧ Accepts file ∧ (header.readIdx + header.count) % header.capacity ≠ header.writeIdx

theorem capacity_lt (file : List UInt8) : (Header.unpack file).capacity < 2 ^ 32 := by
  have hlt := decodeLE_lt (slice 8 4 file)
  have hlength : (slice 8 4 file).length ≤ 4 := List.length_take_le _ _
  exact hlt.trans_le (Nat.pow_le_pow_right (by decide) hlength)

theorem Represents.inOrder {c : Nat} {file : List UInt8} {queue : BoundedFifo (List UInt8) c}
    (h : Represents c file queue) : InOrder { capacity := c } file := by
  obtain rfl := h.capacity
  refine ⟨queue, h.decode.symm, fun ops => ?_⟩
  apply Refines.performAll (capacity_lt file) ops
  exact ⟨⟨file, rfl, h⟩, rfl, fun ring hring => by rw [List.mem_singleton.mp hring]⟩

theorem Represents.consistent {c : Nat} {file : List UInt8} {queue : BoundedFifo (List UInt8) c}
    (h : Represents c file queue) : (Header.unpack file).Consistent where
  count_le := by
    rw [h.count, h.capacity]
    exact queue.length_le
  readIdx_lt := by
    rw [h.capacity]
    exact h.readIdx_lt
  writeIdx := by
    rw [h.capacity]
    exact h.writeIdx

theorem Accepts.represents {file : List UInt8} (haccepts : Accepts file)
    (hwriteIdx : ((Header.unpack file).readIdx + (Header.unpack file).count) % (Header.unpack file).capacity =
      (Header.unpack file).writeIdx) : ∃ queue, Represents (Header.unpack file).capacity file queue := by
  obtain ⟨hmagic, hlength, hread, -, hcount⟩ := haccepts
  have hitems : (decode file).length ≤ (Header.unpack file).capacity := by
    simpa [decode] using hcount
  exact ⟨⟨decode file, hitems⟩, hlength, hmagic, rfl, hread, hwriteIdx, rfl⟩

/-- Opening an existing file succeeds in two ways: the file passes the checks and stays as it is, or it becomes an
empty ring. -/
theorem init_eq_ok {capacity : Int} {create : Bool} {file : List UInt8} {ring : LockedRing} {left : Option (List UInt8)}
    (h : init capacity create (some file) = (.ok ring, left)) :
    (0 < capacity ∧ Accepts file ∧ ring = { capacity := (Header.unpack file).capacity } ∧ left = some file) ∨
    (slice 0 8 file ≠ magicBytes ∧ ∃ c : Nat, ∃ stored, ring = { capacity := c } ∧ left = some stored ∧
      Represents c stored BoundedFifo.empty) := by
  rcases le_or_gt capacity 0 with hnonpositive | hpositive
  · rw [init_nonpositive hnonpositive] at h
    cases h
  have hcapacity : ¬ capacity ≤ 0 := not_le.mpr hpositive
  rcases lt_or_ge file.length headerSize with hshort | hlong
  · by_cases hempty : create = true ∧ file.length = 0
    · obtain ⟨rfl, hlength⟩ := hempty
      obtain rfl := List.length_eq_zero_iff.mp hlength
      rw [init_empty hcapacity] at h
      obtain ⟨stored, rfl⟩ : ∃ stored, left = some stored := by
        rw [init_new hcapacity] at h
        exact ⟨_, (Prod.mk.inj h).2.symm⟩
      obtain ⟨c, -, -, hring, hrepresents⟩ := init_created_eq_ok h
      exact .inr ⟨by decide, c, stored, hring, rfl, hrepresents⟩
    · obtain ⟨err, hinit⟩ := init_short hcapacity hshort fun hcreate hlength => hempty ⟨hcreate, hlength⟩
      rw [hinit] at h
      cases h
  rw [init_long create hcapacity hlong] at h
  by_cases hmagic : slice 0 8 file = magicBytes
  · rw [initLocked_magic hmagic] at h
    by_cases haccepts : Accepts file
    · rw [if_pos haccepts] at h
      cases h
      exact .inl ⟨hpositive, haccepts, rfl, rfl⟩
    · rw [if_neg haccepts] at h
      cases h
  refine .inr ⟨hmagic, ?_⟩
  cases create with
  | false =>
      rw [initLocked_attach hmagic] at h
      cases h
  | true =>
      obtain ⟨c, rfl⟩ := Int.eq_ofNat_of_zero_le hpositive.le
      rcases lt_or_ge c (2 ^ 32) with hc | hc
      · obtain ⟨stored, -, hunpack, hlocked⟩ := initLocked_create hmagic hlong hc
        rw [hlocked, initLocked_magic (congrArg Header.magic hunpack)] at h
        by_cases haccepts : Accepts stored
        · rw [if_pos haccepts, hunpack] at h
          cases h
          exact ⟨c, stored, rfl, rfl, haccepts.represents_new hunpack⟩
        · rw [if_neg haccepts] at h
          cases h
      · rw [initLocked_create_overflow hmagic hc] at h
        cases h

/-- Opening lets in a file whose counters contradict each other exactly when they are in range one by one. -/
theorem opensInOrder_iff (capacity : Int) (create : Bool) (file : List UInt8) :
    OpensInOrder capacity create file ↔ ¬ AcceptedInconsistent capacity file := by
  constructor
  · rintro hopens ⟨hpositive, haccepts, hinconsistent⟩
    have hinit := init_long create (not_le.mpr hpositive) haccepts.headerSize_le
    rw [initLocked_magic haccepts.1, if_pos haccepts] at hinit
    obtain ⟨opened, hopened, hconsistent, -⟩ := hopens _ _ hinit
    cases hopened
    exact hinconsistent hconsistent.writeIdx
  · intro hnot ring left hok
    obtain ⟨hpositive, haccepts, rfl, rfl⟩ | ⟨-, c, stored, rfl, rfl, hrepresents⟩ := init_eq_ok hok
    · obtain ⟨queue, hrepresents⟩ := haccepts.represents
        (by_contra fun hinconsistent => hnot ⟨hpositive, haccepts, hinconsistent⟩)
      exact ⟨file, rfl, hrepresents.consistent, hrepresents.inOrder⟩
    · exact ⟨stored, rfl, hrepresents.consistent, hrepresents.inOrder⟩

/-- A ring of two slots whose next record would go where the only unread one is. The record of ones is lost, and
what the second slot happens to hold comes out behind the record of twos. -/
theorem not_opensInOrder_overlap :
    let file := magicBytes ++ [2, 0, 0, 0, 0, 0, 0, 0, 0, 0, 0, 0, 1, 0, 0, 0] ++ List.replicate 33 1 ++
      List.replicate 33 0
    init 2 false (some file) = (.ok { capacity := 2 }, some file) ∧
    decode file = [List.replicate 33 1] ∧
    (performAll System.perform [.put 0 (List.replicate 33 2), .get 0, .get 0] ⟨some file, [{ capacity := 2 }]⟩).1 =
      [.stored, .record (List.replicate 33 2), .record (List.replicate 33 0)] ∧
    ¬ OpensInOrder 2 false file := by
  intro file
  have hinit : init 2 false (some file) = (.ok { capacity := 2 }, some file) := by decide +kernel
  refine ⟨hinit, by decide +kernel, by decide +kernel, fun hopens => ?_⟩
  obtain ⟨opened, hopened, hconsistent, -⟩ := hopens _ _ hinit
  cases hopened
  exact absurd hconsistent.writeIdx (by decide +kernel)

end LockedRing

end ChronosMatch
