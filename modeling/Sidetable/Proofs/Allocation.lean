import Sidetable.Buffer.Storage
import Sidetable.Proofs.Patching

/-!
# Storage implements the buffer

The bytes in use are a buffer, and every call to the storage is the call to that buffer, wherever
the slots are: growth shows in none of them. A buffer computes with numbers that wrap. Its calls
succeed as if they did not, with one exception, the number of entries: of a number outside 61 bits
only the low ones count.
-/
namespace Sidetable

open LittleEndian (encode decode)

theorem Width.bytes_le (w : Width) : w.bytes ≤ 8 := by
  cases w <;> decide

theorem toNat_toUInt64_of_nonneg {n : Int64} (h : 0 ≤ n.toInt) :
    n.toUInt64.toNat = n.toInt.toNat := by
  have word : n.toUInt64.toNat = n.toBitVec.toNat := rfl
  have value : n.toInt = n.toBitVec.toInt := rfl
  have := BitVec.toInt_eq_toNat_cond n.toBitVec
  have := n.toBitVec.isLt
  split at * <;> omega

namespace Buffer

variable {b : Buffer}

theorem admits_iff {total : Nat} :
    b.admits total ↔ total ≤ maxSize ∧ (b.limit.toInt ≤ 0 ∨ total ≤ b.limit.toInt) := by
  simp [admits, Int64.le_iff_toInt_le]

/-- Positions that wrap are refused, so a span is found as if none did. -/
theorem span_ok_iff {off : UInt32} {rel : Int64} {width p : Nat} (bound : b.size ≤ maxSize)
    (narrow : width ≤ 8) :
    b.span off rel width = .ok p ↔
      0 ≤ rel.toInt ∧ off.toNat + rel.toInt + width ≤ b.size ∧
      (p : Int) = off.toNat + rel.toInt := by
  have small : maxSize < 4294967296 := by decide
  have := off.toNat_lt
  have := rel.toInt_lt
  have offset : (Int64.ofNat off.toNat).toInt = off.toNat := Int64.toInt_ofNat_of_lt (by omega)
  have size : (Int64.ofNat b.size).toInt = b.size := Int64.toInt_ofNat_of_lt (by omega)
  have wide : (Int64.ofNat width).toInt = width := Int64.toInt_ofNat_of_lt (by omega)
  have start := Int64.toInt_add (Int64.ofNat off.toNat) rel
  have stop := Int64.toInt_add (Int64.ofNat off.toNat + rel) (Int64.ofNat width)
  rw [offset] at start
  rw [wide] at stop
  unfold span
  -- a start that wrapped is negative, and an end that wrapped is before it: the second test stops
  -- both
  simp only [Int64.lt_iff_toInt_lt, Int64.toInt_zero, Bool.or_eq_true, decide_eq_true_eq, size]
  simp only [Int.bmod] at start stop
  split
  · simp only [reduceCtorEq, false_iff]
    omega
  · split
    · simp only [reduceCtorEq, false_iff]
      omega
    · simp only [Except.ok.injEq]
      omega

def Allows (limit : Int64) (size : Int) : Prop :=
  size ≤ 4294967295 ∧ (limit.toInt ≤ 0 ∨ size ≤ limit.toInt)

/-- `n` more bytes are no more than a buffer may hold. -/
def Grants (b : Buffer) (n : Int) : Prop :=
  0 ≤ n ∧ Allows b.limit (b.size + n)

def Reaches (b : Buffer) (width : Nat) (off : UInt32) (rel : Int64) : Prop :=
  0 ≤ rel.toInt ∧ off.toNat + rel.toInt + width ≤ b.size

def placing (b : Buffer) : Except AllocationError Buffer → Buffer × Storage.Answer
  | .ok grown => (grown, .placed (UInt32.ofNat b.size))
  | .error e => (b, .refused e)

def call (b : Buffer) : Storage.Call → Buffer × Storage.Answer
  | .allocate n => b.placing (b.allocate n)
  | .allocateEntries n => b.placing (b.allocateEntries n)
  | .addRaw v => b.placing (b.addRaw v)
  | .put width off rel v =>
    match b.put width.bytes off rel v.toNat with
    | .error e => (b, .breach e)
    | .ok b' => (b', .written)
  | .get width pos =>
    match b.get width.bytes pos with
    | .error e => (b, .breach e)
    | .ok v => (b, .value v)

theorem grants_ofNat {n : Nat} : b.Grants n ↔ b.admits (b.size + n) := by
  have largest : maxSize = 4294967295 := rfl
  rw [admits_iff, Grants, Allows, largest]
  omega

theorem toNat_size_of_granted {n : Int} (granted : b.Grants n) :
    (UInt32.ofNat b.size).toNat = b.size := by
  obtain ⟨nonneg, fits, -⟩ := granted
  exact UInt32.toNat_ofNat_of_lt' (by rw [UInt32.size]; omega)

theorem allocate_granted {n : Int64} (granted : b.Grants n.toInt) :
    b.allocate n = .ok { b with data := b.data ++ Array.replicate n.toInt.toNat 0 } := by
  have nonneg : ¬ n < 0 := by
    rw [Int64.lt_iff_toInt_lt, Int64.toInt_zero]
    exact Int.not_lt.mpr granted.1
  rw [← Int.toNat_of_nonneg granted.1, grants_ofNat] at granted
  rw [allocate, if_neg nonneg, if_pos granted]

theorem allocate_refused {n : Int64} (refused : ¬ b.Grants n.toInt) :
    ∃ e, b.allocate n = .error e := by
  unfold allocate
  by_cases negative : n < 0
  · exact ⟨_, if_pos negative⟩
  · have nonneg : 0 ≤ n.toInt := by
      rwa [Int64.lt_iff_toInt_lt, Int64.toInt_zero, Int.not_lt] at negative
    rw [← Int.toNat_of_nonneg nonneg, grants_ofNat] at refused
    rw [if_neg negative, if_neg refused]
    exact ⟨_, rfl⟩

theorem addRaw_eq (b : Buffer) (v : UInt64) :
    b.addRaw v = (b.allocate 8).map fun _ =>
      { b with data := b.data ++ (encode 8 v.toNat).toArray } := by
  have eight : (8 : Int64).toInt.toNat = 8 := by decide
  have nonneg : ¬ (8 : Int64) < 0 := by decide
  rw [addRaw, append, allocate, if_neg nonneg, eight, LittleEndian.length_encode]
  by_cases admitted : b.admits (b.size + 8)
  · simp [admitted, Except.map]
  · simp [admitted, Except.map]

section Access

variable {width : Nat} {off : UInt32} {rel pos : Int64}

theorem Reaches.inside (reached : b.Reaches width off rel) :
    off.toNat + rel.toInt.toNat + width ≤ b.size := by
  obtain ⟨nonneg, inside⟩ := reached
  omega

theorem span_reached (bound : b.size ≤ maxSize) (narrow : width ≤ 8)
    (reached : b.Reaches width off rel) :
    b.span off rel width = .ok (off.toNat + rel.toInt.toNat) := by
  obtain ⟨nonneg, inside⟩ := reached
  exact (span_ok_iff bound narrow).mpr ⟨nonneg, inside, by omega⟩

theorem span_missed (bound : b.size ≤ maxSize) (narrow : width ≤ 8)
    (missed : ¬ b.Reaches width off rel) : ∃ e, b.span off rel width = .error e := by
  cases found : b.span off rel width with
  | error e => exact ⟨e, rfl⟩
  | ok p =>
    obtain ⟨nonneg, inside, -⟩ := (span_ok_iff bound narrow).mp found
    exact absurd ⟨nonneg, inside⟩ missed

theorem put_reached (bound : b.size ≤ maxSize) (narrow : width ≤ 8)
    (reached : b.Reaches width off rel) (v : Nat) :
    b.put width off rel v =
      .ok { b with data := patch b.data (off.toNat + rel.toInt.toNat) (encode width v) } := by
  rw [put, span_reached bound narrow reached]
  rfl

theorem get_reached (bound : b.size ≤ maxSize) (narrow : width ≤ 8)
    (reached : b.Reaches width 0 pos) :
    b.get width pos = .ok (decode ((b.bytes.drop pos.toInt.toNat).take width)) := by
  have start : (0 : UInt32).toNat + pos.toInt.toNat = pos.toInt.toNat := Nat.zero_add _
  have part : (b.data.extract pos.toInt.toNat (pos.toInt.toNat + width)).toList =
      (b.bytes.drop pos.toInt.toNat).take width := by
    rw [Array.toList_extract, List.extract_eq_take_drop, Nat.add_sub_cancel_left, bytes]
  rw [get, span_reached bound narrow reached, start, ← part]
  rfl

end Access

theorem patch_zeros (data : Array UInt8) (v : Nat) :
    patch (data ++ Array.replicate 8 0) data.size (encode 8 v) = data ++ (encode 8 v).toArray := by
  rw [← Array.toList_inj, toList_patch (by simp)]
  simp

/-! ## The answer to each call -/

section Calls

variable {width : Width} {off : UInt32} {rel pos : Int64}

theorem call_addRaw_granted (granted : b.Grants 8) (v : UInt64) :
    b.call (.addRaw v) =
      ({ b with data := b.data ++ (encode 8 v.toNat).toArray }, .placed (UInt32.ofNat b.size)) := by
  have room : b.Grants (8 : Int64).toInt := granted
  change b.placing (b.addRaw v) = _
  rw [addRaw_eq, allocate_granted room]
  rfl

theorem call_addRaw_refused (refused : ¬ b.Grants 8) (v : UInt64) :
    ∃ e, b.call (.addRaw v) = (b, .refused e) := by
  have full : ¬ b.Grants (8 : Int64).toInt := refused
  obtain ⟨e, failed⟩ := allocate_refused full
  refine ⟨e, ?_⟩
  change b.placing (b.addRaw v) = _
  rw [addRaw_eq, failed]
  rfl

theorem call_put_reached (bound : b.size ≤ maxSize) (reached : b.Reaches width.bytes off rel)
    (v : UInt64) :
    b.call (.put width off rel v) =
      ({ b with data := patch b.data (off.toNat + rel.toInt.toNat) (encode width.bytes v.toNat) },
        .written) := by
  delta call
  dsimp only
  rw [put_reached bound width.bytes_le reached]

theorem call_put_missed (bound : b.size ≤ maxSize) (missed : ¬ b.Reaches width.bytes off rel)
    (v : UInt64) : ∃ e, b.call (.put width off rel v) = (b, .breach e) := by
  obtain ⟨e, lost⟩ := span_missed bound width.bytes_le missed
  have failed : b.put width.bytes off rel v.toNat = .error e := by
    rw [put, lost]
    rfl
  refine ⟨e, ?_⟩
  delta call
  dsimp only
  rw [failed]

theorem call_get_reached (bound : b.size ≤ maxSize) (reached : b.Reaches width.bytes 0 pos) :
    b.call (.get width pos) =
      (b, .value (decode ((b.bytes.drop pos.toInt.toNat).take width.bytes))) := by
  delta call
  dsimp only
  rw [get_reached bound width.bytes_le reached]

theorem call_get_missed (bound : b.size ≤ maxSize) (missed : ¬ b.Reaches width.bytes 0 pos) :
    ∃ e, b.call (.get width pos) = (b, .breach e) := by
  obtain ⟨e, lost⟩ := span_missed bound width.bytes_le missed
  have failed : b.get width.bytes pos = .error e := by
    rw [get, lost]
    rfl
  refine ⟨e, ?_⟩
  delta call
  dsimp only
  rw [failed]

end Calls

end Buffer

namespace Storage

variable {s : Storage}

def buffer (s : Storage) : Buffer :=
  { data := s.slots.extract 0 s.size, limit := s.limit }

theorem length_bytes (s : Storage) : s.bytes.length = s.size := by
  have := s.inside
  rw [bytes, List.length_take, Array.length_toList]
  omega

theorem bytes_buffer (s : Storage) : s.buffer.bytes = s.bytes := by
  simp [Buffer.bytes, buffer, bytes]

theorem size_buffer (s : Storage) : s.buffer.size = s.size := by
  rw [← length_bytes, ← bytes_buffer, Buffer.bytes, Array.length_toList, Buffer.size]

theorem bound_buffer (s : Storage) : s.buffer.size ≤ Buffer.maxSize := by
  rw [size_buffer]
  exact s.bounded

theorem buffer_eq {b : Buffer} (bytes : s.bytes = b.bytes) (limit : s.limit = b.limit) :
    s.buffer = b := by
  have same : s.buffer.data = b.data := by
    rw [← Array.toList_inj]
    exact (s.bytes_buffer.trans bytes)
  cases b
  simp_all [buffer]

/-! ## Growth -/

theorem take_slotsFor (s : Storage) (total : Nat) :
    (s.slotsFor total).toList.take s.size = s.bytes := by
  have := s.inside
  unfold slotsFor bytes
  split
  · have front : (s.slots.extract 0 s.size).toList = s.slots.toList.take s.size := by simp
    have length : (s.slots.toList.take s.size).length = s.size := s.length_bytes
    rw [Array.toList_append, front, List.take_left' length]
  · rfl

theorem bytes_extend {total : Nat} (fits : total ≤ Buffer.maxSize) (more : s.size ≤ total) :
    (s.extend total fits).bytes = s.bytes ++ List.replicate (total - s.size) 0 := by
  have room :
      s.size + (List.replicate (total - s.size) (0 : UInt8)).length ≤ (s.slotsFor total).size := by
    have := s.le_size_slotsFor total
    rw [List.length_replicate]
    omega
  have patched := Buffer.toList_patch room
  have used : (s.bytes ++ List.replicate (total - s.size) (0 : UInt8)).length = total := by
    rw [List.length_append, length_bytes, List.length_replicate]
    omega
  rw [take_slotsFor] at patched
  change List.take total (Buffer.patch _ _ _).toList = _
  rw [patched, List.take_left' used]

theorem toNat_total {n : Int64} (h : 0 ≤ n.toInt) :
    (UInt64.ofNat s.size + n.toUInt64).toNat = s.size + n.toInt.toNat := by
  have small : Buffer.maxSize < 4294967296 := by decide
  have := s.bounded
  have := n.toInt_lt
  rw [UInt64.toNat_add, toNat_toUInt64_of_nonneg h,
    UInt64.toNat_ofNat_of_lt' (by rw [UInt64.size]; omega)]
  omega

theorem fits_iff {n : Int64} (h : 0 ≤ n.toInt) :
    let total := UInt64.ofNat s.size + n.toUInt64
    total.toNat ≤ Buffer.maxSize ∧ (s.limit ≤ 0 ∨ total ≤ s.limit.toUInt64) ↔
      s.buffer.admits (s.size + n.toInt.toNat) := by
  intro total
  have sum : total.toNat = s.size + n.toInt.toNat := toNat_total h
  have limit : s.buffer.limit = s.limit := rfl
  rw [Buffer.admits_iff, sum, limit, Int64.le_iff_toInt_le, Int64.toInt_zero,
    UInt64.le_iff_toNat_le, sum]
  by_cases free : s.limit.toInt ≤ 0
  · simp [free]
  · rw [toNat_toUInt64_of_nonneg (by omega)]
    omega

theorem buffer_allocate (s : Storage) (n : Int64) :
    (s.allocate n).map (fun placed => (placed.1.toNat, placed.2.buffer)) =
      (s.buffer.allocate n).map fun grown => (s.size, grown) := by
  unfold allocate Buffer.allocate
  by_cases negative : n < 0
  · simp [negative, Except.map]
  · have nonneg : 0 ≤ n.toInt := by
      rw [Int64.lt_iff_toInt_lt, Int64.toInt_zero] at negative
      omega
    have fits := s.fits_iff nonneg
    simp only [negative, if_false, size_buffer]
    by_cases admitted : s.buffer.admits (s.size + n.toInt.toNat)
    · have small : Buffer.maxSize < 4294967296 := by decide
      have room := fits.mpr admitted
      have start : (UInt32.ofNat s.size).toNat = s.size :=
        UInt32.toNat_ofNat_of_lt' (by have := s.bounded; rw [UInt32.size]; omega)
      rw [dif_pos room, if_pos admitted]
      simp only [Except.map, start]
      congr 2
      apply buffer_eq
      · rw [bytes_extend _ (by rw [toNat_total nonneg]; omega), toNat_total nonneg,
          Nat.add_sub_cancel_left, ← bytes_buffer]
        simp [Buffer.bytes]
      · rfl
    · rw [dif_neg (fits.not.mpr admitted), if_neg admitted, toNat_toUInt64_of_nonneg nonneg]
      rfl

/-! ## Access -/

/-- Bytes in use are slots, so the storage finds a span where the buffer does. -/
theorem span_buffer (s : Storage) (off : UInt32) (rel : Int64) (width : Nat) :
    s.span off rel width = s.buffer.span off rel width := by
  have small : Buffer.maxSize < 4294967296 := by decide
  have := s.inside
  have := s.bounded
  have size : (Int64.ofNat s.size).toInt = s.size := Int64.toInt_ofNat_of_lt (by omega)
  unfold span Buffer.span
  rw [size_buffer]
  simp only [Int64.lt_iff_toInt_lt, size, Bool.or_eq_true, decide_eq_true_eq]
  split
  · rfl
  · rename_i stop
    have behind :
        ¬ (s.slots.size : Int) < (Int64.ofNat off.toNat + rel + Int64.ofNat width).toInt := by
      omega
    simp only [behind, or_false]

theorem span_ok_iff {off : UInt32} {rel : Int64} {width p : Nat} (narrow : width ≤ 8) :
    s.span off rel width = .ok p ↔
      0 ≤ rel.toInt ∧ off.toNat + rel.toInt + width ≤ s.size ∧
      (p : Int) = off.toNat + rel.toInt := by
  rw [span_buffer, Buffer.span_ok_iff s.bound_buffer narrow, size_buffer]

theorem bytes_patch {p : Nat} {list : List UInt8} (inside : p + list.length ≤ s.size) :
    (Buffer.patch s.slots p list).toList.take s.size =
      s.bytes.take p ++ list ++ s.bytes.drop (p + list.length) := by
  have := s.inside
  rw [Buffer.toList_patch (by omega), bytes]
  simp only [List.append_assoc, List.take_append, List.length_take, Array.length_toList,
    List.take_take, List.drop_take]
  congr 1
  · congr 1
    omega
  · rw [List.take_of_length_le (by omega)]
    congr 2
    omega

theorem buffer_put (s : Storage) (off : UInt32) (rel : Int64) {width : Nat} (narrow : width ≤ 8)
    (v : Nat) : (s.put width off rel v).map buffer = s.buffer.put width off rel v := by
  unfold put Buffer.put
  cases found : s.span off rel width with
  | error breach =>
    rw [span_buffer] at found
    rw [found]
    rfl
  | ok p =>
    have inside := (span_ok_iff narrow).mp found
    rw [span_buffer] at found
    rw [found]
    have here : p + (encode width v).length ≤ s.size := by
      rw [LittleEndian.length_encode]
      omega
    have size : s.buffer.data.size = s.size := s.size_buffer
    have there : p + (encode width v).length ≤ s.buffer.data.size := by rwa [size]
    refine congrArg Except.ok (buffer_eq ?_ rfl)
    refine (bytes_patch here).trans ?_
    rw [Buffer.bytes, Buffer.toList_patch there, ← bytes_buffer, Buffer.bytes]

theorem get_buffer (s : Storage) (pos : Int64) {width : Nat} (narrow : width ≤ 8) :
    s.get width pos = s.buffer.get width pos := by
  unfold get Buffer.get
  cases found : s.span 0 pos width with
  | error breach =>
    rw [span_buffer] at found
    rw [found]
    rfl
  | ok p =>
    have inside := (span_ok_iff narrow).mp found
    have part : s.buffer.data.extract p (p + width) = s.slots.extract p (p + width) := by
      rw [buffer, Array.extract_extract]
      congr 1
      · omega
      · have : (0 : UInt32).toNat = 0 := by decide
        omega
    rw [span_buffer] at found
    rw [found]
    change Except.ok _ = Except.ok _
    rw [part]

/-! ## Calls -/

theorem placing_buffer {r : Except AllocationError (UInt32 × Storage)}
    {r' : Except AllocationError Buffer}
    (same : r.map (fun placed => (placed.1.toNat, placed.2.buffer)) = r'.map fun grown =>
      (s.size, grown)) : s.buffer.placing r' = ((s.placing r).1.buffer, (s.placing r).2) := by
  cases r with
  | error e =>
    cases r' with
    | error e' =>
      cases same
      rfl
    | ok grown => cases same
  | ok placed =>
    cases r' with
    | error e' => cases same
    | ok grown =>
      obtain ⟨off, t⟩ := placed
      obtain ⟨start, rfl⟩ := Prod.mk.inj (Except.ok.inj same)
      rw [Buffer.placing, placing, size_buffer, ← start, UInt32.ofNat_toNat]

theorem allocate_granted {n : Int64} (granted : s.buffer.Grants n.toInt) :
    ∃ off t, s.allocate n = .ok (off, t) ∧ off.toNat = s.size ∧
      t.buffer = { s.buffer with data := s.buffer.data ++ Array.replicate n.toInt.toNat 0 } := by
  have same := s.buffer_allocate n
  rw [Buffer.allocate_granted granted] at same
  cases done : s.allocate n with
  | error e =>
    rw [done] at same
    cases same
  | ok placed =>
    rw [done] at same
    obtain ⟨start, grown⟩ := Prod.mk.inj (Except.ok.inj same)
    exact ⟨placed.1, placed.2, rfl, start, grown⟩

theorem allocate_refused {n : Int64} (refused : ¬ s.buffer.Grants n.toInt) :
    ∃ e, s.allocate n = .error e ∧ s.buffer.allocate n = .error e := by
  have same := s.buffer_allocate n
  obtain ⟨e, failed⟩ := Buffer.allocate_refused refused
  rw [failed] at same ⊢
  cases done : s.allocate n with
  | error e' =>
    rw [done] at same
    cases same
    exact ⟨e, rfl, rfl⟩
  | ok placed =>
    rw [done] at same
    cases same

/-- To append an entry is to allocate it and to put the number there. -/
theorem addRaw_buffer (s : Storage) (v : UInt64) :
    s.buffer.call (.addRaw v) = ((s.call (.addRaw v)).1.buffer, (s.call (.addRaw v)).2) := by
  have eight : (8 : Int64).toInt = 8 := by decide
  by_cases granted : s.buffer.Grants (8 : Int64).toInt
  · obtain ⟨off, t, done, start, grown⟩ := allocate_granted granted
    rw [eight] at grown
    have size : s.buffer.data.size = s.size := s.size_buffer
    have reached : t.buffer.Reaches 8 off 0 := by
      refine ⟨Int.le_refl 0, ?_⟩
      rw [grown, Buffer.size, Array.size_append, size]
      simp [start]
    have filled : t.buffer.put 8 off 0 v.toNat =
        .ok { s.buffer with data := s.buffer.data ++ (encode 8 v.toNat).toArray } := by
      rw [Buffer.put_reached t.bound_buffer (Nat.le_refl 8) reached, grown, start, ← size,
        ← Buffer.patch_zeros]
      rfl
    rw [← buffer_put t off 0 (Nat.le_refl 8)] at filled
    cases put : t.put 8 off 0 v.toNat with
    | error b =>
      rw [put] at filled
      cases filled
    | ok u =>
      rw [put] at filled
      have whole : u.buffer = _ := Except.ok.inj filled
      simp only [Buffer.call, call, done, put, Buffer.addRaw_eq, Buffer.allocate_granted granted,
        Except.map, Buffer.placing, size_buffer, ← start, UInt32.ofNat_toNat, whole]
  · obtain ⟨e, refused, failed⟩ := allocate_refused granted
    simp only [Buffer.call, call, refused, Buffer.addRaw_eq, failed, Except.map, Buffer.placing]

theorem buffer_call (s : Storage) (c : Call) :
    s.buffer.call c = ((s.call c).1.buffer, (s.call c).2) := by
  cases c with
  | allocate n => exact placing_buffer (s.buffer_allocate n)
  | allocateEntries n => exact placing_buffer (s.buffer_allocate (n * 8))
  | addRaw v => exact s.addRaw_buffer v
  | put width off rel v =>
    have same := s.buffer_put off rel width.bytes_le v.toNat
    simp only [Buffer.call, call, ← same]
    cases s.put width.bytes off rel v.toNat with
    | error b => rfl
    | ok t => rfl
  | get width pos =>
    simp only [Buffer.call, call, s.get_buffer pos width.bytes_le]
    cases s.buffer.get width.bytes pos with
    | error b => rfl
    | ok v => rfl

/-- `n` more bytes are no more than the storage may hold. -/
def Grants (s : Storage) (n : Int) : Prop :=
  0 ≤ n ∧ Buffer.Allows s.limit (s.bytes.length + n)

theorem grants_buffer {n : Int} : s.buffer.Grants n ↔ s.Grants n := by
  have limit : s.buffer.limit = s.limit := rfl
  rw [Buffer.Grants, Grants, size_buffer, length_bytes, limit]

/-- An allocation appends zeros to the bytes and tells how many bytes there were. -/
theorem placing_granted {n : Int64} (granted : s.Grants n.toInt) :
    ∃ off t, s.placing (s.allocate n) = (t, .placed off) ∧ off.toNat = s.bytes.length ∧
      t.bytes = s.bytes ++ List.replicate n.toInt.toNat 0 := by
  obtain ⟨off, t, done, start, grown⟩ := allocate_granted (grants_buffer.mpr granted)
  refine ⟨off, t, by rw [done, placing], start.trans s.length_bytes.symm, ?_⟩
  rw [← bytes_buffer, grown, ← bytes_buffer]
  simp [Buffer.bytes]

theorem placing_refused {n : Int64} (refused : ¬ s.Grants n.toInt) :
    ∃ e, s.placing (s.allocate n) = (s, .refused e) := by
  obtain ⟨e, failed, -⟩ := allocate_refused (grants_buffer.not.mpr refused)
  exact ⟨e, by rw [failed, placing]⟩

/-! ## Entries -/

/-- A call for `n` entries is answered as `count` entries deserve: they are appended if the limits
allow them, and otherwise the call fails and changes nothing. -/
def GivesEntries (s : Storage) (n : Int64) (count : Int) : Prop :=
  (s.Grants (8 * count) → ∃ off t, s.call (.allocateEntries n) = (t, .placed off) ∧
    off.toNat = s.bytes.length ∧ t.bytes = s.bytes ++ List.replicate (8 * count).toNat 0) ∧
  (¬ s.Grants (8 * count) → ∃ e, s.call (.allocateEntries n) = (s, .refused e))

theorem toInt_mul_eight (n : Int64) : (n * 8).toInt = 8 * n.toInt.bmod 2305843009213693952 := by
  have eight : (8 : Int64).toInt = 8 := by decide
  rw [Int64.toInt_mul, eight, Int.bmod, Int.bmod]
  omega

theorem givesEntries_bmod (s : Storage) (n : Int64) :
    s.GivesEntries n (n.toInt.bmod 2305843009213693952) := by
  rw [GivesEntries, ← toInt_mul_eight]
  exact ⟨placing_granted, placing_refused⟩

/-- The number of bytes wraps: of the number of entries the low 61 bits count, as a signed number. A
call is answered as its own number deserves exactly if that number has no more bits, or if the
wrapped number is refused as well. -/
theorem entries_granted_modulo (s : Storage) (n : Int64) :
    s.GivesEntries n (n.toInt.bmod 2305843009213693952) ∧
    (s.GivesEntries n n.toInt ↔
      (-1152921504606846976 ≤ n.toInt ∧ n.toInt < 1152921504606846976) ∨
      ¬ s.Grants (8 * n.toInt.bmod 2305843009213693952)) := by
  have given := s.givesEntries_bmod n
  refine ⟨given, ?_⟩
  by_cases short : -1152921504606846976 ≤ n.toInt ∧ n.toInt < 1152921504606846976
  · have same : n.toInt.bmod 2305843009213693952 = n.toInt := by
      rw [Int.bmod]
      omega
    rw [same] at given ⊢
    simp [short, given]
  · have large : ¬ s.Grants (8 * n.toInt) := by
      rintro ⟨nonneg, fits, -⟩
      omega
    simp only [short, false_or]
    constructor
    · intro exact granted
      obtain ⟨e, refused⟩ := exact.2 large
      obtain ⟨off, t, placed, -⟩ := given.1 granted
      rw [refused] at placed
      cases placed
    · intro refused
      exact ⟨fun granted => absurd granted large, fun _ => given.2 refused⟩

/-- A little more than 2^61 entries are given as one. -/
theorem wrapped_entries_granted :
    ¬ ({} : Storage).GivesEntries 2305843009213693953 2305843009213693953 := by
  intro exact
  have answer : (({} : Storage).call (.allocateEntries 2305843009213693953)).2 = .placed 0 := by
    decide
  have large : ¬ ({} : Storage).Grants (8 * 2305843009213693953) := by
    rintro ⟨-, fits, -⟩
    omega
  obtain ⟨e, refused⟩ := exact.2 large
  rw [refused] at answer
  cases answer

end Storage
end Sidetable
