import Sidetable.Proofs.Allocation

/-!
# What a buffer retains

A session is any sequence of calls to an empty buffer, those that fail included. Its log says which
bytes were put where. The bytes in use are at every time those that were put last, and zeros where
none were put, however often the storage has moved since.
-/
namespace Sidetable

open LittleEndian (encode decode)

namespace LittleEndian

theorem getElem?_encode (width v i : Nat) :
    (encode width v)[i]? = if i < width then some (UInt8.ofNat (v / 256 ^ i)) else none := by
  induction width generalizing v i with
  | zero => rfl
  | succ width ih =>
    cases i with
    | zero => simp [encode]
    | succ i =>
      rw [encode, List.getElem?_cons_succ, ih, Nat.div_div_eq_div_mul, Nat.pow_succ,
        Nat.mul_comm 256]
      simp

end LittleEndian

namespace Buffer

theorem getElem?_patch {data : Array UInt8} {p : Nat} {list : List UInt8}
    (inside : p + list.length ≤ data.size) (q : Nat) :
    (patch data p list).toList[q]? =
      if p ≤ q ∧ q < p + list.length then list[q - p]? else data.toList[q]? := by
  rw [toList_patch inside]
  have front : (data.toList.take p).length = p := by
    rw [List.length_take, Array.length_toList]
    omega
  grind

end Buffer

namespace Storage

def Call.effect : Call → Answer → Option (Nat × List UInt8)
  | .put width off rel v, .written => some (off.toNat + rel.toInt.toNat, encode width.bytes v.toNat)
  | .addRaw v, .placed off => some (off.toNat, encode 8 v.toNat)
  | _, _ => none

def overlay (q : Nat) (old : UInt8) (entry : Call × Answer) : UInt8 :=
  match entry.1.effect entry.2 with
  | some (p, list) => if p ≤ q then list[q - p]?.getD old else old
  | none => old

def lastPut (log : List (Call × Answer)) (q : Nat) : UInt8 :=
  log.foldl (overlay q) 0

theorem lastPut_append (log : List (Call × Answer)) (entry : Call × Answer) (q : Nat) :
    lastPut (log ++ [entry]) q = overlay q (lastPut log q) entry := by
  simp [lastPut]

end Storage

namespace Buffer

variable {b : Buffer} {limit : Int64} {log : List (Storage.Call × Storage.Answer)}
  {entry : Storage.Call × Storage.Answer}

open Storage (overlay lastPut lastPut_append)

structure Recalls (b : Buffer) (limit : Int64)
    (log : List (Storage.Call × Storage.Answer)) : Prop where
  capped : b.limit = limit
  used : ∀ q, q < b.size → b.bytes[q]? = some (lastPut log q)
  fresh : ∀ q, b.size ≤ q → lastPut log q = 0

theorem length_bytes (b : Buffer) : b.bytes.length = b.size := by
  rw [bytes, Array.length_toList, size]

namespace Recalls

theorem idle (h : b.Recalls limit log) (nothing : entry.1.effect entry.2 = none) :
    b.Recalls limit (log ++ [entry]) := by
  have same : ∀ q, lastPut (log ++ [entry]) q = lastPut log q := by
    intro q
    rw [lastPut_append, overlay, nothing]
  refine ⟨h.capped, ?_, ?_⟩
  · intro q inside
    rw [same]
    exact h.used q inside
  · intro q outside
    rw [same]
    exact h.fresh q outside

theorem extend (h : b.Recalls limit log) (n : Nat) :
    Recalls { b with data := b.data ++ Array.replicate n 0 } limit log := by
  have size : Buffer.size { b with data := b.data ++ Array.replicate n 0 } = b.size + n := by
    simp [Buffer.size]
  have bytes : Buffer.bytes { b with data := b.data ++ Array.replicate n 0 } = b.bytes ++
    List.replicate n 0 := by
    simp [Buffer.bytes]
  refine ⟨h.capped, ?_, ?_⟩
  · intro q inside
    rw [size] at inside
    rw [bytes]
    by_cases old : q < b.size
    · rw [List.getElem?_append_left (by rwa [length_bytes])]
      exact h.used q old
    · rw [List.getElem?_append_right (by rw [length_bytes]; omega), h.fresh q (by omega),
        List.getElem?_replicate_of_lt (by rw [length_bytes]; omega)]
  · intro q outside
    rw [size] at outside
    exact h.fresh q (by omega)

theorem patch {p : Nat} {list : List UInt8} (h : b.Recalls limit log)
    (inside : p + list.length ≤ b.size) (put : entry.1.effect entry.2 = some (p, list)) :
    Recalls { b with data := Buffer.patch b.data p list } limit (log ++ [entry]) := by
  have size : Buffer.size { b with data := Buffer.patch b.data p list } = b.size := size_patch _ _ _
  have last : ∀ q, lastPut (log ++ [entry]) q =
      if p ≤ q then list[q - p]?.getD (lastPut log q) else lastPut log q := by
    intro q
    rw [lastPut_append, overlay, put]
  refine ⟨h.capped, ?_, ?_⟩
  · intro q known
    rw [size] at known
    refine (getElem?_patch inside q).trans ?_
    rw [last]
    by_cases patched : p ≤ q ∧ q < p + list.length
    · have here : q - p < list.length := by omega
      rw [if_pos patched, if_pos patched.1, List.getElem?_eq_getElem here, Option.getD_some]
    · rw [if_neg patched]
      refine (h.used q known).trans (congrArg some ?_)
      by_cases before : p ≤ q
      · rw [if_pos before, List.getElem?_eq_none (by omega), Option.getD_none]
      · rw [if_neg before]
  · intro q outside
    rw [size] at outside
    rw [last, h.fresh q outside, List.getElem?_eq_none (by omega), Option.getD_none, ite_self]

theorem placing (h : b.Recalls limit log) {c : Storage.Call} (quiet : ∀ a, c.effect a = none)
    (n : Int64) :
    Recalls (b.placing (b.allocate n)).1 limit (log ++ [(c, (b.placing (b.allocate n)).2)]) := by
  by_cases granted : b.Grants n.toInt
  · rw [allocate_granted granted]
    exact (h.extend _).idle (quiet _)
  · obtain ⟨e, failed⟩ := allocate_refused granted
    rw [failed]
    exact h.idle (quiet _)

theorem addRaw (h : b.Recalls limit log) (v : UInt64) :
    Recalls (b.call (.addRaw v)).1 limit (log ++ [(.addRaw v, (b.call (.addRaw v)).2)]) := by
  by_cases granted : b.Grants 8
  · have put : Storage.Call.effect (.addRaw v) (.placed (UInt32.ofNat b.size)) =
        some (b.size, encode 8 v.toNat) := by
      rw [Storage.Call.effect, toNat_size_of_granted granted]
    have inside : b.size + (encode 8 v.toNat).length ≤
        Buffer.size { b with data := b.data ++ Array.replicate 8 0 } := by
      simp [Buffer.size]
    rw [call_addRaw_granted granted, ← patch_zeros]
    exact (h.extend 8).patch inside put
  · obtain ⟨e, failed⟩ := call_addRaw_refused granted v
    rw [failed]
    exact h.idle rfl

theorem call (h : b.Recalls limit log) (bound : b.size ≤ maxSize) (c : Storage.Call) :
    Recalls (b.call c).1 limit (log ++ [(c, (b.call c).2)]) := by
  cases c with
  | allocate n => exact h.placing (fun _ => rfl) n
  | allocateEntries n => exact h.placing (fun _ => rfl) (n * 8)
  | addRaw v => exact h.addRaw v
  | put width off rel v =>
    by_cases reached : b.Reaches width.bytes off rel
    · have inside : off.toNat + rel.toInt.toNat + (encode width.bytes v.toNat).length ≤ b.size := by
        rw [LittleEndian.length_encode]
        exact reached.inside
      rw [call_put_reached bound reached]
      exact h.patch inside rfl
    · obtain ⟨e, missed⟩ := call_put_missed bound reached v
      rw [missed]
      exact h.idle rfl
  | get width pos =>
    by_cases reached : b.Reaches width.bytes 0 pos
    · rw [call_get_reached bound reached]
      exact h.idle rfl
    · obtain ⟨e, missed⟩ := call_get_missed bound reached
      rw [missed]
      exact h.idle rfl

end Recalls

theorem call_idle (b : Buffer) (c : Storage.Call) :
    (∃ off, (b.call c).2 = .placed off) ∨ (b.call c).2 = .written ∨ (b.call c).1 = b := by
  have placed (r : Except AllocationError Buffer) :
      (∃ off, (b.placing r).2 = .placed off) ∨ (b.placing r).2 = .written ∨
        (b.placing r).1 = b := by
    cases r with
    | error e => exact .inr (.inr rfl)
    | ok grown => exact .inl ⟨_, rfl⟩
  cases c with
  | allocate n => exact placed _
  | allocateEntries n => exact placed _
  | addRaw v => exact placed _
  | put width off rel v =>
    rw [call]
    cases b.put width.bytes off rel v.toNat with
    | error e => exact .inr (.inr rfl)
    | ok b' => exact .inr (.inl rfl)
  | get width pos =>
    rw [call]
    cases b.get width.bytes pos with
    | error e => exact .inr (.inr rfl)
    | ok v => exact .inr (.inr rfl)

end Buffer

namespace Storage

/-- Storage with the calls that led to it and their answers. -/
structure Session where
  storage : Storage
  log : List (Call × Answer) := []

namespace Session

def next (x : Session) (c : Call) : Session :=
  { storage := (x.storage.call c).1, log := x.log ++ [(c, (x.storage.call c).2)] }

def ofCalls (limit : Int64) (calls : List Call) : Session :=
  calls.foldl next { storage := { limit } }

end Session

open Buffer (Allows)

/-- What is promised of every call to storage that the calls of `log` have led to. Conditions are on
numbers that do not wrap. -/
structure Contract (limit : Int64) (log : List (Call × Answer)) (s : Storage) : Prop where
  /-- An allocation succeeds exactly if the new size is within the limits. It tells the old size and
  appends zeros. -/
  allocate (n : Int64) :
    ((∃ off, (s.call (.allocate n)).2 = .placed off) ↔
      0 ≤ n.toInt ∧ Allows limit (s.bytes.length + n.toInt)) ∧
    ∀ off, (s.call (.allocate n)).2 = .placed off →
      off.toNat = s.bytes.length ∧
      (s.call (.allocate n)).1.bytes = s.bytes ++ List.replicate n.toInt.toNat 0
  /-- An entry is appended exactly if its bytes could be allocated. -/
  addRaw (v : UInt64) :
    ((∃ off, (s.call (.addRaw v)).2 = .placed off) ↔ Allows limit (s.bytes.length + 8)) ∧
    ∀ off, (s.call (.addRaw v)).2 = .placed off →
      off.toNat = s.bytes.length ∧ (s.call (.addRaw v)).1.bytes = s.bytes ++ encode 8 v.toNat
  /-- A number is put exactly if all its bytes are there. It changes these and no others. -/
  put (width : Width) (off : UInt32) (rel : Int64) (v : UInt64) :
    ((s.call (.put width off rel v)).2 = .written ↔
      0 ≤ rel.toInt ∧ off.toNat + rel.toInt + width.bytes ≤ s.bytes.length) ∧
    ((s.call (.put width off rel v)).2 = .written → ∀ q : Nat,
      (s.call (.put width off rel v)).1.bytes[q]? =
        if off.toNat + rel.toInt ≤ q ∧ q < off.toNat + rel.toInt + width.bytes
        then some (UInt8.ofNat (v.toNat / 256 ^ (q - (off.toNat + rel.toInt)).toNat))
        else s.bytes[q]?) ∧
    ((s.call (.put width off rel v)).2 ≠ .written → ∃ b,
    (s.call (.put width off rel v)).2 = .breach b)
  /-- A number is read exactly if all its bytes are there. They are the bytes that were put last. -/
  get (width : Width) (pos : Int64) :
    ((∃ v, (s.call (.get width pos)).2 = .value v) ↔ 0 ≤ pos.toInt ∧
    pos.toInt + width.bytes ≤ s.bytes.length) ∧ (∀ v, (s.call (.get width pos)).2 = .value v →
      v = decode ((List.range width.bytes).map fun i => lastPut log (pos.toInt.toNat + i))) ∧
    ((∀ v, (s.call (.get width pos)).2 ≠ .value v) → ∃ b, (s.call (.get width pos)).2 = .breach b)
  /-- A call that fails leaves all bytes as they were, and so does a read. -/
  unchanged (c : Call) :
    (∀ off, (s.call c).2 ≠ .placed off) → (s.call c).2 ≠ .written → (s.call c).1.bytes = s.bytes
  /-- The storage is a buffer whose calls have the same answers. -/
  implements (c : Call) : s.buffer.call c = ((s.call c).1.buffer, (s.call c).2)

/-! ## Every call of a session -/

section Contract

variable {s : Storage} {limit : Int64} {log : List (Call × Answer)}

theorem call_of_buffer {c : Call} {b : Buffer} {a : Answer} (done : s.buffer.call c = (b, a)) :
    (s.call c).2 = a ∧ (s.call c).1.bytes = b.bytes := by
  rw [s.buffer_call c] at done
  obtain ⟨rfl, rfl⟩ := Prod.mk.inj done
  exact ⟨rfl, (bytes_buffer _).symm⟩

theorem reaches_buffer {width : Nat} {off : UInt32} {rel : Int64} :
    s.buffer.Reaches width off rel ↔ 0 ≤ rel.toInt ∧
    off.toNat + rel.toInt + width ≤ s.bytes.length := by
  rw [Buffer.Reaches, size_buffer, length_bytes]

theorem decode_recalled {p width : Nat} (h : s.buffer.Recalls limit log)
    (inside : p + width ≤ s.size) :
    (s.buffer.bytes.drop p).take width = (List.range width).map fun i => lastPut log (p + i) := by
  apply List.ext_getElem?
  intro i
  by_cases within : i < width
  · have known := h.used (p + i) (by rw [size_buffer]; omega)
    rw [List.getElem?_take_of_lt within, List.getElem?_drop, known]
    simp [within]
  · have short : ((s.buffer.bytes.drop p).take width).length ≤ i := by
      rw [List.length_take]
      omega
    rw [List.getElem?_eq_none short]
    simp [within]

theorem allocate_exact (capped : s.limit = limit) (n : Int64) :
    ((∃ off, (s.call (.allocate n)).2 = .placed off) ↔
      0 ≤ n.toInt ∧ Allows limit (s.bytes.length + n.toInt)) ∧
    ∀ off, (s.call (.allocate n)).2 = .placed off →
      off.toNat = s.bytes.length ∧
      (s.call (.allocate n)).1.bytes = s.bytes ++ List.replicate n.toInt.toNat 0 := by
  rw [← capped]
  change (_ ↔ s.Grants n.toInt) ∧ _
  rw [call]
  by_cases granted : s.Grants n.toInt
  · obtain ⟨off, t, done, start, grown⟩ := placing_granted granted
    rw [done]
    refine ⟨iff_of_true ⟨off, rfl⟩ granted, ?_⟩
    rintro off ⟨⟩
    exact ⟨start, grown⟩
  · obtain ⟨e, failed⟩ := placing_refused granted
    rw [failed]
    refine ⟨iff_of_false ?_ granted, ?_⟩
    · rintro ⟨off, ⟨⟩⟩
    · rintro off ⟨⟩

theorem addRaw_exact (capped : s.limit = limit) (v : UInt64) :
    ((∃ off, (s.call (.addRaw v)).2 = .placed off) ↔ Allows limit (s.bytes.length + 8)) ∧
    ∀ off, (s.call (.addRaw v)).2 = .placed off →
      off.toNat = s.bytes.length ∧ (s.call (.addRaw v)).1.bytes = s.bytes ++ encode 8 v.toNat := by
  have grants : s.Grants 8 ↔ Allows s.limit (s.bytes.length + 8) := and_iff_right (by decide)
  rw [← capped, ← grants, ← grants_buffer]
  by_cases granted : s.buffer.Grants 8
  · obtain ⟨answer, bytes⟩ := call_of_buffer (Buffer.call_addRaw_granted granted v)
    rw [answer, bytes]
    refine ⟨iff_of_true ⟨_, rfl⟩ granted, ?_⟩
    rintro off ⟨⟩
    rw [Buffer.toNat_size_of_granted granted, size_buffer, length_bytes, ← bytes_buffer]
    exact ⟨rfl, by simp [Buffer.bytes]⟩
  · obtain ⟨e, failed⟩ := Buffer.call_addRaw_refused granted v
    rw [(call_of_buffer failed).1]
    refine ⟨iff_of_false ?_ granted, ?_⟩
    · rintro ⟨off, ⟨⟩⟩
    · rintro off ⟨⟩

theorem put_exact (s : Storage) (width : Width) (off : UInt32) (rel : Int64) (v : UInt64) :
    ((s.call (.put width off rel v)).2 = .written ↔
      0 ≤ rel.toInt ∧ off.toNat + rel.toInt + width.bytes ≤ s.bytes.length) ∧
    ((s.call (.put width off rel v)).2 = .written → ∀ q : Nat,
      (s.call (.put width off rel v)).1.bytes[q]? =
        if off.toNat + rel.toInt ≤ q ∧ q < off.toNat + rel.toInt + width.bytes
        then some (UInt8.ofNat (v.toNat / 256 ^ (q - (off.toNat + rel.toInt)).toNat))
        else s.bytes[q]?) ∧
    ((s.call (.put width off rel v)).2 ≠ .written → ∃ b,
      (s.call (.put width off rel v)).2 = .breach b) := by
  rw [← reaches_buffer]
  by_cases reached : s.buffer.Reaches width.bytes off rel
  · obtain ⟨answer, bytes⟩ := call_of_buffer (Buffer.call_put_reached s.bound_buffer reached v)
    have inside :
        off.toNat + rel.toInt.toNat + (encode width.bytes v.toNat).length ≤ s.buffer.data.size := by
      rw [LittleEndian.length_encode]
      exact reached.inside
    rw [answer, bytes]
    refine ⟨iff_of_true rfl reached, fun _ q => ?_, fun other => absurd rfl other⟩
    refine (Buffer.getElem?_patch inside q).trans ?_
    rw [← bytes_buffer, Buffer.bytes, LittleEndian.length_encode, LittleEndian.getElem?_encode]
    have := reached.1
    by_cases patched : off.toNat + rel.toInt ≤ q ∧ q < off.toNat + rel.toInt + width.bytes
    · have place : (q - (off.toNat + rel.toInt)).toNat = q - (off.toNat + rel.toInt.toNat) := by
        omega
      rw [if_pos (by omega), if_pos (by omega), if_pos patched, place]
    · rw [if_neg (by omega), if_neg patched]
  · obtain ⟨e, missed⟩ := Buffer.call_put_missed s.bound_buffer reached v
    rw [(call_of_buffer missed).1]
    refine ⟨iff_of_false ?_ reached, ?_, fun _ => ⟨e, rfl⟩⟩
    · rintro ⟨⟩
    · rintro ⟨⟩

theorem get_exact (h : s.buffer.Recalls limit log) (width : Width) (pos : Int64) :
    ((∃ v, (s.call (.get width pos)).2 = .value v) ↔ 0 ≤ pos.toInt ∧
    pos.toInt + width.bytes ≤ s.bytes.length) ∧ (∀ v, (s.call (.get width pos)).2 = .value v →
      v = decode ((List.range width.bytes).map fun i => lastPut log (pos.toInt.toNat + i))) ∧
    ((∀ v, (s.call (.get width pos)).2 ≠ .value v) → ∃ b,
      (s.call (.get width pos)).2 = .breach b) := by
  have there : s.buffer.Reaches width.bytes 0 pos ↔ 0 ≤ pos.toInt ∧
      pos.toInt + width.bytes ≤ s.bytes.length := by
    have zero : (0 : UInt32).toNat = 0 := by decide
    rw [reaches_buffer, zero]
    omega
  rw [← there]
  by_cases reached : s.buffer.Reaches width.bytes 0 pos
  · rw [(call_of_buffer (Buffer.call_get_reached s.bound_buffer reached)).1]
    have inside : pos.toInt.toNat + width.bytes ≤ s.size := by
      have := there.mp reached
      rw [length_bytes] at this
      omega
    refine ⟨iff_of_true ⟨_, rfl⟩ reached, ?_, fun none => absurd rfl (none _)⟩
    rintro v ⟨⟩
    rw [decode_recalled h inside]
  · obtain ⟨e, missed⟩ := Buffer.call_get_missed s.bound_buffer reached
    rw [(call_of_buffer missed).1]
    refine ⟨iff_of_false ?_ reached, ?_, fun _ => ⟨e, rfl⟩⟩
    · rintro ⟨v, ⟨⟩⟩
    · rintro v ⟨⟩

theorem failed_unchanged (s : Storage) (c : Call) (unplaced : ∀ off, (s.call c).2 ≠ .placed off)
    (unwritten : (s.call c).2 ≠ .written) : (s.call c).1.bytes = s.bytes := by
  have idle := s.buffer.call_idle c
  rw [buffer_call] at idle
  obtain ⟨off, placed⟩ | written | same := idle
  · exact absurd placed (unplaced off)
  · exact absurd written unwritten
  · rw [← bytes_buffer, ← bytes_buffer]
    exact congrArg Buffer.bytes same

end Contract

namespace Session

variable {x : Session} {limit : Int64}

theorem recalls_next (h : x.storage.buffer.Recalls limit x.log) (c : Call) :
    (x.next c).storage.buffer.Recalls limit (x.next c).log := by
  have held := h.call x.storage.bound_buffer c
  rwa [buffer_call] at held

theorem recalls_foldl (h : x.storage.buffer.Recalls limit x.log) (calls : List Call) :
    (calls.foldl next x).storage.buffer.Recalls limit (calls.foldl next x).log := by
  induction calls generalizing x with
  | nil => exact h
  | cons c rest ih => exact ih (recalls_next h c)

theorem recalls_ofCalls (limit : Int64) (calls : List Call) :
    (ofCalls limit calls).storage.buffer.Recalls limit (ofCalls limit calls).log := by
  apply recalls_foldl
  refine ⟨rfl, ?_, ?_⟩
  · intro q inside
    cases inside
  · intro q _
    rfl

end Session

/-- Every call in every session, after any number of calls that succeeded or failed, keeps the
contract. -/
theorem sessions_keep_contract (limit : Int64) (calls : List Call) :
    Contract limit (Session.ofCalls limit calls).log (Session.ofCalls limit calls).storage := by
  have held := Session.recalls_ofCalls limit calls
  have capped : (Session.ofCalls limit calls).storage.limit = limit := held.capped
  refine ⟨allocate_exact capped, addRaw_exact capped, put_exact _, get_exact held,
    failed_unchanged _, buffer_call _⟩

end Storage
end Sidetable
