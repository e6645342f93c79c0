import Sidetable.Instr.Encode
import Sidetable.Proofs.Taking

/-!
# Instructions and the bytes that spell them

The encoding of an instruction is read back as that instruction, whatever code it stands in and
whatever follows it. So code that was put together from encodings is taken apart at the same places.
-/
namespace Sidetable

/-- The end of the encoding is known from the encoding itself: no heap type and no memory index is
missing, and a heap type takes five bytes at most. -/
def Immediate.delimited : Immediate → Bool
  | .memory _ align _ => align &&& Instr.explicitMemory = 0
  | .types list => list.all fun t => !t.isTypedRef
  | .heap type => -0x400000000 ≤ type.toInt && type.toInt < 0x400000000
  | _ => true

namespace Instr

def proper (i : Instr) : Bool :=
  match i.imm with
  | .none =>
    if i.opcode = 0xfc then i.sub ≤ 7 else i.sub = 0 && Immediate.Kind.ofOpcode i.opcode = .none
  | .operands list => i.opcode = 0xfc && list ≠ [] && Opcode.miscOperands i.sub = some list.length
  | .foreign _ => false
  | imm => i.sub = 0 && Immediate.Kind.ofOpcode i.opcode = imm.kind

def width (i : Instr) : Nat :=
  i.encode.toOption.getD [] |>.length

def lay : Nat → List Instr → List Located
  | _, [] => []
  | pos, i :: rest => { i with start := pos, stop := pos + i.width } :: lay (pos + i.width) rest

def Spells (used : List UInt8) (i : Instr) : Prop :=
  ∀ size pos rest, used.length ≤ size →
    read size ⟨pos, used ++ rest⟩ =
      .ok { i with start := pos, stop := pos + used.length } ⟨pos + used.length, rest⟩

open Read

theorem spells_of_takes {op : UInt8} {sub : UInt32} {imm : Immediate} {used : List UInt8}
    (h : ∀ size start, used.length ≤ size → Takes (operands size start op) used (sub, imm)) :
    Spells (op :: used) ⟨op, sub, imm⟩ := by
  intro size pos rest room
  have inner := (h size pos (by simp at room; omega)).within (.instruction op pos) (pos + 1) rest
  refine bind_ok.mpr ⟨pos, _, rfl, bind_ok.mpr ⟨op, _, rfl, bind_ok.mpr ⟨(sub, imm), _, inner, ?_⟩⟩⟩
  have stop : pos + (op :: used).length = pos + 1 + used.length := by
    rw [List.length_cons]
    omega
  rw [stop]
  rfl

theorem agrees_number {α : Type} (decode : List UInt8 → Except Fault.Cause (α × Nat)) :
    Agrees decode (number decode) := by
  intro c v c'
  unfold number
  cases decode c.rest with
  | error cause => simp
  | ok found => simp [Prod.ext_iff, eq_comm]

theorem takes_number {α : Type} {decode : List UInt8 → Except Fault.Cause (α × Nat)}
    {g : List UInt8} {v : α}
    (h : ∀ rest, decode (g ++ rest) = .ok (v, g.length)) : Takes (number decode) g v :=
  (agrees_number decode).takes h

theorem takes_index (v : UInt32) : Takes index (Leb128.encodeU32 v) v :=
  takes_number fun _ => Leb128.decodeU32_encodeU32 v

theorem takes_fixed (n v : Nat) : Takes (fixed n) (LittleEndian.encode n v) (v % 256 ^ n) := by
  intro pos rest
  have room : Cursor.has ⟨pos, LittleEndian.encode n v ++ rest⟩ n := by simp
  simp [fixed, room, Cursor.advance, List.take_left', List.drop_left', LittleEndian.decode_encode]

theorem takes_times {α : Type} {r : Read α} {pieces : List (List UInt8)} {list : List α}
    (h : List.Forall₂ (Takes r) pieces list) : Takes (times r list.length) pieces.flatten list := by
  induction h with
  | nil => exact takes_pure []
  | cons first others ih => exact first.bind (ih.map _)

theorem takes_indices (list : List UInt32) :
    Takes (times index list.length) (list.flatMap Leb128.encodeU32) list := by
  have each : List.Forall₂ (Takes index) (list.map Leb128.encodeU32) list := by
    rw [List.forall₂_map_left_iff]
    exact List.forall₂_same.mpr fun v _ => takes_index v
  rw [List.flatMap_def]
  exact takes_times each

theorem takes_valTypes {list : List ValType} (simple : ∀ t ∈ list, t.isTypedRef = false) :
    Takes (times valType list.length) (list.map ValType.code) list := by
  have one (t : ValType) (h : t.isTypedRef = false) : Takes valType [t.code] t := by
    have := (takes_byte t.code).bind (f := fun b => do
      let t : ValType := ⟨b⟩
      if t.isTypedRef then
        let _ ← number Leb128.decodeS33
      return t) (by dsimp only; rw [h]; exact takes_pure t)
    exact this
  have each : List.Forall₂ (Takes valType) (list.map fun t => [t.code]) list := by
    rw [List.forall₂_map_left_iff]
    exact List.forall₂_same.mpr fun t ht => one t (simple t ht)
  have flat : (list.map fun t => [t.code]).flatten = list.map ValType.code := by
    rw [← List.flatMap_def, ← List.map_eq_flatMap]
  rw [← flat]
  exact takes_times each

/-- The mark is there after it was set, and taking it away leaves the rest as it was. -/
theorem mark_memory (align : UInt32) (clear : align &&& explicitMemory = 0) :
    (align ||| explicitMemory) &&& explicitMemory = explicitMemory ∧
      (align ||| explicitMemory) &&& ~~~explicitMemory = align := by
  have clear : align.toBitVec &&& explicitMemory.toBitVec = 0 := by
    rw [← UInt32.toBitVec_and, clear]
    rfl
  constructor
  · apply UInt32.toBitVec_inj.mp
    ext i inside
    simpa using Or.inr
  · apply UInt32.toBitVec_inj.mp
    ext i inside
    have bit := congrArg (fun v => v.getLsbD i) clear
    simp at bit ⊢
    grind

theorem takes_memory {offset : UInt64} {align mem : UInt32} (clear : align &&& explicitMemory = 0) :
    Takes memory ((if mem = 0 then Leb128.encodeU32 align
      else Leb128.encodeU32 (align ||| explicitMemory) ++ Leb128.encodeU32 mem) ++
        Leb128.encodeU64 offset)
      (.memory offset align mem) := by
  have last : Takes (number Leb128.decodeU64) (Leb128.encodeU64 offset) offset :=
    takes_number fun _ => Leb128.decodeU64_encodeU64 offset
  by_cases zero : mem = 0
  · rw [if_pos zero, zero]
    refine (takes_index align).bind ?_
    rw [if_pos clear]
    exact (takes_pure (align, (0 : UInt32))).bind (last.map _)
  · obtain ⟨marked, restored⟩ := mark_memory align clear
    rw [if_neg zero, List.append_assoc]
    refine (takes_index (align ||| explicitMemory)).bind ?_
    rw [if_neg (by rw [marked]; decide), restored]
    exact (takes_index mem).bind ((takes_pure (align, mem)).bind (last.map _))

theorem takes_blockType (type : Int32) :
    Takes (do return ((0 : UInt32), Immediate.block (← number Leb128.decodeS33).toInt32))
      (Leb128.encodeS32 type) (0, .block type) := by
  have := (takes_number fun _ => Leb128.decodeS33_encodeS32 type).map
    fun v => ((0 : UInt32), Immediate.block v.toInt32)
  rwa [Int32.toInt32_toInt64] at this

theorem takes_heap {type : Int64} (h : -0x400000000 ≤ type.toInt ∧ type.toInt < 0x400000000) :
    Takes (do return ((0 : UInt32), Immediate.heap (← number Leb128.decodeS33)))
      (Leb128.encodeS64 type) (0, .heap type) :=
  (takes_number fun _ => Leb128.decodeS33_encodeS64 h.1 h.2).map _

theorem takes_f32 (bits : UInt32) :
    Takes (do return ((0 : UInt32), Immediate.f32 (UInt32.ofNat (← fixed 4))))
      (LittleEndian.encode 4 bits.toNat) (0, .f32 bits) := by
  have := (takes_fixed 4 bits.toNat).map fun v => ((0 : UInt32), Immediate.f32 (UInt32.ofNat v))
  rwa [Nat.mod_eq_of_lt (by have := bits.toNat_lt; omega), UInt32.ofNat_toNat] at this

theorem takes_f64 (bits : UInt64) :
    Takes (do return ((0 : UInt32), Immediate.f64 (UInt64.ofNat (← fixed 8))))
      (LittleEndian.encode 8 bits.toNat) (0, .f64 bits) := by
  have := (takes_fixed 8 bits.toNat).map fun v => ((0 : UInt32), Immediate.f64 (UInt64.ofNat v))
  rwa [Nat.mod_eq_of_lt (by have := bits.toNat_lt; omega), UInt64.ofNat_toNat] at this

theorem length_le_indices (list : List UInt32) :
    list.length ≤ (list.flatMap Leb128.encodeU32).length := by
  have each : List.Forall₂ (fun piece _ => piece ≠ []) (list.map Leb128.encodeU32) list := by
    rw [List.forall₂_map_left_iff]
    exact List.forall₂_same.mpr fun v _ => (Leb128.encodeU32_spec v).1.ne_nil
  rw [List.flatMap_def]
  exact length_le_flatten each

theorem proper_cases {i : Instr} (h : i.proper) :
    (i.opcode = 0xfc ∧ i.imm = .none ∧ Opcode.miscOperands i.sub = some 0) ∨
    (∃ n list, i.opcode = 0xfc ∧ i.imm = .operands list ∧ list.length = n + 1 ∧
      Opcode.miscOperands i.sub = some (n + 1)) ∨
    (i.sub = 0 ∧ Immediate.Kind.ofOpcode i.opcode = i.imm.kind ∧ i.imm.kind ≠ .misc ∧
      i.imm.kind ≠ .unsupported) := by
  obtain ⟨op, sub, imm⟩ := i
  cases imm with
  | none =>
    by_cases misc : op = 0xfc
    · have low : sub ≤ 7 := by simpa [proper, misc] using h
      have zero : Opcode.miscOperands sub = some 0 := by
        unfold Opcode.miscOperands
        split <;> simp_all
      exact .inl ⟨misc, rfl, zero⟩
    · obtain ⟨sub, kind⟩ : sub = 0 ∧ Immediate.Kind.ofOpcode op = .none := by
        simpa [proper, misc] using h
      exact .inr (.inr ⟨sub, kind, nofun, nofun⟩)
  | operands list =>
    obtain ⟨⟨rfl, some⟩, count⟩ :
        (op = 0xfc ∧ list ≠ []) ∧ Opcode.miscOperands sub = some list.length := by
      simpa [proper] using h
    obtain ⟨n, length⟩ : ∃ n, list.length = n + 1 :=
      ⟨list.length - 1, by have := List.length_pos_iff.mpr some; omega⟩
    exact .inr (.inl ⟨n, list, rfl, rfl, length, by rw [count, length]⟩)
  | foreign kind => cases h
  | _ =>
    simp only [proper, Bool.and_eq_true, decide_eq_true_eq] at h
    exact .inr (.inr ⟨h.1, h.2, nofun, nofun⟩)

theorem takes_operands {i : Instr} {used : List UInt8} (proper : i.proper)
    (delimited : i.imm.delimited)
    (encoded : i.encodeOperands = .ok used) {size : Nat} (room : used.length ≤ size)
    (small : used.length < 0x100000000)
    (start : Nat) : Takes (operands size start i.opcode) used (i.sub, i.imm) := by
  obtain ⟨op, sub, imm⟩ := i
  unfold operands
  rcases proper_cases proper with
    ⟨rfl, rfl, count⟩ | ⟨n, list, rfl, rfl, length, count⟩ | ⟨rfl, same, kind, other⟩
  · obtain rfl := Except.ok.inj encoded
    simp only [if_true]
    rw [← List.append_nil (Leb128.encodeU32 sub)]
    refine (takes_index sub).bind ?_
    simp only [count]
    exact takes_pure (sub, Immediate.none)
  · obtain rfl := Except.ok.inj encoded
    refine (takes_index sub).bind ?_
    simp only [count]
    rw [← length]
    exact (takes_indices list).map _
  · simp only at same kind
    rw [same]
    cases imm with
    | none =>
      have plain : op ≠ 0xfc := by
        rintro rfl
        cases same
      simp only [encodeOperands, plain, if_false] at encoded
      obtain rfl := Except.ok.inj encoded
      exact takes_pure ((0 : UInt32), Immediate.none)
    | operands list => exact absurd rfl kind
    | foreign kind => exact absurd rfl other
    | label v | func v | typeIndex v | tag v | localIndex v | globalIndex v | tableIndex v
      | memoryIndex v
    | funcRef v =>
      obtain rfl := Except.ok.inj encoded
      exact (takes_index v).map _
    | indirect type table =>
      obtain rfl := Except.ok.inj encoded
      exact (takes_index type).bind ((takes_index table).map _)
    | block type =>
      obtain rfl := Except.ok.inj encoded
      exact takes_blockType type
    | i32 v =>
      obtain rfl := Except.ok.inj encoded
      exact (takes_number fun _ => Leb128.decodeS32_encodeS32 v).map _
    | i64 v =>
      obtain rfl := Except.ok.inj encoded
      exact (takes_number fun _ => Leb128.decodeS64_encodeS64 v).map _
    | f32 bits =>
      obtain rfl := Except.ok.inj encoded
      exact takes_f32 bits
    | f64 bits =>
      obtain rfl := Except.ok.inj encoded
      exact takes_f64 bits
    | heap type =>
      obtain rfl := Except.ok.inj encoded
      exact takes_heap (by simpa [Immediate.delimited] using delimited)
    | memory offset align mem =>
      obtain rfl := Except.ok.inj encoded
      exact (takes_memory (by simpa [Immediate.delimited] using delimited)).map _
    | labels depths default =>
      obtain rfl := Except.ok.inj encoded
      have items := length_le_indices depths
      simp only [List.length_append] at room small
      have count : (UInt32.ofNat depths.length).toNat = depths.length :=
        UInt32.toNat_ofNat_of_lt' (by change _ < 0x100000000; omega)
      rw [List.append_assoc]
      refine (takes_index _).bind ?_
      simp only [count]
      rw [if_neg (by omega)]
      exact (takes_indices depths).bind ((takes_index default).map _)
    | types list =>
      obtain rfl := Except.ok.inj encoded
      simp only [List.length_append, List.length_map] at room small
      have count : (UInt32.ofNat list.length).toNat = list.length :=
        UInt32.toNat_ofNat_of_lt' (by change _ < 0x100000000; omega)
      refine (takes_index _).bind ?_
      simp only [count]
      rw [if_neg (by omega)]
      exact (takes_valTypes (by simpa [Immediate.delimited] using delimited)).map _

theorem encodes_of_proper {i : Instr} (h : i.proper) : ∃ used, i.encodeOperands = .ok used := by
  obtain ⟨op, sub, imm⟩ := i
  cases imm with
  | foreign kind => cases h
  | _ => exact ⟨_, rfl⟩

theorem spells_encode {i : Instr} (proper : i.proper) (delimited : i.imm.delimited) :
    ∃ used, i.encode = .ok used ∧ used ≠ [] ∧ (used.length < 0x100000000 → Spells used i) := by
  obtain ⟨used, encoded⟩ := encodes_of_proper proper
  refine ⟨i.opcode :: used, by rw [encode, encoded]; rfl, List.cons_ne_nil _ _, fun small => ?_⟩
  have shorter : used.length < 0x100000000 := by
    rw [List.length_cons] at small
    omega
  exact spells_of_takes fun size start room =>
    takes_operands proper delimited encoded room shorter start

theorem readAll_nil (size fuel pos : Nat) : readAll size fuel ⟨pos, []⟩ = .ok [] := by
  cases fuel <;> rfl

theorem readAll_spelled {size fuel pos : Nat} {used rest : List UInt8} {i : Instr}
    (h : Spells used i) (some : used ≠ []) (room : used.length ≤ size) :
    readAll size (fuel + 1) ⟨pos, used ++ rest⟩ = (readAll size fuel ⟨pos + used.length, rest⟩).map
      ({ i with start := pos, stop := pos + used.length } :: ·) := by
  have more : (used ++ rest).isEmpty = false := by simp [some]
  simp only [readAll, more, h size pos rest room]
  rfl

theorem readAll_encodeAll {is : List Instr} (h : ∀ i ∈ is, i.proper ∧ i.imm.delimited) :
    ∃ code, encodeAll is = .ok code ∧ ∀ size fuel pos, code.length < 0x100000000 →
    code.length ≤ size → code.length ≤ fuel → readAll size fuel ⟨pos, code⟩ = .ok (lay pos is) := by
  induction is with
  | nil => exact ⟨[], rfl, fun size fuel pos _ _ _ => readAll_nil size fuel pos⟩
  | cons i rest ih =>
    obtain ⟨proper, delimited⟩ := h i List.mem_cons_self
    obtain ⟨head, encoded, some, spells⟩ := spells_encode proper delimited
    obtain ⟨tail, others, read⟩ := ih fun j hj => h j (List.mem_cons_of_mem i hj)
    refine ⟨head ++ tail, by rw [encodeAll, encoded, others]; rfl,
      fun size fuel pos small room enough => ?_⟩
    have width : i.width = head.length := by
      rw [Instr.width, encoded]
      rfl
    have pos_length := List.length_pos_iff.mpr some
    rw [List.length_append] at small room enough
    obtain ⟨fuel, rfl⟩ : ∃ n, fuel = n + 1 := ⟨fuel - 1, by omega⟩
    rw [readAll_spelled (spells (by omega)) some (by omega),
      read size fuel _ (by omega) (by omega) (by omega), lay, width]
    rfl

/-- Well-formed instructions have an encoding, and decoding it gives them back, each at the place
that the encodings before it leave to it. -/
theorem decodeAll_encodeAll {is : List Instr} (h : ∀ i ∈ is, i.proper ∧ i.imm.delimited) :
    ∃ code, encodeAll is = .ok code ∧
      (code.length < 0x80000000 → decodeAll code = .ok (lay 0 is)) := by
  obtain ⟨code, encoded, read⟩ := readAll_encodeAll h
  exact ⟨code, encoded, fun small => read code.length code.length 0 (by omega) le_rfl le_rfl⟩

/-- A block, a branch table, an access to the second memory, a cast of the saturating family, a
table initialisation and a null of the lowest heap type. -/
theorem decodeAll_encodeAll_sample :
    let is : List Instr :=
      [⟨0x02, 0, .block (-64)⟩, ⟨0x0e, 0, .labels [0, 300] 1⟩, ⟨0x28, 0, .memory 70000 2 1⟩,
      ⟨0xfc, 7, .none⟩, ⟨0xfc, 12, .operands [1, 0]⟩, ⟨0x1c, 0, .types [.i32]⟩,
      ⟨0xd0, 0, .heap (-0x400000000)⟩, ⟨0x44, 0, .f64 0x3ff0000000000000⟩, ⟨0x0b, 0, .none⟩]
    (∀ i ∈ is, i.proper ∧ i.imm.delimited) ∧
      ∃ code, encodeAll is = .ok code ∧ code.length = 39 ∧ decodeAll code = .ok (lay 0 is) := by
  intro is
  have good : ∀ i ∈ is, i.proper ∧ i.imm.delimited := by decide
  obtain ⟨code, encoded, decoded⟩ := decodeAll_encodeAll good
  obtain rfl := Except.ok.inj encoded
  exact ⟨good, _, encoded, by decide, decoded (by decide)⟩

/-! ## Locality

What was read is read again from the bytes that were used, also in other code. -/

section Locality

variable {α : Type}

theorem finds_number {decode : List UInt8 → Except Fault.Cause (α × Nat)}
    (h : Leb128.Settled decode) :
    Finds (number decode) fun used v => Takes (number decode) used v ∧ used ≠ [] :=
  ((agrees_number decode).finds h).mono fun _ _ found => ⟨takes_number found.2, found.1⟩

theorem repeats_number {decode : List UInt8 → Except Fault.Cause (α × Nat)}
    (h : Leb128.Settled decode) : Repeats (number decode) :=
  (finds_number h).mono fun _ _ => And.left

theorem repeats_index : Repeats index :=
  repeats_number Leb128.settled_u32

theorem finds_fixed (n : Nat) : Finds (fixed n) fun used v =>
      used.length = n ∧ v = LittleEndian.decode used := by
  intro c v c' done
  unfold fixed at done
  split at done
  · rename_i room
    have room : n ≤ c.rest.length := by simpa using room
    cases done
    refine ⟨c.rest.take n, ?_, ?_, by simpa using room, rfl⟩
    · simp [Cursor.advance]
    · simp [Cursor.advance, room]
  · cases done

theorem repeats_fixed (n : Nat) : Repeats (fixed n) := by
  refine (finds_fixed n).mono fun used v found pos rest => ?_
  obtain ⟨rfl, rfl⟩ := found
  have room : Cursor.has ⟨pos, used ++ rest⟩ used.length := by simp
  simp [fixed, room, Cursor.advance]

theorem repeats_valType : Repeats valType := by
  refine repeats_bind repeats_byte fun b => ?_
  dsimp only
  split
  · exact repeats_bind (repeats_number Leb128.settled_s33) fun _ => repeats_pure _
  · exact repeats_pure _

theorem repeats_memory : Repeats memory := by
  have rest (p : UInt32 × UInt32) : Repeats (do
      let offset ← number Leb128.decodeU64
      return Immediate.memory offset p.1 p.2) :=
    repeats_bind (repeats_number Leb128.settled_u64) fun _ => repeats_pure _
  refine repeats_bind repeats_index fun align => ?_
  dsimp only
  split
  · exact repeats_bind (repeats_pure _) rest
  · exact repeats_bind repeats_index fun _ => repeats_bind (repeats_pure _) rest

/-- Items that take a byte each are no more than the bytes they take together. -/
theorem finds_times {r : Read α} (h : Finds r fun used a => Takes r used a ∧ used ≠ []) (n : Nat) :
    Finds (times r n) fun used list => Takes (times r n) used list ∧ n ≤ used.length := by
  induction n with
  | zero => exact finds_pure ⟨takes_pure [], Nat.zero_le _⟩
  | succ n ih =>
    refine finds_bind h fun used a first => finds_bind ih fun used' rest others =>
      finds_pure ⟨?_, ?_⟩
    · exact first.1.bind (others.1.bind (takes_pure _))
    · have := List.length_pos_iff.mpr first.2
      simp only [List.length_append, List.length_nil]
      omega

theorem finds_valType : Finds valType fun used t => Takes valType used t ∧ used ≠ [] := by
  refine repeats_valType.and (finds_bind finds_byte fun used b same => ?_)
  dsimp only
  split
  · exact finds_bind (repeats_number Leb128.settled_s33) fun _ _ _ => finds_pure (by simp [same])
  · exact finds_pure (by simp [same])

theorem finds_operands (size start : Nat) (op : UInt8) :
    Finds (operands size start op) fun used r => ∀ size' start', used.length ≤ size' →
      Takes (operands size' start' op) used r := by
  have free {r : Read (UInt32 × Immediate)} (h : Repeats r) :
      Finds r fun used a => ∀ size' start' : Nat, used.length ≤ size' → Takes r used a :=
    h.mono fun _ _ takes _ _ _ => takes
  have one {β : Type} {r : Read β} (h : Repeats r) (f : β → UInt32 × Immediate) :
      Repeats (do return f (← r)) :=
    repeats_bind h fun _ => repeats_pure _
  unfold operands
  cases Immediate.Kind.ofOpcode op with
  | none => exact free (repeats_pure _)
  | label | func | typeIndex | tag | localIndex | globalIndex | tableIndex | memoryIndex
    | funcRef =>
    exact free (one repeats_index _)
  | block | heap => exact free (one (repeats_number Leb128.settled_s33) _)
  | i32 => exact free (one (repeats_number Leb128.settled_s32) _)
  | i64 => exact free (one (repeats_number Leb128.settled_s64) _)
  | f32 => exact free (one (repeats_fixed 4) _)
  | f64 => exact free (one (repeats_fixed 8) _)
  | memory => exact free (one repeats_memory _)
  | indirect => exact free (repeats_bind repeats_index fun type => one repeats_index _)
  | labels =>
    refine finds_bind (finds_number Leb128.settled_u32) fun used count first => finds_guard fun _ =>
      ?_
    refine finds_bind (finds_times (finds_number Leb128.settled_u32) _) fun used' depths others =>
      ?_
    refine finds_bind repeats_index fun used'' default last => finds_pure fun size' start' room =>
      ?_
    have fits : ¬ size' < count.toNat := by
      simp only [List.length_append] at room
      have := others.2
      omega
    exact first.1.bind
      ((others.1.bind (last.bind (takes_pure (0, Immediate.labels depths default)))).guard fits)
  | types =>
    refine finds_bind (finds_number Leb128.settled_u32) fun used count first => finds_guard fun _ =>
      ?_
    refine finds_bind (finds_times finds_valType _) fun used' list others =>
      finds_pure fun size' start' room => ?_
    have fits : ¬ size' < count.toNat := by
      simp only [List.length_append] at room
      have := others.2
      omega
    exact first.1.bind ((others.1.bind (takes_pure (0, Immediate.types list))).guard fits)
  | misc =>
    refine finds_bind repeats_index fun used sub first => ?_
    cases count : Opcode.miscOperands sub with
    | none => exact finds_fail _
    | some n =>
      cases n with
      | zero =>
        refine finds_pure fun size' start' _ => first.bind ?_
        rw [count]
        exact takes_pure (sub, Immediate.none)
      | succ n =>
        have list := finds_times (finds_number Leb128.settled_u32) (n + 1)
        refine finds_bind list fun used' list others => finds_pure fun size' start' _ =>
          first.bind ?_
        rw [count]
        exact others.1.bind (takes_pure (sub, Immediate.operands list))
  | foreignFamily => exact finds_bind repeats_index fun _ _ _ => finds_fail _
  | unsupported => exact finds_fail _

/-- The bytes of an instruction are its opcode and those of its operands. -/
theorem finds_located {P : UInt8 → List UInt8 → UInt32 × Immediate → Prop} {size : Nat}
    (h : ∀ start op, Finds (operands size start op) (P op)) :
    Finds (read size) fun used i => ∃ rest, used = i.opcode :: rest ∧
    P i.opcode rest (i.sub, i.imm) := by
  intro c i c' done
  obtain ⟨start, c₀, ⟨⟩, done⟩ := bind_ok.mp done
  obtain ⟨op, c₁, byte, done⟩ := bind_ok.mp done
  obtain ⟨⟨sub, imm⟩, c₂, inner, done⟩ := bind_ok.mp done
  obtain ⟨stop, c₃, ⟨⟩, ⟨⟩⟩ := bind_ok.mp done
  obtain ⟨_, front, next, rfl⟩ := finds_byte c op c₁ byte
  obtain ⟨used, front', stop, found⟩ := (h c.pos op).within (.instruction op c.pos) c₁ _ c' inner
  refine ⟨op :: used, ?_, ?_, used, rfl, found⟩
  · rw [front, front']
    rfl
  · rw [stop, next]
    simp only [List.length_cons, List.length_nil]
    congr 1
    omega

theorem finds_read (size : Nat) : Finds (read size) fun used i =>
      Spells used i.toInstr ∧ used ≠ [] := by
  refine (finds_located fun start op => finds_operands size start op).mono fun used i found => ?_
  obtain ⟨rest, rfl, again⟩ := found
  exact ⟨spells_of_takes again, List.cons_ne_nil _ _⟩

def Skips (used : List UInt8) : Prop :=
  ∀ size fuel, used.length ≤ size → used.length ≤ fuel → Takes (skipExpr size fuel) used ()

theorem skips_end {used : List UInt8} {i : Instr} (h : Spells used i) (some : used ≠ [])
    (last : i.opcode = 0x0b) : Skips used := by
  intro size fuel room enough pos rest
  have := List.length_pos_iff.mpr some
  obtain ⟨fuel, rfl⟩ : ∃ n, fuel = n + 1 := ⟨fuel - 1, by omega⟩
  refine bind_ok.mpr ⟨_, _, h size pos rest room, ?_⟩
  simp only [last, if_true]
  rfl

theorem Skips.cons {used used' : List UInt8} {i : Instr} (h : Spells used i) (some : used ≠ [])
    (more : i.opcode ≠ 0x0b)
    (others : Skips used') : Skips (used ++ used') := by
  intro size fuel room enough pos rest
  have := List.length_pos_iff.mpr some
  rw [List.length_append] at room enough
  obtain ⟨fuel, rfl⟩ : ∃ n, fuel = n + 1 := ⟨fuel - 1, by omega⟩
  rw [List.append_assoc]
  refine bind_ok.mpr ⟨_, _, h size pos (used' ++ rest) (by omega), ?_⟩
  simp only [more, if_false]
  rw [List.length_append, ← Nat.add_assoc]
  exact others size fuel (by omega) (by omega) (pos + used.length) rest

theorem finds_skipExpr (size fuel : Nat) : Finds (skipExpr size fuel) fun used _ => Skips used := by
  induction fuel with
  | zero => exact finds_fail _
  | succ fuel ih =>
    refine finds_bind (finds_read size) fun used i first => ?_
    by_cases last : i.opcode = 0x0b
    · rw [if_pos last]
      refine finds_pure ?_
      rw [List.append_nil]
      exact skips_end first.1 first.2 last
    · rw [if_neg last]
      exact ih.mono fun used' _ others => .cons first.1 first.2 last others

theorem skips_of_readAll {size fuel : Nat} {c : Cursor} {front : List Located} {last : Located}
    (enough : c.rest.length ≤ fuel) (h : readAll size fuel c = .ok (front ++ [last]))
    (stop : last.opcode = 0x0b) (others : ∀ i ∈ front, i.opcode ≠ 0x0b) : Skips c.rest := by
  induction fuel generalizing c front with
  | zero => simp [readAll] at h
  | succ fuel ih =>
    rcases readAll_succ h with ⟨-, none⟩ | ⟨-, i, next, rest, first, tail, split⟩
    · simp at none
    · obtain ⟨used, front_eq, next_eq, spells, some⟩ := finds_read size c i next first
      have length : c.rest = used ++ next.rest := by rw [front_eq]
      have pos := List.length_pos_iff.mpr some
      rw [length, List.length_append] at enough
      cases front with
      | nil =>
        obtain ⟨rfl, rfl⟩ := List.cons.inj split
        have ended : next.rest = [] := by
          cases fuel with
          | zero => exact List.length_eq_zero_iff.mp (by omega)
          | succ fuel =>
            rcases readAll_succ tail with ⟨empty, -⟩ | ⟨-, _, _, _, -, -, absurd⟩
            · simpa using empty
            · cases absurd
        rw [length, ended, List.append_nil]
        exact skips_end spells some stop
      | cons j front =>
        obtain ⟨rfl, rfl⟩ := List.cons.inj split
        rw [length]
        refine .cons spells some (others j List.mem_cons_self) (ih (by omega) tail fun k hk => ?_)
        exact others k (List.mem_cons_of_mem j hk)

end Locality

end Instr

namespace Read

theorem takes_initExpr {used : List UInt8} (h : Instr.Skips used) : Takes initExpr used used := by
  intro pos rest
  have skipped :=
    h (used ++ rest).length ((used ++ rest).length + 1) (by simp) (by simp; omega) 0 rest
  simp only [initExpr, Cursor.ofBytes, skipped, Nat.zero_add]
  simp [Cursor.advance]

theorem finds_initExpr : Finds initExpr fun used init => init = used ∧ Instr.Skips used := by
  intro c init c' done
  simp only [initExpr] at done
  split at done
  · rename_i stop skipped
    obtain ⟨used, front, after, skips⟩ := Instr.finds_skipExpr _ _ _ _ _ skipped
    have rest : c.rest = used ++ stop.rest := (Cursor.mk.inj front).2
    have length : stop.pos = used.length := by
      rw [after]
      exact Nat.zero_add _
    cases done
    have tail : (c.advance stop.pos).rest = stop.rest := by simp [Cursor.advance, length, rest]
    refine ⟨used, ?_, ?_, ?_, skips⟩
    · rw [tail, ← rest]
    · simp [Cursor.advance, length]
    · simp [length, rest]
  · cases done

end Read
end Sidetable
