import Sidetable.Proofs.Spelling

/-!
# Canonical code

Code can spell one instruction in several ways: numbers may be padded, the first memory may be
named, and the type of a block may have bits above those that are kept. What was read is written in
no more bytes than it was read from, and these are read as the same instruction. So code that was
written from what was read does not change when it is read and written again.
-/
namespace Sidetable

def Immediate.plain : Immediate → Bool
  | .types list => list.all fun t => !t.isTypedRef
  | _ => true

namespace Leb128

variable {bytes : List UInt8} {v : Int64} {n : Nat}

theorem decodeS33_bounds {k : Nat} (found : decodeS33 bytes = .ok (v, n)) (few : n ≤ k + 1) :
    -(64 * 128 ^ k) ≤ v.toInt ∧ v.toInt < 64 * 128 ^ k := by
  obtain ⟨g, closed, -, -, value, rfl⟩ := (decodeS33_wraps bytes v n).mp found
  obtain ⟨low, high⟩ := signed_bounds closed
  have power : (128 : Int) ^ (g.length - 1) ≤ 128 ^ k := by
    exact_mod_cast Nat.pow_le_pow_right (by decide) (by omega)
  rw [value, id]
  constructor <;> omega

theorem length_encodeS32_le (v : Int32) : (encodeS32 v).length ≤ 5 := by
  have low := v.le_toInt
  have high := v.toInt_lt
  rw [encodeS32, encodeS64, Int32.toInt_toInt64]
  exact length_signedGroup_le 9 (k := 4) (by omega) (by omega)

theorem shortest_block (found : decodeS33 bytes = .ok (v, n)) :
    (encodeS32 v.toInt32).length ≤ n := by
  by_cases few : n ≤ 4
  · obtain ⟨low, high⟩ := decodeS33_bounds (k := 3) found few
    have kept : v.toInt32.toInt64 = v := by
      apply Int64.toInt_inj.mp
      rw [Int32.toInt_toInt64, Int64.toInt_toInt32]
      exact Int.bmod_eq_of_le (by omega) (by omega)
    rw [encodeS32, kept]
    exact shortest_s33 found
  · exact (length_encodeS32_le _).trans (by omega)

end Leb128

namespace Instr

open Read

/-- The instruction is one that the reader gives, and what is written after its opcode is no longer
than `used`. -/
structure Rewritten (used : List UInt8) (i : Instr) : Prop where
  proper : i.proper
  delimited : i.imm.plain → i.imm.delimited
  shorter : ∃ out, i.encodeOperands = .ok out ∧ out.length ≤ used.length

/-! ## Operands -/

section

variable {α : Type} {r : Read α} {encode : α → List UInt8}

theorem finds_shorter {decode : List UInt8 → Except Fault.Cause (α × Nat)}
    (settled : Leb128.Settled decode)
    (shortest : ∀ {bytes v n}, decode bytes = .ok (v, n) → (encode v).length ≤ n) :
    Finds (number decode) fun used v => (encode v).length ≤ used.length :=
  ((agrees_number decode).finds settled).mono fun _ _ found => shortest (found.2 [])

theorem finds_index : Finds index fun used v => (Leb128.encodeU32 v).length ≤ used.length :=
  finds_shorter Leb128.settled_u32 Leb128.shortest_u32

theorem finds_block :
    Finds (number Leb128.decodeS33) fun used v =>
      (Leb128.encodeS32 v.toInt32).length ≤ used.length :=
  ((agrees_number _).finds Leb128.settled_s33).mono fun _ _ found =>
    Leb128.shortest_block (found.2 [])

theorem finds_list (h : Finds r fun used a => (encode a).length ≤ used.length) (n : Nat) :
    Finds (times r n) fun used list =>
      list.length = n ∧ (list.flatMap encode).length ≤ used.length := by
  induction n with
  | zero => exact finds_pure ⟨rfl, Nat.zero_le _⟩
  | succ n ih =>
    refine finds_bind h fun used a first => ih.map _ fun used' list others => ?_
    obtain ⟨length, total⟩ := others
    constructor
    · rw [List.length_cons, length]
    · rw [List.flatMap_cons, List.length_append, List.length_append]
      omega

end

theorem finds_code : Finds valType fun used t => [t.code].length ≤ used.length :=
  finds_valType.mono fun _ _ found => List.length_pos_iff.mpr found.2

theorem unmark_memory {align : UInt32} (marked : align &&& explicitMemory ≠ 0) :
    (align &&& ~~~explicitMemory) &&& explicitMemory = 0 ∧
      (align &&& ~~~explicitMemory) ||| explicitMemory = align := by
  have mark : explicitMemory.toBitVec = BitVec.twoPow 32 6 := rfl
  have bit : align.toBitVec.getLsbD 6 = true := by
    by_contra clear
    refine marked (UInt32.toBitVec_inj.mp ?_)
    rw [UInt32.toBitVec_and, mark, BitVec.and_twoPow, if_neg clear]
    rfl
  constructor
  · rw [UInt32.and_assoc, UInt32.not_and_self, UInt32.and_zero]
  · apply UInt32.toBitVec_inj.mp
    ext i inside
    simp only [UInt32.toBitVec_or, UInt32.toBitVec_and, UInt32.toBitVec_not, mark]
    by_cases six : i = 6
    · subst six
      simpa using bit.symm
    · simp [six]

theorem finds_memory (op : UInt8) (kind : Immediate.Kind.ofOpcode op = .memory) :
    Finds memory fun used imm => Rewritten used ⟨op, 0, imm⟩ := by
  have good (offset : UInt64) {align mem : UInt32} {used : List UInt8}
      (clear : align &&& explicitMemory = 0) (shorter : ((if mem = 0 then Leb128.encodeU32 align
        else Leb128.encodeU32 (align ||| explicitMemory) ++ Leb128.encodeU32 mem) ++
        Leb128.encodeU64 offset).length ≤ used.length) :
        Rewritten used ⟨op, 0, .memory offset align mem⟩ := by
    refine ⟨?_, fun _ => ?_, _, rfl, shorter⟩
    · simp [proper, kind, Immediate.kind]
    · simpa [Immediate.delimited] using clear
  have last : Finds (number Leb128.decodeU64) fun used v =>
      (Leb128.encodeU64 v).length ≤ used.length :=
    finds_shorter Leb128.settled_u64 Leb128.shortest_u64
  refine finds_bind finds_index fun used align first => ?_
  by_cases clear : align &&& explicitMemory = 0
  · simp only [if_pos clear, pure_bind]
    refine last.map _ fun used' offset second => good offset clear ?_
    rw [if_pos rfl, List.length_append, List.length_append]
    omega
  · simp only [if_neg clear, pure_bind]
    obtain ⟨cleared, restored⟩ := unmark_memory clear
    refine finds_bind finds_index fun used' mem named => last.map _ fun used'' offset second =>
      good offset cleared ?_
    simp only [List.length_append]
    by_cases zero : mem = 0
    · have below : (align &&& ~~~explicitMemory).toNat ≤ align.toNat := by
        rw [UInt32.toNat_and]
        exact Nat.and_le_left
      have := Leb128.length_encodeU32_mono below
      rw [if_pos zero]
      omega
    · rw [if_neg zero, restored, List.length_append]
      omega

theorem opcode_of_misc {op : UInt8} (kind : Immediate.Kind.ofOpcode op = .misc) : op = 0xfc := by
  unfold Immediate.Kind.ofOpcode at kind
  split at kind
  all_goals
    first | rfl | cases kind | (split at kind <;>
      [cases kind; split at kind <;> cases kind])

theorem le_of_miscOperands {sub : UInt32} (count : Opcode.miscOperands sub = some 0) : sub ≤ 7 := by
  unfold Opcode.miscOperands at count
  split at count <;> simp_all

theorem finds_rewritten (size start : Nat) (op : UInt8) :
    Finds (operands size start op) fun used r => Rewritten used ⟨op, r.1, r.2⟩ := by
  unfold operands
  cases kind : Immediate.Kind.ofOpcode op with
  | none =>
    have other : op ≠ 0xfc := by
      rintro rfl
      cases kind
    refine finds_pure ⟨by simp [proper, kind, other], fun _ => rfl, [], ?_, Nat.zero_le _⟩
    simp [encodeOperands, other]
  | label | func | typeIndex | tag | localIndex | globalIndex | tableIndex | memoryIndex
    | funcRef =>
    refine finds_index.map _ fun used v shorter => ⟨?_, fun _ => rfl, _, rfl, shorter⟩
    simp [proper, kind, Immediate.kind]
  | block =>
    refine finds_block.map _ fun used v shorter => ⟨?_, fun _ => rfl, _, rfl, shorter⟩
    simp [proper, kind, Immediate.kind]
  | heap =>
    refine ((agrees_number _).finds Leb128.settled_s33).map _ fun used v found =>
      ⟨?_, fun _ => ?_, _, rfl, ?_⟩
    · simp [proper, kind, Immediate.kind]
    · have short := (Leb128.decodeS33_ok_iff.mp (found.2 [])).2
      obtain ⟨low, high⟩ := Leb128.decodeS33_bounds (k := 4) (found.2 []) short
      simp only [Immediate.delimited, Bool.and_eq_true, decide_eq_true_eq]
      omega
    · exact Leb128.shortest_s33 (found.2 [])
  | i32 =>
    refine (finds_shorter Leb128.settled_s32 Leb128.shortest_s32).map _ fun used v shorter =>
      ⟨?_, fun _ => rfl, _, rfl, shorter⟩
    simp [proper, kind, Immediate.kind]
  | i64 =>
    refine (finds_shorter Leb128.settled_s64 Leb128.shortest_s64).map _ fun used v shorter =>
      ⟨?_, fun _ => rfl, _, rfl, shorter⟩
    simp [proper, kind, Immediate.kind]
  | f32 | f64 =>
    refine (finds_fixed _).map _ fun used v found => ⟨?_, fun _ => rfl, _, rfl, ?_⟩
    · simp [proper, kind, Immediate.kind]
    · rw [LittleEndian.length_encode, found.1]
  | memory => exact (finds_memory op kind).map _ fun used imm rewritten => rewritten
  | indirect =>
    refine finds_bind finds_index fun used type first => finds_index.map _ fun used' table second =>
      ⟨?_, fun _ => rfl, _, rfl, ?_⟩
    · simp [proper, kind, Immediate.kind]
    · rw [List.length_append, List.length_append]
      omega
  | labels =>
    refine finds_bind finds_index fun used count first => finds_guard fun _ => ?_
    refine finds_bind (finds_list finds_index _) fun used' depths others =>
      finds_index.map _ fun used'' default last =>
      ⟨?_, fun _ => rfl, _, rfl, ?_⟩
    · simp [proper, kind, Immediate.kind]
    · obtain ⟨length, total⟩ := others
      rw [length, UInt32.ofNat_toNat]
      simp only [List.length_append]
      omega
  | types =>
    refine finds_bind finds_index fun used count first => finds_guard fun _ => ?_
    refine (finds_list finds_code _).map _ fun used' list others =>
      ⟨?_, fun plain => ?_, _, rfl, ?_⟩
    · simp [proper, kind, Immediate.kind]
    · exact plain
    · obtain ⟨length, total⟩ := others
      rw [← List.map_eq_flatMap] at total
      rw [length, UInt32.ofNat_toNat, List.length_append, List.length_append]
      omega
  | misc =>
    obtain rfl := opcode_of_misc kind
    refine finds_bind finds_index fun used sub first => ?_
    cases count : Opcode.miscOperands sub with
    | none => exact finds_fail _
    | some n =>
      cases n with
      | zero =>
        refine finds_pure ⟨?_, fun _ => rfl, _, rfl, ?_⟩
        · simpa [proper] using le_of_miscOperands count
        · rw [List.append_nil]
          exact first
      | succ n =>
        refine (finds_list finds_index (n + 1)).map _ fun used' list others =>
          ⟨?_, fun _ => rfl, _, rfl, ?_⟩
        · have some : list ≠ [] := by
            rintro rfl
            cases others.1
          simp [proper, some, count, others.1]
        · have := others.2
          dsimp only
          rw [List.length_append, List.length_append]
          omega
  | foreignFamily => exact finds_bind finds_index fun _ _ _ => finds_fail _
  | unsupported => exact finds_fail _

/-! ## Code -/

theorem readAll_rewritten {size fuel : Nat} {c : Cursor} {is : List Located}
    (h : readAll size fuel c = .ok is) :
    (∀ i ∈ is, i.proper ∧ (i.imm.plain → i.imm.delimited)) ∧
      ∃ out, encodeAll (is.map Located.toInstr) = .ok out ∧ out.length ≤ c.rest.length := by
  induction fuel generalizing c is with
  | zero =>
    obtain rfl := Except.ok.inj h
    exact ⟨by simp, [], rfl, Nat.zero_le _⟩
  | succ fuel ih =>
    rcases readAll_succ h with ⟨-, rfl⟩ | ⟨-, i, next, rest, first, others, rfl⟩
    · exact ⟨by simp, [], rfl, Nat.zero_le _⟩
    · obtain ⟨each, tail, encoded, length⟩ := ih others
      obtain ⟨_, front, -, used, rfl, found⟩ := finds_located (finds_rewritten size) c i next first
      obtain ⟨head, operands, shorter⟩ := found.shorter
      refine ⟨List.forall_mem_cons.mpr ⟨⟨found.proper, found.delimited⟩, each⟩,
        i.opcode :: head ++ tail, ?_, ?_⟩
      · have one : i.toInstr.encode = .ok (i.opcode :: head) := by
          rw [encode, operands]
          rfl
        rw [List.map_cons, encodeAll, one, encoded]
        rfl
      · rw [front]
        simp only [List.length_append, List.length_cons]
        omega

theorem toInstr_lay (pos : Nat) (is : List Instr) : (lay pos is).map Located.toInstr = is := by
  induction is generalizing pos with
  | nil => rfl
  | cons i rest ih => rw [lay, List.map_cons, ih]

/-- What was decoded is written in no more bytes, these decode to the same instructions, and writing
them once more changes nothing. -/
theorem decoded_code_canonical {code : List UInt8} {is : List Located}
    (short : code.length < 2 ^ 31) (decoded : decodeAll code = .ok is)
    (plain : ∀ i ∈ is, i.imm.plain) :
    ∃ code' is', encodeAll (is.map Located.toInstr) = .ok code' ∧ code'.length ≤ code.length ∧
      decodeAll code' = .ok is' ∧ is'.map Located.toInstr = is.map Located.toInstr ∧
      encodeAll (is'.map Located.toInstr) = .ok code' := by
  obtain ⟨each, code', encoded, length⟩ := readAll_rewritten decoded
  have good : ∀ i ∈ is.map Located.toInstr, i.proper ∧ i.imm.delimited := by
    intro i mem
    obtain ⟨located, inside, rfl⟩ := List.mem_map.mp mem
    exact ⟨(each located inside).1, (each located inside).2 (plain located inside)⟩
  obtain ⟨_, same, again⟩ := readAll_encodeAll good
  obtain rfl := Except.ok.inj (encoded.symm.trans same)
  have length : code'.length ≤ code.length := length
  refine ⟨code', lay 0 (is.map Located.toInstr), encoded, length, ?_, toInstr_lay _ _, ?_⟩
  · exact again code'.length code'.length 0 (by omega) le_rfl le_rfl
  · rw [toInstr_lay]
    exact encoded

/-- A block type with bits above those of a 32-bit number, padded numbers, the first memory by its
index and the second by a padded one, and a value type that is not known. -/
theorem decoded_code_canonical_padded :
    let code : List UInt8 :=
      [0x02, 0x80, 0x80, 0x80, 0x80, 0x70, 0x41, 0x85, 0x80, 0x00, 0x28, 0x42, 0x80, 0x00, 0x05,
      0x28, 0xc2, 0x00, 0x81, 0x00, 0x05, 0x1c, 0x81, 0x00, 0x55, 0x0b]
    let written : List UInt8 :=
      [0x02, 0x00, 0x41, 0x05, 0x28, 0x02, 0x05, 0x28, 0x42, 0x01, 0x05, 0x1c, 0x01, 0x55, 0x0b]
    ∃ is is', decodeAll code = .ok is ∧ (∀ i ∈ is, i.imm.plain) ∧
      encodeAll (is.map Located.toInstr) = .ok written ∧ written.length ≤ code.length ∧
        decodeAll written = .ok is' ∧ is'.map Located.toInstr = is.map Located.toInstr ∧
      encodeAll (is'.map Located.toInstr) = .ok written := by
  intro code written
  have decoded : decodeAll code = .ok [{ opcode := 0x02, imm := .block 0, start := 0, stop := 6 },
      { opcode := 0x41, imm := .i32 5, start := 6, stop := 10 },
      { opcode := 0x28, imm := .memory 5 2 0, start := 10, stop := 15 },
      { opcode := 0x28, imm := .memory 5 2 1, start := 15, stop := 21 },
      { opcode := 0x1c, imm := .types [⟨0x55⟩], start := 21, stop := 25 },
      { opcode := 0x0b, start := 25, stop := 26 }] := by
    decide +kernel
  obtain ⟨code', is', encoded, rest⟩ := decoded_code_canonical (by decide) decoded (by decide)
  have same : code' = written := Except.ok.inj (encoded.symm.trans (by decide +kernel))
  subst same
  exact ⟨_, is', decoded, by decide, encoded, rest⟩

end Instr
end Sidetable
