import Sidetable.Instr
import Sidetable.Proofs.Ledger
import Mathlib.Data.List.Induction

/-!
# The format of entries

What the side table holds for each instruction, as cells, read off the opcode and the immediate.
Every number of an entry comes from the instruction, its length and position, the operands at a
branch and the signature of a callee. `entrySize` is the size alone, which depends on still less.
-/
namespace Sidetable

namespace Immediate

def number : Immediate → UInt32
  | .func f => f
  | .localIndex l => l
  | .globalIndex g => g
  | .tableIndex t => t
  | .memory offset _ _ => offset.toUInt32
  | .i32 v => v.toUInt32
  | .funcRef f => f
  | .operands (a :: _) => a
  | _ => 0

def second : Immediate → UInt32
  | .operands (_ :: b :: _) => b
  | _ => 0

def wide : Immediate → UInt64
  | .i64 v => v.toUInt64
  | _ => 0

def calleeType : Immediate → UInt32
  | .indirect type _ => type
  | _ => 0

def calleeTable : Immediate → UInt32
  | .indirect _ table => table
  | _ => 0

def labelList : Immediate → List UInt32
  | .label d => [d]
  | .labels ds d => ds ++ [d]
  | _ => []

end Immediate

/-! ## Arguments of a call -/

namespace Arguments

/-- The parameter is of the class `p`, and fewer of that class come before it than there are
registers. -/
def placed (p : ValType → Bool) (free : Nat) (params : List ValType) (i : Nat) : Bool :=
  params[i]?.any p && (params.take i).countP p < free

def inGpr (r : Registers) (params : List ValType) : Nat → Bool :=
  placed ValType.isInteger r.gprs params

def inFpr (r : Registers) (params : List ValType) : Nat → Bool :=
  placed ValType.isFloat r.fprs params

def onStack (r : Registers) (params : List ValType) (i : Nat) : Bool :=
  !inGpr r params i && !inFpr r params i

def depths (params : List ValType) (which : Nat → Bool) : List Nat :=
  ((List.range params.length).filter which).map (params.length - 1 - ·)

def overflow (r : Registers) (params : List ValType) : Nat :=
  params.length - min (params.countP ValType.isInteger) r.gprs -
    min (params.countP ValType.isFloat) r.fprs

end Arguments

namespace Cell

def zeros (n : Nat) : List Cell :=
  List.replicate n (num 1 0)

def registers (depths : List Nat) : List Cell :=
  (List.range 8).map fun r => num 2 (depths[r]?.getD 0)

def stackArguments (argc : Nat) (depths : List Nat) : List Cell :=
  let size := Entry.roundUp (2 * depths.length + 6)
  [num 2 size, num 2 argc, num 2 depths.length] ++ depths.map (num 2) ++
    zeros (size - (2 * depths.length + 6))

def returnData (results : List ValType) : List Cell :=
  let size := Entry.roundUp (results.length + 2)
  num 2 size :: results.map (fun t => num 1 t.code.toNat) ++ zeros (size - (results.length + 2))

def callData (r : Registers) (callee : FuncType) : List Cell :=
  registers (Arguments.depths callee.params (Arguments.inGpr r callee.params)) ++
    registers (Arguments.depths callee.params (Arguments.inFpr r callee.params)) ++
    stackArguments callee.params.length
      (Arguments.depths callee.params (Arguments.onStack r callee.params)) ++
    returnData callee.results

end Cell

/-! ## The table -/

structure Setting where
  globals : List GlobalInfo
  registers : Registers
  layout : Layout
  /-- offset after the instruction, counted from the first one -/
  pc : Nat
  length : Nat
  /-- operands that a branch finds in the innermost control structure -/
  height : Nat
  /-- values that a branch to a label carries -/
  arity : UInt32 → Nat
  /-- results of the function, at its final `end` -/
  final : Option (List ValType)

namespace Setting

variable (s : Setting)

def value (v : UInt32) : List Cell :=
  [.num 4 v.toNat, .num 4 s.length]

def localSlot (index : UInt32) : List Cell :=
  s.value (s.layout.slot index)

def branch (d : UInt32) : List Cell :=
  [.target, .num 2 (s.height - s.arity d), .num 2 (s.arity d), .num 4 s.pc]

def globalGet (index : UInt32) : List Cell :=
  let binding := (s.globals[index.toNat]?.map fun g => g.binding.code.toNat).getD 0
  [.num 4 index.toNat, .num 2 s.length, .num 2 binding]

def globalSet (index : UInt32) : List Cell :=
  let binding := (s.globals[index.toNat]?.map fun g => g.binding.code.toNat).getD 0
  let isRef := s.globals[index.toNat]?.any fun g => g.type.isRef
  [.num 4 index.toNat, .num 2 s.length, .num 1 binding, .num 1 (if isRef then 1 else 0)]

def call (callee : Option FuncType) : List Cell :=
  match callee with
  | some sig => Cell.callData s.registers sig
  | none => []

def misc (i : Instr) : List Cell :=
  match i.sub with
  -- memory.init, data.drop, elem.drop, table.grow, table.size, table.fill
  | 8 | 9 | 13 | 15 | 16 | 17 => s.value i.imm.number
  | 12 | 14 =>                                             -- table.init, table.copy
    [.num 4 i.imm.number.toNat, .num 4 i.imm.second.toNat, .num 8 s.length]
  | _ => []

def entry (mod : Module) (i : Instr) : List Cell :=
  match i.opcode with
  | 0x02 | 0x03 => [.num 8 s.pc]                           -- block, loop
  | 0x04 => [.target, .num 8 s.pc]                         -- if
  | 0x05 => [.target]                                      -- else
  | 0x0b => (s.final.map Cell.returnData).getD []          -- end
  | 0x0c | 0x0d => i.imm.labelList.flatMap s.branch        -- br, br_if
  | 0x0e =>                                                -- br_table
    .num 8 i.imm.labelList.length :: i.imm.labelList.flatMap s.branch
  | 0x10 | 0x12 =>                                         -- call, return_call
    [.num 4 i.imm.number.toNat, .num 4 s.pc] ++ s.call (mod.funcType i.imm.number)
  | 0x11 | 0x13 =>                                         -- call_indirect, return_call_indirect
    [.num 4 i.imm.calleeTable.toNat, .num 4 i.imm.calleeType.toNat, .num 4 0, .num 4 s.pc] ++
      s.call (mod.typeAt i.imm.calleeType)
  | 0x1b | 0x1c => [.num 8 s.length]                       -- select
  | 0x20 | 0x21 => s.localSlot i.imm.number                -- local.get, local.set
  | 0x22 => s.localSlot i.imm.number ++ s.localSlot i.imm.number
  | 0x23 => s.globalGet i.imm.number
  | 0x24 => s.globalSet i.imm.number
  | 0x25 | 0x26 | 0x41 | 0xd2 =>
    s.value i.imm.number      -- table.get, table.set, i32.const, ref.func
  | 0x42 => [.num 8 i.imm.wide.toNat, .num 8 s.length]     -- i64.const
  | 0xfc => s.misc i
  | op => if Opcode.isLoad op || Opcode.isStore op then s.value i.imm.number else []

end Setting

def callSize (r : Registers) : Option FuncType → Nat
  | some sig =>
    32 + Entry.roundUp (2 * Arguments.overflow r sig.params + 6) +
      Entry.roundUp (sig.results.length + 2)
  | none => 0

def miscSize : UInt32 → Nat
  | 8 | 9 | 13 | 15 | 16 | 17 => 8
  | 12 | 14 => 16
  | _ => 0

def entrySize (mod : Module) (r : Registers) (i : Instr) : Nat :=
  match i.opcode with
  | 0x02 | 0x03 | 0x05 => 8
  | 0x04 => 16
  | 0x0b => 0
  | 0x0c | 0x0d => 16 * i.imm.labelList.length
  | 0x0e => 8 + 16 * i.imm.labelList.length
  | 0x10 | 0x12 => 8 + callSize r (mod.funcType i.imm.number)
  | 0x11 | 0x13 => 16 + callSize r (mod.typeAt i.imm.calleeType)
  | 0x1b | 0x1c | 0x20 | 0x21 | 0x23 | 0x24 | 0x25 | 0x26 | 0x41 | 0xd2 => 8
  | 0x22 | 0x42 => 16
  | 0xfc => miscSize i.sub
  | op => if Opcode.isLoad op || Opcode.isStore op then 8 else 0

/-- Where the entry of the branch to the label with number `n` starts, within the entry of its
instruction. -/
def labelOffset (i : Instr) (n : Nat) : Nat :=
  (if i.opcode = 0x0e then 8 else 0) + 16 * n

def targetOffsets (i : Instr) : List Nat :=
  match i.opcode with
  | 0x04 | 0x05 => [0]
  | 0x0c | 0x0d | 0x0e => (List.range i.imm.labelList.length).map (labelOffset i)
  | _ => []

/-! ## Sizes -/

theorem ValType.not_float_of_integer {t : ValType} (h : t.isInteger) : t.isFloat = false := by
  simp only [ValType.isInteger, Bool.or_eq_true, decide_eq_true_eq] at h
  rcases h with rfl | rfl <;> decide

theorem Entry.le_roundUp (n : Nat) : n ≤ Entry.roundUp n := by
  unfold Entry.roundUp
  omega

theorem Entry.roundUp_mod (n : Nat) : Entry.roundUp n % 8 = 0 := by
  unfold Entry.roundUp
  omega

namespace Arguments

variable {p : ValType → Bool} {free : Nat} {r : Registers} {params : List ValType} {t : ValType}
    {i : Nat}

theorem placed_append (h : i < params.length) :
    placed p free (params ++ [t]) i = placed p free params i := by
  simp [placed, List.getElem?_append_left h, List.take_append_of_le_length (Nat.le_of_lt h)]

theorem placed_last : placed p free (params ++ [t]) params.length =
    (p t && decide (params.countP p < free)) := by
  simp [placed]

theorem onStack_append (h : i < params.length) :
    onStack r (params ++ [t]) i = onStack r params i := by
  simp [onStack, inGpr, inFpr, placed_append h]

/-- A class that does not look behind a parameter grows with the list. -/
theorem filter_range_succ {which which' : Nat → Bool} {n : Nat} (h : ∀ i < n, which' i = which i) :
    (List.range (n + 1)).filter which' =
      (List.range n).filter which ++ if which' n then [n] else [] := by
  have same : (List.range n).filter which' = (List.range n).filter which :=
    List.filter_congr fun i hi => h i (List.mem_range.mp hi)
  rw [List.range_succ, List.filter_append, same, List.filter_singleton]
  cases which' n <;> rfl

theorem length_placed (p : ValType → Bool) (free : Nat) (params : List ValType) :
    ((List.range params.length).filter (placed p free params)).length =
      min (params.countP p) free := by
  induction params using List.reverseRecOn with
  | nil => simp
  | append_singleton params t ih =>
    rw [List.length_append, List.length_singleton, filter_range_succ fun i hi => placed_append hi,
      List.length_append, ih, placed_last, List.countP_append, List.countP_singleton]
    by_cases ht : p t <;> by_cases hc : params.countP p < free <;> simp [ht, hc] <;> omega

theorem length_classes (r : Registers) (params : List ValType) :
    min (params.countP ValType.isInteger) r.gprs + min (params.countP ValType.isFloat) r.fprs +
      ((List.range params.length).filter (onStack r params)).length = params.length := by
  rw [← length_placed, ← length_placed]
  change ((List.range params.length).filter (inGpr r params)).length +
    ((List.range params.length).filter (inFpr r params)).length +
    ((List.range params.length).filter (onStack r params)).length = params.length
  induction params using List.reverseRecOn with
  | nil => simp
  | append_singleton params t ih =>
    have gprs : ∀ i < params.length, inGpr r (params ++ [t]) i = inGpr r params i :=
      fun i hi => placed_append hi
    have fprs : ∀ i < params.length, inFpr r (params ++ [t]) i = inFpr r params i :=
      fun i hi => placed_append hi
    have stack : ∀ i < params.length, onStack r (params ++ [t]) i = onStack r params i :=
      fun i hi => onStack_append hi
    rw [List.length_append, List.length_singleton, filter_range_succ gprs, filter_range_succ fprs,
      filter_range_succ stack]
    simp only [List.length_append, onStack, inGpr, inFpr, placed_last] at ih ⊢
    by_cases hi : t.isInteger
    · have hf := ValType.not_float_of_integer hi
      by_cases hc : params.countP ValType.isInteger < r.gprs <;> simp [hi, hf, hc] <;> omega
    · by_cases hf : t.isFloat <;> by_cases hc : params.countP ValType.isFloat < r.fprs <;>
        simp [hi, hf, hc] <;> omega

theorem length_onStack (r : Registers) (params : List ValType) :
    ((List.range params.length).filter (onStack r params)).length = overflow r params := by
  have total := length_classes r params
  unfold overflow
  omega

end Arguments

namespace Cell

@[simp] theorem sizes_zeros (n : Nat) : sizes (zeros n) = n := by
  simp [sizes, zeros, size]

theorem sizes_map_num {α : Type} (width : Nat) (f : α → Nat) (list : List α) :
    sizes (list.map fun a => num width (f a)) = width * list.length := by
  induction list with
  | nil => rfl
  | cons a rest ih =>
    rw [List.map_cons, sizes_cons, ih, size, List.length_cons, Nat.mul_succ, Nat.add_comm]

@[simp] theorem sizes_registers (depths : List Nat) : sizes (registers depths) = 16 := by
  rw [registers, sizes_map_num, List.length_range]

theorem sizes_stackArguments (argc : Nat) (depths : List Nat) :
    sizes (stackArguments argc depths) = Entry.roundUp (2 * depths.length + 6) := by
  have up := Entry.le_roundUp (2 * depths.length + 6)
  have args := sizes_map_num 2 id depths
  simp only [id_eq] at args
  simp only [stackArguments, sizes_append, sizes_cons, sizes_nil, size, sizes_zeros, args]
  omega

theorem sizes_returnData (results : List ValType) :
    sizes (returnData results) = Entry.roundUp (results.length + 2) := by
  have up := Entry.le_roundUp (results.length + 2)
  rw [returnData, sizes_append, sizes_cons, sizes_map_num, sizes_zeros, size]
  omega

end Cell

@[simp] theorem Setting.sizes_branch (s : Setting) (d : UInt32) : Cell.sizes (s.branch d) = 16 :=
  rfl

theorem Setting.sizes_branches (s : Setting) (ds : List UInt32) :
    Cell.sizes (ds.flatMap s.branch) = 16 * ds.length := by
  induction ds with
  | nil => rfl
  | cons d rest ih =>
    rw [List.flatMap_cons, Cell.sizes_append, ih, Setting.sizes_branch, List.length_cons]
    omega

theorem callSize_mod (r : Registers) (callee : Option FuncType) : callSize r callee % 8 = 0 := by
  cases callee with
  | none => rfl
  | some sig =>
    have := Entry.roundUp_mod (2 * Arguments.overflow r sig.params + 6)
    have := Entry.roundUp_mod (sig.results.length + 2)
    simp only [callSize]
    omega

theorem Cell.sizes_callData (r : Registers) (callee : FuncType) :
    sizes (callData r callee) = callSize r (some callee) := by
  simp only [callSize, callData, sizes_append, sizes_registers, sizes_stackArguments,
    sizes_returnData, Arguments.depths, List.length_map, Arguments.length_onStack]

theorem Setting.sizes_call (s : Setting) (callee : Option FuncType) :
    Cell.sizes (s.call callee) = callSize s.registers callee := by
  cases callee with
  | none => rfl
  | some sig => exact Cell.sizes_callData s.registers sig

theorem Setting.sizes_misc (s : Setting) (i : Instr) : Cell.sizes (s.misc i) = miscSize i.sub := by
  unfold Setting.misc miscSize
  split <;> rfl

/-- The size of an entry does not depend on positions, operands or the layout. -/
theorem Setting.sizes_entry (s : Setting) (mod : Module) (i : Instr)
    (h : i.opcode = 0x0b → s.final = none) :
    Cell.sizes (s.entry mod i) = entrySize mod s.registers i := by
  obtain ⟨op, sub, imm⟩ := i
  unfold Setting.entry entrySize
  dsimp only at h ⊢
  split
  case h_5 => simp [h rfl]
  case h_6 | h_7 => exact s.sizes_branches _
  case h_8 => rw [Cell.sizes_cons, s.sizes_branches]; rfl
  case h_9 | h_10 | h_11 | h_12 => rw [Cell.sizes_append, s.sizes_call]; rfl
  case h_25 => exact s.sizes_misc _
  case h_26 => split <;> simp [*, Setting.value, Cell.size]
  all_goals rfl

end Sidetable
