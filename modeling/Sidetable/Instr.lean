import Sidetable.Opcode
import Sidetable.ValType

/-!
# Instructions

An instruction is an opcode, the second number of a prefixed opcode, and an immediate.
`Immediate.Kind` says which immediate an opcode is followed by.
-/
namespace Sidetable

inductive Immediate where
  | none
  /-- a block type: negative for the empty and the single-result ones, else a type index -/
  | block (type : Int32)
  | label (depth : UInt32)
  | labels (depths : List UInt32) (default : UInt32)
  | func (index : UInt32)
  | indirect (type table : UInt32)
  | typeIndex (type : UInt32)
  | tag (index : UInt32)
  | localIndex (index : UInt32)
  | globalIndex (index : UInt32)
  | tableIndex (index : UInt32)
  | memory (offset : UInt64) (align mem : UInt32)
  | memoryIndex (mem : UInt32)
  | i32 (value : Int32)
  | i64 (value : Int64)
  | f32 (bits : UInt32)
  | f64 (bits : UInt64)
  | heap (type : Int64)
  | funcRef (index : UInt32)
  | types (list : List ValType)
  | operands (list : List UInt32)
  /-- a value that is no immediate of the binary format, known by the name of its kind -/
  | foreign (kind : String)
  deriving DecidableEq, Repr

inductive Immediate.Kind where
  | none
  | block
  | label
  | labels
  | func
  | indirect
  | typeIndex
  | tag
  | localIndex
  | globalIndex
  | tableIndex
  | memory
  | memoryIndex
  | i32
  | i64
  | f32
  | f64
  | heap
  | funcRef
  | types
  /-- a second number and then as many indices as it calls for -/
  | misc
  /-- a second number of a family that cannot be read any further -/
  | foreignFamily
  | unsupported
  deriving DecidableEq, Repr

/-- Opcodes that stand alone, apart from the numeric ones: `unreachable`, `nop`, `else`, `end`,
`return`, `catch_all`, `drop`, `select`, `ref.is_null` and `ref.as_non_null`. -/
def Opcode.isBare : UInt8 → Bool
  | 0x00 | 0x01 | 0x05 | 0x0b | 0x0f | 0x19 | 0x1a | 0x1b | 0xd1 | 0xd4 => true
  | _ => false

def Immediate.Kind.ofOpcode (op : UInt8) : Immediate.Kind :=
  match op with
  | 0x02 | 0x03 | 0x04 | 0x06 => .block
  | 0x09 | 0x0c | 0x0d | 0x18 | 0xd5 | 0xd6 => .label
  | 0x0e => .labels
  | 0x10 | 0x12 => .func
  | 0x11 | 0x13 => .indirect
  | 0x14 | 0x15 => .typeIndex
  | 0x07 | 0x08 => .tag
  | 0x20 | 0x21 | 0x22 => .localIndex
  | 0x23 | 0x24 => .globalIndex
  | 0x25 | 0x26 => .tableIndex
  | 0x3f | 0x40 => .memoryIndex
  | 0x41 => .i32
  | 0x42 => .i64
  | 0x43 => .f32
  | 0x44 => .f64
  | 0xd0 => .heap
  | 0xd2 => .funcRef
  | 0x1c => .types
  | 0xfc => .misc
  | 0xfb | 0xfd | 0xfe => .foreignFamily
  | op =>
    if Opcode.isLoad op || Opcode.isStore op then .memory
    else if Opcode.isBare op || Opcode.isNumeric op then .none
    else .unsupported

def Opcode.miscOperands : UInt32 → Option Nat
  | 8 | 10 | 12 | 14 => some 2
  | 9 | 11 | 13 | 15 | 16 | 17 => some 1
  | sub => if sub ≤ 7 then some 0 else none

structure Instr where
  opcode : UInt8
  sub : UInt32 := 0
  imm : Immediate := .none
  deriving DecidableEq, Repr

/-- An instruction and the bytes it takes: from `start` up to and without `stop`. -/
structure Instr.Located extends Instr where
  start : Nat
  stop : Nat
  deriving DecidableEq, Repr

namespace Instr

def name (i : Instr) : String :=
  Opcode.name i.opcode i.sub

def Located.length (i : Located) : Nat :=
  i.stop - i.start

end Instr
end Sidetable
