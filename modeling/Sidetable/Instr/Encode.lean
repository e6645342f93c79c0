import Sidetable.Instr
import Sidetable.Leb128

/-!
# Encoding instructions

Numbers are written in their shortest form. Nothing checks that an immediate suits its opcode.
-/
namespace Sidetable.Instr

structure Unencodable where
  kind : String
  opcode : UInt8
  deriving DecidableEq, Repr

def Unencodable.message (u : Unencodable) : String :=
  s!"wasm: cannot encode immediate {u.kind} for opcode 0x" ++ Hex.padded 2 u.opcode.toNat

open Leb128 (encodeU32 encodeU64 encodeS32 encodeS64)

def encodeOperands (i : Instr) : Except Unencodable (List UInt8) :=
  match i.imm with
  | .none => .ok (if i.opcode = 0xfc then encodeU32 i.sub else [])
  | .block type => .ok (encodeS32 type)
  | .label depth => .ok (encodeU32 depth)
  | .labels depths default =>
    .ok (encodeU32 (UInt32.ofNat depths.length) ++ depths.flatMap encodeU32 ++ encodeU32 default)
  | .func f => .ok (encodeU32 f)
  | .indirect type table => .ok (encodeU32 type ++ encodeU32 table)
  | .typeIndex type => .ok (encodeU32 type)
  | .tag t => .ok (encodeU32 t)
  | .localIndex l => .ok (encodeU32 l)
  | .globalIndex g => .ok (encodeU32 g)
  | .tableIndex t => .ok (encodeU32 t)
  | .memory offset align mem =>
    .ok ((if mem = 0 then encodeU32 align else encodeU32 (align ||| 0x40) ++ encodeU32 mem) ++
      encodeU64 offset)
  | .memoryIndex mem => .ok (encodeU32 mem)
  | .i32 v => .ok (encodeS32 v)
  | .i64 v => .ok (encodeS64 v)
  | .f32 bits => .ok (LittleEndian.encode 4 bits.toNat)
  | .f64 bits => .ok (LittleEndian.encode 8 bits.toNat)
  | .heap type => .ok (encodeS64 type)
  | .funcRef f => .ok (encodeU32 f)
  | .types list => .ok (encodeU32 (UInt32.ofNat list.length) ++ list.map ValType.code)
  | .operands list => .ok (encodeU32 i.sub ++ list.flatMap encodeU32)
  | .foreign kind => .error { kind, opcode := i.opcode }

def encode (i : Instr) : Except Unencodable (List UInt8) :=
  (encodeOperands i).map (i.opcode :: ·)

def encodeAll : List Instr → Except Unencodable (List UInt8)
  | [] => .ok []
  | i :: rest => do
    let head ← encode i
    return head ++ (← encodeAll rest)

end Sidetable.Instr
