import Sidetable.Validation.Vector

/-!
# Instructions as validation reads them

Instructions of the second version of the core standard are known. Tail calls, exceptions, atomic
instructions and typed function references are refused, a direct tail call only after its function
has been looked up. A memory access has no memory index, so the bit of an alignment that would
announce one is part of the alignment.
-/
namespace Sidetable
namespace Validation

inductive Operation where
  | bare (opcode : UInt8)
  | block (opcode : UInt8) (type : Int)
  | branch (opcode : UInt8) (depth : UInt32)
  | branchTable (depths : List UInt32) (default : UInt32)
  | call (func : UInt32)
  | tailCall (func : UInt32)
  | callIndirect (type table : UInt32)
  | select (type : ValType)
  | onLocal (opcode : UInt8) (index : UInt32)
  | onGlobal (opcode : UInt8) (index : UInt32)
  | onTable (opcode : UInt8) (index : UInt32)
  | access (opcode : UInt8) (align : UInt32)
  /-- the size of the memory, or its growth -/
  | memory (opcode : UInt8)
  | const (type : ValType)
  | funcRef (index : UInt32)
  /-- an instruction after `0xfc`; it is padded if its number is longer than need be -/
  | bulk (sub : UInt32) (padded : Bool) (operands : List UInt32)
  | vector (shape : VectorShape) (align : UInt32) (lanes : List UInt8)
  deriving DecidableEq, Repr

namespace Scan

def alignment : Scan UInt32 := do
  let align ← u32
  let _ ← u32
  return align

/-- The indices that follow the number of an instruction after `0xfc`. Memories have a reserved
byte. -/
def bulkOperands (sub : UInt32) : Scan (List UInt32) := do
  if sub < 8 then return []
  match sub.toNat with
  | 8 => do
    let segment ← u32
    reserved
    return [segment]
  | 10 => do
    reserved
    reserved
    return []
  | 11 => do
    reserved
    return []
  | 12 | 14 => times u32 2
  | 9 | 13 | 15 | 16 | 17 => times u32 1
  | _ => throw (.refused "unknown instruction")

def bulk : Scan Operation := do
  let number ← index
  let sub := UInt32.ofNat (Leb128.unsigned number)
  return .bulk sub (1 < number.length) (← bulkOperands sub)

def vectorOperation : Scan Operation := do
  match VectorShape.ofNumber? (← byte) with
  | none => throw (.refused "unknown vector instruction")
  | some shape =>
    let align ← if shape.access.isSome then alignment else pure 0
    return .vector shape align (← bytes shape.lanes)

def selectedType : Scan ValType := do
  if (← byte) ≠ 1 then throw (.refused "one type is selected")
  valType

def operation : Scan Operation := do
  let op ← byte
  match op with
  | 0x02 | 0x03 | 0x04 => return .block op (← s33)
  | 0x0c | 0x0d => return .branch op (← u32)
  | 0x0e => do
    let depths ← vector u32
    return .branchTable depths (← u32)
  | 0x10 => return .call (← u32)
  | 0x12 => return .tailCall (← u32)
  | 0x11 => do
    let type ← u32
    return .callIndirect type (← u32)
  | 0x1c => return .select (← selectedType)
  | 0x20 | 0x21 | 0x22 => return .onLocal op (← u32)
  | 0x23 | 0x24 => return .onGlobal op (← u32)
  | 0x25 | 0x26 => return .onTable op (← u32)
  | 0x3f | 0x40 => do
    reserved
    return .memory op
  | 0x41 => do
    s32
    return .const .i32
  | 0x42 => do
    s64
    return .const .i64
  | 0x43 => do
    skip 4
    return .const .f32
  | 0x44 => do
    skip 8
    return .const .f64
  | 0xd0 => return .const (← refType)
  | 0xd2 => return .funcRef (← u32)
  | 0xfc => bulk
  | 0xfd => vectorOperation
  | _ => if 0x28 ≤ op && op ≤ 0x3e then return .access op (← alignment) else return .bare op

end Scan
end Validation
end Sidetable
