import Sidetable.Cursor
import Sidetable.Instr
import Sidetable.Leb128

/-!
# Decoding instructions

A number that cannot be read leaves the cursor in front of it; what was read before it stays read.
The reader is told the size of the whole code, which bounds the length of label and type lists.
-/
namespace Sidetable.Instr

open Fault (Cause)

def number {α : Type} (decode : List UInt8 → Except Cause (α × Nat)) : Read α := fun c =>
  match decode c.rest with
  | .ok (v, n) => .ok v (c.advance n)
  | .error cause => .error { cause } c

def index : Read UInt32 :=
  number Leb128.decodeU32

def fixed (n : Nat) : Read Nat := fun c =>
  if c.has n then .ok (LittleEndian.decode (c.rest.take n)) (c.advance n)
  else .error { cause := .unexpectedEnd } c

/-- Reads a value type; the heap type of a typed reference is dropped. -/
def valType : Read ValType := do
  let t : ValType := ⟨← Read.byte⟩
  if t.isTypedRef then
    let _ ← number Leb128.decodeS33
  return t

def times {α : Type} (read : Read α) : Nat → Read (List α)
  | 0 => return []
  | n + 1 => do
    let a ← read
    let rest ← times read n
    return a :: rest

def explicitMemory : UInt32 := 0x40

def memory : Read Immediate := do
  let align ← index
  let (align, mem) ←
    if align &&& explicitMemory = 0 then pure (align, 0)
    else do
      let mem ← index
      pure (align &&& ~~~explicitMemory, mem)
  let offset ← number Leb128.decodeU64
  return .memory offset align mem

/-- The second number of an opcode and the immediate of an instruction that starts at `start`. -/
def operands (size start : Nat) (op : UInt8) : Read (UInt32 × Immediate) :=
  match Immediate.Kind.ofOpcode op with
  | .none => return (0, .none)
  | .block => do return (0, .block (← number Leb128.decodeS33).toInt32)
  | .label => do return (0, .label (← index))
  | .labels => do
    let count ← index
    if size < count.toNat then Read.fail (.labelCount count)
    let depths ← times index count.toNat
    return (0, .labels depths (← index))
  | .func => do return (0, .func (← index))
  | .indirect => do
    let type ← index
    return (0, .indirect type (← index))
  | .typeIndex => do return (0, .typeIndex (← index))
  | .tag => do return (0, .tag (← index))
  | .localIndex => do return (0, .localIndex (← index))
  | .globalIndex => do return (0, .globalIndex (← index))
  | .tableIndex => do return (0, .tableIndex (← index))
  | .memory => do return (0, ← memory)
  | .memoryIndex => do return (0, .memoryIndex (← index))
  | .i32 => do return (0, .i32 (← number Leb128.decodeS32))
  | .i64 => do return (0, .i64 (← number Leb128.decodeS64))
  | .f32 => do return (0, .f32 (UInt32.ofNat (← fixed 4)))
  | .f64 => do return (0, .f64 (UInt64.ofNat (← fixed 8)))
  | .heap => do return (0, .heap (← number Leb128.decodeS33))
  | .funcRef => do return (0, .funcRef (← index))
  | .types => do
    let count ← index
    if size < count.toNat then Read.fail (.selectCount count)
    return (0, .types (← times valType count.toNat))
  | .misc => do
    let sub ← index
    match Opcode.miscOperands sub with
    | some 0 => return (sub, .none)
    | some n => return (sub, .operands (← times index n))
    | none => Read.fail (.unsupportedOpcode op sub start)
  | .foreignFamily => do Read.fail (.unsupportedOpcode op (← index) start)
  | .unsupported => Read.fail (.unsupportedOpcode op 0 start)

def read (size : Nat) : Read Located := do
  let start ← Read.position
  let op ← Read.byte
  let (sub, imm) ← Read.within (.instruction op start) (operands size start op)
  return { opcode := op, sub, imm, start, stop := ← Read.position }

/-- Reads instructions until none is left. An instruction takes at least one byte, so `fuel` as
large as the number of unread bytes is enough. -/
def readAll (size : Nat) : Nat → Cursor → Except Fault (List Located)
  | 0, _ => .ok []
  | fuel + 1, c =>
    if c.rest.isEmpty then .ok []
    else
      match read size c with
      | .ok i c => (readAll size fuel c).map (i :: ·)
      | .error f _ => .error f

def decodeAll (code : List UInt8) : Except Fault (List Located) :=
  readAll code.length code.length (.ofBytes code)

def skipExpr (size : Nat) : Nat → Read Unit
  | 0 => Read.fail .endOfInput
  | fuel + 1 => do
    let i ← read size
    if i.opcode = 0x0b then return () else skipExpr size fuel

end Sidetable.Instr
