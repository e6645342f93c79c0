import Sidetable.Validation.Scan

/-!
# Constants and segments

A constant is one instruction and an `end`. The items of an element segment are references: null, a
function, or what a global holds.
-/
namespace Sidetable
namespace Validation

inductive ConstExpr where
  | value (type : ValType)
  | global (index : List UInt8)
  | null (type : ValType)
  | func (index : UInt32)
  deriving DecidableEq, Repr

inductive ElemItem where
  | null
  | func (index : UInt32)
  | global (index : UInt32)
  deriving DecidableEq, Repr

/-- Where a segment goes: nowhere until it is asked for, or into a table or memory. -/
inductive Placement where
  | passive
  | active (index : UInt32) (offset : ConstExpr)
  deriving DecidableEq, Repr

structure ElemSegment where
  type : ValType
  placement : Placement
  items : List ElemItem
  deriving DecidableEq, Repr

structure DataSegment where
  placement : Placement
  deriving DecidableEq, Repr

namespace ElemItem

def globalMark : UInt32 := 0x40000000

def funcBound : UInt32 := 0x8000000

/-- The item for the global whose index has these bytes. They count as a signed number, which is
zero if it does not fit 32 bits; the bit of the mark is lost. -/
def ofGlobal (index : List UInt8) : ElemItem :=
  let v : UInt32 :=
    if index.length < 5 then UInt32.ofInt (Leb128.signed index)
    else if Leb128.unsigned index < 0x80000000 then UInt32.ofNat (Leb128.unsigned index)
    else 0
  .global (v &&& ~~~globalMark)

/-- Index of the function that an item lets references be taken of. A global counts under its
mark. -/
def declares : ElemItem → Option UInt32
  | null => none
  | func f => some f
  | global i => some (i ||| globalMark)

end ElemItem

namespace Scan

def constOperand (op : UInt8) : Scan ConstExpr :=
  match op with
  | 0x41 => do
    s32
    return .value .i32
  | 0x42 => do
    s64
    return .value .i64
  | 0x43 => do
    skip 4
    return .value .f32
  | 0x44 => do
    skip 8
    return .value .f64
  | 0x23 => do return .global (← index)
  | 0xd0 => do return .null (← refType)
  | 0xd2 => do return .func (← u32)
  | 0xfd => do
    if (← byte) ≠ 12 then throw (.refused "not a constant")
    skip 16
    return .value .v128
  | _ => throw (.refused "not a constant")

def constExpr : Scan ConstExpr := do
  let e ← constOperand (← byte)
  if (← byte) ≠ 0x0b then throw (.refused "a constant does not end")
  return e

def funcItem : Scan ElemItem := do
  let f ← u32
  if f < ElemItem.funcBound then return .func f else throw (.refused "function index is too large")

/-- An item of type `type` as a constant. A global is not looked at yet. -/
def exprItem (type : ValType) : Scan ElemItem := do
  match ← constExpr with
  | .func f =>
    if type = .funcref && f < ElemItem.funcBound then return .func f
    else throw (.refused "an element does not suit its segment")
  | .null t => if t = type then return .null else throw (.operandType type t)
  | .global index => return .ofGlobal index
  | .value _ => throw (.refused "an element is not a reference")

def funcItems (placement : Placement) : Scan ElemSegment := do
  return { type := .funcref, placement, items := ← vector funcItem }

def exprItems (type : ValType) (placement : Placement) : Scan ElemSegment := do
  return { type, placement, items := ← vector (exprItem type) }

/-- Reads an element segment. Flag bits: 1 not active, 2 a table index or, if not active, never
asked for, 4 items are expressions. -/
def elemSegment : Scan ElemSegment := do
  match (← u32).toNat with
  | 0 => funcItems (.active 0 (← constExpr))
  | 2 => do
    let table ← u32
    let offset ← constExpr
    reserved
    funcItems (.active table offset)
  | 1 | 3 => do
    reserved
    funcItems .passive
  | 4 => exprItems .funcref (.active 0 (← constExpr))
  | 6 => do
    let table ← u32
    let offset ← constExpr
    exprItems (← refType) (.active table offset)
  | 5 | 7 => exprItems (← refType) .passive
  | _ => throw (.refused "unknown segment flags")

def dataSegment : Scan DataSegment := do
  let placement ← match (← u32).toNat with
    | 0 => do pure (Placement.active 0 (← constExpr))
    | 1 => pure .passive
    | 2 => do
      let memory ← u32
      if memory ≠ 0 then throw (.missing "memory" memory)
      pure (.active memory (← constExpr))
    | _ => throw (.refused "unknown segment flags")
  skip (← u32).toNat
  return { placement }

end Scan
end Validation
end Sidetable
