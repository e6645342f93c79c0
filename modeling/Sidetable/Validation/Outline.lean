import Sidetable.Module
import Sidetable.Validation.Segment

/-!
# What is validated of a module

An outline is a module as validation reads it, with the contents of its segments and the bytes of
its bodies. Each section has to be as long as its contents.
-/
namespace Sidetable
namespace Validation

inductive Imported where
  | func (typeIndex : UInt32)
  | table (elem : ValType)
  | memory
  | global (type : GlobalType)
  deriving DecidableEq, Repr

/-- The locals of a function beyond its parameters, and its instructions. -/
structure Code where
  locals : List ValType
  bytes : List UInt8
  deriving DecidableEq, Repr

structure Outline where
  types : List FuncType := []
  imports : List Imported := []
  /-- type indices of the defined functions -/
  funcs : List UInt32 := []
  /-- element types of the defined tables -/
  tables : List ValType := []
  memory : Bool := false
  globals : List (GlobalType × ConstExpr) := []
  exports : List Export := []
  start : Option UInt32 := none
  elems : List ElemSegment := []
  dataCount : Option UInt32 := none
  code : List Code := []
  datas : List DataSegment := []
  /-- the names of its parts have been given -/
  named : Bool := false
  deriving DecidableEq, Repr

namespace Scan

def funcType : Scan FuncType := do
  if (← byte) ≠ 0x60 then throw (.refused "not a function type")
  let params ← vector valType
  return { params, results := ← vector valType }

def limits : Scan (UInt32 × Option UInt32) := do
  match ← byte with
  | 0 => return (← u32, none)
  | 1 => do
    let min ← u32
    return (min, some (← u32))
  | _ => throw (.refused "limits of this form are not supported")

def table : Scan ValType := do
  let elem : ValType := ⟨← byte⟩
  let (min, max) ← limits
  if 0x8000000 < min then throw (.refused "the minimum is too large")
  if max.any (· < min) then throw (.refused "the minimum is above the maximum")
  return elem

def memory : Scan Unit := do
  let (min, max) ← limits
  let max := max.getD 65536
  if 65536 < max || max < min then throw (.refused "the memory is too large")

def memories : Scan Bool := do
  match (← u32).toNat with
  | 0 => return false
  | 1 => do
    memory
    return true
  | _ => throw (.refused "more than one memory")

def globalType : Scan GlobalType := do
  let type ← valType
  let flag ← byte
  if 1 < flag then throw (.refused "unknown mutability")
  return { type, mutable := flag = 1 }

def imported : Scan Imported := do
  if (← name) = "" then throw (.refused "an import without module")
  let _ ← name
  match ← byte with
  | 0 => return .func (← u32)
  | 1 => return .table (← table)
  | 2 => do
    memory
    return .memory
  | 3 => return .global (← globalType)
  | _ => throw (.refused "unknown kind of import")

def global : Scan (GlobalType × ConstExpr) := do
  let type ← globalType
  return (type, ← constExpr)

def exported : Scan Export := do
  let item ← name
  let kind ← byte
  if 3 < kind then throw (.refused "unknown kind of export")
  return { name := item, kind, index := ← u32 }

def exports : Scan (List Export) := do
  let items ← vector exported
  let names := items.map (·.name)
  if names.eraseDups.length ≠ names.length then throw (.refused "two exports of one name")
  return items

def localRun : Scan (List ValType) := do
  let count ← u32
  return List.replicate count.toNat (← valType)

def code : Scan Code := do
  let size ← u32
  let start ← position
  let runs ← vector localRun
  let taken := (← position) - start
  if size.toNat < taken then throw .unexpectedEnd
  let body ← bytes (size.toNat - taken)
  if body.getLast? ≠ some 0x0b then throw (.refused "the function does not end")
  return { locals := runs.flatten, bytes := body }

def nameOf : Scan Unit := do
  let _ ← u32
  let _ ← name

def names : Scan Unit := do
  let _ ← vector nameOf

/-- Reads one part of the names: of the module, of functions, of locals, or of something else. -/
def namePart (id : UInt8) (size : UInt32) : Scan Unit :=
  match id with
  | 0 => do let _ ← name
  | 1 => names
  | 2 => do
    let _ ← vector do
      let _ ← u32
      names
  | _ => skip size.toNat

/-- Reads parts until `left` bytes are used up or none is left in the binary. The sizes that the
parts declare are taken off `left`, whatever they turn out to hold. A part takes at least two bytes,
so `fuel` as large as the number of unread bytes is enough. -/
def nameParts : Nat → UInt64 → Scan Unit
  | 0, _ => return ()
  | fuel + 1, left => do
    if left = 0 || (← ended) then return ()
    let start ← position
    let id ← byte
    let size ← u32
    let taken := (← position) - start
    namePart id size
    nameParts fuel (left - UInt64.ofNat taken - size.toUInt64)

/-- Reads a custom section of `size` bytes. The names of parts may be given once. Any other section
must not reach the end of the binary with its name. -/
def custom (o : Outline) (size : UInt32) : Scan Outline := do
  let start ← position
  let kind ← name
  let taken := (← position) - start
  if size.toNat < taken then throw (.sectionSize 0)
  let left := size.toNat - taken
  if kind = "name" then
    if o.named then throw (.refused "names are given twice")
    let c ← get
    nameParts c.rest.length (UInt64.ofNat left)
    return { o with named := true }
  else
    if ← ended then throw .unexpectedEnd
    skip left
    return o

def contents (o : Outline) (id : UInt8) (size : UInt32) : Scan Outline :=
  match id with
  | 0 => custom o size
  | 1 => do return { o with types := ← vector funcType }
  | 2 => do return { o with imports := ← vector imported }
  | 3 => do return { o with funcs := ← vector u32 }
  | 4 => do return { o with tables := ← vector table }
  | 5 => do return { o with memory := ← memories }
  | 6 => do return { o with globals := ← vector global }
  | 7 => do return { o with exports := ← exports }
  | 8 => do return { o with start := some (← u32) }
  | 9 => do return { o with elems := ← vector elemSegment }
  | 10 => do return { o with code := ← vector code }
  | 11 => do return { o with datas := ← vector dataSegment }
  | 12 => do return { o with dataCount := some (← u32) }
  | _ => throw (.refused "unknown section")

def oneSection (o : Outline) : Scan Outline := do
  let id ← byte
  let size ← u32
  let start ← position
  let o ← contents o id size
  if (← position) ≠ start + size.toNat then throw (.sectionSize id)
  return o

/-- Reads sections until no byte is left. A section takes at least two bytes, so `fuel` as large as
the number of unread bytes is enough. -/
def sections : Nat → Outline → Scan Outline
  | 0, o => return o
  | fuel + 1, o => do
    if ← ended then return o
    sections fuel (← oneSection o)

end Scan

namespace Outline

def read (bytes : List UInt8) : Except Invalid Outline :=
  let c := (Cursor.ofBytes bytes).advance 8
  match Scan.sections c.rest.length {} c with
  | .ok o _ => .ok o
  | .error i _ => .error i

def importedGlobals (o : Outline) : List GlobalType :=
  o.imports.filterMap fun
    | .global g => some g
    | _ => none

def funcSpace (o : Outline) : List UInt32 :=
  let imported := o.imports.filterMap fun
    | .func t => some t
    | _ => none
  imported ++ o.funcs

def tableSpace (o : Outline) : List ValType :=
  let imported := o.imports.filterMap fun
    | .table t => some t
    | _ => none
  imported ++ o.tables

def globalSpace (o : Outline) : List GlobalType :=
  o.importedGlobals ++ o.globals.map (·.1)

def importsMemory (o : Outline) : Bool :=
  o.imports.contains .memory

def hasMemory (o : Outline) : Bool :=
  o.importsMemory || o.memory

/-- Functions that exports, globals and element segments name. References may be taken of these. -/
def declared (o : Outline) : List UInt32 :=
  let exported := o.exports.filterMap fun e => if e.kind = 0 then some e.index else none
  let held := o.globals.filterMap fun
    | (_, .func f) => some f
    | _ => none
  exported ++ held ++ o.elems.flatMap fun s => s.items.filterMap ElemItem.declares

end Outline
end Validation
end Sidetable
