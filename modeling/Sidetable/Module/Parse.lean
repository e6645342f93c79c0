import Sidetable.Cursor
import Sidetable.Instr.Decode
import Sidetable.Module

/-!
# Reading a module

A binary is a header and sections. Sections other than custom ones come in a fixed order, each at
most once. Bytes that a section holds beyond its contents are ignored.
-/
namespace Sidetable

namespace Read

open Fault (Place)

def entries {α : Type} (read : Read α) : Nat → Nat → Read (List α)
  | _, 0 => return []
  | i, n + 1 => do
    let a ← within (.entry i) read
    let rest ← entries read (i + 1) n
    return a :: rest

/-- Reads a count and as many items. An item takes at least one byte, so a count beyond the unread
bytes is refused before anything is read. -/
def vector {α : Type} (read : Read α) : Read (List α) := do
  let count ← u32
  if !(← get).has count.toNat then fail (.vectorLength count)
  entries read 0 count.toNat

def valType : Read ValType := do
  let t : ValType := ⟨← byte⟩
  if t.isSimple then return t
  else if t.isTypedRef then
    let _ ← s64
    return t
  else fail (.valueType t.code)

def funcType : Read FuncType := do
  let form ← byte
  if form ≠ 0x60 then fail (.gcType form)
  let params ← vector valType
  return { params, results := ← vector valType }

/-- Reads limits. Flag bits: 1 a maximum follows, 2 shared, 4 sixty-four bit memory. -/
def limits : Read Limits := do
  let flags ← byte
  let shared := flags &&& 2 ≠ 0
  let memory64 := flags &&& 4 ≠ 0
  let min ← u64
  if flags &&& 1 = 0 then return { min, shared, memory64 }
  let max ← u64
  if max < min then fail (.limits min max)
  return { min, max := some max, shared, memory64 }

def tableType : Read TableType := do
  let elem ← valType
  if !elem.isRef then fail (.tableElement elem)
  return { elem, limits := ← limits }

def globalType : Read GlobalType := do
  let type ← valType
  let flag ← byte
  if 1 < flag then fail (.mutability flag)
  return { type, mutable := flag = 1 }

def tagType : Read TagType := do
  let attr ← byte
  return { attr, typeIndex := ← u32 }

def importDesc (kind : UInt8) : Read ImportDesc :=
  match kind with
  | 0 => do return .func (← u32)
  | 1 => do return .table (some (← tableType))
  | 2 => do return .memory (some (← limits))
  | 3 => do return .global (some (← globalType))
  | 4 => do return .tag (some (← tagType))
  | kind => fail (.importKind kind)

def importItem : Read Import := do
  let moduleName ← name
  let item ← name
  let kind ← byte
  return { moduleName, name := item, desc := ← importDesc kind }

def exportItem : Read Export := do
  let item ← name
  let kind ← byte
  if 4 < kind then fail (.exportKind kind)
  return { name := item, kind, index := ← u32 }

/-- Bytes of a constant expression, its `end` included. Instructions in it are counted from its
start. -/
def initExpr : Read (List UInt8) := fun c =>
  let size := c.rest.length
  match Instr.skipExpr size (size + 1) (.ofBytes c.rest) with
  | .ok _ stop => .ok (c.rest.take stop.pos) (c.advance stop.pos)
  | .error f _ => .error (f.within (.initExpr c.pos)) c

def global : Read Global := do
  let type ← globalType
  return { type, init := ← initExpr }

def localRun : Read LocalRun := do
  let count ← u32
  return { count, type := ← valType }

def maxLocals : Nat := 50000

def localRuns : Read (List LocalRun) := do
  let runs ← within .locals (vector localRun)
  let total := LocalRun.total runs
  if maxLocals < total then fail (.tooManyLocals total)
  return runs

def funcBody : Read FuncBody := do
  let size ← u32
  let body ← bytes size.toNat
  let (locals, offset) ← onBytes body do
    let runs ← localRuns
    return (runs, ← position)
  return { locals, body := some body, code := body.drop offset, codeOffset := UInt32.ofNat offset }

end Read

inductive Section where
  | custom (c : Custom)
  | types (ts : List FuncType)
  | imports (is : List Import)
  | funcs (fs : List UInt32)
  | tables (ts : List TableType)
  | memories (ms : List Limits)
  | tags (ts : List TagType)
  | globals (gs : List Global)
  | exports (es : List Export)
  | start (f : UInt32)
  | elements (count : UInt32)
  | dataCount (count : UInt32)
  | code (bodies : List FuncBody)
  | data (count : UInt32)
  deriving DecidableEq, Repr

namespace Section

def nameOf : UInt8 → String
  | 0 => "custom"
  | 1 => "type"
  | 2 => "import"
  | 3 => "function"
  | 4 => "table"
  | 5 => "memory"
  | 6 => "global"
  | 7 => "export"
  | 8 => "start"
  | 9 => "element"
  | 10 => "code"
  | 11 => "data"
  | 12 => "data count"
  | 13 => "tag"
  | id => s!"unknown({id})"

/-- Rank of a section; a binary has its sections in increasing rank. Tags stand between memories and
globals, and the data count between elements and code. -/
def rank : UInt8 → Nat
  | 1 => 1
  | 2 => 2
  | 3 => 3
  | 4 => 4
  | 5 => 5
  | 13 => 6
  | 6 => 7
  | 7 => 8
  | 8 => 9
  | 9 => 10
  | 12 => 11
  | 10 => 12
  | 11 => 13
  | _ => 100

def read (id : UInt8) : Read Section :=
  match id with
  | 0 => do
    let name ← Read.name
    return .custom { name, data := ← Read.remaining }
  | 1 => do return .types (← Read.vector Read.funcType)
  | 2 => do return .imports (← Read.vector Read.importItem)
  | 3 => do return .funcs (← Read.vector Read.u32)
  | 4 => do return .tables (← Read.vector Read.tableType)
  | 5 => do return .memories (← Read.vector Read.limits)
  | 6 => do return .globals (← Read.vector Read.global)
  | 7 => do return .exports (← Read.vector Read.exportItem)
  | 8 => do return .start (← Read.u32)
  | 9 => do return .elements (← Read.u32)
  | 10 => do return .code (← Read.vector Read.funcBody)
  | 11 => do return .data (← Read.u32)
  | 12 => do return .dataCount (← Read.u32)
  | 13 => do return .tags (← Read.vector Read.tagType)
  | id => Read.fail (.unknownSection id)

def addTo (m : Module) : Section → Module
  | custom c => { m with customs := m.customs ++ [c] }
  | types ts => { m with types := ts }
  | imports is => { m with imports := is }
  | funcs fs => { m with funcs := fs }
  | tables ts => { m with tables := ts }
  | memories ms => { m with memories := ms }
  | tags ts => { m with tags := ts }
  | globals gs => { m with globals := gs }
  | exports es => { m with exports := es }
  | start f => { m with start := some f }
  | elements n => { m with elementSegments := n }
  | dataCount n => { m with dataCount := some n }
  | code bodies => { m with code := bodies }
  | data n => { m with dataSegments := n }

end Section

namespace Module

def magic : UInt32 := 0x6d736100

def version : UInt32 := 1

def readHeader : Read Unit := do
  if (← Read.inPart "header" Read.u32le) ≠ magic then Read.fail .invalidMagic
  if (← Read.inPart "header" Read.u32le) ≠ version then Read.fail .invalidVersion

/-- Reads the number of a section. A section that is not a custom one has to rank above `last`; the
rank of the last such section comes back. -/
def readRank (last : Nat) : Read (UInt8 × Nat) := do
  let id ← Read.inPart "section header" Read.byte
  if id = 0 then return (id, last)
  let rank := Section.rank id
  if rank ≤ last then Read.fail (.sectionOrder id)
  return (id, rank)

def readSection (last : Nat) : Read (Section × Nat) := do
  let (id, rank) ← readRank last
  let size ← Read.inPart "section size" Read.u32
  let payload ← Read.inPart "section data" (Read.bytes size.toNat)
  let contents ←
    Read.within (.sectionNamed (Section.nameOf id)) (Read.onBytes payload (Section.read id))
  return (contents, rank)

/-- Reads sections until no byte is left. A section takes at least one byte, so `fuel` as large as
the number of unread bytes is enough. -/
def readSections : Nat → Nat → Module → Read Module
  | 0, _, m => return m
  | fuel + 1, last, m => do
    if (← Read.remaining).isEmpty then return m
    let (contents, last) ← readSection last
    readSections fuel last (contents.addTo m)

def read : Read Module := do
  readHeader
  let m ← readSections (← Read.remaining).length 0 {}
  if m.code.length ≠ m.funcs.length then Read.fail (.bodyCount m.funcs.length m.code.length)
  return m

def parse (bytes : List UInt8) : Except Fault Module :=
  match read (.ofBytes bytes) with
  | .ok m _ => .ok m
  | .error f _ => .error f

end Module
end Sidetable
