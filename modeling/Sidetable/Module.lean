import Sidetable.ValType

/-!
# Modules

The parts of a module that side tables are made from, and the lookups by index: the imported items
of a kind come first and the defined ones follow. Payloads of element and data segments are not
kept.
-/
namespace Sidetable

structure FuncType where
  params : List ValType := []
  results : List ValType := []
  deriving DecidableEq, Repr, Inhabited

structure Limits where
  min : UInt64
  max : Option UInt64 := none
  shared : Bool := false
  memory64 : Bool := false
  deriving DecidableEq, Repr

structure TableType where
  elem : ValType
  limits : Limits
  deriving DecidableEq, Repr

structure GlobalType where
  type : ValType
  mutable : Bool
  deriving DecidableEq, Repr

structure TagType where
  attr : UInt8
  typeIndex : UInt32
  deriving DecidableEq, Repr

/-- What an import asks for. A description that was never filled in is `none`. -/
inductive ImportDesc where
  | func (typeIndex : UInt32)
  | table (type : Option TableType)
  | memory (limits : Option Limits)
  | global (type : Option GlobalType)
  | tag (type : Option TagType)
  | other (kind : UInt8)
  deriving DecidableEq, Repr

namespace ImportDesc

def funcKind : UInt8 := 0
def tableKind : UInt8 := 1
def memoryKind : UInt8 := 2
def globalKind : UInt8 := 3
def tagKind : UInt8 := 4

def kind : ImportDesc → UInt8
  | func _ => funcKind
  | table _ => tableKind
  | memory _ => memoryKind
  | global _ => globalKind
  | tag _ => tagKind
  | other kind => kind

def typeIndex : ImportDesc → UInt32
  | func t => t
  | _ => 0

def global? : ImportDesc → Option GlobalType
  | global g => g
  | _ => none

def tag? : ImportDesc → Option TagType
  | tag t => t
  | _ => none

end ImportDesc

structure Import where
  moduleName : String
  name : String
  desc : ImportDesc
  deriving DecidableEq, Repr

structure Global where
  type : GlobalType
  init : List UInt8
  deriving DecidableEq, Repr

structure Export where
  name : String
  kind : UInt8
  index : UInt32
  deriving DecidableEq, Repr

structure LocalRun where
  count : UInt32
  type : ValType
  deriving DecidableEq, Repr

/-- A function body. `body` is the declarations of locals followed by the instructions, which start
at `codeOffset`; `code` is the instructions alone. -/
structure FuncBody where
  locals : List LocalRun := []
  body : Option (List UInt8) := none
  code : List UInt8 := []
  codeOffset : UInt32 := 0
  deriving DecidableEq, Repr

structure Custom where
  name : String
  data : List UInt8
  deriving DecidableEq, Repr

structure Module where
  types : List FuncType := []
  imports : List Import := []
  /-- type indices of the defined functions -/
  funcs : List UInt32 := []
  tables : List TableType := []
  memories : List Limits := []
  globals : List Global := []
  exports : List Export := []
  start : Option UInt32 := none
  code : List FuncBody := []
  tags : List TagType := []
  dataCount : Option UInt32 := none
  elementSegments : UInt32 := 0
  dataSegments : UInt32 := 0
  customs : List Custom := []
  deriving DecidableEq, Repr

def Export.globalKind : UInt8 := 3

def LocalRun.total (runs : List LocalRun) : Nat :=
  runs.foldr (fun r n => r.count.toNat + n) 0

namespace FuncBody

def numLocals (b : FuncBody) : Nat :=
  LocalRun.total b.locals

def bytes (b : FuncBody) : List UInt8 :=
  b.body.getD []

end FuncBody

namespace Module

def numImported (m : Module) (kind : UInt8) : Nat :=
  m.imports.foldl (fun n p => if p.desc.kind = kind then n + 1 else n) 0

def numImportedFuncs (m : Module) : Nat :=
  m.numImported ImportDesc.funcKind

def numImportedGlobals (m : Module) : Nat :=
  m.numImported ImportDesc.globalKind

def numImportedTags (m : Module) : Nat :=
  m.numImported ImportDesc.tagKind

/-- How a scan of the imports ends: at the item it is for, or after it has counted `idx` of them. -/
inductive Search (α : Type) where
  | found (a : α)
  | ended (idx : Nat)
  deriving DecidableEq, Repr

def typeAt (m : Module) (i : UInt32) : Option FuncType :=
  m.types[i.toNat]?

def searchFunc (i : UInt32) (idx : Nat) : List Import → Search UInt32
  | [] => .ended idx
  | p :: rest =>
    if p.desc.kind ≠ ImportDesc.funcKind then searchFunc i idx rest
    else if idx = i.toNat then .found p.desc.typeIndex
    else searchFunc i (idx + 1) rest

def funcType (m : Module) (i : UInt32) : Option FuncType :=
  match searchFunc i 0 m.imports with
  | .found t => m.typeAt t
  | .ended idx =>
    let position : Int := i.toNat - idx
    if position < 0 || m.funcs.length ≤ position then none
    else m.funcs[position.toNat]?.bind m.typeAt

def searchGlobal (i : UInt32) (idx : Nat) : List Import → Search GlobalType
  | [] => .ended idx
  | p :: rest =>
    if p.desc.kind ≠ ImportDesc.globalKind then searchGlobal i idx rest
    else match p.desc.global? with
      | none => searchGlobal i idx rest
      | some g => if idx = i.toNat then .found g else searchGlobal i (idx + 1) rest

/-- The type of a global by its index; the flag says that it is imported. -/
def globalAt (m : Module) (i : UInt32) : Option (GlobalType × Bool) :=
  match searchGlobal i 0 m.imports with
  | .found g => some (g, true)
  | .ended idx =>
    let position : Int := i.toNat - idx
    if position < 0 || m.globals.length ≤ position then none
    else m.globals[position.toNat]?.map fun g => (g.type, false)

def searchTag (i : UInt32) (idx : Nat) : List Import → Search TagType
  | [] => .ended idx
  | p :: rest =>
    if p.desc.kind ≠ ImportDesc.tagKind then searchTag i idx rest
    else match p.desc.tag? with
      | none => searchTag i idx rest
      | some t => if idx = i.toNat then .found t else searchTag i (idx + 1) rest

def tagAt (m : Module) (i : UInt32) : Option TagType :=
  match searchTag i 0 m.imports with
  | .found t => some t
  | .ended idx =>
    let position : Int := i.toNat - idx
    if position < 0 || m.tags.length ≤ position then none else m.tags[position.toNat]?

def isExported (m : Module) (kind : UInt8) (i : UInt32) : Bool :=
  m.exports.any fun e => e.kind = kind && e.index = i

/-- Block types with one result; the low seven bits are the code of its type. -/
def singleResults : List Int32 := [-1, -2, -3, -4, -5, -16, -17]

def blockType (m : Module) (bt : Int32) : Option FuncType :=
  if bt = -64 then some {}
  else if singleResults.contains bt then some { results := [⟨UInt8.ofInt (bt.toInt % 128)⟩] }
  else if bt < 0 then none
  else m.typeAt bt.toUInt32

end Module

structure Binding where
  code : UInt8
  deriving DecidableEq, Repr

namespace Binding

def embedded : Binding := ⟨0⟩

def portable : Binding := ⟨1⟩

def name (b : Binding) : String :=
  if b = portable then "portable" else "embedded"

end Binding

structure GlobalInfo where
  type : ValType
  binding : Binding
  deriving DecidableEq, Repr

namespace Module

/-- A global is bound through a cell when it is mutable and imported or exported. -/
def globalInfo (m : Module) (idx : UInt32) (g : GlobalType) (imported : Bool) : GlobalInfo :=
  let shared := g.mutable && (imported || m.isExported Export.globalKind idx)
  { type := g.type, binding := if shared then .portable else .embedded }

def definedInfos (add : UInt32 → GlobalType → Bool → GlobalInfo) (idx : UInt32) :
    List Global → List GlobalInfo
  | [] => []
  | g :: rest => add idx g.type false :: definedInfos add (idx + 1) rest

/-- The imported globals take the first indices and leave the next one to those in `defined`. -/
def importedInfos (add : UInt32 → GlobalType → Bool → GlobalInfo) (defined : List Global)
    (idx : UInt32) : List Import → List GlobalInfo
  | [] => definedInfos add idx defined
  | p :: rest =>
    if p.desc.kind ≠ ImportDesc.globalKind then importedInfos add defined idx rest
    else match p.desc.global? with
      | none => importedInfos add defined idx rest
      | some g => add idx g true :: importedInfos add defined (idx + 1) rest

def globalInfos (m : Module) : List GlobalInfo :=
  importedInfos m.globalInfo m.globals 0 m.imports

end Module
end Sidetable
