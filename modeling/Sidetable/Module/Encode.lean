import Sidetable.Field
import Sidetable.Leb128
import Sidetable.Module
import Sidetable.Module.Parse

/-!
# Writing a module

Sections with nothing in them are left out. Element and data segments are not kept by a module and
are not written. An import that lacks its description cannot be written.
-/
namespace Sidetable

def Field.vector {α : Type} (fields : α → List Field) (items : List α) : List Field :=
  Field.count items.length :: items.flatMap fields

def ValType.fields (t : ValType) : List Field :=
  [.byte t.code]

def FuncType.fields (t : FuncType) : List Field :=
  .byte 0x60 :: Field.vector ValType.fields t.params ++ Field.vector ValType.fields t.results

/-- Flag bits: 1 a maximum follows, 2 shared, 4 sixty-four bit memory. -/
def Limits.flags (l : Limits) : UInt8 :=
  (if l.max.isSome then 1 else 0) ||| (if l.shared then 2 else 0) ||| (if l.memory64 then 4 else 0)

def Limits.fields (l : Limits) : List Field :=
  [.byte l.flags, .u64 l.min] ++ l.max.toList.map .u64

def TableType.fields (t : TableType) : List Field :=
  .byte t.elem.code :: t.limits.fields

def GlobalType.fields (g : GlobalType) : List Field :=
  [.byte g.type.code, .byte (if g.mutable then 1 else 0)]

def TagType.fields (t : TagType) : List Field :=
  [.byte t.attr, .u32 t.typeIndex]

def ImportDesc.fields : ImportDesc → Option (List Field)
  | .func t => some [.byte 0, .u32 t]
  | .table t => t.map fun t => .byte 1 :: t.fields
  | .memory l => l.map fun l => .byte 2 :: l.fields
  | .global g => g.map fun g => .byte 3 :: g.fields
  | .tag t => t.map fun t => .byte 4 :: t.fields
  | .other kind => some [.byte kind]

def Import.fields (i : Import) : Option (List Field) :=
  i.desc.fields.map fun desc => [.name i.moduleName, .name i.name] ++ desc

def Global.fields (g : Global) : List Field :=
  g.type.fields ++ [.bytes g.init]

def Export.fields (e : Export) : List Field :=
  [.name e.name, .byte e.kind, .u32 e.index]

def FuncBody.assemble (locals : List LocalRun) (code : List UInt8) : List UInt8 :=
  Leb128.encodeU32 (UInt32.ofNat locals.length) ++
    locals.flatMap (fun r => Leb128.encodeU32 r.count ++ [r.type.code]) ++ code

/-- The bytes of a body; one that has none of its own is put together from its parts. -/
def FuncBody.raw (b : FuncBody) : List UInt8 :=
  b.body.getD (assemble b.locals b.code)

def FuncBody.fields (b : FuncBody) : List Field :=
  [.count b.raw.length, .bytes b.raw]

namespace Module

def vectorSection {α : Type} (id : UInt8) (fields : α → List Field) (items : List α) : List Field :=
  if items.isEmpty then [] else [.sectionOf id (Field.encodeAll (Field.vector fields items))]

def numberSection (id : UInt8) (v : Option UInt32) : List Field :=
  v.toList.map fun v => .sectionOf id (Field.encodeAll [.u32 v])

def customSection (c : Custom) : Field :=
  .sectionOf 0 (Field.encodeAll [.name c.name, .bytes c.data])

/-- The fields of the binary, or `none` when an import lacks its description. -/
def fields? (m : Module) : Option (List Field) := do
  let imports ← m.imports.mapM Import.fields
  return [.u32le magic, .u32le version] ++
    vectorSection 1 FuncType.fields m.types ++
    vectorSection 2 id imports ++
    vectorSection 3 (fun f => [.u32 f]) m.funcs ++
    vectorSection 4 TableType.fields m.tables ++
    vectorSection 5 Limits.fields m.memories ++
    vectorSection 13 TagType.fields m.tags ++
    vectorSection 6 Global.fields m.globals ++
    vectorSection 7 Export.fields m.exports ++
    numberSection 8 m.start ++
    numberSection 12 m.dataCount ++
    vectorSection 10 FuncBody.fields m.code ++
    m.customs.map customSection

/-- The binary of a module, or `none` when an import lacks its description. -/
def encode? (m : Module) : Option (List UInt8) :=
  m.fields?.map Field.encodeAll

end Module
end Sidetable
