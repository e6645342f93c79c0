import Sidetable.Validation.Body

/-!
# Validating modules

A module is valid if its outline can be read and its parts fit together. The engine that is to run
it finds an instruction after `0xfc` by one byte, so a live one with a padded number is refused in
the end.
-/
namespace Sidetable
namespace Validation

def require (cond : Bool) (why : Invalid) : Except Invalid Unit :=
  if cond then .ok () else .error why

namespace Outline

def context (o : Outline) : Context where
  types := o.types
  funcs := o.funcSpace
  tables := o.tableSpace
  globals := o.globalSpace
  hasMemory := o.hasMemory
  elems := o.elems.map (·.type)
  datas := o.dataCount.map fun _ => o.datas.length
  declared := o.declared

def checkConstant (o : Outline) (type : ValType) (e : ConstExpr) : Except Invalid Unit := do
  let found ← match e with
    | .value t => pure t
    | .null t => pure t
    | .global index =>
      match o.importedGlobals[Leb128.unsigned index]? with
      | some g => pure g.type
      | none => throw (.missing "global" (UInt32.ofNat (Leb128.unsigned index)))
    | .func f =>
      if f.toNat < o.funcSpace.length then pure .funcref else throw (.missing "function" f)
  require (found = type) (.operandType type found)

def checkImports (o : Outline) : Except Invalid Unit := do
  require (!(o.importsMemory && o.memory)) (.refused "more than one memory")
  o.imports.forM fun
    | .func t => require (t.toNat < o.types.length) (.missing "type" t)
    | _ => .ok ()

def checkStart (o : Outline) : Except Invalid Unit :=
  match o.start with
  | none => .ok ()
  | some f =>
    match o.funcSpace[f.toNat]?.bind fun t => o.types[t.toNat]? with
    | some t => require (t = {}) (.refused "the start function has operands")
    | none => .error (.missing "function" f)

def checkGlobals (o : Outline) : Except Invalid Unit :=
  o.globals.forM fun (g, e) => o.checkConstant g.type e

def checkExports (o : Outline) : Except Invalid Unit :=
  o.exports.forM fun e =>
    match e.kind with
    | 0 => require (e.index.toNat < o.funcSpace.length) (.missing "function" e.index)
    | 1 => require (e.index.toNat < o.tableSpace.length) (.missing "table" e.index)
    | 2 => require (o.hasMemory && e.index = 0) (.missing "memory" e.index)
    | _ => require (e.index.toNat < o.globalSpace.length) (.missing "global" e.index)

def checkDatas (o : Outline) : Except Invalid Unit :=
  o.datas.forM fun s =>
    match s.placement with
    | .passive => .ok ()
    | .active memory offset => do
      require o.hasMemory (.missing "memory" memory)
      o.checkConstant .i32 offset

def checkItem (o : Outline) (type : ValType) : ElemItem → Except Invalid Unit
  | .null => .ok ()
  | .func f =>
    require (type ≠ .externref && f.toNat < o.funcSpace.length) (.missing "function" f)
  | .global i => require (i.toNat < o.globalSpace.length) (.missing "global" i)

def checkElems (o : Outline) : Except Invalid Unit :=
  o.elems.forM fun s => do
    s.items.forM (o.checkItem s.type)
    match s.placement with
    | .passive => return ()
    | .active table offset =>
      match o.tableSpace[table.toNat]? with
      | some t =>
        require (t = s.type) (.operandType t s.type)
        o.checkConstant .i32 offset
      | none => throw (.missing "table" table)

def checkDataCount (o : Outline) : Except Invalid Unit :=
  require (o.dataCount.all (·.toNat = o.datas.length)) (.refused "the data count is wrong")

/-- Checks the bodies one after the other; the answer is whether a live instruction has a padded
number. -/
def checkBodies (o : Outline) : Except Invalid Bool := do
  let ctx := o.context
  let padded ← (o.funcs.zip o.code).mapM fun (index, code) =>
    match o.types[index.toNat]? with
    | some type => checkBody ctx type code
    | none => .error (.missing "type" index)
  return padded.any id

end Outline
end Validation

def Module.validate (bytes : List UInt8) : Except Invalid Unit := do
  let o ← Validation.Outline.read bytes
  o.checkStart
  o.checkImports
  o.checkGlobals
  o.checkDatas
  o.checkExports
  let padded ← o.checkBodies
  o.checkElems
  o.checkDataCount
  Validation.require (!padded) (.refused "the number of an instruction is too long")

end Sidetable
