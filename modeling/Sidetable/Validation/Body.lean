import Sidetable.Validation.Operands
import Sidetable.Validation.Operation
import Sidetable.Validation.Outline

/-!
# Validating function bodies
-/
namespace Sidetable
namespace Validation

structure Context where
  types : List FuncType
  funcs : List UInt32
  tables : List ValType
  globals : List GlobalType
  hasMemory : Bool
  elems : List ValType
  /-- number of data segments, if it was announced -/
  datas : Option Nat
  /-- functions that references may be taken of -/
  declared : List UInt32
  locals : List ValType := []
  deriving DecidableEq, Repr

namespace Context

def get {α : Type} (what : String) (items : List α) (index : UInt32) : Check α :=
  match items[index.toNat]? with
  | some a => return a
  | none => throw (.missing what index)

def needMemory (ctx : Context) : Check Unit :=
  if ctx.hasMemory then return () else throw (.missing "memory" 0)

/-- Data segments can be named only if the module counts them up front. -/
def needData (ctx : Context) (index : UInt32) : Check Unit :=
  match ctx.datas with
  | some n => if index.toNat < n then return () else throw (.missing "data segment" index)
  | none => throw (.refused "a data count is needed")

def blockType (ctx : Context) (type : Int) : Check FuncType :=
  if type = -64 then return {}
  else if type < 0 then
    let result : ValType := ⟨UInt8.ofInt (type + 128)⟩
    if -64 < type && result.isSimple then return { results := [result] }
    else throw (.refused "unknown block type")
  else
    match ctx.types[type.toNat]? with
    | some t => return t
    | none => throw (.refused "unknown block type")

def callee (ctx : Context) (func : UInt32) : Check FuncType := do
  let index ← get "function" ctx.funcs func
  match ctx.types[index.toNat]? with
  | some t => return t
  | none => throw (.untypedCallee func)

end Context

open ValType

def selectOperand : Check (Option ValType) := do
  Check.popType i32
  let a ← Check.pop
  let b ← Check.pop
  match a, b with
  | some a, some b => if a ≠ b then throw (.operandType a b)
  | _, _ => pure ()
  return a.or b

def checkBare (op : UInt8) : Check Unit :=
  match Signature.numeric? op with
  | some t => Check.apply t
  | none =>
    match op with
    | 0x00 => Check.die
    | 0x01 => return ()
    | 0x05 => do
      let b ← Check.closeBlock
      if b.opcode ≠ 0x04 then throw (.refused "else without if")
      Check.openBlock { opcode := op, type := b.type }
    | 0x0b => do
      let b ← Check.closeBlock
      if b.opcode = 0x04 && b.type.params ≠ b.type.results then throw (.refused "if without else")
      if !(← get).blocks.isEmpty then Check.pushTypes b.type.results
    | 0x0f => do
      match (← get).blocks.getLast? with
      | some b => Check.popTypes b.type.results
      | none => throw .operandMissing
      Check.die
    | 0x1a => do let _ ← Check.pop
    | 0x1b => do
      let t ← selectOperand
      if t = some funcref || t = some externref then
        throw (.refused "references are selected by type")
      Check.push t
    | 0xd1 => do
      match ← Check.pop with
      | some t => if t ≠ funcref && t ≠ externref then throw (.operandType funcref t)
      | none => pure ()
      Check.push (some i32)
    | _ => throw (.refused "unknown instruction")

def checkBulk (ctx : Context) (sub : UInt32) (operands : List UInt32) : Check Unit :=
  match Signature.saturating? sub with
  | some t => Check.apply t
  | none =>
    match sub.toNat, operands with
    | 8, [segment] => do
      ctx.needMemory
      ctx.needData segment
      Check.apply ⟨[i32, i32, i32], []⟩
    | 9, [segment] => ctx.needData segment
    | 10, _ | 11, _ => do
      ctx.needMemory
      Check.apply ⟨[i32, i32, i32], []⟩
    | 12, [segment, table] => do
      let elem ← Context.get "element segment" ctx.elems segment
      let t ← Context.get "table" ctx.tables table
      if elem ≠ t then throw (.operandType t elem)
      Check.apply ⟨[i32, i32, i32], []⟩
    | 13, [segment] => do let _ ← Context.get "element segment" ctx.elems segment
    | 14, [target, source] => do
      let t ← Context.get "table" ctx.tables target
      let s ← Context.get "table" ctx.tables source
      if t ≠ s then throw (.operandType t s)
      Check.apply ⟨[i32, i32, i32], []⟩
    | 15, [table] => do
      let t ← Context.get "table" ctx.tables table
      Check.apply ⟨[t, i32], [i32]⟩
    | 16, [table] => do
      let _ ← Context.get "table" ctx.tables table
      Check.apply ⟨[], [i32]⟩
    | 17, [table] => do
      let t ← Context.get "table" ctx.tables table
      Check.apply ⟨[i32, t, i32], []⟩
    | _, _ => throw (.refused "unknown instruction")

/-- Every label of a table takes operands along that are on the stack, the same number of them. -/
def checkTable (depths : List UInt32) (default : UInt32) : Check Unit := do
  Check.popType i32
  let ts ← Check.label default
  let taken ← ts.reverse.mapM fun t => do
    let o ← Check.pop
    if o.any (· ≠ t) then throw (.operandType t (o.getD t))
    return o
  depths.forM fun depth => do
    let us ← Check.label depth
    if us.length ≠ ts.length then throw (.refused "labels of one table differ")
    if (taken.zip us.reverse).any fun (o, u) => o.any (· ≠ u) then
      throw (.refused "labels of one table differ")
  Check.die

def checkAccess (ctx : Context) (access : Access) (align : UInt32) : Check Unit := do
  ctx.needMemory
  if !access.allows align then throw (.refused "alignment is larger than the access")

def checkVector (ctx : Context) (shape : VectorShape) (align : UInt32) (lanes : List UInt8) :
    Check Unit := do
  match shape.access with
  | some access => checkAccess ctx access align
  | none => pure ()
  if lanes.any fun l => shape.bound ≤ l.toNat then throw (.refused "there is no such lane")
  Check.apply shape.type

def checkOperation (ctx : Context) : Operation → Check Unit
  | .bare op => checkBare op
  | .block op type => do
    let t ← ctx.blockType type
    if op = 0x04 then Check.popType i32
    Check.popTypes t.params
    Check.openBlock { opcode := op, type := t }
  | .branch op depth => do
    if op = 0x0d then Check.popType i32
    let ts ← Check.label depth
    Check.popTypes ts
    if op = 0x0d then Check.pushTypes ts else Check.die
  | .branchTable depths default => checkTable depths default
  | .call func => do Check.apply (← ctx.callee func)
  | .tailCall func => do
    let _ ← ctx.callee func
    throw (.refused "tail calls are not enabled")
  | .callIndirect type table => do
    let t ← Context.get "type" ctx.types type
    let elem ← Context.get "table" ctx.tables table
    if elem ≠ funcref then throw (.operandType funcref elem)
    Check.apply ⟨t.params ++ [i32], t.results⟩
  -- the type that is asked for is not compared with the operands
  | .select _ => do Check.push (← selectOperand)
  | .onLocal op index => do
    let t ← Context.get "local" ctx.locals index
    if op ≠ 0x20 then Check.popType t
    if op ≠ 0x21 then Check.push (some t)
  | .onGlobal op index => do
    let g ← Context.get "global" ctx.globals index
    if op = 0x23 then Check.push (some g.type)
    else
      if !g.mutable then throw (.refused "the global is immutable")
      Check.popType g.type
  | .onTable op index => do
    let t ← Context.get "table" ctx.tables index
    Check.apply (if op = 0x25 then ⟨[i32], [t]⟩ else ⟨[i32, t], []⟩)
  | .access op align =>
    match Signature.access? op with
    | some (t, access) => do
      checkAccess ctx access align
      Check.apply t
    | none => throw (.refused "unknown instruction")
  | .memory op => do
    ctx.needMemory
    Check.apply (if op = 0x3f then ⟨[], [i32]⟩ else ⟨[i32], [i32]⟩)
  | .const type => Check.push (some type)
  | .funcRef index =>
    if index ∈ ctx.declared then Check.push (some funcref)
    else throw (.refused "reference to an undeclared function")
  | .bulk sub padded operands => do
    modify fun s => { s with padded := s.padded || (padded && s.live) }
    checkBulk ctx sub operands
  | .vector shape align lanes => checkVector ctx shape align lanes

/-- Checks instructions until none is left. An instruction takes at least one byte, so `fuel` as
large as the number of unread bytes is enough. -/
def checkCode (ctx : Context) : Nat → Cursor → Checker → Except Invalid Checker
  | 0, _, s => .ok s
  | fuel + 1, c, s =>
    if c.rest.isEmpty then .ok s
    else if s.blocks.isEmpty then .error (.refused "code after the end of the function")
    else
      match Scan.operation c with
      | .error i _ => .error i
      | .ok op c =>
        match (checkOperation ctx op).run s with
        | .error i => .error i
        | .ok (_, s) => checkCode ctx fuel c s

/-- Checks the body of a function of type `type`; the answer is whether a live instruction has a
padded number. -/
def checkBody (ctx : Context) (type : FuncType) (code : Code) : Except Invalid Bool := do
  let ctx := { ctx with locals := type.params ++ code.locals }
  let start : Checker := { blocks := [{ opcode := 0, type }] }
  let s ← checkCode ctx code.bytes.length (.ofBytes code.bytes) start
  if !s.blocks.isEmpty then throw (.refused "the function does not end")
  return s.padded

end Validation
end Sidetable
