import Sidetable.Opcode
import Sidetable.ValType

/-!
# Faults of a binary

Why a module or an instruction cannot be read: one cause, and the places that led to it, outermost
first. The text of a fault is the text of its places followed by the text of its cause.
-/
namespace Sidetable

namespace Fault

inductive Cause where
  /-- no byte is left where one may start -/
  | endOfInput
  /-- the bytes run out inside an item -/
  | unexpectedEnd
  /-- a variable-length number has too many groups or bits -/
  | overflow
  | invalidName
  | invalidMagic
  | invalidVersion
  | gcType (form : UInt8)
  | unsupportedOpcode (opcode : UInt8) (sub : UInt32) (offset : Nat)
  | sectionOrder (id : UInt8)
  | unknownSection (id : UInt8)
  | vectorLength (count : UInt32)
  | importKind (kind : UInt8)
  | exportKind (kind : UInt8)
  | valueType (code : UInt8)
  | tableElement (type : ValType)
  | limits (min max : UInt64)
  | mutability (flag : UInt8)
  | tooManyLocals (total : Nat)
  | labelCount (count : UInt32)
  | selectCount (count : UInt32)
  | bodyCount (funcs bodies : Nat)
  deriving DecidableEq, Repr

inductive Place where
  | offset (pos : Nat)
  | part (name : String) (pos : Nat)
  | instruction (opcode : UInt8) (pos : Nat)
  | entry (index : Nat)
  | locals
  | sectionNamed (name : String)
  | initExpr (pos : Nat)
  deriving DecidableEq, Repr

def Cause.message : Cause → String
  | endOfInput => "EOF"
  | unexpectedEnd => "unexpected EOF"
  | overflow => "leb128: overflow"
  | invalidName => "invalid UTF-8 in name"
  | invalidMagic => "invalid wasm magic number"
  | invalidVersion => "invalid wasm version"
  | gcType form => "GC type definitions are not supported: form 0x" ++ Hex.padded 2 form.toNat
  | unsupportedOpcode op sub offset =>
    let second := if Opcode.isPrefixed op then " 0x" ++ Hex.padded 2 sub.toNat else ""
    "unsupported opcode 0x" ++ Hex.padded 2 op.toNat ++ second ++ s!" at offset {offset}"
  | sectionOrder id => s!"section {id} appears out of order"
  | unknownSection id => "unknown section ID: 0x" ++ Hex.padded 2 id.toNat
  | vectorLength count => s!"vector length {count} exceeds section size"
  | importKind kind => s!"unknown import kind: {kind}"
  | exportKind kind => "invalid export kind: 0x" ++ Hex.padded 2 kind.toNat
  | valueType code => "invalid value type: 0x" ++ Hex.padded 2 code.toNat
  | tableElement type => "invalid table element type: " ++ type.name
  | limits min max => s!"limits min ({min}) exceeds max ({max})"
  | mutability flag => s!"invalid global mutability: {flag}"
  | tooManyLocals total => s!"too many locals: {total}"
  | labelCount count => s!"br_table count {count} exceeds body size"
  | selectCount count => s!"select type count {count} exceeds body size"
  | bodyCount funcs bodies => s!"function and code section sizes differ: {funcs} != {bodies}"

def Place.message : Place → String
  | offset pos => s!"offset {pos}: "
  | part name pos =>
    if name = "" then s!"wasm: offset {pos}: " else s!"wasm: {name}: offset {pos}: "
  | instruction op pos => "opcode 0x" ++ Hex.padded 2 op.toNat ++ s!" at offset {pos}: "
  | entry index => s!"entry {index}: "
  | locals => "locals: "
  | sectionNamed name => s!"{name} section: "
  | initExpr pos => s!"init expression at {pos}: "

end Fault

structure Fault where
  places : List Fault.Place := []
  cause : Fault.Cause
  deriving DecidableEq, Repr

namespace Fault

def message (f : Fault) : String :=
  String.join (f.places.map Place.message) ++ f.cause.message

def within (f : Fault) (place : Place) : Fault :=
  { f with places := place :: f.places }

end Fault
end Sidetable
