import Sidetable.Module
import Sidetable.Validation.Invalid

/-!
# Typed operands

The checker keeps the blocks that are open, each with the types of its operands. Code after a jump
is dead: its block hands out operands of an open type, which fit every use.
-/
namespace Sidetable
namespace Validation

structure Block where
  /-- the instruction that opened it, or the `else` of an `if`; zero for the function itself -/
  opcode : UInt8
  type : FuncType
  /-- the last operand first; `none` is an open type -/
  operands : List (Option ValType) := []
  dead : Bool := false
  deriving DecidableEq, Repr

def Block.labelTypes (b : Block) : List ValType :=
  if b.opcode = 0x03 then b.type.params else b.type.results

structure Checker where
  blocks : List Block := []
  /-- a live instruction has a number that is longer than need be -/
  padded : Bool := false
  deriving DecidableEq, Repr

def Checker.live (s : Checker) : Bool :=
  !s.blocks.any (·.dead)

abbrev Check := StateT Checker (Except Invalid)

namespace Check

def unnest : Check (Block × List Block) := do
  match (← get).blocks with
  | b :: around => return (b, around)
  | [] => throw (.refused "code after the end of the function")

def setInnermost (b : Block) (around : List Block) : Check Unit :=
  modify fun s => { s with blocks := b :: around }

def pop : Check (Option ValType) := do
  let (b, around) ← unnest
  match b.operands with
  | o :: rest =>
    setInnermost { b with operands := rest } around
    return o
  | [] => if b.dead then return none else throw .operandMissing

def push (o : Option ValType) : Check Unit := do
  let (b, around) ← unnest
  setInnermost { b with operands := o :: b.operands } around

def popType (t : ValType) : Check Unit := do
  match ← pop with
  | none => return ()
  | some found => if found ≠ t then throw (.operandType t found)

def popTypes (ts : List ValType) : Check Unit :=
  ts.reverse.forM popType

def pushTypes (ts : List ValType) : Check Unit :=
  ts.forM fun t => push (some t)

def apply (t : FuncType) : Check Unit := do
  popTypes t.params
  pushTypes t.results

def openBlock (b : Block) : Check Unit := do
  modify fun s => { s with blocks := b :: s.blocks }
  pushTypes b.type.params

def closeBlock : Check Block := do
  let (b, _) ← unnest
  popTypes b.type.results
  let (b, around) ← unnest
  if !b.operands.isEmpty then throw .operandsLeft
  modify fun s => { s with blocks := around }
  return b

def die : Check Unit := do
  let (b, around) ← unnest
  setInnermost { b with operands := [], dead := true } around

def label (depth : UInt32) : Check (List ValType) := do
  match (← get).blocks[depth.toNat]? with
  | some b => return b.labelTypes
  | none => throw (.missing "label" depth)

end Check
end Validation
end Sidetable
