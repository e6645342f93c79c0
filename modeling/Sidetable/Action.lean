import Sidetable.Instr

/-!
# What an instruction does to control

Sorts instructions by how a walk over a body treats them.
-/
namespace Sidetable

inductive Opener where
  | block
  | loop
  | cond
  | attempt
  deriving DecidableEq, Repr

inductive Action where
  /-- the code after it is not reached -/
  | leave
  | enter (opener : Opener) (type : Int32)
  | otherwise
  | close
  | branch (depth : UInt32)
  | branchIf (depth : UInt32)
  | branchTable (depths : List UInt32) (default : UInt32)
  | call (tail : Bool) (func : UInt32)
  | callIndirect (tail : Bool) (type table : UInt32)
  | throwTag (tag : UInt32)
  | rethrow (depth : UInt32)
  | catchTag (tag : UInt32)
  | catchAll
  | delegate (depth : UInt32)
  /-- takes and leaves operands, and goes on -/
  | plain
  | unsupported
  /-- the immediate does not suit the opcode -/
  | malformed
  deriving DecidableEq, Repr

namespace Immediate

def onBlock (imm : Immediate) (act : Int32 → Action) : Action :=
  match imm with
  | .block t => act t
  | _ => .malformed

def onLabel (imm : Immediate) (act : UInt32 → Action) : Action :=
  match imm with
  | .label d => act d
  | _ => .malformed

def onTag (imm : Immediate) (act : UInt32 → Action) : Action :=
  match imm with
  | .tag t => act t
  | _ => .malformed

def onLabels (imm : Immediate) (act : List UInt32 → UInt32 → Action) : Action :=
  match imm with
  | .labels ds d => act ds d
  | _ => .malformed

def onFunc (imm : Immediate) (act : UInt32 → Action) : Action :=
  match imm with
  | .func f => act f
  | _ => .malformed

def onIndirect (imm : Immediate) (act : UInt32 → UInt32 → Action) : Action :=
  match imm with
  | .indirect type table => act type table
  | _ => .malformed

end Immediate

def Instr.action (i : Instr) : Action :=
  match i.opcode with
  | 0x00 | 0x0f => .leave                                  -- unreachable, return
  | 0x02 => i.imm.onBlock (.enter .block)
  | 0x03 => i.imm.onBlock (.enter .loop)
  | 0x04 => i.imm.onBlock (.enter .cond)
  | 0x06 => i.imm.onBlock (.enter .attempt)
  | 0x05 => .otherwise
  | 0x0b => .close
  | 0x0c => i.imm.onLabel .branch
  | 0x0d => i.imm.onLabel .branchIf
  | 0x0e => i.imm.onLabels .branchTable
  | 0x10 => i.imm.onFunc (.call false)
  | 0x12 => i.imm.onFunc (.call true)
  | 0x11 => i.imm.onIndirect (.callIndirect false)
  | 0x13 => i.imm.onIndirect (.callIndirect true)
  | 0x08 => i.imm.onTag .throwTag
  | 0x09 => i.imm.onLabel .rethrow
  | 0x07 => i.imm.onTag .catchTag
  | 0x19 => .catchAll
  | 0x18 => i.imm.onLabel .delegate
  | 0x14 | 0x15 | 0xd5 | 0xd6 => .unsupported              -- calls and branches on typed references
  | _ => .plain

end Sidetable
