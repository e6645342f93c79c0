import Sidetable.Opcode

/-!
# Operand counts of plain instructions

Calls, branches and block instructions depend on signatures and have no entry here.
-/
namespace Sidetable

structure Effect where
  pops : Nat
  pushes : Nat
  deriving DecidableEq, Repr

namespace Effect

/-- Instructions that follow the byte `0xfc`: the saturating conversions, then memory and table
instructions. -/
def misc : UInt32 → Option Effect
  | 8 | 10 | 11 | 12 | 14 | 17 => some ⟨3, 0⟩
  | 9 | 13 => some ⟨0, 0⟩
  | 15 => some ⟨2, 1⟩
  | 16 => some ⟨0, 1⟩
  | sub => if sub ≤ 7 then some ⟨1, 1⟩ else none

def ofOpcode (op : UInt8) (sub : UInt32) : Option Effect :=
  if Opcode.isNumeric op then (Opcode.numericOperands op).map (⟨·, 1⟩)
  else if Opcode.isLoad op then some ⟨1, 1⟩
  else if Opcode.isStore op then some ⟨2, 0⟩
  else
    match op with
    | 0x01 => some ⟨0, 0⟩                                  -- nop
    | 0x1a => some ⟨1, 0⟩                                  -- drop
    | 0x1b | 0x1c => some ⟨3, 1⟩                           -- select
    | 0x20 | 0x23 => some ⟨0, 1⟩                           -- local.get, global.get
    | 0x21 | 0x24 => some ⟨1, 0⟩                           -- local.set, global.set
    | 0x22 => some ⟨1, 1⟩                                  -- local.tee
    | 0x25 => some ⟨1, 1⟩                                  -- table.get
    | 0x26 => some ⟨2, 0⟩                                  -- table.set
    | 0x3f => some ⟨0, 1⟩                                  -- memory.size
    | 0x40 => some ⟨1, 1⟩                                  -- memory.grow
    | 0x41 | 0x42 | 0x43 | 0x44 => some ⟨0, 1⟩             -- constants
    | 0xd0 | 0xd2 => some ⟨0, 1⟩                           -- ref.null, ref.func
    | 0xd1 | 0xd4 => some ⟨1, 1⟩                           -- ref.is_null, ref.as_non_null
    | 0xfc => misc sub
    | _ => none

end Effect
end Sidetable
