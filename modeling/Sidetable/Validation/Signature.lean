import Sidetable.Module

/-!
# Signatures of plain instructions
-/
namespace Sidetable
namespace Validation

structure Access where
  width : Nat
  /-- exponents of alignments from here on mean no alignment -/
  free : Nat := 63
  deriving DecidableEq, Repr

def Access.allows (a : Access) (align : UInt32) : Bool :=
  a.free ≤ align.toNat || 1 <<< align.toNat ≤ a.width

namespace Signature

open ValType

def numericRuns : List (UInt8 × UInt8 × FuncType) := [
  (0x45, 0x45, ⟨[i32], [i32]⟩), (0x46, 0x4f, ⟨[i32, i32], [i32]⟩),
  (0x50, 0x50, ⟨[i64], [i32]⟩), (0x51, 0x5a, ⟨[i64, i64], [i32]⟩),
  (0x5b, 0x60, ⟨[f32, f32], [i32]⟩), (0x61, 0x66, ⟨[f64, f64], [i32]⟩),
  (0x67, 0x69, ⟨[i32], [i32]⟩), (0x6a, 0x78, ⟨[i32, i32], [i32]⟩),
  (0x79, 0x7b, ⟨[i64], [i64]⟩), (0x7c, 0x8a, ⟨[i64, i64], [i64]⟩),
  (0x8b, 0x91, ⟨[f32], [f32]⟩), (0x92, 0x98, ⟨[f32, f32], [f32]⟩),
  (0x99, 0x9f, ⟨[f64], [f64]⟩), (0xa0, 0xa6, ⟨[f64, f64], [f64]⟩),
  (0xa7, 0xa7, ⟨[i64], [i32]⟩), (0xa8, 0xa9, ⟨[f32], [i32]⟩), (0xaa, 0xab, ⟨[f64], [i32]⟩),
  (0xac, 0xad, ⟨[i32], [i64]⟩), (0xae, 0xaf, ⟨[f32], [i64]⟩), (0xb0, 0xb1, ⟨[f64], [i64]⟩),
  (0xb2, 0xb3, ⟨[i32], [f32]⟩), (0xb4, 0xb5, ⟨[i64], [f32]⟩), (0xb6, 0xb6, ⟨[f64], [f32]⟩),
  (0xb7, 0xb8, ⟨[i32], [f64]⟩), (0xb9, 0xba, ⟨[i64], [f64]⟩), (0xbb, 0xbb, ⟨[f32], [f64]⟩),
  (0xbc, 0xbc, ⟨[f32], [i32]⟩), (0xbd, 0xbd, ⟨[f64], [i64]⟩), (0xbe, 0xbe, ⟨[i32], [f32]⟩),
  (0xbf, 0xbf, ⟨[i64], [f64]⟩), (0xc0, 0xc1, ⟨[i32], [i32]⟩), (0xc2, 0xc4, ⟨[i64], [i64]⟩)]

def numeric? (op : UInt8) : Option FuncType :=
  (numericRuns.find? fun (lo, hi, _) => lo ≤ op && op ≤ hi).map (·.2.2)

def saturating? (sub : UInt32) : Option FuncType :=
  [⟨[f32], [i32]⟩, ⟨[f32], [i32]⟩, ⟨[f64], [i32]⟩, ⟨[f64], [i32]⟩,
    ⟨[f32], [i64]⟩, ⟨[f32], [i64]⟩, ⟨[f64], [i64]⟩, ⟨[f64], [i64]⟩][sub.toNat]?

/-- Type and width in bytes of what loads move, from opcode `0x28` on. -/
def loads : List (ValType × Nat) :=
  [(i32, 4), (i64, 8), (f32, 4), (f64, 8), (i32, 1), (i32, 1), (i32, 2), (i32, 2), (i64, 1),
    (i64, 1), (i64, 2), (i64, 2), (i64, 4), (i64, 4)]

/-- Type and width in bytes of what stores move, from opcode `0x36` on. -/
def stores : List (ValType × Nat) :=
  [(i32, 4), (i64, 8), (f32, 4), (f64, 8), (i32, 1), (i32, 2), (i64, 1), (i64, 2), (i64, 4)]

def access? (op : UInt8) : Option (FuncType × Access) :=
  if op < 0x28 then none
  else if op < 0x36 then loads[op.toNat - 0x28]?.map fun (t, width) => (⟨[i32], [t]⟩, { width })
  else stores[op.toNat - 0x36]?.map fun (t, width) => (⟨[i32, t], []⟩, { width })

end Signature
end Validation
end Sidetable
