import Sidetable.Validation.Scan
import Sidetable.Validation.Signature

/-!
# Vector instructions

They are known by the one byte after `0xfd`. Besides a memory access, bytes may follow: the numbers
of lanes, or a constant.
-/
namespace Sidetable
namespace Validation

structure VectorShape where
  type : FuncType
  access : Option Access := none
  lanes : Nat := 0
  bound : Nat := 256
  deriving DecidableEq, Repr

namespace VectorShape

open ValType

def unary : VectorShape := { type := ⟨[v128], [v128]⟩ }
def binary : VectorShape := { type := ⟨[v128, v128], [v128]⟩ }
def ternary : VectorShape := { type := ⟨[v128, v128, v128], [v128]⟩ }
def shift : VectorShape := { type := ⟨[v128, i32], [v128]⟩ }
def test : VectorShape := { type := ⟨[v128], [i32]⟩ }
def splat (t : ValType) : VectorShape := { type := ⟨[t], [v128]⟩ }
def extract (t : ValType) (n : Nat) : VectorShape :=
  { type := ⟨[v128], [t]⟩, lanes := 1, bound := n }
def replace (t : ValType) (n : Nat) : VectorShape :=
  { type := ⟨[v128, t], [v128]⟩, lanes := 1, bound := n }
def load (width : Nat) : VectorShape :=
  { type := ⟨[i32], [v128]⟩, access := some { width, free := 32 } }
def store : VectorShape := { type := ⟨[i32, v128], []⟩, access := some { width := 16 } }

def loadLane (width : Nat) : VectorShape :=
  { load width with type := ⟨[i32, v128], [v128]⟩, lanes := 1, bound := 16 / width }

def storeLane (width : Nat) : VectorShape :=
  { load width with type := ⟨[i32, v128], []⟩, lanes := 1, bound := 16 / width }

def leading : List VectorShape := [
  load 16, load 8, load 8, load 8, load 8, load 8, load 8, load 1, load 2, load 4, load 8, store,
  { type := ⟨[], [v128]⟩, lanes := 16 },
  { type := ⟨[v128, v128], [v128]⟩, lanes := 16, bound := 32 }, binary,
  splat i32, splat i32, splat i32, splat i64, splat f32, splat f64,
  extract i32 16, extract i32 16, replace i32 16, extract i32 8, extract i32 8, replace i32 8,
  extract i32 4, replace i32 4, extract i64 2, replace i64 2, extract f32 4, replace f32 4,
  extract f64 2, replace f64 2]

def runs : List (Nat × Nat × VectorShape) := [
  (35, 76, binary), (77, 77, unary), (78, 81, binary), (82, 82, ternary), (83, 83, test),
  (84, 84, loadLane 1), (85, 85, loadLane 2), (86, 86, loadLane 4), (87, 87, loadLane 8),
  (88, 88, storeLane 1), (89, 89, storeLane 2), (90, 90, storeLane 4), (91, 91, storeLane 8),
  (92, 92, load 4), (93, 93, load 8), (94, 98, unary), (99, 100, test), (101, 102, binary),
  (103, 106, unary), (107, 109, shift), (110, 115, binary), (116, 117, unary), (118, 121, binary),
  (122, 122, unary), (123, 123, binary), (124, 129, unary), (130, 130, binary), (131, 132, test),
  (133, 134, binary), (135, 138, unary), (139, 141, shift), (142, 147, binary), (148, 148, unary),
  (149, 153, binary), (155, 159, binary), (160, 161, unary), (163, 164, test), (167, 170, unary),
  (171, 173, shift), (174, 174, binary), (177, 177, binary), (181, 186, binary), (188, 191, binary),
  (192, 193, unary), (195, 196, test), (199, 202, unary), (203, 205, shift), (206, 206, binary),
  (209, 209, binary), (213, 223, binary), (224, 225, unary), (227, 227, unary), (228, 235, binary),
  (236, 237, unary), (239, 239, unary), (240, 247, binary), (248, 255, unary)]

def ofNumber? (sub : UInt8) : Option VectorShape :=
  leading[sub.toNat]?.or
    ((runs.find? fun (lo, hi, _) => lo ≤ sub.toNat && sub.toNat ≤ hi).map (·.2.2))

end VectorShape
end Validation
end Sidetable
