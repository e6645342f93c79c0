/-!
# Fixed-width little-endian numbers

The low byte comes first. Writing keeps a number modulo `256 ^ width`.
-/
namespace Sidetable.LittleEndian

def encode : Nat → Nat → List UInt8
  | 0, _ => []
  | width + 1, v => UInt8.ofNat v :: encode width (v / 256)

def decode : List UInt8 → Nat
  | [] => 0
  | b :: rest => b.toNat + 256 * decode rest

@[simp] theorem length_encode (width v : Nat) : (encode width v).length = width := by
  induction width generalizing v with
  | zero => rfl
  | succ width ih => simp [encode, ih]

end Sidetable.LittleEndian
