import Sidetable.ValType

/-!
# Argument layout

Parameters are assigned in order: integers to general-purpose registers and floats to floating-point
registers while there are free ones, all others to stack slots. Slots 0 to 7 are the general-purpose
registers, 8 to 15 the floating-point ones, and stack slots start at 16. Declared locals follow the
stack arguments.
-/
namespace Sidetable

structure Convention where
  gprs : Int
  fprs : Int
  deriving DecidableEq, Repr

/-- Registers that arguments are passed in: at most eight of a class. -/
structure Registers where
  gprs : Nat
  fprs : Nat
  gprs_le : gprs ≤ 8 := by decide
  fprs_le : fprs ≤ 8 := by decide
  deriving DecidableEq

namespace Convention

def amd64 : Convention := ⟨6, 8⟩
def arm64 : Convention := ⟨8, 8⟩

def host (arch : String) : Convention :=
  match arch with
  | "amd64" => amd64
  | "arm64" => arm64
  | _ => ⟨0, 8⟩

def clamp (c : Convention) : Registers :=
  { gprs := min c.gprs.toNat 8, fprs := min c.fprs.toNat 8, gprs_le := by omega,
    fprs_le := by omega }

def registers (c : Convention) (arch : String) : Registers :=
  if c = ⟨0, 0⟩ then (host arch).clamp else c.clamp

end Convention

structure Layout where
  locations : List UInt32 := []
  gprsUsed : Nat := 0
  fprsUsed : Nat := 0
  onStack : Nat := 0
  deriving DecidableEq, Repr

namespace Layout

def fprBase : Nat := 8

def stackBase : Nat := 16

def place (r : Registers) (l : Layout) (t : ValType) : Layout :=
  if t.isInteger && l.gprsUsed < r.gprs then
    { l with locations := l.locations ++ [UInt32.ofNat l.gprsUsed], gprsUsed := l.gprsUsed + 1 }
  else if t.isFloat && l.fprsUsed < r.fprs then
    { l with
      locations := l.locations ++ [UInt32.ofNat (fprBase + l.fprsUsed)]
      fprsUsed := l.fprsUsed + 1 }
  else
    { l with
      locations := l.locations ++ [UInt32.ofNat (stackBase + l.onStack)]
      onStack := l.onStack + 1 }

def ofParams (params : List ValType) (r : Registers) : Layout :=
  params.foldl (place r) {}

def localBase (l : Layout) : Int32 :=
  Int32.ofInt (stackBase + l.onStack - l.locations.length)

def slot (l : Layout) (index : UInt32) : UInt32 :=
  match l.locations[index.toNat]? with
  | some loc => loc
  | none => UInt32.ofInt (index.toNat + l.localBase.toInt)

end Layout
end Sidetable
