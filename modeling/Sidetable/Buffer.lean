import Sidetable.Breach
import Sidetable.LittleEndian
import Sidetable.Problem

/-!
# The metadata buffer

A byte stream that grows at the end and is patched in place. Sizes and positions are signed 64-bit
numbers that wrap, and the buffer stays below 2^32 bytes.
-/
namespace Sidetable

structure Buffer where
  data : Array UInt8 := #[]
  /-- a positive limit caps the size -/
  limit : Int64 := 0
  deriving DecidableEq, Repr

inductive AllocationError where
  | negative (n : Int64)
  | refused (n : Nat)
  deriving DecidableEq, Repr

namespace AllocationError

def diagnostic : AllocationError → Diagnostic
  | negative n =>
    { phase := .compile, kind := .allocation, detail := s!"negative allocation size {n}" }
  | refused n => .allocationFailed .compile (UInt32.ofNat n) 8

end AllocationError

namespace Buffer

def entrySize : Nat := 8

def maxSize : Nat := 0xffffffff

def size (b : Buffer) : Nat :=
  b.data.size

def bytes (b : Buffer) : List UInt8 :=
  b.data.toList

def admits (b : Buffer) (total : Nat) : Bool :=
  total ≤ maxSize && (b.limit ≤ 0 || total ≤ b.limit.toInt)

def append (b : Buffer) (more : List UInt8) : Except AllocationError Buffer :=
  if b.admits (b.size + more.length) then .ok { b with data := b.data ++ more.toArray }
  else .error (.refused more.length)

def allocate (b : Buffer) (n : Int64) : Except AllocationError Buffer :=
  if n < 0 then .error (.negative n)
  else
    let n := n.toInt.toNat
    if b.admits (b.size + n) then .ok { b with data := b.data ++ Array.replicate n 0 }
    else .error (.refused n)

def allocateEntries (b : Buffer) (n : Int64) : Except AllocationError Buffer :=
  b.allocate (n * 8)

def addRaw (b : Buffer) (v : UInt64) : Except AllocationError Buffer :=
  b.append (LittleEndian.encode 8 v.toNat)

/-- Position of `width` bytes at `off + rel`. Bytes that were never allocated are out of bounds; a
position that wrapped around is out of range. -/
def span (b : Buffer) (off : UInt32) (rel : Int64) (width : Nat) : Except Breach Nat :=
  let p := Int64.ofNat off.toNat + rel
  let stop := p + Int64.ofNat width
  if rel < 0 || Int64.ofNat b.size < stop then .error (.access width p b.size)
  else if p < 0 || stop < p then .error .outOfRange
  else .ok p.toInt.toNat

def patch : Array UInt8 → Nat → List UInt8 → Array UInt8
  | data, _, [] => data
  | data, p, v :: rest => patch (data.setIfInBounds p v) (p + 1) rest

theorem size_patch (data : Array UInt8) (p : Nat) (list : List UInt8) :
    (patch data p list).size = data.size := by
  induction list generalizing data p with
  | nil => rfl
  | cons v rest ih => rw [patch, ih, Array.size_setIfInBounds]

def put (b : Buffer) (width : Nat) (off : UInt32) (rel : Int64) (v : Nat) :
    Except Breach Buffer := do
  let p ← b.span off rel width
  return { b with data := patch b.data p (LittleEndian.encode width v) }

def get (b : Buffer) (width : Nat) (pos : Int64) : Except Breach Nat := do
  let p ← b.span 0 pos width
  return LittleEndian.decode (b.data.extract p (p + width)).toList

/-- Writes a target word at `off`. The first half is written before the second is looked at. -/
def putTarget (b : Buffer) (off : UInt32) (t : Target) : Buffer × Option Breach :=
  match b.put 4 off 0 t.pc.toNat with
  | .error e => (b, some e)
  | .ok b =>
    match b.put 4 off 4 t.mc.toNat with
    | .error e => (b, some e)
    | .ok b => (b, none)

end Buffer
end Sidetable
