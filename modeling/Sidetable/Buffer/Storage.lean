import Sidetable.Buffer

/-!
# The storage of a buffer

A buffer has more slots than it uses. When they run out it moves to twice as many, and the bytes in
use keep their positions. Calls follow one another: one that fails leaves the storage to the next.
-/
namespace Sidetable

inductive Width where
  | one
  | two
  | four
  | eight
  deriving DecidableEq, Repr

def Width.bytes : Width → Nat
  | one => 1
  | two => 2
  | four => 4
  | eight => 8

structure Storage where
  slots : Array UInt8 := #[]
  /-- slots in use, from the first one on -/
  size : Nat := 0
  /-- a positive limit caps the size -/
  limit : Int64 := 0
  inside : size ≤ slots.size := by decide
  bounded : size ≤ Buffer.maxSize := by decide
  deriving DecidableEq, Repr

namespace Storage

def bytes (s : Storage) : List UInt8 :=
  s.slots.toList.take s.size

/-- Slots for `total` bytes. New ones are at least twice as many and at least 64. -/
def slotsFor (s : Storage) (total : Nat) : Array UInt8 :=
  if s.slots.size < total then
    s.slots.extract 0 s.size ++ Array.replicate (max total (max (2 * s.slots.size) 64) - s.size) 0
  else s.slots

theorem le_size_slotsFor (s : Storage) (total : Nat) : total ≤ (s.slotsFor total).size := by
  have := s.inside
  unfold slotsFor
  split
  · rw [Array.size_append, Array.size_extract, Array.size_replicate]
    omega
  · omega

def extend (s : Storage) (total : Nat) (fits : total ≤ Buffer.maxSize) : Storage :=
  { s with
    slots := Buffer.patch (s.slotsFor total) s.size (List.replicate (total - s.size) 0)
    size := total
    inside := by
      rw [Buffer.size_patch]
      exact s.le_size_slotsFor total
    bounded := fits }

/-- Appends `n` zero bytes and tells where they start. Sizes are added as unsigned numbers. -/
def allocate (s : Storage) (n : Int64) : Except AllocationError (UInt32 × Storage) :=
  if n < 0 then .error (.negative n)
  else
    let total := UInt64.ofNat s.size + n.toUInt64
    if fits : total.toNat ≤ Buffer.maxSize ∧ (s.limit ≤ 0 ∨ total ≤ s.limit.toUInt64) then
      .ok (UInt32.ofNat s.size, s.extend total.toNat fits.1)
    else .error (.refused n.toUInt64.toNat)

def allocateEntries (s : Storage) (n : Int64) : Except AllocationError (UInt32 × Storage) :=
  s.allocate (n * 8)

/-- Position of `width` bytes at `off + rel`. They are a part of the slots, which starts at none
before the first slot and ends neither before it starts nor behind the last one. -/
def span (s : Storage) (off : UInt32) (rel : Int64) (width : Nat) : Except Breach Nat :=
  let p := Int64.ofNat off.toNat + rel
  let stop := p + Int64.ofNat width
  if rel < 0 || Int64.ofNat s.size < stop then .error (.access width p s.size)
  else if p < 0 || stop < p || (s.slots.size : Int) < stop.toInt then .error .outOfRange
  else .ok p.toInt.toNat

def put (s : Storage) (width : Nat) (off : UInt32) (rel : Int64) (v : Nat) :
    Except Breach Storage := do
  let p ← s.span off rel width
  return { s with
    slots := Buffer.patch s.slots p (LittleEndian.encode width v)
    inside := by
      rw [Buffer.size_patch]
      exact s.inside }

def get (s : Storage) (width : Nat) (pos : Int64) : Except Breach Nat := do
  let p ← s.span 0 pos width
  return LittleEndian.decode (s.slots.extract p (p + width)).toList

inductive Call where
  | allocate (n : Int64)
  | allocateEntries (n : Int64)
  | addRaw (v : UInt64)
  /-- the bytes of `v` that exceed the width are dropped -/
  | put (width : Width) (off : UInt32) (rel : Int64) (v : UInt64)
  | get (width : Width) (pos : Int64)
  deriving DecidableEq, Repr

inductive Answer where
  | placed (off : UInt32)
  | written
  | value (v : Nat)
  | refused (e : AllocationError)
  | breach (b : Breach)
  deriving DecidableEq, Repr

def placing (s : Storage) : Except AllocationError (UInt32 × Storage) → Storage × Answer
  | .ok (off, t) => (t, .placed off)
  | .error e => (s, .refused e)

/-- The storage after a call, with the answer. A number is appended by allocating its bytes and
putting it there. -/
def call (s : Storage) : Call → Storage × Answer
  | .allocate n => s.placing (s.allocate n)
  | .allocateEntries n => s.placing (s.allocateEntries n)
  | .addRaw v =>
    match s.allocate 8 with
    | .error e => (s, .refused e)
    | .ok (off, t) =>
      match t.put 8 off 0 v.toNat with
      | .error b => (t, .breach b)
      | .ok t => (t, .placed off)
  | .put width off rel v =>
    match s.put width.bytes off rel v.toNat with
    | .error b => (s, .breach b)
    | .ok t => (t, .written)
  | .get width pos =>
    match s.get width.bytes pos with
    | .error b => (s, .breach b)
    | .ok v => (s, .value v)

/-- Writes a target word at `off`, the first half before the second. -/
def putTarget (s : Storage) (off : UInt32) (t : Target) : Storage × Answer :=
  match s.call (.put .four off 0 t.pc.toUInt64) with
  | (s, .written) => s.call (.put .four off 4 t.mc.toUInt64)
  | stopped => stopped

end Storage
end Sidetable
