import Sidetable.Fault
import Sidetable.LittleEndian

/-!
# Reading a binary byte by byte

A cursor is the unread bytes and how many came before them. A read answers with a value or a fault
and with the cursor where it stopped: a read that fails in the middle of a number keeps the bytes it
took.
-/
namespace Sidetable

structure Cursor where
  pos : Nat := 0
  rest : List UInt8
  deriving DecidableEq, Repr

abbrev Read := EStateM Fault Cursor

namespace Cursor

def ofBytes (bytes : List UInt8) : Cursor :=
  { rest := bytes }

def advance (c : Cursor) (n : Nat) : Cursor :=
  { pos := c.pos + n, rest := c.rest.drop n }

def has (c : Cursor) (n : Nat) : Bool :=
  (c.rest.take n).length = n

@[simp] theorem has_iff {c : Cursor} {n : Nat} : c.has n ↔ n ≤ c.rest.length := by
  simp only [has, List.length_take, decide_eq_true_eq]
  omega

end Cursor

namespace Read

open Fault (Cause Place)

def fail {α : Type} (cause : Cause) : Read α :=
  throw { cause }

def failHere {α : Type} (cause : Cause) : Read α := fun c =>
  .error { places := [.offset c.pos], cause } c

def within {α : Type} (place : Place) (read : Read α) : Read α := fun c =>
  match read c with
  | .ok a c => .ok a c
  | .error f c => .error (f.within place) c

/-- Names the enclosing part of the module, with the position where `read` stopped. -/
def inPart {α : Type} (name : String) (read : Read α) : Read α := fun c =>
  match read c with
  | .ok a c => .ok a c
  | .error f c => .error (f.within (.part name c.pos)) c

def onBytes {α : Type} (bytes : List UInt8) (read : Read α) : Read α := fun c =>
  match read (.ofBytes bytes) with
  | .ok a _ => .ok a c
  | .error f _ => .error f c

def position : Read Nat := fun c =>
  .ok c.pos c

def remaining : Read (List UInt8) := fun c =>
  .ok c.rest c

def byte : Read UInt8 := fun c =>
  match c.rest with
  | [] => .error { cause := .endOfInput } c
  | b :: rest => .ok b { pos := c.pos + 1, rest }

/-- Takes `n` bytes, or none at all when fewer are left or `n` is negative. -/
def bytes (n : Int) : Read (List UInt8) := fun c =>
  if 0 ≤ n && c.has n.toNat then .ok (c.rest.take n.toNat) (c.advance n.toNat)
  else failHere .unexpectedEnd c

def skip (n : Int) : Read Unit := do
  let _ ← bytes n

def sub (n : Int) : Read Cursor := do
  return .ofBytes (← bytes n)

/-- The next byte of a variable-length number, which has to be there. -/
def digit : Read UInt8 := fun c =>
  match c.rest with
  | [] => failHere .unexpectedEnd c
  | b :: rest => .ok b { pos := c.pos + 1, rest }

/-- Puts groups of seven bits above the `n` groups read so far, until a byte does not continue. At
most `more` bytes are read. -/
def natural : Nat → Nat → UInt64 → Read UInt64
  | 0, _, _ => failHere .overflow
  | more + 1, n, bits => do
    let b ← digit
    let bits := bits ||| (b &&& 0x7f).toUInt64 <<< UInt64.ofNat (7 * n)
    if b &&& 0x80 = 0 then return bits else natural more (n + 1) bits

/-- Like `natural`; bit six of the last byte is the sign, which the bits above are filled with. -/
def integer : Nat → Nat → UInt64 → Read Int64
  | 0, _, _ => failHere .overflow
  | more + 1, n, bits => do
    let b ← digit
    let bits := bits ||| (b &&& 0x7f).toUInt64 <<< UInt64.ofNat (7 * n)
    if b &&& 0x80 ≠ 0 then integer more (n + 1) bits
    else if 7 * (n + 1) < 64 ∧ b &&& 0x40 ≠ 0 then
      return (bits ||| 0xffffffffffffffff <<< UInt64.ofNat (7 * (n + 1))).toInt64
    else return bits.toInt64

def u32 : Read UInt32 := do
  let v ← natural 5 0 0
  if v >>> 32 = 0 then return v.toUInt32 else failHere .overflow

/-- A number of at most ten bytes. Of a tenth byte only the lowest bit counts. -/
def u64 : Read UInt64 :=
  natural 10 0 0

/-- A signed number of at most ten bytes. Of a tenth byte only the lowest bit counts. -/
def s64 : Read Int64 :=
  integer 10 0 0

def name : Read String := do
  let n ← u32
  let raw ← bytes n.toNat
  match String.fromUTF8? raw.toByteArray with
  | some text => return text
  | none => failHere .invalidName

def u32le : Read UInt32 := do
  return UInt32.ofNat (LittleEndian.decode (← bytes 4))

end Read
end Sidetable
