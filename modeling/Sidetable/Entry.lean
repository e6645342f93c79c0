import Sidetable.Layout
import Sidetable.LittleEndian

/-!
# Entries of the side table

The bytes that an instruction leaves behind. Fields are little-endian and keep a number modulo their
width. Every entry is a whole number of eight-byte words.
-/
namespace Sidetable.Entry

open LittleEndian (encode)

def raw (v : Nat) : List UInt8 :=
  encode 8 v

def placeholder : List UInt8 :=
  encode 8 0

def value (v length : UInt32) : List UInt8 :=
  encode 4 v.toNat ++ encode 4 length.toNat

/-- Two numbers, and the length of the instruction in a word of its own. -/
def pair (a b length : UInt32) : List UInt8 :=
  encode 4 a.toNat ++ encode 4 b.toNat ++ encode 8 length.toNat

def wide (v : UInt64) (length : UInt32) : List UInt8 :=
  encode 8 v.toNat ++ encode 8 length.toNat

def globalGet (index length : UInt32) (binding : UInt8) : List UInt8 :=
  encode 4 index.toNat ++ encode 2 length.toNat ++ encode 2 binding.toNat

/-- Index, length in 16 bits, binding in 8 bits, and whether the global holds a reference. -/
def globalSet (index length : UInt32) (binding : UInt8) (isRef : Bool) : List UInt8 :=
  encode 4 index.toNat ++ encode 2 length.toNat ++ [binding, if isRef then 1 else 0]

/-- A target word that is written later, values to drop, values to keep, and where the code goes on
when the branch is not taken. -/
def branch (pop arity : Nat) (resume : UInt32) : List UInt8 :=
  placeholder ++ encode 2 pop ++ encode 2 arity ++ encode 4 resume.toNat

def call (func resume : UInt32) : List UInt8 :=
  encode 4 func.toNat ++ encode 4 resume.toNat

def callIndirect (table type resume : UInt32) : List UInt8 :=
  encode 4 table.toNat ++ encode 4 type.toNat ++ encode 4 0 ++ encode 4 resume.toNat

def roundUp (n : Nat) : Nat :=
  (n + 7) / 8 * 8

def padTo (size : Nat) (bytes : List UInt8) : List UInt8 :=
  bytes ++ List.replicate (size - bytes.length) 0

/-- Where the arguments of a call lie on the operand stack, counted from its top: those for
registers in the order of the registers, and those that stay on the stack. -/
structure Marshal where
  gprs : List UInt16 := []
  fprs : List UInt16 := []
  stack : List UInt16 := []
  deriving DecidableEq, Repr

namespace Marshal

def add (r : Registers) (m : Marshal) (t : ValType) (depth : UInt16) : Marshal :=
  if t.isInteger && m.gprs.length < r.gprs then { m with gprs := m.gprs ++ [depth] }
  else if t.isFloat && m.fprs.length < r.fprs then { m with fprs := m.fprs ++ [depth] }
  else { m with stack := m.stack ++ [depth] }

def addAll (r : Registers) : Marshal → UInt16 → List ValType → Marshal
  | m, _, [] => m
  | m, depth, t :: rest => addAll r (m.add r t depth) (depth - 1) rest

def ofParams (params : List ValType) (r : Registers) : Marshal :=
  addAll r {} (UInt16.ofInt (params.length - 1)) params

def words (depths : List UInt16) : List UInt8 :=
  depths.flatMap fun d => encode 2 d.toNat

def region (m : Marshal) : List UInt8 :=
  padTo 16 (words m.gprs) ++ padTo 16 (words m.fprs)

def tailSize (m : Marshal) : Nat :=
  roundUp (2 * m.stack.length + 6)

/-- Size of the tail, number of arguments, number of stack arguments, and their depths. -/
def tail (m : Marshal) (argc : Nat) : List UInt8 :=
  padTo m.tailSize
    (encode 2 m.tailSize ++ encode 2 argc ++ encode 2 m.stack.length ++ words m.stack)

end Marshal

def returnData (results : List ValType) : List UInt8 :=
  let size := roundUp (results.length + 2)
  padTo size (encode 2 size ++ results.map ValType.code)

end Sidetable.Entry
