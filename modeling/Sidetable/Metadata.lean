import Sidetable.Hex
import Sidetable.LittleEndian
import Sidetable.Scope

/-!
# The finished side table of a function
-/
namespace Sidetable

structure Metadata where
  bytes : List UInt8
  locations : List UInt32
  returns : List ValType
  func : UInt32
  numLocals : UInt32
  numArgs : UInt32
  numArgsOnStack : UInt32
  localBase : Int32
  /-- position of the first instruction in the body -/
  bytecodeOffset : UInt32
  bytecodeLength : UInt32
  deriving DecidableEq, Repr

namespace Metadata

def size (m : Metadata) : Nat :=
  m.bytes.length

def entries (m : Metadata) : Nat :=
  m.size / 8

def get? (m : Metadata) (width : Nat) (pos : Int) : Option Nat :=
  if pos < 0 || (m.size : Int) < pos + width then none
  else some (LittleEndian.decode ((m.bytes.drop pos.toNat).take width))

def target? (m : Metadata) (pos : Int) : Option Target := do
  let pc ← m.get? 4 pos
  let mc ← m.get? 4 (pos + 4)
  return { pc := UInt32.ofNat pc, mc := UInt32.ofNat mc }

/-- A line for each word from offset `i` on: offset, bytes and the two halves. -/
def entryLines : Nat → List UInt8 → List String
  | i, a :: b :: c :: d :: e :: f :: g :: h :: rest =>
    let low := LittleEndian.decode [a, b, c, d]
    let high := LittleEndian.decode [e, f, g, h]
    ("  " ++ Hex.padded 4 i ++ ": " ++ Hex.spaced [a, b, c, d, e, f, g, h] ++
      s!"  {low} {high}\n") :: entryLines (i + 8) rest
  | _, _ => []

def dumpHeader (m : Metadata) : String :=
  s!"func[{m.func}] bytecode={m.bytecodeOffset}+{m.bytecodeLength} locals={m.numLocals} " ++
    s!"args={m.numArgs} on_stack={m.numArgsOnStack} local_base={m.localBase}\n"

/-- A header line, the argument slots if there are any, and a line for each word. -/
def dump (m : Metadata) : String :=
  let args := if m.locations.isEmpty then ""
    else "  args [" ++ " ".intercalate (m.locations.map toString) ++ "]\n"
  m.dumpHeader ++ args ++ String.join (entryLines 0 m.bytes)

def summary (m : Metadata) : String :=
  s!"func[{m.func}] entries={m.entries} bytes={m.size} bytecode={m.bytecodeLength} " ++
    s!"locals={m.numLocals} args={m.numArgs}"

end Metadata
end Sidetable
