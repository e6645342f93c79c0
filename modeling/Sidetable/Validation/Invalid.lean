import Sidetable.Breach

/-!
# Why a module is not valid
-/
namespace Sidetable

inductive Invalid where
  /-- the bytes run out inside an item -/
  | unexpectedEnd
  /-- a variable-length number has too many bytes or bits -/
  | number
  | name
  /-- a section is not as long as its contents -/
  | sectionSize (id : UInt8)
  | missing (what : String) (index : UInt32)
  | refused (what : String)
  | operandMissing
  | operandType (expected found : ValType)
  | operandsLeft
  /-- a call names a function whose type does not exist, and that function comes later -/
  | untypedCallee (func : UInt32)
  deriving DecidableEq, Repr

namespace Invalid

def message : Invalid → String
  | unexpectedEnd => "unexpected end"
  | number => "malformed number"
  | name => "invalid name"
  | sectionSize id => s!"section {id} is not as long as its contents"
  | missing what index => s!"unknown {what} {index}"
  | refused what => what
  | operandMissing => "not enough operands"
  | operandType expected found => "expected " ++ expected.name ++ " but found " ++ found.name
  | operandsLeft => "operands left at the end of a block"
  | untypedCallee func => s!"function {func} has no type"

/-- A callee without a type is looked up before its own type has been checked, which ends validation
without an answer. -/
def breach? : Invalid → Option Breach
  | untypedCallee _ => some .outOfRange
  | _ => none

end Invalid
end Sidetable
