/-!
# Value types

A value type is its binary code. Codes outside the named ones are kept, so that a signature built by
hand can hold any of them.
-/
namespace Sidetable

structure ValType where
  code : UInt8
  deriving DecidableEq, Repr, Inhabited

namespace ValType

def i32 : ValType := ⟨0x7f⟩
def i64 : ValType := ⟨0x7e⟩
def f32 : ValType := ⟨0x7d⟩
def f64 : ValType := ⟨0x7c⟩
def v128 : ValType := ⟨0x7b⟩
def funcref : ValType := ⟨0x70⟩
def externref : ValType := ⟨0x6f⟩

def refNull : ValType := ⟨0x63⟩

def ref : ValType := ⟨0x64⟩

def name (t : ValType) : String :=
  if t = i32 then "i32"
  else if t = i64 then "i64"
  else if t = f32 then "f32"
  else if t = f64 then "f64"
  else if t = v128 then "v128"
  else if t = funcref then "funcref"
  else if t = externref then "externref"
  else if t = refNull then "ref null"
  else if t = ref then "ref"
  else "unknown"

def isTypedRef (t : ValType) : Bool :=
  t = refNull || t = ref

def isRef (t : ValType) : Bool :=
  t = funcref || t = externref || t.isTypedRef

def isSimple (t : ValType) : Bool :=
  t = i32 || t = i64 || t = f32 || t = f64 || t = v128 || t = funcref || t = externref

def isInteger (t : ValType) : Bool :=
  t = i32 || t = i64

def isFloat (t : ValType) : Bool :=
  t = f32 || t = f64

end ValType
end Sidetable
