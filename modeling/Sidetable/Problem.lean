import Sidetable.Fault

/-!
# Problems

What goes wrong is told as a chain. A diagnostic says in which phase and of which kind a problem is
and where it was met; it may name another problem as its cause.
-/
namespace Sidetable

structure Phase where
  name : String
  deriving DecidableEq, Repr

namespace Phase

def decode : Phase := ⟨"decode"⟩
def validate : Phase := ⟨"validate"⟩
def compile : Phase := ⟨"compile"⟩
def load : Phase := ⟨"load"⟩

end Phase

structure Kind where
  name : String
  deriving DecidableEq, Repr

namespace Kind

def outOfBounds : Kind := ⟨"out_of_bounds"⟩
def invalidData : Kind := ⟨"invalid_data"⟩
def unsupported : Kind := ⟨"unsupported"⟩
def allocation : Kind := ⟨"allocation"⟩
def notFound : Kind := ⟨"not_found"⟩
def invalidInput : Kind := ⟨"invalid_input"⟩
def canceled : Kind := ⟨"canceled"⟩

end Kind

structure Diagnostic where
  phase : Phase
  kind : Kind
  path : List String := []
  /-- mnemonic of the offending instruction, or empty -/
  opcode : String := ""
  offset : Option UInt32 := none
  detail : String := ""
  value : Option String := none
  deriving DecidableEq, Repr

namespace Diagnostic

def site (d : Diagnostic) : Option String :=
  match d.opcode, d.offset with
  | "", none => none
  | "", some off => some ("@0x" ++ Hex.digits off.toNat)
  | op, none => some op
  | op, some off => some (op ++ " @0x" ++ Hex.digits off.toNat)

/-- The text without the cause. A detail is set off by a dash from an instruction and by a colon
from all else. -/
def message (d : Diagnostic) : String :=
  let path := if d.path.isEmpty then "" else " at " ++ ".".intercalate d.path
  let site := match d.site with
    | some text => ": " ++ text
    | none => ""
  let mark := if d.site.isSome then " - " else ": "
  let detail := if d.detail = "" then "" else mark ++ d.detail
  "[" ++ d.phase.name ++ "] " ++ d.kind.name ++ path ++ site ++ detail

def funcPath (index : UInt32) : String :=
  s!"func[{index}]"

def allocationFailed (phase : Phase) (size align : UInt32) : Diagnostic :=
  { phase, kind := .allocation, detail := s!"failed to allocate {size} bytes (align {align})",
    value := some (toString size) }

def unsupported (phase : Phase) (what : String) : Diagnostic :=
  { phase, kind := .unsupported, detail := what }

def outOfBounds (phase : Phase) (path : List String) (index length : Int) : Diagnostic :=
  { phase, kind := .outOfBounds, path, detail := s!"index {index} out of bounds (length {length})",
    value := some (toString index) }

def invalidData (phase : Phase) (path : List String) (detail : String) : Diagnostic :=
  { phase, kind := .invalidData, path, detail }

def invalidInput (phase : Phase) (detail : String) : Diagnostic :=
  { phase, kind := .invalidInput, detail }

def notFound (phase : Phase) (what : String) (index : UInt32) : Diagnostic :=
  { phase, kind := .notFound, detail := s!"{what} {index} not found",
    value := some (toString index) }

def canceled : Diagnostic :=
  { phase := .compile, kind := .canceled, detail := "compilation canceled" }

def load (detail : String) : Diagnostic :=
  { phase := .load, kind := .invalidData, detail }

def decode (what : String) : Diagnostic :=
  { phase := .decode, kind := .invalidData, detail := "decode " ++ what }

end Diagnostic

inductive Problem where
  | plain (text : String)
  | fault (f : Fault)
  /-- a problem with a remark in front -/
  | note (text : String) (cause : Problem)
  | diagnosed (d : Diagnostic)
  | diagnosedBy (d : Diagnostic) (cause : Problem)
  deriving DecidableEq, Repr

namespace Problem

def message : Problem → String
  | plain text => text
  | fault f => f.message
  | note text cause => text ++ ": " ++ cause.message
  | diagnosed d => d.message
  | diagnosedBy d cause => d.message ++ " (caused by: " ++ cause.message ++ ")"

def ofDiagnostic (d : Diagnostic) (cause : Option Problem) : Problem :=
  match cause with
  | some cause => .diagnosedBy d cause
  | none => .diagnosed d

def first? : Problem → Option (Diagnostic × Option Problem)
  | plain _ => none
  | fault _ => none
  | note _ cause => cause.first?
  | diagnosed d => some (d, none)
  | diagnosedBy d cause => some (d, some cause)

def matchesAny (phase : Phase) (kind : Kind) : Problem → Bool
  | plain _ => false
  | fault _ => false
  | note _ cause => cause.matchesAny phase kind
  | diagnosed d => d.phase = phase && d.kind = kind
  | diagnosedBy d cause => (d.phase = phase && d.kind = kind) || cause.matchesAny phase kind

def hasKind (p : Problem) (kind : Kind) : Bool :=
  p.first?.any fun (d, _) => d.kind = kind

def fault? : Problem → Option Fault
  | plain _ => none
  | fault f => some f
  | note _ cause => cause.fault?
  | diagnosed _ => none
  | diagnosedBy _ cause => cause.fault?

end Problem
end Sidetable
