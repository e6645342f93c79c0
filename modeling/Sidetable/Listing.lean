import Sidetable.Batch

/-!
# Listing the side tables of a module
-/
namespace Sidetable

structure Listing where
  /-- index of the only function to list; a negative one stands for all of them -/
  func : Int := -1
  summary : Bool := false
  /-- for a terminal: header lines are set off by blanks -/
  styled : Bool := false
  deriving DecidableEq, Repr

namespace Listing

def setOff (text : String) : String :=
  match text.splitOn "\n" with
  | line :: rest => "\n".intercalate ((" " ++ line ++ " ") :: rest)
  | [] => text

def function (l : Listing) (index : Nat) : Option Metadata → String
  | none => s!"func[{index}]: not compiled\n"
  | some m =>
    if l.summary then m.summary ++ "\n"
    else (if l.styled then setOff m.dump else m.dump) ++ "\n"

def header (file : String) (c : Compilation) : String :=
  s!"Module: {file}\n" ++
    s!"Functions: {c.functions.length} defined, {c.mod.numImportedFuncs} imported\n" ++
    s!"Metadata: {c.metadataSize} bytes\n\n"

def selected (l : Listing) (c : Compilation) : List (Nat × Option Metadata) :=
  ((List.range c.functions.length).zip c.functions).map
    (fun (i, m) => (c.mod.numImportedFuncs + i, m))
    |>.filter fun (index, _) => l.func < 0 || (index : Int) = l.func

def text (l : Listing) (file : String) (c : Compilation) : String :=
  header file c ++ String.join ((l.selected c).map fun (index, m) => l.function index m)

end Listing
end Sidetable
