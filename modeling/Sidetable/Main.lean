import Sidetable.CommandLine
import Sidetable.Validation

/-!
# The program
-/
namespace Sidetable

def machine : String := "amd64"

def readContents (name : String) : IO (Option (List UInt8)) := do
  try
    return some (← IO.FS.readBinFile name).toList
  catch _ =>
    return none

end Sidetable

open Sidetable in
def main (args : List String) : IO UInt32 := do
  let plan := CommandLine.plan machine args
  let contents ← match plan.file? with
    | some name => readContents name
    | none => pure none
  let out := plan.output Module.validate contents
  IO.print out.stdout
  IO.eprint out.stderr
  return UInt32.ofNat out.status
