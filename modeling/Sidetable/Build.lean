import Sidetable.Batch
import Sidetable.Module.Parse
import Sidetable.Validation.Invalid

/-!
# From a file to side tables
-/
namespace Sidetable
namespace Build

def rejection (i : Invalid) : Problem :=
  .diagnosedBy (.invalidData .validate [] "module rejected by validator") (.plain i.message)

def refused (i : Invalid) : Build :=
  match i.breach? with
  | some b => { breach := some b }
  | none => { problem := some (rejection i) }

def ofBinary (validate : List UInt8 → Except Invalid Unit) (bytes : List UInt8) (opts : Options) :
    Build :=
  match Module.parse bytes with
  | .error f => { problem := some (.diagnosedBy (.decode "module") (.fault f)) }
  | .ok mod =>
    match (if opts.validate then validate bytes else .ok ()) with
    | .error i => refused i
    | .ok _ => mod.compile opts

def steps (path : String) : List String :=
  (path.splitOn "/").filter fun part => part ≠ "" && part ≠ "." && part ≠ ".."

/-- The path leads to the file of this name in the current directory. -/
def leadsTo (path name : String) : Bool :=
  match path.splitOn "/" with
  | "." :: parts =>
    parts.getLast? = some name && parts.dropLast.all fun part => part = "" || part = "."
  | _ => path = name

/-- The path is longer than paths may be, or its first step is longer than names may be. -/
def isTooLong (path : String) : Bool :=
  4096 ≤ path.utf8ByteSize || 255 < ((steps path).head?.getD "").utf8ByteSize

def unreadable (path : String) : String :=
  if path.toList.contains (Char.ofNat 0) then s!"open {path}: invalid argument"
  else if isTooLong path then s!"open {path}: file name too long"
  else if !path.isEmpty && (steps path).isEmpty then s!"read {path}: is a directory"
  else s!"open {path}: no such file or directory"

/-- Builds the module in a file; `none` if its contents cannot be read. -/
def ofFile (validate : List UInt8 → Except Invalid Unit) (path : String)
    (contents : Option (List UInt8)) (opts : Options) : Build :=
  match contents with
  | some bytes => ofBinary validate bytes opts
  | none => { problem := some (.diagnosedBy (.load "read file") (.plain (unreadable path))) }

end Build
end Sidetable
