import Sidetable.Architecture
import Sidetable.Build
import Sidetable.Listing
import Sidetable.Text.Numeral

/-!
# The command line

Flags start with one dash or two and come before all other arguments. A value is joined with `=` or
is the next argument; a switch takes a value only when joined. Of several settings of a flag the
last counts.
-/
namespace Sidetable

structure CommandLine where
  wasm : String := ""
  func : Int := -1
  arch : String := "host"
  /-- size limit for the side table of a function -/
  max : Int := 0
  jobs : Int := 0
  validate : Bool := false
  summary : Bool := false
  verbose : Bool := false
  interactive : Bool := false
  deriving DecidableEq, Repr

namespace CommandLine

inductive FlagError where
  | help
  | badSyntax (arg : String)
  | undefined (flag : String)
  | needsValue (flag : String)
  | badSwitch (flag value : String)
  | badNumber (flag value : String) (e : Numeral.Error)
  deriving DecidableEq, Repr

namespace FlagError

def message : FlagError → String
  | help => ""
  | badSyntax arg => s!"bad flag syntax: {arg}\n"
  | undefined flag => s!"flag provided but not defined: -{flag}\n"
  | needsValue flag => s!"flag needs an argument: -{flag}\n"
  | badSwitch flag value =>
    "invalid boolean value " ++ quoted value ++ s!" for -{flag}: parse error\n"
  | badNumber flag value e =>
    "invalid value " ++ quoted value ++ s!" for flag -{flag}: " ++ e.message ++ "\n"

def status : FlagError → Nat
  | help => 0
  | _ => 2

end FlagError

inductive Flag where
  | switch (set : Bool → CommandLine → CommandLine)
  | number (set : Int → CommandLine → CommandLine)
  | text (set : String → CommandLine → CommandLine)

def flag? : String → Option Flag
  | "wasm" => some (.text fun v c => { c with wasm := v })
  | "func" => some (.number fun v c => { c with func := v })
  | "arch" => some (.text fun v c => { c with arch := v })
  | "max" => some (.number fun v c => { c with max := v })
  | "j" => some (.number fun v c => { c with jobs := v })
  | "validate" => some (.switch fun v c => { c with validate := v })
  | "summary" => some (.switch fun v c => { c with summary := v })
  | "v" => some (.switch fun v c => { c with verbose := v })
  | "i" => some (.switch fun v c => { c with interactive := v })
  | _ => none

def switchValue? (text : String) : Option Bool :=
  if text ∈ ["1", "t", "T", "TRUE", "true", "True"] then some true
  else if text ∈ ["0", "f", "F", "FALSE", "false", "False"] then some false
  else none

inductive Word where
  | stop
  | malformed
  | flag (name : String) (value : Option String)
  deriving DecidableEq, Repr

/-- The name and what stands after the first `=` that is not its first character. -/
def splitFlag (cs : List Char) : Word :=
  match cs with
  | [] => .malformed
  | c :: rest =>
    if c = '-' || c = '=' then .malformed
    else
      let name := String.ofList (c :: rest.takeWhile (· ≠ '='))
      match rest.dropWhile (· ≠ '=') with
      | [] => .flag name none
      | _ :: value => .flag name (some (String.ofList value))

def Word.ofArg (arg : String) : Word :=
  match arg.toList with
  | ['-', '-'] => .stop
  | '-' :: '-' :: cs => splitFlag cs
  | '-' :: c :: cs => splitFlag (c :: cs)
  | _ => .stop

def Flag.set (flag : Flag) (name value : String) (c : CommandLine) : Except FlagError CommandLine :=
  match flag with
  | .text f => .ok (f value c)
  | .number f =>
    match Numeral.parse value with
    | .ok n => .ok (f n c)
    | .error e => .error (.badNumber name value e)
  | .switch f =>
    match switchValue? value with
    | some b => .ok (f b c)
    | none => .error (.badSwitch name value)

def parseFrom (c : CommandLine) : List String → Except FlagError CommandLine
  | [] => .ok c
  | arg :: rest =>
    match Word.ofArg arg with
    | .stop => .ok c
    | .malformed => .error (.badSyntax arg)
    | .flag name value =>
      match flag? name, value with
      | none, _ => .error (if name = "help" || name = "h" then .help else .undefined name)
      | some (.switch f), none => parseFrom (f true c) rest
      | some flag, some v => do parseFrom (← flag.set name v c) rest
      | some flag, none =>
        match rest with
        | v :: rest => do parseFrom (← flag.set name v c) rest
        | [] => .error (.needsValue name)

def parse (args : List String) : Except FlagError CommandLine :=
  parseFrom {} args

def usage : String :=
  "Usage: ipintdump -wasm <file.wasm> [-func N] [-arch amd64|arm64] [-validate]\n" ++
    "       ipintdump -wasm <file.wasm> -summary\n" ++
    "       ipintdump -wasm <file.wasm> -i  (interactive mode)\n"

structure Output where
  stdout : String := ""
  stderr : String := ""
  status : Nat := 0
  deriving DecidableEq, Repr

/-- What the arguments ask for: an answer at once, or the listing of a file. -/
inductive Plan where
  | answer (out : Output)
  | list (file : String) (listing : Listing) (opts : Options)
  deriving DecidableEq, Repr

/-- Standard input is taken not to be a terminal, so there is nobody to interact with. -/
def plan (machine : String) (args : List String) : Plan :=
  match parse args with
  | .error e => .answer { stderr := e.message, status := e.status }
  | .ok c =>
    if c.wasm = "" then .answer { stderr := usage, status := 1 }
    else match Convention.named machine c.arch with
      | .error e => .answer { stderr := "Error: " ++ e.message ++ "\n", status := 1 }
      | .ok convention =>
        if c.interactive then
          .answer { stderr := "Error: interactive mode needs a terminal\n", status := 1 }
        else
          let opts : Options :=
            { config := { convention, maxSize := Int64.ofInt c.max, host := machine }
              validate := c.validate
              concurrency := Int64.ofInt c.jobs }
          .list c.wasm { func := c.func, summary := c.summary } opts

namespace Plan

def file? : Plan → Option String
  | answer _ => none
  | list file _ _ => some file

/-- What the program does, given the contents of the file. A breach ends it at once. -/
def output (validate : List UInt8 → Except Invalid Unit) (contents : Option (List UInt8)) :
    Plan → Output
  | answer out => out
  | list file listing opts =>
    let b := Build.ofFile validate file contents opts
    let stdout := match b.compilation with
      | some c => listing.text file c
      | none => ""
    match b.breach, b.problem with
    | some _, _ => { status := 2 }
    | none, some p => { stdout, stderr := "Error: " ++ p.message ++ "\n", status := 1 }
    | none, none => { stdout }

end Plan
end CommandLine
end Sidetable
