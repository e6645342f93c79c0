import Sidetable.Instr.Decode
import Sidetable.Walk

/-!
# Compiling a function

Reads the instructions of a body one by one, walks them, and finishes the side table. The body has
to end with the instruction that closes the function.
-/
namespace Sidetable

inductive CompileError where
  | canceled
  | undefined (func : UInt32)
  | untyped (func : UInt32)
  | undecodable (func : UInt32) (offset : Nat) (f : Fault)
  | rejected (func : UInt32) (instr : Instr.Located) (why : Rejection)
  /-- an instruction stands after the end of the function -/
  | trailing (func : UInt32) (offset : Nat)
  | unterminated (func : UInt32) (offset scopes : Nat)
  | unfinished (u : Generator.Unterminated)
  deriving DecidableEq, Repr

namespace CompileError

def cancellation : Problem :=
  .plain "context canceled"

def problem : CompileError → Problem
  | canceled => .diagnosedBy .canceled cancellation
  | undefined func => .diagnosed (.notFound .compile "defined function" func)
  | untyped func =>
    .diagnosed { phase := .compile, kind := .notFound, path := [Diagnostic.funcPath func],
                 detail := "function type not found" }
  | undecodable func offset f =>
    match f.cause with
    | .unsupportedOpcode op sub pos =>
      .diagnosedBy { phase := .compile, kind := .unsupported, path := [Diagnostic.funcPath func],
                     opcode := Opcode.name op sub, offset := some (UInt32.ofNat pos),
                     detail := "opcode is not supported by the in-place interpreter" } (.fault f)
    | _ =>
      .diagnosedBy { phase := .decode, kind := .invalidData, path := [Diagnostic.funcPath func],
                     offset := some (UInt32.ofNat offset), detail := "decode instruction" }
                     (.fault f)
  | rejected func instr why =>
    .diagnosed { phase := .compile, kind := why.kind, path := [Diagnostic.funcPath func],
                 opcode := instr.name, offset := some (UInt32.ofNat instr.start),
                 detail := why.detail, value := why.value }
  | trailing func offset =>
    .diagnosed { phase := .compile, kind := .invalidData, path := [Diagnostic.funcPath func],
                 offset := some (UInt32.ofNat offset),
                 detail := "instructions after the end of the function" }
  | unterminated func offset scopes =>
    .diagnosed { phase := .compile, kind := .invalidData, path := [Diagnostic.funcPath func],
                 offset := some (UInt32.ofNat offset),
                 detail := s!"function body not terminated: {scopes} scopes open" }
  | unfinished u => .diagnosed u.diagnostic

end CompileError

inductive Verdict where
  | accepted (m : Metadata)
  | refused (e : CompileError)
  | breach (b : Breach)
  deriving DecidableEq, Repr

structure Report where
  verdict : Verdict
  log : Array Event := #[]
  deriving DecidableEq, Repr

namespace Walk

def start (cfg : Config) (mod : Module) (globals : List GlobalInfo) (func : UInt32) (sig : FuncType)
    (body : FuncBody) : Walk :=
  let gen := Generator.start cfg globals func sig { stop := body.codeOffset }
  let gen := body.locals.foldl (fun g run => g.addLocals run.count) gen
  { mod, gen := gen.startCode, frames := [{ kind := .function, sig }]
    numLocals := sig.params.length + body.numLocals }

def moveTo (w : Walk) (i : Instr.Located) : Walk :=
  let site : Site :=
    { start := UInt32.ofNat i.start, stop := UInt32.ofNat i.stop, opcode := i.opcode }
  { w with gen := w.gen.moveTo site }

def refuse (w : Walk) (e : CompileError) : Report :=
  { verdict := .refused e, log := w.gen.log }

def finish (w : Walk) (offset count : Nat) : Report :=
  if w.frames.isEmpty then
    match w.gen.finalize with
    | .ok m =>
      { verdict := .accepted m
        log := w.gen.log.push (.functionCompiled w.gen.func count m.size m.numLocals) }
    | .error u => w.refuse (.unfinished u)
  else w.refuse (.unterminated w.gen.func offset w.frames.length)

/-- Walks the instructions from the cursor to the end of a body of `size` bytes. An instruction
takes at least one byte, so `fuel` as large as the number of unread bytes is enough. -/
def run (size : Nat) : Nat → Nat → Walk → Cursor → Report
  | 0, count, w, c => w.finish c.pos count
  | fuel + 1, count, w, c =>
    if c.rest.isEmpty then w.finish c.pos count
    else if w.frames.isEmpty then w.refuse (.trailing w.gen.func c.pos)
    else
      match Instr.read size c with
      | .error f _ => w.refuse (.undecodable w.gen.func c.pos f)
      | .ok i next =>
        match (w.moveTo i).step i.toInstr with
        | .failed w why => w.refuse (.rejected w.gen.func i why)
        | .breach b => { verdict := .breach b, log := w.gen.log }
        | .done w => run size fuel (count + 1) w next

end Walk

def FuncBody.cursor (b : FuncBody) : Cursor :=
  { pos := b.codeOffset.toNat, rest := b.bytes.drop b.codeOffset.toNat }

namespace Module

/-- Compiles a function that the module defines, given the globals' bindings. -/
def compileWith (mod : Module) (globals : List GlobalInfo) (cfg : Config) (canceled : Bool)
    (func : UInt32) : Report :=
  if canceled then { verdict := .refused .canceled }
  else
    let imported := UInt32.ofNat mod.numImportedFuncs
    let body? := if func < imported then none else mod.code[(func - imported).toNat]?
    match body? with
    | none => { verdict := .refused (.undefined func) }
    | some body =>
      match mod.funcType func with
      | none => { verdict := .refused (.untyped func) }
      | some sig =>
        let c := body.cursor
        let w := Walk.start cfg mod globals func sig body
        Walk.run body.bytes.length c.rest.length 0 w c

def compileFunction (mod : Module) (cfg : Config) (canceled : Bool) (func : UInt32) : Report :=
  mod.compileWith mod.globalInfos cfg canceled func

end Module
end Sidetable
