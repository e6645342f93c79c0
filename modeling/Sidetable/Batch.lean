import Sidetable.Compile

/-!
# Compiling all functions of a module

Every body is a job. A job looks once at whether the batch is canceled, when it starts; the first
job that fails cancels the batch, and so does the caller who calls the work off. A schedule is the
order in which jobs start and stop.
-/
namespace Sidetable

/-- Side tables of the functions that a module defines, in order; `none` for one that has none. -/
structure Compilation where
  mod : Module
  functions : List (Option Metadata)
  deriving DecidableEq, Repr

namespace Compilation

def function? (c : Compilation) (func : UInt32) : Option Metadata :=
  if func.toNat < c.mod.numImportedFuncs then none
  else (c.functions[func.toNat - c.mod.numImportedFuncs]?).join

def metadataSize (c : Compilation) : Nat :=
  c.functions.foldr (fun f n => (f.map Metadata.size).getD 0 + n) 0

end Compilation

inductive Turn where
  | start (job : Nat)
  | stop (job : Nat)
  | callOff
  deriving DecidableEq, Repr

structure Batch where
  functions : List (Option Metadata)
  /-- jobs that have started, with what they will report -/
  running : List (Nat × Report) := []
  canceled : Bool := false
  error : Option CompileError := none
  breach : Option Breach := none
  log : Array Event := #[]
  deriving DecidableEq, Repr

namespace Batch

def settle (b : Batch) (job : Nat) (r : Report) : Batch :=
  let b := { b with log := b.log ++ r.log }
  match r.verdict with
  | .accepted m => { b with functions := b.functions.set job (some m) }
  | .refused e => { b with canceled := true, error := b.error.or (some e) }
  | .breach v => { b with canceled := true, breach := b.breach.or (some v) }

/-- `compile` is told whether the batch is canceled and which job to do. -/
def turn (compile : Bool → Nat → Report) (b : Batch) : Turn → Batch
  | .start job => { b with running := (job, compile b.canceled job) :: b.running }
  | .stop job =>
    match b.running.lookup job with
    | some r => { b with running := b.running.filter (·.1 ≠ job) }.settle job r
    | none => b
  | .callOff => { b with canceled := true }

def run (compile : Bool → Nat → Report) (b : Batch) (schedule : List Turn) : Batch :=
  schedule.foldl (turn compile) b

def sequential (jobs : Nat) : List Turn :=
  (List.range jobs).flatMap fun i => [.start i, .stop i]

end Batch

structure Options where
  config : Config := {}
  validate : Bool := false
  /-- the work was called off before it began -/
  canceled : Bool := false
  /-- functions compiled at a time; as many as there are processors unless it is positive -/
  concurrency : Int64 := 0
  deriving DecidableEq, Repr

def Options.calledOff (o : Options) (schedule : List Turn) : Bool :=
  o.canceled || schedule.contains .callOff

structure Build where
  compilation : Option Compilation := none
  problem : Option Problem := none
  breach : Option Breach := none
  log : Array Event := #[]
  deriving DecidableEq, Repr

namespace Module

def compileScheduled (mod : Module) (opts : Options) (schedule : List Turn) : Build :=
  let globals := mod.globalInfos
  let imported := UInt32.ofNat mod.numImportedFuncs
  let compile (canceled : Bool) (job : Nat) : Report :=
    mod.compileWith globals opts.config canceled (imported + UInt32.ofNat job)
  let start : Batch := { functions := mod.code.map fun _ => none, canceled := opts.canceled }
  let b := start.run compile schedule
  let result : Compilation := { mod, functions := b.functions }
  match b.breach, b.error with
  | some v, _ => { compilation := some result, breach := some v, log := b.log }
  | none, some e => { compilation := some result, problem := some e.problem, log := b.log }
  | none, none =>
    if opts.calledOff schedule then
      { compilation := some result, problem := some CompileError.canceled.problem, log := b.log }
    else
      let done := Event.moduleCompiled b.functions.length mod.numImportedFuncs result.metadataSize
      { compilation := some result, log := b.log.push done }

def compile (mod : Module) (opts : Options) : Build :=
  mod.compileScheduled opts (Batch.sequential mod.code.length)

end Module
end Sidetable
