import Sidetable.Batch

/-!
# Handing out jobs

Which schedules a compilation can meet. A loop goes over the jobs in order. Before each it looks
whether the batch is canceled, and then it is left; else it waits until fewer than `limit` jobs are
under way and hands the next one over. A job that was handed over starts and stops later, in no
order with the others, and the caller may call the work off at any moment. The compilation ends when
the loop and every job are done.
-/
namespace Sidetable

def Options.limit (o : Options) (processors : Nat) : Nat :=
  if 0 < o.concurrency then o.concurrency.toInt.toNat else processors

structure Dispatch where
  batch : Batch
  /-- the jobs below this one were handed over -/
  handed : Nat := 0
  /-- the loop has looked and will hand over the next job -/
  ready : Bool := false
  /-- the loop was left because the batch was canceled -/
  left : Bool := false
  /-- jobs that were handed over and have not started -/
  waiting : List Nat := []
  deriving DecidableEq, Repr

inductive Move where
  /-- the loop looks whether the batch is canceled -/
  | look
  | hand
  | turn (t : Turn)
  deriving DecidableEq, Repr

def Move.schedule (moves : List Move) : List Turn :=
  moves.filterMap fun
    | .turn t => some t
    | _ => none

namespace Dispatch

def running (d : Dispatch) : List Nat :=
  d.batch.running.map Prod.fst

def underway (d : Dispatch) : List Nat :=
  d.waiting ++ d.running

def Enabled (limit jobs : Nat) (d : Dispatch) : Move → Prop
  | .look => d.left = false ∧ d.ready = false ∧ d.handed < jobs
  | .hand => d.ready = true ∧ d.underway.length < limit
  | .turn (.start job) => job ∈ d.waiting
  | .turn (.stop job) => job ∈ d.running
  | .turn .callOff => True

instance (limit jobs : Nat) (d : Dispatch) : (m : Move) → Decidable (d.Enabled limit jobs m)
  | .look => inferInstanceAs (Decidable (_ ∧ _ ∧ _))
  | .hand => inferInstanceAs (Decidable (_ ∧ _))
  | .turn (.start _) => inferInstanceAs (Decidable (_ ∈ _))
  | .turn (.stop _) => inferInstanceAs (Decidable (_ ∈ _))
  | .turn .callOff => isTrue trivial

def waitingAfter (d : Dispatch) : Turn → List Nat
  | .start job => d.waiting.erase job
  | _ => d.waiting

def next (compile : Bool → Nat → Report) (d : Dispatch) : Move → Dispatch
  | .look => if d.batch.canceled then { d with left := true } else { d with ready := true }
  | .hand => { d with waiting := d.handed :: d.waiting, handed := d.handed + 1, ready := false }
  | .turn t => { d with waiting := d.waitingAfter t, batch := d.batch.turn compile t }

def run (compile : Bool → Nat → Report) (limit jobs : Nat) : Dispatch → List Move → Option Dispatch
  | d, [] => some d
  | d, m :: rest =>
    if d.Enabled limit jobs m then run compile limit jobs (d.next compile m) rest else none

def Over (jobs : Nat) (d : Dispatch) : Prop :=
  (d.left = true ∨ d.handed = jobs) ∧ d.underway = []

instance (jobs : Nat) (d : Dispatch) : Decidable (d.Over jobs) :=
  inferInstanceAs (Decidable (_ ∧ _))

end Dispatch

namespace Module

def defined (mod : Module) (job : Nat) : UInt32 :=
  UInt32.ofNat mod.numImportedFuncs + UInt32.ofNat job

def report (mod : Module) (opts : Options) (canceled : Bool) (job : Nat) : Report :=
  mod.compileFunction opts.config canceled (mod.defined job)

/-- The moves of a compilation, on a machine with that many processors. -/
def dispatch (mod : Module) (opts : Options) (processors : Nat) (moves : List Move) :
    Option Dispatch :=
  let start : Batch := { functions := mod.code.map fun _ => none, canceled := opts.canceled }
  Dispatch.run (mod.report opts) (opts.limit processors) mod.code.length { batch := start } moves

end Module
end Sidetable
