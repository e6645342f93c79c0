import Sidetable.Build
import Sidetable.Proofs.Bounds
import Sidetable.Proofs.Pairing

/-!
# Nothing that is compiled breaks a contract

The walk checks what it asks the generator for, and an instruction that was read has the immediate
that its opcode calls for. So no module, no body and no order of jobs leads to a breach: what is
asked for is returned, or an error that says what is wrong with the input.
-/
namespace Sidetable

namespace Outcome

variable {σ ε : Type} {o : Outcome σ ε} {next : σ → Outcome σ ε}

def Safe (o : Outcome σ ε) : Prop :=
  ∀ b, o ≠ .breach b

theorem safe_done (s : σ) : (done s : Outcome σ ε).Safe := by
  rintro b ⟨⟩

theorem safe_failed (s : σ) (e : ε) : (failed s e).Safe := by
  rintro b ⟨⟩

theorem Safe.andThen (h : o.Safe) (more : ∀ s, o = .done s → (next s).Safe) :
    (o.andThen next).Safe := by
  intro b breach
  rcases andThen_breach.mp breach with first | ⟨s, done, second⟩
  · exact h b first
  · exact more s done b second

end Outcome

theorem Generator.Records.safe {g : Generator} {l : Ledger} {op : Op} (records : g.Records l)
    (allows : g.Allows op) : (g.apply op).Safe :=
  fun b breach => allows b (records.breach breach)

open Outcome (safe_done safe_failed)

namespace Instr

variable {i : Instr}

def Complete (i : Instr) : Prop :=
  ∀ list, i.imm = .operands list → Opcode.miscOperands i.sub = some list.length

theorem length_times {α : Type} {r : Read α} {n : Nat} {c c' : Cursor} {list : List α}
    (h : times r n c = .ok list c') : list.length = n := by
  induction n generalizing c list with
  | zero =>
    cases h
    rfl
  | succ n ih =>
    obtain ⟨a, c₁, -, h⟩ := Read.bind_ok.mp h
    obtain ⟨rest, c₂, others, h⟩ := Read.bind_ok.mp h
    cases h
    simp [ih others]

theorem complete_of_read {size : Nat} {c next : Cursor} {i : Located}
    (h : read size c = .ok i next) : i.Complete := by
  obtain ⟨start, c₀, ⟨⟩, h⟩ := Read.bind_ok.mp h
  obtain ⟨op, c₁, -, h⟩ := Read.bind_ok.mp h
  obtain ⟨⟨sub, imm⟩, c₂, within, h⟩ := Read.bind_ok.mp h
  obtain ⟨stop, c₃, ⟨⟩, ⟨⟩⟩ := Read.bind_ok.mp h
  rintro list rfl
  have rest : operands size c.pos op c₁ = .ok (sub, .operands list) next := by
    unfold Read.within at within
    split at within
    · rename_i done
      cases within
      exact done
    · cases within
  obtain ⟨-, suits⟩ := yields_operands size c.pos op _ _ _ rest
  have kind : Immediate.Kind.ofOpcode op = .misc := by
    rcases suits with kind | ⟨-, none, -⟩
    · exact kind
    · cases none
  simp only [operands, kind] at rest
  obtain ⟨sub', c₄, -, rest⟩ := Read.bind_ok.mp rest
  rcases count : Opcode.miscOperands sub' with _ | _ | n <;> simp only [count] at rest
  · cases rest
  · cases rest
  · obtain ⟨list', c₅, times, rest⟩ := Read.bind_ok.mp rest
    cases rest
    rw [count, length_times times]

/-- The immediate is what the opcode calls for, so that no action lacks one. -/
theorem Fits.action_ne (fits : i.Fits) : i.action ≠ .malformed := by
  intro malformed
  obtain ⟨op, sub, imm⟩ := i
  unfold action at malformed
  dsimp only at malformed
  split at malformed
  all_goals rcases fits with kind | ⟨kind, -, -⟩
  all_goals first
    | cases malformed
    | cases kind
    | cases imm <;> cases kind; cases malformed

end Instr

namespace Walk

variable {w w' : Walk} {i : Instr} {f : Frame} {rest : List Frame}

theorem safe_withTop {next : Frame → Walking} (inside : w.frames ≠ [])
    (h : ∀ f rest, w.frames = f :: rest → (next f).Safe) : (w.withTop next).Safe := by
  unfold withTop
  split
  · exact h _ _ ‹_›
  · exact absurd ‹_› inside

theorem safe_pop (inside : w.frames ≠ []) (n : Nat) : (w.pop n).Safe := by
  refine safe_withTop inside fun f rest _ => ?_
  split
  · exact safe_failed _ _
  · exact safe_done _

theorem safe_checkLabel (w : Walk) (d : UInt32) (n : Nat) : (w.checkLabel d n).Safe := by
  unfold checkLabel
  split
  · exact safe_failed _ _
  · split
    · exact safe_failed _ _
    · exact safe_done _

theorem safe_checkLabels (w : Walk) (n : Nat) (ds : List UInt32) : (w.checkLabels n ds).Safe := by
  induction ds generalizing w with
  | nil => exact safe_done _
  | cons d others ih => exact (safe_checkLabel w d n).andThen fun m _ => ih m

theorem safe_withTag {tag : UInt32} {next : List ValType → Walking}
    (h : ∀ params, (next params).Safe) : (w.withTag tag next).Safe := by
  unfold withTag
  split
  · exact safe_failed _ _
  · split
    · exact safe_failed _ _
    · exact h _

theorem safe_generate {op : Generator.Op} (recorded : ∃ l, w.gen.Records l)
    (allows : w.gen.Allows op) : (w.generate op).Safe := by
  intro b breach
  obtain ⟨l, records⟩ := recorded
  exact records.safe allows b (Outcome.map_breach.mp breach)

namespace Paired

variable (paired : w.Paired)
include paired

theorem pop {n : Nat} (h : w.pop n = .done w') : w'.Paired ∧ w'.frames ≠ [] := by
  obtain ⟨f, rest, frames, rfl⟩ := pop_done h
  exact ⟨paired.congr rfl (by simp [shapes, frames]), by simp⟩

/-- Takes operands and asks for an operation that is always allowed. -/
theorem safe_pop_generate {n : Nat} {op : Generator.Op} {next : Walk → Walking}
    (inside : w.frames ≠ [])
    (scope : op.needsScope = false) (labels : op.labels = []) (global : op.global? = none)
    (more : ∀ w, (next w).Safe) : ((w.pop n).andThen fun w => (w.generate op).andThen next).Safe :=
  (safe_pop inside n).andThen fun _ popped =>
    (safe_generate (paired.pop popped).1.recorded
      (Generator.allows_of_free scope labels global)).andThen
      fun w _ => more w

theorem safe_enter (inside : w.frames ≠ []) (o : Opener) (type : Int32) :
    (w.enter o type).Safe := by
  unfold Walk.enter
  split
  · exact safe_failed _ _
  · cases o <;> exact paired.safe_pop_generate inside rfl rfl rfl fun _ => safe_done _

theorem safe_otherwise (inside : w.frames ≠ []) : w.otherwise.Safe := by
  refine safe_withTop inside fun f rest frames => ?_
  split
  · rename_i kind
    exact (safe_generate paired.recorded (paired.allows_otherwise frames kind)).andThen fun _ _ =>
      safe_done _
  · exact safe_failed _ _

theorem safe_close (inside : w.frames ≠ []) : w.close.Safe := by
  refine safe_withTop inside fun f rest frames => ?_
  dsimp only
  split
  · rename_i kind
    refine (safe_generate paired.recorded (paired.allows_otherwise frames kind)).andThen
      fun m completed => ?_
    obtain ⟨gen, done, rfl⟩ := generate_done.mp completed
    obtain ⟨l, records⟩ := paired.recorded
    obtain ⟨s, scopes, top, -⟩ := paired.top frames
    have after := (records.did done).scopes
    rw [Generator.scopesAfter, top] at after
    exact (safe_generate ⟨_, records.apply done⟩ (Generator.allows_close after)).andThen fun _ _ =>
      safe_done _
  · refine (safe_done w).andThen fun m same => ?_
    obtain rfl := Outcome.done.inj same
    exact (safe_generate paired.recorded (paired.allows_end frames)).andThen fun _ _ => safe_done _

theorem safe_catchTag (inside : w.frames ≠ []) (name : String) (tag : UInt32) :
    (w.catchTag name tag).Safe := by
  refine safe_withTop inside fun f rest frames => ?_
  split
  · rename_i takes
    refine safe_withTag fun params => ?_
    exact (safe_generate paired.recorded (paired.allows_handle frames takes _)).andThen fun _ _ =>
      safe_done _
  · exact safe_failed _ _

theorem safe_catchAll (inside : w.frames ≠ []) (name : String) : (w.catchAll name).Safe := by
  refine safe_withTop inside fun f rest frames => ?_
  split
  · rename_i takes
    exact (safe_generate paired.recorded (paired.allows_handle frames takes _)).andThen fun _ _ =>
      safe_done _
  · exact safe_failed _ _

theorem safe_delegate (inside : w.frames ≠ []) (d : UInt32) : (w.delegate d).Safe := by
  refine safe_withTop inside fun f rest frames => ?_
  split
  · exact safe_failed _ _
  · rename_i kind
    split
    · exact safe_failed _ _
    · have allows := paired.allows_delegate frames (not_not.mp kind) d
      exact (safe_generate paired.recorded allows).andThen fun _ _ => safe_done _

theorem safe_call (inside : w.frames ≠ []) (tail : Bool) (func : UInt32) :
    (w.call tail func).Safe := by
  unfold call
  split
  · exact safe_failed _ _
  · exact paired.safe_pop_generate inside rfl rfl rfl fun _ => safe_done _

theorem safe_callIndirect (inside : w.frames ≠ []) (tail : Bool) (type table : UInt32) :
    (w.callIndirect tail type table).Safe := by
  unfold callIndirect
  split
  · exact safe_failed _ _
  · exact paired.safe_pop_generate inside rfl rfl rfl fun _ => safe_done _

theorem safe_branch (inside : w.frames ≠ []) (d : UInt32) : (w.branch d).Safe := by
  refine safe_withTop inside fun f rest _ => (safe_checkLabel w d f.height).andThen fun m checked =>
    ?_
  obtain ⟨rfl, reaches⟩ := checkLabel_eq.mp checked
  exact safe_generate paired.recorded (paired.allows_branch reaches)

theorem safe_branchTable (inside : w.frames ≠ []) (ds : List UInt32) (d : UInt32) :
    (w.branchTable ds d).Safe := by
  refine safe_withTop inside fun f rest _ =>
    (safe_checkLabels w f.height (ds ++ [d])).andThen fun m checked => ?_
  obtain ⟨rfl, reaches⟩ := checkLabels_eq.mp checked
  exact safe_generate paired.recorded (paired.allows_branchTable reaches)

theorem safe_miscOperands {sub : UInt32} {list : List UInt32}
    (count : Opcode.miscOperands sub = some list.length) : (w.miscOperands sub list).Safe := by
  have value (v : UInt32) : (w.generate (.value v)).Safe :=
    safe_generate paired.recorded (Generator.allows_of_free rfl rfl rfl)
  have pair (a b : UInt32) : (w.generate (.pair a b)).Safe :=
    safe_generate paired.recorded (Generator.allows_of_free rfl rfl rfl)
  unfold miscOperands
  split
  case h_9 => exact safe_done _
  case h_7 | h_8 =>
    match list, count with
    | a :: b :: _, _ => exact pair a b
  all_goals
    match list, count with
    | a :: _, _ => exact value a

theorem safe_operands (complete : i.Complete) : (w.operands i).Safe := by
  have free {op : Generator.Op} (scope : op.needsScope = false) (labels : op.labels = [])
      (global : op.global? = none) : (w.generate op).Safe :=
    safe_generate paired.recorded (Generator.allows_of_free scope labels global)
  unfold operands
  split
  · split
    · exact safe_failed _ _
    · split <;> exact free rfl rfl rfl
  · split
    · exact safe_failed _ _
    · rename_i index _ inside
      have global {op : Generator.Op} (names : op.global? = some index) : (w.generate op).Safe :=
        safe_generate paired.recorded (Generator.allows_global names (Nat.lt_of_not_le inside))
      split <;> exact global rfl
  · exact free rfl rfl rfl
  · exact free rfl rfl rfl
  · exact free rfl rfl rfl
  · exact free rfl rfl rfl
  · exact free rfl rfl rfl
  · rename_i list imm
    exact paired.safe_miscOperands (complete list imm)
  · split
    · exact free rfl rfl rfl
    · exact safe_done _

theorem safe_plain (inside : w.frames ≠ []) (complete : i.Complete) : (w.plain i).Safe := by
  unfold plain
  split
  · exact safe_failed _ _
  · exact (safe_pop inside _).andThen fun m popped =>
      ((paired.pop popped).1.safe_operands complete).andThen fun _ _ => safe_done _

theorem safe_stepLive (inside : w.frames ≠ []) (fits : i.Fits) (complete : i.Complete) :
    (w.stepLive i).Safe := by
  have malformed := fits.action_ne
  unfold stepLive
  generalize i.action = action at malformed
  cases action with
  | leave => exact safe_done _
  | enter o type => exact paired.safe_enter inside o type
  | otherwise => exact paired.safe_otherwise inside
  | close =>
    refine safe_withTop inside fun f rest _ => ?_
    split
    · exact safe_failed _ _
    · exact paired.safe_close inside
  | branch d => exact (paired.safe_branch inside d).andThen fun _ _ => safe_done _
  | branchIf d =>
    refine (safe_pop inside 1).andThen fun m popped => ?_
    obtain ⟨paired, inside⟩ := paired.pop popped
    exact paired.safe_branch inside d
  | branchTable ds d =>
    refine (safe_pop inside 1).andThen fun m popped => ?_
    obtain ⟨paired, inside⟩ := paired.pop popped
    exact (paired.safe_branchTable inside ds d).andThen fun _ _ => safe_done _
  | call tail func => exact paired.safe_call inside tail func
  | callIndirect tail type table => exact paired.safe_callIndirect inside tail type table
  | throwTag tag =>
    exact safe_withTag fun params => (safe_pop inside _).andThen fun _ _ => safe_done _
  | rethrow d =>
    simp only [rethrow]
    split
    · exact safe_done _
    · exact safe_failed _ _
  | catchTag tag => exact paired.safe_catchTag inside _ tag
  | catchAll => exact paired.safe_catchAll inside _
  | delegate d => exact paired.safe_delegate inside d
  | plain => exact paired.safe_plain inside complete
  | unsupported => exact safe_failed _ _
  | malformed => exact absurd rfl malformed

theorem safe_stepDead (inside : w.frames ≠ []) (fits : i.Fits) (d : Nat) :
    (w.stepDead d i).Safe := by
  have malformed := fits.action_ne
  unfold stepDead
  generalize i.action = action at malformed
  cases action with
  | close =>
    cases d with
    | zero => exact paired.safe_close inside
    | succ d => exact safe_done _
  | delegate label =>
    cases d with
    | zero => exact paired.safe_delegate inside label
    | succ d => exact safe_done _
  | otherwise =>
    cases d with
    | zero => exact paired.safe_otherwise inside
    | succ d => exact safe_done _
  | catchTag tag =>
    cases d with
    | zero => exact paired.safe_catchTag inside _ tag
    | succ d => exact safe_done _
  | catchAll =>
    cases d with
    | zero => exact paired.safe_catchAll inside _
    | succ d => exact safe_done _
  | malformed => exact absurd rfl malformed
  | _ => exact safe_done _

theorem safe_step (inside : w.frames ≠ []) (fits : i.Fits) (complete : i.Complete) :
    (w.step i).Safe := by
  unfold step
  split
  · exact paired.safe_stepDead inside fits _
  · exact paired.safe_stepLive inside fits complete

end Paired

end Walk

/-- A function has a side table or an error; that its table was not finished is no error that is
met. -/
def Verdict.Proper : Verdict → Prop
  | .accepted _ => True
  | .refused e => ∀ u, e ≠ .unfinished u
  | .breach _ => False

namespace Walk

variable {w : Walk}

theorem Paired.proper_finish (paired : w.Paired) (offset count : Nat) :
    (w.finish offset count).verdict.Proper := by
  unfold finish
  split
  · rename_i closed
    have finished := paired.ended (by simpa [shapes] using closed)
    rw [Generator.finalize, if_pos finished]
    exact trivial
  · rintro u ⟨⟩

theorem Paired.proper_run (paired : w.Paired) (size fuel count : Nat) (c : Cursor) :
    (run size fuel count w c).verdict.Proper := by
  induction fuel generalizing w count c with
  | zero => exact paired.proper_finish _ _
  | succ fuel ih =>
    unfold run
    split
    · exact paired.proper_finish _ _
    · split
      · rintro u ⟨⟩
      · rename_i inside
        split
        · rintro u ⟨⟩
        · rename_i i next read
          have inside : (w.moveTo i).frames ≠ [] := by simpa [Walk.moveTo] using inside
          have fits := (Instr.read_ok read).2.2.2.2.1
          split
          · rintro u ⟨⟩
          · rename_i b breach
            exact (paired.moveTo i).safe_step inside fits (Instr.complete_of_read read) b breach
          · rename_i w' done
            exact ih
              ((paired.moveTo i).turn (by simpa [shapes] using inside) (step_turn fits done).2) _ _

end Walk

theorem Module.proper_compileFunction (mod : Module) (cfg : Config) (canceled : Bool)
    (func : UInt32) : (mod.compileFunction cfg canceled func).verdict.Proper := by
  cases canceled with
  | true => rintro u ⟨⟩
  | false =>
    by_cases found : (mod.bodyOf func).isSome
    · by_cases typed : (mod.funcType func).isSome
      · rw [(Job.mk mod cfg func).compile_eq_run found typed]
        exact (Walk.Paired.start _).proper_run _ _ _ _
      · obtain ⟨body, found⟩ := Option.isSome_iff_exists.mp found
        rw [Module.bodyOf] at found
        simp only [compileFunction, compileWith, found, Option.not_isSome_iff_eq_none.mp typed]
        rintro u ⟨⟩
    · have none := Option.not_isSome_iff_eq_none.mp found
      rw [Module.bodyOf] at none
      simp only [compileFunction, compileWith, none]
      rintro u ⟨⟩

namespace Batch

variable {compile : Bool → Nat → Report} {b : Batch}

structure Proper (b : Batch) : Prop where
  breach : b.breach = none
  error : ∀ e ∈ b.error, ∀ u, e ≠ .unfinished u
  running : ∀ r ∈ b.running, r.2.verdict.Proper

theorem Proper.settle {r : Report} (proper : b.Proper) (h : r.verdict.Proper) (job : Nat) :
    (b.settle job r).Proper := by
  unfold Batch.settle
  dsimp only
  split
  · exact ⟨proper.breach, proper.error, proper.running⟩
  · rename_i e refused
    rw [refused] at h
    refine ⟨proper.breach, ?_, proper.running⟩
    cases first : b.error with
    | none =>
      rintro e' ⟨⟩
      exact h
    | some e₀ =>
      rintro e' ⟨⟩
      exact proper.error e₀ first
  · rename_i v breach
    rw [breach] at h
    exact h.elim

theorem Proper.turn (proper : b.Proper) (h : ∀ canceled job, (compile canceled job).verdict.Proper)
    (t : Turn) : (b.turn compile t).Proper := by
  cases t with
  | start job =>
    exact ⟨proper.breach, proper.error, List.forall_mem_cons.mpr ⟨h _ _, proper.running⟩⟩
  | stop job =>
    unfold Batch.turn
    dsimp only
    split
    · rename_i r found
      obtain ⟨before, after, running, -⟩ := List.lookup_eq_some_iff.mp found
      have others : ∀ r' ∈ b.running.filter (·.1 ≠ job), r'.2.verdict.Proper :=
        fun r' mem => proper.running r' (List.mem_of_mem_filter mem)
      have this : r.verdict.Proper := proper.running (job, r) (by simp [running])
      exact Proper.settle (b := { b with running := b.running.filter (·.1 ≠ job) })
        ⟨proper.breach, proper.error, others⟩ this job
    · exact proper
  | callOff => exact ⟨proper.breach, proper.error, proper.running⟩

theorem Proper.run (proper : b.Proper) (h : ∀ canceled job, (compile canceled job).verdict.Proper)
    (schedule : List Turn) : (b.run compile schedule).Proper := by
  induction schedule generalizing b with
  | nil => exact proper
  | cons t rest ih => exact ih (proper.turn h t)

end Batch

structure Problem.Proper (p : Problem) : Prop where
  structured : p.first?.isSome
  finished : ∀ u, p ≠ (CompileError.unfinished u).problem

theorem Rejection.kind_ne (why : Rejection) : why.kind ≠ .invalidInput := by
  cases why with
  | allocation e =>
    cases e <;>
      simp [kind, AllocationError.diagnostic, Diagnostic.allocationFailed, Kind.allocation,
      Kind.invalidInput]
  | _ =>
    simp [kind, Kind.invalidData, Kind.notFound, Kind.outOfBounds, Kind.unsupported,
      Kind.invalidInput]

theorem CompileError.proper_problem {e : CompileError} (h : ∀ u, e ≠ .unfinished u) :
    e.problem.Proper := by
  have other (d : Diagnostic) (kind : d.kind ≠ .invalidInput) : (Problem.diagnosed d).Proper := by
    refine ⟨rfl, fun u same => kind ?_⟩
    cases same
    rfl
  have caused (d : Diagnostic) (cause : Problem) : (Problem.diagnosedBy d cause).Proper :=
    ⟨rfl, by rintro u ⟨⟩⟩
  cases e with
  | canceled => exact caused _ _
  | undecodable func offset f =>
    simp only [problem]
    split <;> exact caused _ _
  | rejected func instr why => exact other _ why.kind_ne
  | unfinished u => exact absurd rfl (h u)
  | undefined func =>
    exact other _ (by simp [Diagnostic.notFound, Kind.notFound, Kind.invalidInput])
  | untyped func => exact other _ (by simp [Kind.notFound, Kind.invalidInput])
  | _ => exact other _ (by simp [Kind.invalidData, Kind.invalidInput])

structure Build.Proper (b : Build) : Prop where
  breach : b.breach = none
  problem : ∀ p ∈ b.problem, p.Proper
  result : b.problem = none → b.compilation.isSome

theorem Module.proper_compileScheduled (mod : Module) (opts : Options) (schedule : List Turn) :
    (mod.compileScheduled opts schedule).Proper := by
  have proper :=
    Batch.Proper.run (b := { functions := mod.code.map fun _ => none, canceled := opts.canceled })
    ⟨rfl, by simp, by simp⟩ (fun canceled job => mod.proper_compileFunction opts.config canceled
      (UInt32.ofNat mod.numImportedFuncs + UInt32.ofNat job)) schedule
  simp only [compileFunction] at proper
  unfold compileScheduled
  dsimp only
  split
  · rename_i v breach
    rw [proper.breach] at breach
    cases breach
  · rename_i e _ error
    refine ⟨rfl, ?_, by simp⟩
    rintro p ⟨⟩
    exact CompileError.proper_problem (proper.error e error)
  · split
    · refine ⟨rfl, ?_, by simp⟩
      rintro p ⟨⟩
      exact CompileError.proper_problem (by simp)
    · exact ⟨rfl, by simp, fun _ => rfl⟩

theorem Build.proper_ofBinary (validate : List UInt8 → Except Invalid Unit) (bytes : List UInt8)
    (opts : Options) (unchecked : opts.validate = false) :
    (ofBinary validate bytes opts).Proper := by
  unfold ofBinary
  split
  · refine ⟨rfl, ?_, by simp⟩
    rintro p ⟨⟩
    exact ⟨rfl, by rintro u ⟨⟩⟩
  · simp only [unchecked]
    exact Module.proper_compileScheduled _ _ _

/-- Whatever is compiled, there is a result or an error and no breach: a binary module without
validation, a module that was built by hand, its jobs in any order, and each function by itself. The
readers that this rests on stay inside their bytes, and every entry is filled inside the bytes that
were allocated for it. -/
theorem compilation_never_breaches :
    (∀ (validate : List UInt8 → Except Invalid Unit) (bytes : List UInt8) (opts : Options),
      (Build.ofBinary validate bytes { opts with validate := false }).Proper) ∧
    (∀ (mod : Module) (opts : Options) (schedule : List Turn),
      (mod.compileScheduled opts schedule).Proper) ∧
    (∀ (mod : Module) (cfg : Config) (canceled : Bool) (func : UInt32),
      (mod.compileFunction cfg canceled func).verdict.Proper) ∧
    (Read.Stays Module.read ∧ (∀ id, Read.Stays (Section.read id)) ∧ Read.Stays Read.localRuns ∧
      ∀ size fuel, Read.Stays (Instr.read size) ∧ Read.Stays (Instr.skipExpr size fuel)) ∧
    (∀ (b b' : Buffer) (cells : List Cell), b.append (Cell.blank cells) = .ok b' →
      ∃ a, b.allocate (Int64.ofNat (Cell.sizes cells)) = .ok a ∧
        a.fill (UInt32.ofNat b.size) 0 cells = .ok b') := by
  refine ⟨fun validate bytes opts => ?_, ?_, ?_, ⟨?_, ?_, ?_, ?_⟩, ?_⟩
  · exact Build.proper_ofBinary validate bytes _ rfl
  · exact Module.proper_compileScheduled
  · exact Module.proper_compileFunction
  · exact Read.stays_module
  · exact Read.stays_section
  · exact Read.stays_localRuns
  · exact fun size fuel => ⟨Read.stays_instr size, Read.stays_skipExpr size fuel⟩
  · exact fun _ _ _ => Buffer.append_eq_fill

end Sidetable
