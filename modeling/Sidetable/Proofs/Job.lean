import Sidetable.Compile
import Sidetable.Proofs.Nesting
import Sidetable.Proofs.Reading

/-!
# Compiling one function

A job is a function of a module that is to be compiled. Its code is what the body decodes to, and
`walk k` is the walk in front of instruction `k`. A job that is accepted decodes, succeeds at every
instruction, and ends with no frame open.
-/
namespace Sidetable

def Module.bodyOf (m : Module) (func : UInt32) : Option FuncBody :=
  let imported := UInt32.ofNat m.numImportedFuncs
  if func < imported then none else m.code[(func - imported).toNat]?

structure Job where
  mod : Module
  cfg : Config
  func : UInt32
  deriving DecidableEq

namespace Job

variable (j : Job)

def body : FuncBody :=
  (j.mod.bodyOf j.func).getD {}

def sig : FuncType :=
  (j.mod.funcType j.func).getD {}

/-- Compilation succeeds with the given side table. -/
def Accepted (md : Metadata) : Prop :=
  (j.mod.compileFunction j.cfg false j.func).verdict = .accepted md

instance (md : Metadata) : Decidable (j.Accepted md) :=
  inferInstanceAs (Decidable (_ = _))

def code : List Instr.Located :=
  (Instr.readAll j.body.bytes.length j.body.cursor.rest.length j.body.cursor).toOption.getD []

def base : Nat :=
  j.body.codeOffset.toNat

def start : Walk :=
  .start j.cfg j.mod j.mod.globalInfos j.func j.sig j.body

end Job

theorem Generator.foldl_addLocals (runs : List LocalRun) (g : Generator) :
    runs.foldl (fun g run => g.addLocals run.count) g =
      { g with numLocals := g.numLocals + UInt32.ofNat (LocalRun.total runs) } := by
  induction runs generalizing g with
  | nil =>
    have total : UInt32.ofNat (LocalRun.total []) = 0 := rfl
    rw [List.foldl_nil, total, UInt32.add_zero]
  | cons run rest ih =>
    have total : LocalRun.total (run :: rest) = run.count.toNat + LocalRun.total rest := rfl
    rw [List.foldl_cons, ih, total, UInt32.ofNat_add, UInt32.ofNat_toNat, ← UInt32.add_assoc]
    rfl

/-- What the generator holds in front of the first instruction. -/
theorem Job.gen_start (j : Job) : j.start.gen =
    { Generator.start j.cfg j.mod.globalInfos j.func j.sig { stop := j.body.codeOffset } with
      numLocals := UInt32.ofNat (j.sig.params.length + j.body.numLocals),
      bytecodeOffset := j.body.codeOffset } := by
  rw [Job.start, Walk.start, Generator.foldl_addLocals, UInt32.ofNat_add]
  rfl

def Walk.next (w : Walk) (i : Instr.Located) : Walk :=
  match (w.moveTo i).step i.toInstr with
  | .done w' => w'
  | _ => w

namespace Job

variable (j : Job)

def walk (k : Nat) : Walk :=
  (j.code.take k).foldl Walk.next j.start

def mc (k : Nat) : Nat :=
  (j.walk k).gen.size

variable {j} {k : Nat} {i : Instr.Located} {md : Metadata}

theorem walk_zero : j.walk 0 = j.start :=
  rfl

theorem walk_succ (hi : j.code[k]? = some i) : j.walk (k + 1) = (j.walk k).next i := by
  obtain ⟨inside, rfl⟩ := List.getElem?_eq_some_iff.mp hi
  rw [walk, walk, List.take_succ_eq_append_getElem inside, List.foldl_append]
  rfl

end Job

namespace Walk

def Succeeds : Walk → List Instr.Located → Prop
  | _, [] => True
  | w, i :: rest =>
    w.frames ≠ [] ∧ (w.moveTo i).step i.toInstr = .done (w.next i) ∧ (w.next i).Succeeds rest

theorem run_accepted {size fuel count : Nat} {w : Walk} {c : Cursor} {md : Metadata}
    (h : (run size fuel count w c).verdict = .accepted md) :
    ∃ is, Instr.readAll size fuel c = .ok is ∧ w.Succeeds is ∧ (is.foldl Walk.next w).frames = [] ∧
      (is.foldl Walk.next w).gen.finalize = .ok md := by
  have finished {w : Walk} {offset count : Nat} (h : (w.finish offset count).verdict = .accepted md)
      :
      w.frames = [] ∧ w.gen.finalize = .ok md := by
    unfold finish at h
    split at h
    · rename_i none
      split at h
      · rename_i m final
        obtain rfl : m = md := by simpa using h
        exact ⟨List.isEmpty_iff.mp none, final⟩
      · cases h
    · cases h
  induction fuel generalizing count w c with
  | zero => exact ⟨[], rfl, trivial, finished h⟩
  | succ fuel ih =>
    unfold run at h
    unfold Instr.readAll
    split at h
    · rename_i none
      exact ⟨[], if_pos none, trivial, finished h⟩
    · rename_i some
      rw [if_neg some]
      split at h
      · cases h
      · rename_i open_
        split at h
        · cases h
        · rename_i i next read
          split at h
          · cases h
          · cases h
          · rename_i w' done
            obtain ⟨is, others, succeeds, closed, final⟩ := ih h
            have moved : w.next i = w' := by rw [Walk.next, done]
            refine ⟨i :: is, by simp [read, others, Except.map], ⟨?_, ?_, ?_⟩, ?_, ?_⟩
            · simpa using open_
            · rw [moved, done]
            · rwa [moved]
            · rwa [List.foldl_cons, moved]
            · rwa [List.foldl_cons, moved]

theorem accepted_of_succeeds {size fuel count : Nat} {w : Walk} {c : Cursor} {md : Metadata}
    {is : List Instr.Located} (all : Instr.readAll size fuel c = .ok is) (succeeds : w.Succeeds is)
    (closed : (is.foldl Walk.next w).frames = [])
    (final : (is.foldl Walk.next w).gen.finalize = .ok md) :
    (run size fuel count w c).verdict = .accepted md := by
  have finished {w : Walk} {offset count : Nat} (closed : w.frames = [])
      (final : w.gen.finalize = .ok md) :
      (w.finish offset count).verdict = .accepted md := by
    simp [finish, closed, final]
  induction fuel generalizing count w c is with
  | zero =>
    obtain rfl := Except.ok.inj all
    exact finished closed final
  | succ fuel ih =>
    unfold run
    rcases Instr.readAll_succ all with ⟨none, rfl⟩ | ⟨some, i, next, rest, read, others, rfl⟩
    · rw [if_pos none]
      exact finished closed final
    · obtain ⟨open_, done, more⟩ := succeeds
      rw [if_neg some, if_neg (by simpa using open_), read]
      simp only [done]
      exact ih others more closed final

theorem Succeeds.step_done {w : Walk} {is : List Instr.Located} (h : w.Succeeds is) {k : Nat}
    {i : Instr.Located} (hi : is[k]? = some i) :
    ((is.take k).foldl Walk.next w).frames ≠ [] ∧
      (((is.take k).foldl Walk.next w).moveTo i).step i.toInstr =
        .done (((is.take k).foldl Walk.next w).next i) := by
  induction is generalizing w k with
  | nil => simp at hi
  | cons a rest ih =>
    obtain ⟨open_, done, others⟩ := h
    cases k with
    | zero =>
      obtain rfl : a = i := by simpa using hi
      exact ⟨open_, done⟩
    | succ k =>
      rw [List.take_succ_cons, List.foldl_cons]
      exact ih others (by simpa using hi)

end Walk

namespace Job

variable {j : Job} {k : Nat} {i : Instr.Located} {md : Metadata}

/-- A function that has a body and a type is compiled by a run over its code. -/
theorem compile_eq_run (found : (j.mod.bodyOf j.func).isSome)
    (typed : (j.mod.funcType j.func).isSome) :
    j.mod.compileFunction j.cfg false j.func =
      Walk.run j.body.bytes.length j.body.cursor.rest.length 0 j.start j.body.cursor := by
  obtain ⟨body, hb⟩ := Option.isSome_iff_exists.mp found
  obtain ⟨sig, hs⟩ := Option.isSome_iff_exists.mp typed
  have body_eq : j.body = body := by rw [Job.body, hb]; rfl
  have sig_eq : j.sig = sig := by rw [Job.sig, hs]; rfl
  rw [Module.bodyOf] at hb
  simp [Module.compileFunction, Module.compileWith, hb, hs, body_eq, sig_eq, Job.start]

theorem accepted_found (h : j.Accepted md) :
    (j.mod.bodyOf j.func).isSome ∧ (j.mod.funcType j.func).isSome := by
  simp only [Accepted, Module.compileFunction, Module.compileWith, Bool.false_eq_true,
    if_false] at h
  split at h
  · cases h
  · rename_i body found
    split at h
    · cases h
    · rename_i sig typed
      exact ⟨by simp [Module.bodyOf, found], by simp [typed]⟩

theorem accepted_run (h : j.Accepted md) :
    (Walk.run j.body.bytes.length j.body.cursor.rest.length 0 j.start j.body.cursor).verdict =
    .accepted md := by
  obtain ⟨found, typed⟩ := accepted_found h
  rwa [Accepted, compile_eq_run found typed] at h

theorem accepted_walk (h : j.Accepted md) :
    Instr.readAll j.body.bytes.length j.body.cursor.rest.length j.body.cursor = .ok j.code ∧
      j.start.Succeeds j.code ∧ (j.walk j.code.length).frames = [] ∧
      (j.walk j.code.length).gen.finalize = .ok md := by
  obtain ⟨is, all, succeeds, closed, final⟩ := Walk.run_accepted (accepted_run h)
  have same : j.code = is := by simp [code, all, Except.toOption]
  rw [walk, List.take_length, same]
  exact ⟨all, succeeds, closed, final⟩

theorem step_done (h : j.Accepted md) (hi : j.code[k]? = some i) :
    (j.walk k).frames ≠ [] ∧ ((j.walk k).moveTo i).step i.toInstr = .done (j.walk (k + 1)) := by
  rw [walk_succ hi]
  exact (accepted_walk h).2.1.step_done hi

theorem code_laid (h : j.Accepted md) : Instr.Laid j.base j.code :=
  (Instr.readAll_ok (accepted_walk h).1).1

end Job
end Sidetable
