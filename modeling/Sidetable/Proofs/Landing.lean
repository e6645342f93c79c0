import Sidetable.Proofs.Job
import Sidetable.Proofs.Turns

/-!
# Where control goes

The entries of a job and the places that their target words stand for. A place is an offset from the
first instruction together with a position in the side table. Which structure a label names, which
instruction closes a structure and how many values a branch carries are read off the instructions;
only the operands at a branch, the instructions that are passed over and the sizes in front of an
instruction are those of the walk.
-/
namespace Sidetable

def Target.spot (t : Target) : Nat × Nat :=
  (t.pc.toNat, t.mc.toNat)

def Metadata.jump? (md : Metadata) (pos : Nat) : Option (Nat × Nat) :=
  (md.target? pos).map Target.spot

/-- What a target word stands for: that a structure is left, or that the condition of an `if`
fails. -/
inductive Aim where
  | exit
  | edge
  deriving DecidableEq, Repr

def Module.typeOf (m : Module) : Immediate → Option FuncType
  | .block type => m.blockType type
  | _ => none

namespace Job

variable (j : Job)

def skips (k : Nat) : Bool :=
  j.code[k]?.any fun i => (j.walk k).skips i.toInstr

def openedBy : Region → Option UInt8
  | .function => none
  | .opened o => j.code[o]?.map fun i => i.opcode

def signature : Region → FuncType
  | .function => j.sig
  | .opened o => (j.code[o]?.bind fun i => j.mod.typeOf i.imm).getD {}

def arity (r : Region) : Nat :=
  if j.openedBy r = some 0x03 then (j.signature r).params.length else (j.signature r).results.length

def setting (k : Nat) (i : Instr.Located) : Setting where
  globals := j.mod.globalInfos
  registers := j.cfg.registers
  layout := .ofParams j.sig.params j.cfg.registers
  pc := i.stop - j.base
  length := i.stop - i.start
  height := (j.walk k).height i.toInstr
  arity d := ((enclosing j.code k)[d.toNat]?.map j.arity).getD 0
  final := if (enclosing j.code k).head? = some .function then some j.sig.results else none

def entry (k : Nat) : List Cell :=
  match j.code[k]? with
  | some i => if j.skips k then [] else (j.setting k i).entry j.mod i.toInstr
  | none => []

/-- Where a branch to a structure lands: after the header and the entry of a loop, on the `end` of
any other, and after the `delegate` that closes a try. -/
inductive Lands (r : Region) : Nat × Nat → Prop where
  | loop {o : Nat} {i : Instr.Located} (region : r = .opened o) (found : j.code[o]? = some i)
      (opcode : i.opcode = 0x03) : Lands r (i.stop - j.base, j.mc (o + 1))
  | exit {c : Nat} {i : Instr.Located} (once : j.openedBy r ≠ some 0x03)
      (closes : Closes j.code r c i) (opcode : i.opcode = 0x0b) : Lands r (i.start - j.base, j.mc c)
  | delegated {c : Nat} {i : Instr.Located} (attempt : j.openedBy r = some 0x06)
      (closes : Closes j.code r c i) (opcode : i.opcode = 0x18) : Lands r (i.stop - j.base, j.mc c)

/-- Where control goes when the condition of an `if` fails: after its `else` and the entry of that,
or after its `end`. -/
inductive Skirts (r : Region) : Nat × Nat → Prop where
  | explicit {e : Nat} {i : Instr.Located} (divides : ElseOf j.code r e i) :
      Skirts r (i.stop - j.base, j.mc (e + 1))
  | implied {c : Nat} {i : Instr.Located} (undivided : ∀ e i, ¬ ElseOf j.code r e i)
      (closes : Closes j.code r c i) (opcode : i.opcode = 0x0b) : Skirts r (i.stop - j.base, j.mc c)

def Meets (r : Region) : Aim → Nat × Nat → Prop
  | .exit => j.Lands r
  | .edge => j.Skirts r

/-- Instruction `k` writes a target word at `pos`: one for each label of a branch, one for the end
of the first part of a conditional, and one for the condition of an `if`. -/
inductive Promises : Nat → Nat → Aim → Region → Prop where
  | branch {k n : Nat} {i : Instr.Located} {d : UInt32} {r : Region} (found : j.code[k]? = some i)
      (reached : j.skips k = false) (label : i.labels[n]? = some d)
      (names : (enclosing j.code k)[d.toNat]? = some r) :
      Promises k (j.mc k + labelOffset i.toInstr n) .exit r
  | otherwise {k : Nat} {i : Instr.Located} {r : Region} (divides : ElseOf j.code r k i)
      (reached : j.skips k = false) : Promises k (j.mc k) .exit r
  | cond {k : Nat} {i : Instr.Located} (found : j.code[k]? = some i) (reached : j.skips k = false)
      (opcode : i.opcode = 0x04) : Promises k (j.mc k) .edge (.opened k)

/-- The place of an instruction that is not passed over. -/
def Reached (spot : Nat × Nat) : Prop :=
  ∃ k i, j.code[k]? = some i ∧ j.skips k = false ∧ spot = (i.start - j.base, j.mc k)

variable {j} {r : Region} {spot spot' : Nat × Nat}

theorem Lands.unique (h : j.Lands r spot) (h' : j.Lands r spot') : spot = spot' := by
  have opened {o : Nat} {i : Instr.Located} (region : r = .opened o) (found : j.code[o]? = some i) :
      j.openedBy r = some i.opcode := by
    simp [openedBy, region, found]
  have closed {c c' : Nat} {i i' : Instr.Located} (closes : Closes j.code r c i)
      (closes' : Closes j.code r c' i') :
      c = c' ∧ i = i' := by
    obtain rfl := closes.index_eq closes'
    exact ⟨rfl, Option.some.inj (closes.found.symm.trans closes'.found)⟩
  cases h with
  | loop region found opcode =>
    cases h' with
    | loop region' found' _ =>
      obtain rfl := Region.opened.inj (region.symm.trans region')
      obtain rfl := Option.some.inj (found.symm.trans found')
      rfl
    | exit once _ _ => exact absurd (by rw [opened region found, opcode]) once
    | delegated attempt _ _ => simp [opened region found, opcode] at attempt
  | exit once closes opcode =>
    cases h' with
    | loop region found opcode' => exact absurd (by rw [opened region found, opcode']) once
    | exit _ closes' _ =>
      obtain ⟨rfl, rfl⟩ := closed closes closes'
      rfl
    | delegated _ closes' opcode' =>
      obtain ⟨rfl, rfl⟩ := closed closes closes'
      simp [opcode] at opcode'
  | delegated attempt closes opcode =>
    cases h' with
    | loop region found opcode' => simp [opened region found, opcode'] at attempt
    | exit _ closes' opcode' =>
      obtain ⟨rfl, rfl⟩ := closed closes closes'
      simp [opcode] at opcode'
    | delegated _ closes' _ =>
      obtain ⟨rfl, rfl⟩ := closed closes closes'
      rfl

end Job
end Sidetable
