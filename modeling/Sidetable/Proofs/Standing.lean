import Sidetable.Proofs.Conservation
import Sidetable.Proofs.Landing

/-!
# The open structures of a walk

In front of an instruction, the frames of the walk and the scopes of the generator are those of the
structures that enclose it, without the ones that were opened in unreachable code. `Stands` ties the
three together with what the side table records, and every instruction that succeeds keeps it.
-/
namespace Sidetable

structure Level where
  region : Region
  kind : FrameKind
  scope : Scope

namespace FrameKind

def scope : FrameKind → ScopeKind
  | function => .toplevel
  | block => .block
  | loop => .loop
  | cond false => .cond
  | cond true => .block
  | attempt => .attempt
  | handler _ => .handler

def opcode : FrameKind → Option UInt8
  | function => none
  | block => some 0x02
  | loop => some 0x03
  | cond _ => some 0x04
  | attempt | handler _ => some 0x06

end FrameKind

namespace Generator

def constants (g : Generator) : List GlobalInfo × Registers × Layout × UInt32 :=
  (g.globals, g.registers, g.layout, g.bytecodeOffset)

theorem constants_of_plan {g g' : Generator} (h : g'.plan = g.plan) : g'.constants = g.constants :=
  (congrArg constants h : g'.plan.constants = g.plan.constants)

end Generator

structure Job.At (j : Job) (k : Nat) (i : Instr.Located) : Prop where
  found : j.code[k]? = some i
  inside : (j.walk k).shapes ≠ []
  mod : (j.walk (k + 1)).mod = (j.walk k).mod
  turn : ((j.walk k).moveTo i).Turn i.toInstr (j.walk (k + 1))
  base_le : j.base ≤ i.start
  start_lt : i.start < i.stop
  stop_lt : i.stop < 2 ^ 32
  bare : i.opcode = 0x0b → i.stop = i.start + 1
  next : (j.walk (k + 1)).shapes ≠ [] → ∃ i', j.code[k + 1]? = some i' ∧ i'.start = i.stop

theorem Job.at_of_accepted {j : Job} {md : Metadata} (h : j.Accepted md)
    (short : j.body.bytes.length < 2 ^ 31)
    {k : Nat} {i : Instr.Located} (hi : j.code[k]? = some i) : j.At k i := by
  obtain ⟨all, -, closed, -⟩ := accepted_walk h
  obtain ⟨laid, each⟩ := Instr.readAll_ok all
  obtain ⟨stop, fits, bare⟩ := each i (List.mem_of_getElem? hi)
  obtain ⟨inside, done⟩ := step_done h hi
  obtain ⟨mod, turn⟩ := Walk.step_turn fits done
  obtain ⟨above, more⟩ := laid.start_lt_stop hi
  have within : k < j.code.length := (List.getElem?_eq_some_iff.mp hi).1
  have base : j.body.cursor.pos = j.base := rfl
  have rest : j.body.cursor.rest.length = j.body.bytes.length - j.base := by
    simp [FuncBody.cursor, Job.base]
  have some_rest : j.base ≤ j.body.bytes.length := by omega
  refine ⟨hi, by simpa [Walk.shapes] using inside, mod, turn, above, more, by omega, bare,
    fun opened => ?_⟩
  have more : k + 1 < j.code.length := by
    rcases Nat.lt_or_eq_of_le (Nat.succ_le_of_lt within) with lt | eq
    · exact lt
    · rw [← eq] at closed
      simp [Walk.shapes, closed] at opened
  exact ⟨_, List.getElem?_eq_getElem more, laid.stop_eq hi (List.getElem?_eq_getElem more)⟩

namespace Level

structure Good (j : Job) (L : Level) : Prop where
  kind : L.scope.kind = L.kind.scope
  opcode : j.openedBy L.region = L.kind.opcode
  sig : L.scope.sig = j.signature L.region
  outermost : L.region = .function ↔ L.kind = .function
  entry : L.kind = .loop → ∃ t, L.scope.entry = some t ∧ j.Lands L.region t.spot ∧ j.Reached t.spot

/-- Words that wait for the structure with an aim. The word of a conditional waits for its `else`,
then for its end. -/
def waits (L : Level) : Aim → List UInt32
  | .exit => if L.kind = .cond false then L.scope.awaiting else L.scope.waiting
  | .edge => if L.kind = .cond false then L.scope.pending.toList else []

def Divided (j : Job) (k : Nat) (L : Level) : Prop :=
  ∀ b, L.kind = .cond b → (b = true ↔ ∃ e < k, ∃ i, ElseOf j.code L.region e i)

theorem Good.branchTypes {j : Job} {L : Level} (h : L.Good j) :
    L.scope.branchTypes.length = j.arity L.region := by
  have loop : L.scope.kind = .loop ↔ j.openedBy L.region = some 0x03 := by
    rw [h.kind, h.opcode]
    cases L.kind with
    | cond b => cases b <;> simp [FrameKind.scope, FrameKind.opcode]
    | _ => simp [FrameKind.scope, FrameKind.opcode]
  simp only [Scope.branchTypes, Job.arity, loop, h.sig]
  split <;> rfl

end Level

structure Stands (j : Job) (k : Nat) (levels : List Level) (l : Ledger) : Prop where
  regions : levels.map Level.region = (enclosing j.code k).drop ((j.walk k).dead.getD 0)
  shapes : levels.map (fun L => (L.kind, L.scope.sig)) = (j.walk k).shapes
  scopes : levels.map Level.scope = (j.walk k).gen.scopes
  good : ∀ L ∈ levels, L.Good j
  divided : ∀ L ∈ levels, L.Divided j k
  bottom : ∀ r, (levels.map Level.region).getLast? = some r → r = .function
  buried : ∀ r ∈ (enclosing j.code k).take ((j.walk k).dead.getD 0), ∃ o, r = .opened o ∧ j.skips o
  records : (j.walk k).gen.Records l
  cells : l.cells = (List.range k).flatMap j.entry
  mod : (j.walk k).mod = j.mod
  constants : (j.walk k).gen.constants = j.start.gen.constants

namespace Stands

variable {j : Job} {k : Nat} {i : Instr.Located} {levels : List Level} {l : Ledger}

theorem mc_eq (h : Stands j k levels l) : j.mc k = l.size :=
  h.records.holds.size

theorem mc_lt (h : Stands j k levels l) : j.mc k < 2 ^ 32 := by
  have := h.records.holds.bound
  rw [h.mc_eq]
  exact Nat.lt_of_le_of_lt this (by decide)

theorem toNat_mc (h : Stands j k levels l) : ((j.walk k).moveTo i).gen.mc.toNat = j.mc k :=
  Nat.mod_eq_of_lt h.mc_lt

theorem start_constants (j : Job) : j.start.gen.constants =
    (j.mod.globalInfos, j.cfg.registers, .ofParams j.sig.params j.cfg.registers,
      j.body.codeOffset) := by
  rw [j.gen_start]
  rfl

theorem toNat_pc (h : Stands j k levels l) (here : j.At k i) :
    ((j.walk k).moveTo i).gen.pc.toNat = i.stop - j.base := by
  have constants := h.constants
  rw [start_constants] at constants
  have offset : (j.walk k).gen.bytecodeOffset = j.body.codeOffset := congrArg (·.2.2.2) constants
  have start : ((j.walk k).moveTo i).gen.pc = UInt32.ofNat i.stop - j.body.codeOffset := by
    rw [← offset]
    rfl
  have stop : (UInt32.ofNat i.stop).toNat = i.stop := Nat.mod_eq_of_lt here.stop_lt
  have le : j.body.codeOffset ≤ UInt32.ofNat i.stop := by
    rw [UInt32.le_iff_toNat_le, stop]
    exact Nat.le_trans here.base_le (Nat.le_of_lt here.start_lt)
  rw [start, UInt32.toNat_sub_of_le _ _ le, stop]
  rfl

theorem toNat_length (here : j.At k i) :
    ((j.walk k).moveTo i).gen.length.toNat = i.stop - i.start := by
  have stop : (UInt32.ofNat i.stop).toNat = i.stop := Nat.mod_eq_of_lt here.stop_lt
  have start : (UInt32.ofNat i.start).toNat = i.start :=
    Nat.mod_eq_of_lt (Nat.lt_trans here.start_lt here.stop_lt)
  have le : UInt32.ofNat i.start ≤ UInt32.ofNat i.stop := by
    rw [UInt32.le_iff_toNat_le, stop, start]
    exact Nat.le_of_lt here.start_lt
  change (UInt32.ofNat i.stop - UInt32.ofNat i.start).toNat = _
  rw [UInt32.toNat_sub_of_le _ _ le, stop, start]

/-- An instruction that is not passed over sees the settings that its entry is computed from. -/
theorem setting_eq (h : Stands j k levels l) (here : j.At k i) (live : (j.walk k).dead.getD 0 = 0) :
    ((j.walk k).moveTo i).gen.setting ((j.walk k).height i.toInstr) = j.setting k i := by
  have constants := h.constants
  rw [start_constants] at constants
  have regions := h.regions
  rw [live, List.drop_zero] at regions
  have scopes : ((j.walk k).moveTo i).gen.scopes = levels.map Level.scope := h.scopes.symm
  have arity :
      (fun d : UInt32 => ((levels.map Level.scope)[d.toNat]?.map Scope.branchArity).getD 0) =
      fun d => ((enclosing j.code k)[d.toNat]?.map j.arity).getD 0 := by
    funext d
    rw [← regions, List.getElem?_map, List.getElem?_map]
    cases hd : levels[d.toNat]? with
    | none => rfl
    | some L => exact (h.good L (List.mem_of_getElem? hd)).branchTypes
  have final :
      ((levels.map Level.scope).head?.bind fun s => if s.kind =
      .toplevel then some s.branchTypes else none) =
      if (enclosing j.code k).head? = some .function then some j.sig.results else none := by
    rw [← regions]
    cases levels with
    | nil => rfl
    | cons L rest =>
      have good := h.good L List.mem_cons_self
      simp only [List.map_cons, List.head?_cons, Option.bind_some, Option.some.injEq]
      by_cases top : L.region = .function
      · have kind : L.scope.kind = .toplevel := by rw [good.kind, good.outermost.mp top]; rfl
        have sig : L.scope.sig = j.sig := by rw [good.sig, top]; rfl
        simp [top, kind, Scope.branchTypes, sig]
      · have kind : L.scope.kind ≠ .toplevel := by
          intro toplevel
          rw [good.kind] at toplevel
          refine top (good.outermost.mpr ?_)
          cases hk : L.kind with
          | cond b => cases b <;> simp [hk, FrameKind.scope] at toplevel
          | function => rfl
          | _ => simp [hk, FrameKind.scope] at toplevel
        simp [top, kind]
  simp only [Generator.setting, Job.setting, Setting.mk.injEq, scopes, h.toNat_pc here,
    toNat_length here, arity, final, and_true]
  exact ⟨congrArg (·.1) constants, congrArg (·.2.1) constants, congrArg (·.2.2.1) constants⟩

end Stands
end Sidetable
