import Sidetable.Walk
import Sidetable.Proofs.Emission
import Sidetable.Proofs.Reading

/-!
# Entries of plain instructions

A walk decides by the immediate what it asks the generator for, and the format goes by the opcode.
An instruction that was read has the immediate that its opcode calls for, so the two agree.
-/
namespace Sidetable

def Instr.labels (i : Instr) : List UInt32 :=
  if i.opcode = 0x0c || i.opcode = 0x0d || i.opcode = 0x0e then i.imm.labelList else []

def Opener.opcode : Opener → UInt8
  | block => 0x02
  | loop => 0x03
  | cond => 0x04
  | attempt => 0x06

def Immediate.Kind.Marks (op : UInt8) : Immediate.Kind → Prop
  | .localIndex => op = 0x20 ∨ op = 0x21 ∨ op = 0x22
  | .globalIndex => op = 0x23 ∨ op = 0x24
  | .tableIndex => op = 0x25 ∨ op = 0x26
  | .memory => Opcode.isLoad op || Opcode.isStore op
  | .i32 => op = 0x41
  | .i64 => op = 0x42
  | .funcRef => op = 0xd2
  | .misc => op = 0xfc
  | _ => op ∉ [0x20, 0x21, 0x22, 0x23, 0x24, 0x25, 0x26, 0x41, 0x42, 0xd2, 0xfc] ∧
      ¬ (Opcode.isLoad op || Opcode.isStore op)

theorem Immediate.Kind.marks_ofOpcode (op : UInt8) : Marks op (ofOpcode op) := by
  unfold ofOpcode
  split
  case h_40 =>
    split
    · assumption
    · split <;> simp_all [Marks]
  all_goals simp only [Marks] <;> decide

def Action.Describes (i : Instr) : Action → Prop
  | .leave => i.opcode = 0x00 ∨ i.opcode = 0x0f
  | .enter o type => i.opcode = o.opcode ∧ i.imm = .block type
  | .otherwise => i.opcode = 0x05
  | .close => i.opcode = 0x0b
  | .branch d => i.opcode = 0x0c ∧ i.imm = .label d
  | .branchIf d => i.opcode = 0x0d ∧ i.imm = .label d
  | .branchTable ds d => i.opcode = 0x0e ∧ i.imm = .labels ds d
  | .call tail f => i.opcode = (if tail then 0x12 else 0x10) ∧ i.imm = .func f
  | .callIndirect tail type table =>
    i.opcode = (if tail then 0x13 else 0x11) ∧ i.imm = .indirect type table
  | .throwTag _ => i.opcode = 0x08
  | .rethrow _ => i.opcode = 0x09
  | .catchTag _ => i.opcode = 0x07
  | .catchAll => i.opcode = 0x19
  | .delegate _ => i.opcode = 0x18
  | .plain =>
    i.opcode ∉ [0x00, 0x02, 0x03, 0x04, 0x05, 0x06, 0x07, 0x08, 0x09, 0x0b, 0x0c, 0x0d, 0x0e, 0x0f,
      0x10, 0x11, 0x12, 0x13, 0x18, 0x19]
  | .unsupported => i.opcode ∈ [0x14, 0x15, 0xd5, 0xd6]
  | .malformed => True

theorem Instr.action_describes (i : Instr) : i.action.Describes i := by
  obtain ⟨op, sub, imm⟩ := i
  unfold action
  dsimp only
  split
  case h_25 => simp_all [Action.Describes]
  all_goals first
    | simp [Action.Describes]; done
    | cases imm <;> trivial

namespace Generator

structure Asks (g : Generator) (mod : Module) (height : Nat) (i : Instr) (op : Op) : Prop where
  cells : g.cells op = (g.setting height).entry mod i
  settles : g.settles op = []
  scopes : g.scopesAfter op = Scope.awaitAll (g.size + labelOffset i 0) g.scopes i.labels
  plan : g.planAfter op = g.plan

def Serves (g : Generator) (mod : Module) (height : Nat) (i : Instr) (g' : Generator) : Prop :=
  (g' = g ∧ (g.setting height).entry mod i = [] ∧ i.labels = []) ∨
    ∃ op, g.apply op = .done g' ∧ g.Asks mod height i op

variable {g g' : Generator} {mod : Module} {height : Nat} {i : Instr} {op : Op}

theorem Asks.of_cells (cells : g.cells op = (g.setting height).entry mod i) (labels : i.labels = [])
    (settles : g.settles op = []) (scopes : g.scopesAfter op = g.scopes)
    (plan : g.planAfter op = g.plan) : g.Asks mod height i op :=
  ⟨cells, settles, by rw [scopes, labels]; rfl, plan⟩

end Generator

theorem Setting.entry_of_unmarked (s : Setting) (mod : Module) {i : Instr}
    (plain : i.action = .plain)
    (unmarked : i.opcode ∉ [0x20, 0x21, 0x22, 0x23, 0x24, 0x25, 0x26, 0x41, 0x42, 0xd2, 0xfc] ∧
      ¬ (Opcode.isLoad i.opcode || Opcode.isStore i.opcode)) :
    s.entry mod i = if i.opcode = 0x1b || i.opcode = 0x1c then [.num 8 s.length] else [] := by
  have describes := i.action_describes
  rw [plain] at describes
  obtain ⟨op, sub, imm⟩ := i
  dsimp only [Action.Describes] at describes unmarked ⊢
  split
  · rename_i select
    simp only [Bool.or_eq_true, decide_eq_true_eq] at select
    rcases select with eq | eq <;> cases eq <;> rfl
  · rename_i other
    unfold entry
    dsimp only
    split
    case h_26 => exact if_neg unmarked.2
    all_goals first
      | exact absurd rfl other
      | exact absurd (by decide) describes
      | exact absurd (by decide) unmarked.1

theorem Setting.entry_of_memory (s : Setting) (mod : Module) {i : Instr}
    (h : Opcode.isLoad i.opcode || Opcode.isStore i.opcode) :
    s.entry mod i = s.value i.imm.number := by
  obtain ⟨op, sub, imm⟩ := i
  unfold entry
  dsimp only at h ⊢
  split
  case h_26 => exact if_pos h
  all_goals exact absurd h (by decide)

theorem Setting.misc_of_none (s : Setting) {i : Instr} (h : Opcode.miscOperands i.sub = some 0) :
    s.misc i = [] := by
  obtain ⟨op, sub, imm⟩ := i
  unfold misc
  dsimp only at h ⊢
  split
  case h_9 => rfl
  all_goals exact absurd h (by decide)

theorem Instr.labels_of_plain {i : Instr} (plain : i.action = .plain) : i.labels = [] := by
  have describes := i.action_describes
  rw [plain] at describes
  simp only [Action.Describes, List.mem_cons, not_or] at describes
  simp [labels, describes]

namespace Walk

variable {w w' : Walk} {i : Instr}

theorem generate_done {op : Generator.Op} :
    w.generate op = .done w' ↔ ∃ gen, w.gen.apply op = .done gen ∧ w' = { w with gen } := by
  rw [generate, Outcome.map_done]
  simp only [eq_comm]

structure Names (w : Walk) (i : Instr) : Prop where
  locals : ∀ l, i.imm = .localIndex l → l.toNat < w.numLocals
  globals : ∀ g, i.imm = .globalIndex g → g.toNat < w.gen.globals.length

inductive Request (w : Walk) (i : Instr) (height : Nat) : Walking → Prop where
  | nothing (entry : ∀ g : Generator, (g.setting height).entry w.mod i = [])
      (alike : ∀ w' : Walk, w'.operands i = .done w') : Request w i height (.done w)
  | asks (op : Generator.Op) (asks : ∀ g : Generator, g.Asks w.mod height i op)
      (alike : ∀ w' : Walk, w'.Names i → w'.operands i = w'.generate op) (named : w.Names i) :
      Request w i height (w.generate op)
  | outside (e : Rejection) (unknown : ¬ w.Names i) : Request w i height (.failed w e)
  | short : Request w i height (.breach .outOfRange)

theorem operands_request (fits : i.Fits) (plain : i.action = .plain) (height : Nat) :
    w.Request i height (w.operands i) := by
  have labels := Instr.labels_of_plain plain
  have marks := Immediate.Kind.marks_ofOpcode i.opcode
  rcases fits with kind | ⟨kind, none, empty⟩ <;> rw [kind] at marks
  · obtain ⟨opcode, sub, imm⟩ := i
    have free (locals : ∀ l, imm ≠ .localIndex l) (globals : ∀ g, imm ≠ .globalIndex g) :
        w.Names ⟨opcode, sub, imm⟩ :=
      ⟨fun l eq => absurd eq (locals l), fun g eq => absurd eq (globals g)⟩
    cases imm with
    | localIndex l =>
      simp only [operands]
      split
      · exact .outside _ fun names => absurd (names.locals l rfl) (Nat.not_lt.mpr ‹_›)
      · rename_i inside
        have named : w.Names ⟨opcode, sub, .localIndex l⟩ :=
          ⟨fun _ eq => Immediate.localIndex.inj eq ▸ Nat.not_le.mp inside,
            fun _ eq => absurd eq (by simp)⟩
        rcases marks with eq | eq | eq <;> cases eq <;>
          exact .asks _ (fun _ => .of_cells rfl labels rfl rfl rfl)
            (fun w' names => if_neg (Nat.not_le.mpr (names.locals l rfl))) named
    | globalIndex n =>
      simp only [operands]
      split
      · exact .outside _ fun names => absurd (names.globals n rfl) (Nat.not_lt.mpr ‹_›)
      · rename_i inside
        have named : w.Names ⟨opcode, sub, .globalIndex n⟩ :=
          ⟨fun _ eq => absurd eq (by simp),
            fun _ eq => Immediate.globalIndex.inj eq ▸ Nat.not_le.mp inside⟩
        rcases marks with eq | eq <;> cases eq <;>
          exact .asks _ (fun _ => .of_cells rfl labels rfl rfl rfl)
            (fun w' names => if_neg (Nat.not_le.mpr (names.globals n rfl))) named
    | tableIndex t =>
      rcases marks with eq | eq <;> cases eq <;>
        exact .asks _ (fun _ => .of_cells rfl labels rfl rfl rfl) (fun _ _ => rfl)
          (free (by simp) (by simp))
    | memory offset align mem =>
      exact .asks _ (fun _ => .of_cells (Setting.entry_of_memory _ _ marks).symm labels rfl rfl rfl)
        (fun _ _ => rfl) (free (by simp) (by simp))
    | i32 v | i64 v | funcRef f =>
      cases marks
      exact .asks _ (fun _ => .of_cells rfl labels rfl rfl rfl) (fun _ _ => rfl)
        (free (by simp) (by simp))
    | operands list =>
      cases marks
      have named := free (by simp) (by simp)
      simp only [operands, miscOperands]
      split
      case h_7 | h_8 =>
        split
        · exact .asks _ (fun _ => .of_cells rfl labels rfl rfl rfl) (fun _ _ => rfl) named
        · exact .short
      case h_9 =>
        refine .nothing (fun _ => ?_) fun _ => ?_
        · simp_all [Setting.entry, Setting.misc]
        · simp_all [operands, miscOperands]
      all_goals
        split
        · exact .asks _ (fun _ => .of_cells rfl labels rfl rfl rfl) (fun _ _ => rfl) named
        · exact .short
    | _ =>
      have entry (g : Generator) := Setting.entry_of_unmarked (g.setting height) w.mod plain marks
      simp only [operands]
      split
      · rename_i select
        exact .asks _ (fun g => .of_cells ((entry g).trans (if_pos select)).symm labels rfl rfl rfl)
          (fun _ _ => if_pos select) (free (by simp) (by simp))
      · rename_i other
        exact .nothing (fun g => (entry g).trans (if_neg other)) fun _ => if_neg other
  · have bare (w' : Walk) : w'.operands i = .done w' := by
      simp [operands, none, show i.opcode = 0xfc from marks]
    rw [bare]
    refine .nothing (fun g => ?_) bare
    rw [← Setting.misc_of_none (g.setting height) empty]
    obtain ⟨opcode, sub, imm⟩ := i
    cases marks
    rfl

theorem operands_done (fits : i.Fits) (plain : i.action = .plain) (h : w.operands i = .done w')
    (height : Nat) : ∃ gen, w' = { w with gen } ∧ w.gen.Serves w.mod height i gen := by
  have request := operands_request fits plain height (w := w)
  rw [h] at request
  generalize eq : (Outcome.done w' : Walking) = o at request
  cases request with
  | nothing entry _ =>
    obtain rfl := Outcome.done.inj eq
    exact ⟨_, rfl, .inl ⟨rfl, entry _, Instr.labels_of_plain plain⟩⟩
  | asks op asks _ _ =>
    obtain ⟨gen, done, rfl⟩ := generate_done.mp eq.symm
    exact ⟨gen, rfl, .inr ⟨op, done, asks _⟩⟩
  | outside e _ => cases eq
  | short => cases eq

end Walk
end Sidetable
