import Sidetable.Validation.Signature
import Sidetable.Proofs.Scans
import Sidetable.Proofs.Turns

/-!
# Counting operands

Validation of a body, as far as the number of operands and the ranges of indices go. The height of
the operand stack is one number for the whole function, and every control structure remembers how
high the stack was when it was entered. Code that is not reached is checked as well: there, operands
that are missing are made up.

Labels of one branch table need not agree in arity, and a tail call may have any results, so that
more bodies pass than are valid.
-/
namespace Sidetable

def Instr.selectors (i : Instr) : Nat :=
  if i.opcode = 0x0d ∨ i.opcode = 0x0e then 1 else 0

namespace OperandCount

structure Ctrl where
  kind : FrameKind
  sig : FuncType
  base : Nat
  unreachable : Bool := false
  deriving DecidableEq, Repr

def Ctrl.arity (c : Ctrl) : Nat :=
  match c.kind with
  | .loop => c.sig.params.length
  | _ => c.sig.results.length

structure State where
  height : Nat
  /-- control structures, innermost first -/
  ctrls : List Ctrl
  deriving DecidableEq, Repr

structure Env where
  mod : Module
  /-- number of locals, parameters included -/
  locals : Nat

namespace State

def pop (s : State) : Option State :=
  match s.ctrls with
  | [] => none
  | c :: _ =>
    if c.base < s.height then some { s with height := s.height - 1 }
    else if c.unreachable then some s
    else none

def pops (s : State) : Nat → Option State
  | 0 => some s
  | n + 1 => s.pop.bind fun s => s.pops n

def push (s : State) (n : Nat) : State :=
  { s with height := s.height + n }

def kill (s : State) : Option State :=
  match s.ctrls with
  | [] => none
  | c :: rest => some { height := c.base, ctrls := { c with unreachable := true } :: rest }

def enter (s : State) (kind : FrameKind) (sig : FuncType) (params : Nat) : State :=
  { height := s.height + params, ctrls := { kind, sig, base := s.height } :: s.ctrls }

def leave (s : State) : Option (Ctrl × State) :=
  match s.ctrls with
  | [] => none
  | c :: rest => do
    let s ← s.pops c.sig.results.length
    if s.height = c.base then some (c, { s with ctrls := rest }) else none

/-! ## Structures -/

def block (s : State) (e : Env) (kind : FrameKind) (condition : Nat) (type : Int32) :
    Option State := do
  let sig ← e.mod.blockType type
  let s ← s.pops condition
  let s ← s.pops sig.params.length
  return s.enter kind sig sig.params.length

def otherwise (s : State) : Option State := do
  let (c, s) ← s.leave
  if c.kind = .cond false then return s.enter (.cond true) c.sig c.sig.params.length else none

def close (s : State) : Option State := do
  let (c, s) ← s.leave
  if c.kind = .cond false ∧ c.sig.params.length ≠ c.sig.results.length then none
  else return s.push c.sig.results.length

def tagParams (e : Env) (tag : UInt32) : Option Nat := do
  let t ← e.mod.tagAt tag
  let sig ← e.mod.typeAt t.typeIndex
  return sig.params.length

def handle (s : State) (last : Bool) (params : Nat) : Option State := do
  let (c, s) ← s.leave
  if c.kind = .attempt ∨
    c.kind = .handler false then return s.enter (.handler last) c.sig params else none

def delegate (s : State) (d : UInt32) : Option State := do
  let (c, s) ← s.leave
  if c.kind = .attempt ∧ d.toNat < s.ctrls.length then return s.push c.sig.results.length else none

/-! ## Branches and calls -/

def label? (s : State) (d : UInt32) : Option Nat :=
  s.ctrls[d.toNat]?.map Ctrl.arity

def pass (s : State) (d : UInt32) : Option State := do
  let n ← s.label? d
  let s ← s.pops n
  return s.push n

def passes (s : State) : List UInt32 → Option State
  | [] => some s
  | d :: rest => (s.pass d).bind fun s => s.passes rest

def branch (s : State) (d : UInt32) : Option State := do
  let n ← s.label? d
  let s ← s.pops n
  s.kill

def branchTable (s : State) (ds : List UInt32) (d : UInt32) : Option State := do
  let s ← s.pop
  let s ← s.passes ds
  s.branch d

def exit (s : State) : Option State := do
  let c ← s.ctrls.getLast?
  let s ← s.pops c.sig.results.length
  s.kill

def call (s : State) (tail : Bool) (extra : Nat) (sig : FuncType) : Option State := do
  let s ← s.pops extra
  let s ← s.pops sig.params.length
  if tail then s.kill else return s.push sig.results.length

def raise (s : State) (e : Env) (tag : UInt32) : Option State := do
  let n ← tagParams e tag
  let s ← s.pops n
  s.kill

def rethrow (s : State) (d : UInt32) : Option State :=
  match s.ctrls[d.toNat]?.map Ctrl.kind with
  | some (.handler _) => s.kill
  | _ => none

/-! ## Plain instructions -/

def ofType (sig : FuncType) : Nat × Nat :=
  (sig.params.length, sig.results.length)

def miscCounts : UInt32 → Option (Nat × Nat)
  | 8 | 10 | 11 | 12 | 14 | 17 => some (3, 0)              -- init, copy and fill
  | 9 | 13 => some (0, 0)                                  -- data.drop, elem.drop
  | 15 => some (2, 1)                                      -- table.grow
  | 16 => some (0, 1)                                      -- table.size
  | sub => (Validation.Signature.saturating? sub).map ofType

def counts (op : UInt8) (sub : UInt32) : Option (Nat × Nat) :=
  match op with
  | 0x01 => some (0, 0)                                    -- nop
  | 0x1a => some (1, 0)                                    -- drop
  | 0x1b | 0x1c => some (3, 1)                             -- select
  | 0x20 | 0x23 => some (0, 1)                             -- local.get, global.get
  | 0x21 | 0x24 => some (1, 0)                             -- local.set, global.set
  | 0x22 => some (1, 1)                                    -- local.tee
  | 0x25 => some (1, 1)                                    -- table.get
  | 0x26 => some (2, 0)                                    -- table.set
  | 0x3f => some (0, 1)                                    -- memory.size
  | 0x40 => some (1, 1)                                    -- memory.grow
  | 0x41 | 0x42 | 0x43 | 0x44 => some (0, 1)               -- constants
  | 0xd0 | 0xd2 => some (0, 1)                             -- ref.null, ref.func
  | 0xd1 | 0xd4 => some (1, 1)                             -- ref.is_null, ref.as_non_null
  | 0xfc => miscCounts sub
  | op =>
    match Validation.Signature.numeric? op with
    | some sig => some (ofType sig)
    | none => (Validation.Signature.access? op).map fun (sig, _) => ofType sig

def inRange (e : Env) : Immediate → Bool
  | .localIndex l => l.toNat < e.locals
  | .globalIndex g => g.toNat < e.mod.globalSpace.length
  | .funcRef f => (e.mod.funcType f).isSome
  | _ => true

def plain (s : State) (e : Env) (i : Instr) : Option State := do
  let (m, n) ← counts i.opcode i.sub
  if inRange e i.imm then
    let s ← s.pops m
    return s.push n
  else none

def start (sig : FuncType) : State :=
  { height := 0, ctrls := [{ kind := .function, sig, base := 0 }] }

def step (s : State) (e : Env) (i : Instr) : Option State :=
  if s.ctrls.isEmpty then none
  else
    match i.opcode, i.imm with
    | 0x00, _ => s.kill                                    -- unreachable
    | 0x02, .block type => s.block e .block 0 type
    | 0x03, .block type => s.block e .loop 0 type
    | 0x04, .block type => s.block e (.cond false) 1 type
    | 0x06, .block type => s.block e .attempt 0 type
    | 0x05, _ => s.otherwise
    | 0x0b, _ => s.close
    | 0x07, .tag tag => (tagParams e tag).bind fun n => s.handle false n
    | 0x19, _ => s.handle true 0
    | 0x18, .label d => s.delegate d
    | 0x08, .tag tag => s.raise e tag
    | 0x09, .label d => s.rethrow d
    | 0x0c, .label d => s.branch d
    | 0x0d, .label d => s.pop.bind fun s => s.pass d
    | 0x0e, .labels ds d => s.branchTable ds d
    | 0x0f, _ => s.exit
    | 0x10, .func f => (e.mod.funcType f).bind fun sig => s.call false 0 sig
    | 0x12, .func f => (e.mod.funcType f).bind fun sig => s.call true 0 sig
    | 0x11, .indirect type _ => (e.mod.typeAt type).bind fun sig => s.call false 1 sig
    | 0x13, .indirect type _ => (e.mod.typeAt type).bind fun sig => s.call true 1 sig
    | 0x14, .typeIndex type => (e.mod.typeAt type).bind fun sig => s.call false 1 sig
    | 0x15, .typeIndex type => (e.mod.typeAt type).bind fun sig => s.call true 1 sig
    | 0xd5, .label d => s.pop.bind fun s => (s.pass d).map (·.push 1)   -- br_on_null
    | 0xd6, .label d => s.pop.bind fun s => ((s.push 1).pass d).bind pop -- br_on_non_null
    | _, _ => s.plain e i

def run (s : State) (e : Env) : List Instr.Located → Option State
  | [] => some s
  | i :: rest => (s.step e i.toInstr).bind fun s => s.run e rest

def supports (i : Instr) : Bool :=
  i.opcode ∉ [0x14, 0x15, 0xd5, 0xd6]

/-! ## What is reached -/

def live (s : State) : Bool :=
  s.ctrls.all (!·.unreachable)

def reaches (s : State) (i : Instr) : Bool :=
  s.live || (i.shuts || i.divides) && s.ctrls.tail.all (!·.unreachable)

def footer (s : State) (i : Instr) : Nat :=
  match s.ctrls with
  | c :: _ =>
    if i.opcode = 0x0b ∧ c.kind = .function then Entry.roundUp (c.sig.results.length + 2) else 0
  | [] => 0

def charge (s : State) (e : Env) (r : Registers) (i : Instr) : Nat :=
  if s.reaches i then entrySize e.mod r i + s.footer i else 0

def cost (s : State) (e : Env) (r : Registers) : List Instr.Located → Nat
  | [] => 0
  | i :: rest => s.charge e r i.toInstr +
    match s.step e i.toInstr with
    | some s => s.cost e r rest
    | none => 0

/-! ## Operands -/

variable {s s' t : State} {e : Env} {i : Instr} {n : Nat} {c : Ctrl} {cs : List Ctrl}

theorem run_append (is is' : List Instr.Located) :
    s.run e (is ++ is') = (s.run e is).bind (·.run e is') := by
  induction is generalizing s with
  | nil => rfl
  | cons i rest ih => simp only [List.cons_append, run, Option.bind_assoc, ih]

theorem step_inside (h : s.step e i = some s') : s.ctrls ≠ [] := by
  intro none
  rw [step, if_pos (by rw [none]; rfl)] at h
  cases h

theorem footer_of_ne {op : UInt8} {sub : UInt32} {imm : Immediate} (h : op ≠ 0x0b) :
    s.footer ⟨op, sub, imm⟩ = 0 := by
  unfold footer
  split
  · exact if_neg fun both => h both.1
  · rfl

theorem pop_ctrls (h : s.pop = some s') : s'.ctrls = s.ctrls := by
  unfold pop at h
  split at h
  · cases h
  · split at h
    · obtain rfl := Option.some.inj h
      rfl
    · split at h
      · obtain rfl := Option.some.inj h
        rfl
      · cases h

theorem pops_ctrls (h : s.pops n = some s') : s'.ctrls = s.ctrls := by
  induction n generalizing s with
  | zero =>
    obtain rfl := Option.some.inj h
    rfl
  | succ n ih =>
    obtain ⟨t, first, h⟩ := Option.bind_eq_some_iff.mp h
    rw [ih h, pop_ctrls first]

theorem pop_reached (ctrls : s.ctrls = c :: cs) (reached : c.unreachable = false) :
    s.pop = some s' ↔ c.base < s.height ∧ s' = { s with height := s.height - 1 } := by
  by_cases more : c.base < s.height
  · simp [pop, ctrls, more, eq_comm]
  · simp [pop, ctrls, more, reached]

theorem pops_one : s.pops 1 = s.pop := by
  rw [pops]
  cases s.pop <;> rfl

theorem step_selects (h : s.step e i = some s') (branch : i.opcode ∈ [0x0c, 0x0d, 0x0e]) :
    ∃ t, s.pops i.selectors = some t := by
  obtain ⟨op, sub, imm⟩ := i
  rw [step, if_neg (by simpa using step_inside h)] at h
  simp only [List.mem_cons, List.not_mem_nil, or_false] at branch
  rcases branch with rfl | rfl | rfl
  · exact ⟨s, rfl⟩
  · cases imm with
    | label d =>
      obtain ⟨t, first, -⟩ := Option.bind_eq_some_iff.mp h
      exact ⟨t, pops_one.trans first⟩
    | _ => cases h
  · cases imm with
    | labels ds d =>
      obtain ⟨t, first, -⟩ := Option.bind_eq_some_iff.mp h
      exact ⟨t, pops_one.trans first⟩
    | _ => cases h

theorem pops_add {m : Nat} : s.pops (m + n) = (s.pops m).bind fun t => t.pops n := by
  induction m generalizing s with
  | zero => simp [pops]
  | succ m ih => simp only [Nat.succ_add, pops, Option.bind_assoc, ih]

theorem pops_reached (ctrls : s.ctrls = c :: cs) (reached : c.unreachable = false) :
    s.pops n = some s' ↔ n ≤ s.height - c.base ∧ s' = { s with height := s.height - n } := by
  induction n generalizing s with
  | zero => simp [pops, eq_comm]
  | succ n ih =>
    have later (h : c.base < s.height) := ih (s := { s with height := s.height - 1 }) ctrls
    rw [pops, Option.bind_eq_some_iff]
    simp only [Nat.sub_sub, Nat.add_comm 1] at later
    constructor
    · rintro ⟨t, first, rest⟩
      obtain ⟨more, rfl⟩ := (pop_reached ctrls reached).mp first
      obtain ⟨enough, rfl⟩ := (later more).mp rest
      exact ⟨by omega, rfl⟩
    · rintro ⟨enough, rfl⟩
      have more : c.base < s.height := by omega
      exact ⟨_, (pop_reached ctrls reached).mpr ⟨more, rfl⟩, (later more).mpr ⟨by omega, rfl⟩⟩

theorem leave_some (h : s.leave = some (c, t)) : s.ctrls = c :: t.ctrls ∧ t.height = c.base ∧
    ∃ u, s.pops c.sig.results.length = some u ∧ u.height = c.base := by
  unfold leave at h
  split at h
  · cases h
  · rename_i ctrls
    obtain ⟨u, taken, h⟩ := Option.bind_eq_some_iff.mp h
    split at h
    · rename_i exact_
      obtain ⟨rfl, rfl⟩ := Prod.mk.inj (Option.some.inj h)
      exact ⟨ctrls, exact_, u, taken, exact_⟩
    · cases h

theorem kill_some (h : s.kill = some s') :
    ∃ c rest, s.ctrls = c :: rest ∧
      s' = { height := c.base, ctrls := { c with unreachable := true } :: rest } := by
  unfold kill at h
  split at h
  · cases h
  · exact ⟨_, _, ‹_›, (Option.some.inj h).symm⟩

/-! ## What an instruction that passes has done -/

theorem block_some {kind : FrameKind} {type : Int32} (h : s.block e kind n type = some s') :
    ∃ sig t,
    e.mod.blockType type = some sig ∧ s.pops (sig.params.length + n) = some t ∧
      s' = t.enter kind sig sig.params.length := by
  obtain ⟨sig, found, h⟩ := Option.bind_eq_some_iff.mp h
  obtain ⟨t, first, h⟩ := Option.bind_eq_some_iff.mp h
  obtain ⟨u, second, h⟩ := Option.bind_eq_some_iff.mp h
  refine ⟨sig, u, found, ?_, (Option.some.inj h).symm⟩
  rw [Nat.add_comm, pops_add, first]
  exact second

theorem otherwise_some (h : s.otherwise = some s') :
    ∃ c t, s.leave = some (c, t) ∧ c.kind = .cond false ∧
      s' = t.enter (.cond true) c.sig c.sig.params.length := by
  obtain ⟨⟨c, t⟩, left, h⟩ := Option.bind_eq_some_iff.mp h
  dsimp only at h
  split at h
  · exact ⟨c, t, left, ‹_›, (Option.some.inj h).symm⟩
  · cases h

theorem close_some (h : s.close = some s') :
    ∃ c t, s.leave = some (c, t) ∧ s' = t.push c.sig.results.length := by
  obtain ⟨⟨c, t⟩, left, h⟩ := Option.bind_eq_some_iff.mp h
  dsimp only at h
  split at h
  · cases h
  · exact ⟨c, t, left, (Option.some.inj h).symm⟩

theorem tagParams_some {tag : UInt32} (h : tagParams e tag = some n) : ∃ t sig,
    e.mod.tagAt tag = some t ∧ e.mod.typeAt t.typeIndex = some sig ∧ n = sig.params.length := by
  obtain ⟨t, found, h⟩ := Option.bind_eq_some_iff.mp h
  obtain ⟨sig, typed, h⟩ := Option.bind_eq_some_iff.mp h
  exact ⟨t, sig, found, typed, (Option.some.inj h).symm⟩

theorem handle_some {last : Bool} (h : s.handle last n = some s') : ∃ c t, s.leave = some (c, t) ∧
    (c.kind = .attempt ∨ c.kind = .handler false) ∧ s' = t.enter (.handler last) c.sig n := by
  obtain ⟨⟨c, t⟩, left, h⟩ := Option.bind_eq_some_iff.mp h
  dsimp only at h
  split at h
  · exact ⟨c, t, left, ‹_›, (Option.some.inj h).symm⟩
  · cases h

theorem delegate_some {d : UInt32} (h : s.delegate d = some s') : ∃ c t, s.leave = some (c, t) ∧
    (c.kind = .attempt ∧ d.toNat < t.ctrls.length) ∧ s' = t.push c.sig.results.length := by
  obtain ⟨⟨c, t⟩, left, h⟩ := Option.bind_eq_some_iff.mp h
  dsimp only at h
  split at h
  · exact ⟨c, t, left, ‹_›, (Option.some.inj h).symm⟩
  · cases h

theorem pass_some {d : UInt32} (h : s.pass d = some s') :
    ∃ n t, s.label? d = some n ∧ s.pops n = some t ∧ s' = t.push n := by
  obtain ⟨n, label, h⟩ := Option.bind_eq_some_iff.mp h
  obtain ⟨t, taken, h⟩ := Option.bind_eq_some_iff.mp h
  exact ⟨n, t, label, taken, (Option.some.inj h).symm⟩

theorem branch_some {d : UInt32} (h : s.branch d = some s') :
    ∃ n t, s.label? d = some n ∧ s.pops n = some t ∧ t.kill = some s' := by
  obtain ⟨n, label, h⟩ := Option.bind_eq_some_iff.mp h
  obtain ⟨t, taken, killed⟩ := Option.bind_eq_some_iff.mp h
  exact ⟨n, t, label, taken, killed⟩

theorem branchTable_some {ds : List UInt32} {d : UInt32} (h : s.branchTable ds d = some s') :
    ∃ t u, s.pops 1 = some t ∧ t.passes ds = some u ∧ u.branch d = some s' := by
  obtain ⟨t, first, h⟩ := Option.bind_eq_some_iff.mp h
  obtain ⟨u, passed, last⟩ := Option.bind_eq_some_iff.mp h
  exact ⟨t, u, pops_one.trans first, passed, last⟩

theorem exit_some (h : s.exit = some s') : ∃ n t, s.pops n = some t ∧ t.kill = some s' := by
  obtain ⟨c, -, h⟩ := Option.bind_eq_some_iff.mp h
  obtain ⟨t, taken, killed⟩ := Option.bind_eq_some_iff.mp h
  exact ⟨_, t, taken, killed⟩

theorem call_some {tail : Bool} {sig : FuncType} (h : s.call tail n sig = some s') : ∃ t,
    s.pops (sig.params.length + n) = some t ∧
      if tail then t.kill = some s' else s' = t.push sig.results.length := by
  obtain ⟨t, first, h⟩ := Option.bind_eq_some_iff.mp h
  obtain ⟨u, second, h⟩ := Option.bind_eq_some_iff.mp h
  refine ⟨u, ?_, ?_⟩
  · rw [Nat.add_comm, pops_add, first]
    exact second
  · cases tail with
    | true => exact h
    | false => exact (Option.some.inj h).symm

theorem raise_some {tag : UInt32} (h : s.raise e tag = some s') :
    ∃ t sig u, e.mod.tagAt tag = some t ∧ e.mod.typeAt t.typeIndex = some sig ∧
      s.pops sig.params.length = some u ∧ u.kill = some s' := by
  obtain ⟨n, params, h⟩ := Option.bind_eq_some_iff.mp h
  obtain ⟨t, sig, found, typed, rfl⟩ := tagParams_some params
  obtain ⟨u, taken, killed⟩ := Option.bind_eq_some_iff.mp h
  exact ⟨t, sig, u, found, typed, taken, killed⟩

theorem rethrow_some {d : UInt32} (h : s.rethrow d = some s') :
    (∃ c last, s.ctrls[d.toNat]? = some c ∧ c.kind = .handler last) ∧ s.kill = some s' := by
  unfold rethrow at h
  split at h
  · rename_i last named
    obtain ⟨c, found, kind⟩ := Option.map_eq_some_iff.mp named
    exact ⟨⟨c, last, found, kind⟩, h⟩
  · cases h

theorem plain_some (h : s.plain e i = some s') : ∃ m n t, counts i.opcode i.sub = some (m, n) ∧
    inRange e i.imm ∧ s.pops m = some t ∧ s' = t.push n := by
  obtain ⟨⟨m, n⟩, counted, h⟩ := Option.bind_eq_some_iff.mp h
  dsimp only at h
  split at h
  · obtain ⟨t, taken, h⟩ := Option.bind_eq_some_iff.mp h
    exact ⟨m, n, t, counted, ‹_›, taken, (Option.some.inj h).symm⟩
  · cases h

/-! ## What an instruction does to the structures -/

/-- What becomes of the structures: most instructions stay inside the innermost one. -/
inductive Moves (i : Instr) : List Ctrl → List Ctrl → Prop where
  | stays {cs : List Ctrl} (inner : i.structural = false) : Moves i cs cs
  | kills {c : Ctrl} {cs : List Ctrl} (inner : i.structural = false) :
      Moves i (c :: cs) ({ c with unreachable := true } :: cs)
  | opens {c : Ctrl} {cs : List Ctrl} (opens : i.opens) : Moves i cs (c :: cs)
  | divides {c c' : Ctrl} {cs : List Ctrl} (divides : i.divides) : Moves i (c :: cs) (c' :: cs)
  | shuts {c : Ctrl} {cs : List Ctrl} (shuts : i.shuts) : Moves i (c :: cs) cs

namespace Moves

theorem of_ctrls (inner : i.structural = false) (h : s'.ctrls = s.ctrls) :
    Moves i s.ctrls s'.ctrls := by
  rw [h]
  exact .stays inner

theorem of_kill (inner : i.structural = false) (same : t.ctrls = s.ctrls) (h : t.kill = some s') :
    Moves i s.ctrls s'.ctrls := by
  obtain ⟨c, rest, ctrls, rfl⟩ := kill_some h
  rw [← same, ctrls]
  exact .kills inner

theorem of_block {kind : FrameKind} {type : Int32} (opens : i.opens)
    (h : s.block e kind n type = some s') : Moves i s.ctrls s'.ctrls := by
  obtain ⟨sig, t, -, taken, rfl⟩ := block_some h
  rw [← pops_ctrls taken]
  exact .opens opens

theorem of_handle {last : Bool} (divides : i.divides) (h : s.handle last n = some s') :
    Moves i s.ctrls s'.ctrls := by
  obtain ⟨c, t, left, -, rfl⟩ := handle_some h
  rw [(leave_some left).1]
  exact .divides divides

theorem of_call {tail : Bool} {sig : FuncType} (inner : i.structural = false)
    (h : s.call tail n sig = some s') : Moves i s.ctrls s'.ctrls := by
  obtain ⟨t, taken, h⟩ := call_some h
  cases tail with
  | true => exact of_kill inner (pops_ctrls taken) h
  | false =>
    obtain rfl := h
    exact of_ctrls inner (pops_ctrls taken :)

end Moves

theorem pass_ctrls {d : UInt32} (h : s.pass d = some s') : s'.ctrls = s.ctrls := by
  obtain ⟨n, t, -, taken, rfl⟩ := pass_some h
  exact (pops_ctrls taken :)

theorem passes_ctrls {ds : List UInt32} (h : s.passes ds = some s') : s'.ctrls = s.ctrls := by
  induction ds generalizing s with
  | nil =>
    obtain rfl := Option.some.inj h
    rfl
  | cons d rest ih =>
    obtain ⟨t, first, h⟩ := Option.bind_eq_some_iff.mp h
    rw [ih h, pass_ctrls first]

theorem Moves.of_branch {d : UInt32} (inner : i.structural = false) (same : t.ctrls = s.ctrls)
    (h : t.branch d = some s') : Moves i s.ctrls s'.ctrls := by
  obtain ⟨n, u, -, taken, killed⟩ := branch_some h
  exact .of_kill inner ((pops_ctrls taken).trans same) killed

theorem pass_reached {d : UInt32} (ctrls : s.ctrls = c :: cs) (reached : c.unreachable = false)
    (h : s.pass d = some s') : s' = s ∧ ∃ n, s.label? d = some n ∧ n ≤ s.height - c.base := by
  obtain ⟨n, t, label, taken, rfl⟩ := pass_some h
  obtain ⟨enough, rfl⟩ := (pops_reached ctrls reached).mp taken
  refine ⟨?_, n, label, enough⟩
  obtain ⟨height, ctrls⟩ := s
  simp only [push, State.mk.injEq, and_true] at enough ⊢
  omega

theorem passes_reached {ds : List UInt32} (ctrls : s.ctrls = c :: cs)
    (reached : c.unreachable = false) (h : s.passes ds = some s') :
    s' = s ∧ ∀ d ∈ ds, ∃ n, s.label? d = some n ∧ n ≤ s.height - c.base := by
  induction ds generalizing s with
  | nil => exact ⟨(Option.some.inj h).symm, by simp⟩
  | cons d rest ih =>
    obtain ⟨t, first, more⟩ := Option.bind_eq_some_iff.mp h
    obtain ⟨rfl, here⟩ := pass_reached ctrls reached first
    obtain ⟨same, others⟩ := ih ctrls more
    exact ⟨same, List.forall_mem_cons.mpr ⟨here, others⟩⟩

theorem not_structural_of_counts {op : UInt8} {sub : UInt32} {imm : Immediate} {m : Nat × Nat}
    (h : counts op sub = some m) : Instr.structural ⟨op, sub, imm⟩ = false := by
  rw [Instr.not_structural_iff]
  intro mem
  simp only [List.mem_cons, List.not_mem_nil, or_false] at mem
  rcases mem with rfl | rfl | rfl | rfl | rfl | rfl | rfl | rfl | rfl <;> cases h

theorem action_of_counts {op : UInt8} {sub : UInt32} {imm : Immediate} {m : Nat × Nat}
    (h : counts op sub = some m) : Instr.action ⟨op, sub, imm⟩ = .plain := by
  unfold Instr.action
  dsimp only
  split
  case h_25 => rfl
  all_goals cases h

theorem step_moves (h : s.step e i = some s') : Moves i s.ctrls s'.ctrls := by
  obtain ⟨op, sub, imm⟩ := i
  rw [step, if_neg (by simpa using step_inside h)] at h
  dsimp only at h
  split at h
  case h_2 | h_3 | h_4 | h_5 => exact .of_block rfl h
  case h_17 | h_18 | h_19 | h_20 | h_21 | h_22 =>
    obtain ⟨sig, -, h⟩ := Option.bind_eq_some_iff.mp h
    exact .of_call rfl h
  · exact .of_kill rfl rfl h
  · obtain ⟨c, t, left, -, rfl⟩ := otherwise_some h
    rw [(leave_some left).1]
    exact .divides rfl
  · obtain ⟨c, t, left, rfl⟩ := close_some h
    rw [(leave_some left).1]
    exact .shuts rfl
  · obtain ⟨n, -, h⟩ := Option.bind_eq_some_iff.mp h
    exact .of_handle rfl h
  · exact .of_handle rfl h
  · obtain ⟨c, t, left, -, rfl⟩ := delegate_some h
    rw [(leave_some left).1]
    exact .shuts rfl
  · obtain ⟨_, _, t, -, -, taken, killed⟩ := raise_some h
    exact .of_kill rfl (pops_ctrls taken) killed
  · exact .of_kill rfl rfl (rethrow_some h).2
  · exact .of_branch rfl rfl h
  · obtain ⟨t, first, passed⟩ := Option.bind_eq_some_iff.mp h
    exact .of_ctrls rfl ((pass_ctrls passed).trans (pop_ctrls first))
  · obtain ⟨t, u, first, passed, last⟩ := branchTable_some h
    exact .of_branch rfl ((passes_ctrls passed).trans (pops_ctrls first)) last
  · obtain ⟨n, t, taken, killed⟩ := exit_some h
    exact .of_kill rfl (pops_ctrls taken) killed
  · obtain ⟨t, first, h⟩ := Option.bind_eq_some_iff.mp h
    obtain ⟨u, passed, rfl⟩ := Option.map_eq_some_iff.mp h
    exact .of_ctrls rfl ((pass_ctrls passed).trans (pop_ctrls first))
  · obtain ⟨t, first, h⟩ := Option.bind_eq_some_iff.mp h
    obtain ⟨u, passed, h⟩ := Option.bind_eq_some_iff.mp h
    have pushed : (t.push 1).ctrls = s.ctrls := (pop_ctrls first :)
    exact .of_ctrls rfl ((pop_ctrls h).trans ((pass_ctrls passed).trans pushed))
  · obtain ⟨m, n, t, counted, -, taken, rfl⟩ := plain_some h
    exact .of_ctrls (not_structural_of_counts counted) (pops_ctrls taken :)

theorem counts_eq_of_ne {op : UInt8} (h : op ≠ 0xfc) (sub : UInt32) :
    counts op sub = counts op 0 := by
  unfold counts
  split <;> first | rfl | contradiction

theorem ofOpcode_eq_of_ne {op : UInt8} (h : op ≠ 0xfc) (sub : UInt32) :
    Effect.ofOpcode op sub = Effect.ofOpcode op 0 := by
  unfold Effect.ofOpcode
  split
  · rfl
  · split
    · rfl
    · split
      · rfl
      · split <;> first | rfl | contradiction

theorem miscCounts_eq (sub : UInt32) : miscCounts sub = (Effect.misc sub).map fun e =>
      (e.pops, e.pushes) := by
  have small (le : sub ≤ 7) : (Validation.Signature.saturating? sub).map ofType = some (1, 1) := by
    have table :
        ∀ n < 8, (Validation.Signature.saturating? (UInt32.ofNat n)).map ofType = some (1, 1) := by
      decide
    have here := table sub.toNat (Nat.lt_succ_of_le le)
    rwa [UInt32.ofNat_toNat] at here
  have large (gt : ¬ sub ≤ 7) : Validation.Signature.saturating? sub = none := by
    have gt : ¬ sub.toNat ≤ 7 := gt
    exact List.getElem?_eq_none (Nat.lt_of_not_le gt)
  unfold miscCounts
  split
  case h_11 =>
    unfold Effect.misc
    split
    case h_11 =>
      split
      · rw [small ‹_›]
        rfl
      · rw [large ‹_›]
        rfl
    all_goals contradiction
  all_goals rfl

/-- What the walk takes and leaves is what the signatures say. -/
theorem counts_eq (op : UInt8) (sub : UInt32) :
    counts op sub = (Effect.ofOpcode op sub).map fun e => (e.pops, e.pushes) := by
  by_cases misc : op = 0xfc
  · subst misc
    exact miscCounts_eq sub
  · have table : ∀ n < 256, UInt8.ofNat n ≠ 0xfc → counts (UInt8.ofNat n) 0 =
        (Effect.ofOpcode (UInt8.ofNat n) 0).map fun e => (e.pops, e.pushes) := by decide +kernel
    have here := table op.toNat op.toNat_lt
    rw [UInt8.ofNat_toNat] at here
    rw [counts_eq_of_ne misc, ofOpcode_eq_of_ne misc]
    exact here misc

end State
end OperandCount
end Sidetable
