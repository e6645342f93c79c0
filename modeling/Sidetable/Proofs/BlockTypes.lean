import Sidetable.Proofs.Pairing
import Sidetable.Proofs.Spelling

/-!
# What a block type stands for

`Resolves` says which signature an integer stands for as a block type. The reader takes up to five
bytes, whose 35 bits are one integer, and keeps the low 32 of them. So every structure that is
opened has the signature of that residue: it is the signature of the integer itself exactly if the
integer fits 32 bits.
-/
namespace Sidetable

namespace Module

variable {m : Module} {sig : FuncType}

def singles : List (Int × ValType) :=
  [(-1, .i32), (-2, .i64), (-3, .f32), (-4, .f64), (-5, .v128), (-16, .funcref), (-17, .externref)]

inductive Resolves (m : Module) : Int → FuncType → Prop where
  | empty : Resolves m (-64) ⟨[], []⟩
  | single {v : Int} {t : ValType} (listed : (v, t) ∈ singles) : Resolves m v ⟨[], [t]⟩
  | indexed {n : Nat} {sig : FuncType} (found : m.types[n]? = some sig) : Resolves m n sig

theorem blockType_index {bt : Int32} (h : 0 ≤ bt.toInt) :
    m.blockType bt = m.types[bt.toInt.toNat]? := by
  have nonneg : 0 ≤ bt := Int32.le_iff_toInt_le.mpr h
  have other (v : Int32) (negative : v.toInt < 0) : bt ≠ v := by
    rintro rfl
    omega
  have single : singleResults.contains bt = false := by
    simp [singleResults, other]
  rw [blockType, if_neg (other _ (by decide)), single, if_neg (by simp),
    if_neg (Int32.not_lt.mpr nonneg), typeAt, Int32.toNat_toUInt32_of_le nonneg]
  rfl

theorem single_iff {bt : Int32} {t : ValType} :
    (bt.toInt, t) ∈ singles ↔ singleResults.contains bt ∧ t = ⟨UInt8.ofInt (bt.toInt % 128)⟩ := by
  constructor
  · intro listed
    have each : ∀ p ∈ singles, singleResults.contains (Int32.ofInt p.1) ∧
        p.2 = ⟨UInt8.ofInt (p.1 % 128)⟩ := by
      decide
    have here := each _ listed
    rwa [Int32.ofInt_toInt] at here
  · rintro ⟨single, rfl⟩
    simp only [singleResults, List.contains_iff_mem, List.mem_cons, List.not_mem_nil,
      or_false] at single
    rcases single with rfl | rfl | rfl | rfl | rfl | rfl | rfl <;> decide

theorem resolves_of_blockType {bt : Int32} (h : m.blockType bt = some sig) :
    m.Resolves bt.toInt sig := by
  by_cases nonneg : 0 ≤ bt.toInt
  · rw [blockType_index nonneg] at h
    have resolves := Resolves.indexed h
    rwa [Int.toNat_of_nonneg nonneg] at resolves
  · have negative : bt < 0 := Int32.lt_iff_toInt_lt.mpr (Int.not_le.mp nonneg)
    rw [blockType, if_pos negative] at h
    by_cases empty : bt = -64
    · rw [if_pos empty] at h
      obtain rfl := Option.some.inj h
      rw [empty]
      exact .empty
    · rw [if_neg empty] at h
      by_cases single : singleResults.contains bt
      · rw [if_pos single] at h
        obtain rfl := Option.some.inj h
        exact .single (single_iff.mpr ⟨single, rfl⟩)
      · rw [if_neg single] at h
        cases h

theorem blockType_of_resolves {bt : Int32} (h : m.Resolves bt.toInt sig) :
    m.blockType bt = some sig := by
  generalize value : bt.toInt = v at h
  cases h with
  | empty =>
    obtain rfl : bt = -64 := Int32.toInt_inj.mp value
    rfl
  | single listed =>
    rw [← value] at listed
    obtain ⟨single, rfl⟩ := single_iff.mp listed
    have some : bt ≠ -64 := by
      rintro rfl
      exact absurd single (by decide)
    rw [blockType, if_neg some, if_pos single]
  | indexed found =>
    rw [blockType_index (by omega), value]
    exact found

theorem blockType_eq_some {bt : Int32} : m.blockType bt = some sig ↔ m.Resolves bt.toInt sig :=
  ⟨resolves_of_blockType, blockType_of_resolves⟩

/-- Only integers that fit 32 bits stand for anything, while the indices of the types do. -/
theorem Resolves.narrow {v : Int} (few : m.types.length ≤ 2 ^ 31) (h : m.Resolves v sig) :
    -2 ^ 31 ≤ v ∧ v < 2 ^ 31 := by
  cases h with
  | empty => decide
  | single listed =>
    simp only [singles, List.mem_cons, Prod.mk.injEq, List.not_mem_nil, or_false] at listed
    omega
  | indexed found =>
    have inside := (List.getElem?_eq_some_iff.mp found).1
    omega

end Module

/-! ## Reading a block type -/

namespace Instr

open Read

def BlockGroup (g : List UInt8) (operands : UInt32 × Immediate) : Prop :=
  Leb128.Closed g ∧ g.length ≤ 5 ∧ operands.2 = .block (Int32.ofInt (Leb128.signed g))

theorem finds_s33 : Finds (number Leb128.decodeS33) fun g v =>
    Leb128.Closed g ∧ g.length ≤ 5 ∧ v = Int64.ofInt (Leb128.signed g) := by
  refine ((agrees_number _).finds Leb128.settled_s33).mono fun used v found => ?_
  obtain ⟨g, closed, short, front, value, length⟩ :=
    (Leb128.decodeS33_wraps _ v used.length).mp (found.2 [])
  rw [List.append_nil] at front
  obtain rfl : g = used := front.eq_of_length length.symm
  have value : v.toInt = Leb128.signed g := value
  exact ⟨closed, short, by rw [← value, Int64.ofInt_toInt]⟩

theorem finds_blockGroup (size start : Nat) (op : UInt8) :
    Finds (operands size start op) fun g r => Immediate.Kind.ofOpcode op = .block →
    BlockGroup g r := by
  by_cases block : Immediate.Kind.ofOpcode op = .block
  · unfold operands
    rw [block]
    refine finds_s33.map _ fun g v found _ => ?_
    obtain ⟨closed, short, rfl⟩ := found
    exact ⟨closed, short, by rw [Int64.toInt32_ofInt]⟩
  · exact (finds_operands size start op).mono fun g r _ other => absurd other block

theorem kind_of_opens {i : Instr} (opens : i.opens) :
    Immediate.Kind.ofOpcode i.opcode = .block := by
  simp only [Instr.opens, Bool.or_eq_true, decide_eq_true_eq] at opens
  rcases opens with ((eq | eq) | eq) | eq <;> rw [eq] <;> rfl

/-- What a read finds of an instruction holds of the bytes of every instruction in the code. -/
theorem readAll_finds {P : List UInt8 → Located → Prop} {size fuel : Nat} {bytes : List UInt8}
    {c : Cursor}
    {is : List Located} (finds : Finds (read size) P) (h : readAll size fuel c = .ok is)
    (whole : c.rest = bytes.drop c.pos) :
    ∀ i ∈ is, P ((bytes.drop i.start).take (i.stop - i.start)) i := by
  induction fuel generalizing c is with
  | zero =>
    obtain rfl := Except.ok.inj h
    simp
  | succ fuel ih =>
    rcases readAll_succ h with ⟨-, rfl⟩ | ⟨-, i, next, rest, first, others, rfl⟩
    · simp
    · obtain ⟨used, front, stop, found⟩ := finds c i next first
      obtain ⟨start_eq, stop_eq, -⟩ := read_ok first
      have after : bytes.drop c.pos = used ++ next.rest :=
        whole.symm.trans (congrArg Cursor.rest front)
      have length : next.pos = c.pos + used.length := congrArg Cursor.pos stop
      refine List.forall_mem_cons.mpr ⟨?_, ih others ?_⟩
      · rw [start_eq, stop_eq, length, Nat.add_sub_cancel_left, after, List.take_left]
        exact found
      · rw [length, ← List.drop_drop, after, List.drop_left]

end Instr

/-! ## Structures that are opened -/

namespace Walk

variable {w w' : Walk} {i : Instr}

/-- An opener that is reached pushes a frame of the signature that its block type stands for. -/
theorem Turn.of_opens (turn : w.Turn i w') (opens : i.opens) (live : w.dead = none) :
    ∃ type kind sig, i.imm = .block type ∧ w.mod.blockType type = some sig ∧
      w'.shapes = (kind, sig) :: w.shapes := by
  have shuts : i.shuts = false := by
    by_contra shuts
    simp [Instr.not_opens_of_shuts (by simpa using shuts)] at opens
  have divides : i.divides = false := by
    by_contra divides
    simp [(Instr.of_divides (by simpa using divides)).1] at opens
  cases turn with
  | skip _ _ _ _ _ before _ _ => simp [live] at before
  | within _ inner _ _ _ _ => simp [(Instr.of_not_structural inner).1] at opens
  | enter o type sig _ _ imm found _ shapes _ => exact ⟨type, o.frameKind, sig, imm, found, shapes⟩
  | otherwise _ _ opcode _ _ _ _ _ => simp [Instr.divides, opcode] at divides
  | handle _ _ _ _ _ opcode _ _ _ _ _ _ =>
    rcases opcode with eq | eq <;> simp [Instr.divides, eq] at divides
  | close _ _ _ _ opcode _ _ _ _ _ _ => simp [Instr.shuts, opcode] at shuts
  | delegate _ _ _ opcode _ _ _ _ _ _ => simp [Instr.shuts, opcode] at shuts

end Walk

namespace Job

variable {j : Job} {md : Metadata} {k : Nat} {i : Instr.Located}

theorem Accepted.turn (h : j.Accepted md) (found : j.code[k]? = some i) :
    (j.walk k).shapes ≠ [] ∧ (j.walk (k + 1)).mod = (j.walk k).mod ∧
      ((j.walk k).moveTo i).Turn i.toInstr (j.walk (k + 1)) := by
  obtain ⟨inside, done⟩ := step_done h found
  obtain ⟨-, fits, -⟩ := (Instr.readAll_ok (accepted_walk h).1).2 i (List.mem_of_getElem? found)
  exact ⟨by simpa [Walk.shapes] using inside, Walk.step_turn fits done⟩

/-- Along an accepted job the module stays, and frames and scopes go side by side. -/
theorem Accepted.paired (h : j.Accepted md) (le : k ≤ j.code.length) :
    (j.walk k).mod = j.mod ∧ (j.walk k).Paired := by
  induction k with
  | zero => exact ⟨rfl, .start j⟩
  | succ k ih =>
    obtain ⟨mod, paired⟩ := ih (Nat.le_of_succ_le le)
    obtain ⟨inside, same, turn⟩ := h.turn (List.getElem?_eq_getElem (Nat.lt_of_succ_le le))
    exact ⟨same.trans mod, (paired.moveTo _).turn inside turn⟩

def spelling (j : Job) (i : Instr.Located) : List UInt8 :=
  (j.body.bytes.drop i.start).take (i.stop - i.start)

theorem Accepted.blockGroup (h : j.Accepted md) (found : j.code[k]? = some i) (opens : i.opens) :
    ∃ g, j.spelling i = i.opcode :: g ∧ Instr.BlockGroup g (i.sub, i.imm) := by
  have finds := Instr.finds_located fun start op =>
    Instr.finds_blockGroup j.body.bytes.length start op
  obtain ⟨g, used, group⟩ :=
    Instr.readAll_finds finds (accepted_walk h).1 rfl i (List.mem_of_getElem? found)
  exact ⟨g, used, group (Instr.kind_of_opens opens)⟩

/-- Instruction `k` opens a structure of the signature `sig` with the block type that is written as
`g`. -/
structure TypedAs (j : Job) (k : Nat) (i : Instr.Located) (g : List UInt8)
    (sig : FuncType) : Prop where
  spelled : j.spelling i = i.opcode :: g
  closed : Leb128.Closed g
  short : g.length ≤ 5
  frame : (j.walk (k + 1)).frames.head?.map Frame.sig = some sig
  scope : (j.walk (k + 1)).gen.scopes.head?.map Scope.sig = some sig
  residue : j.mod.Resolves ((Leb128.signed g).bmod (2 ^ 32)) sig
  narrow : -2 ^ 31 ≤ Leb128.signed g ∧ Leb128.signed g < 2 ^ 31 →
    j.mod.Resolves (Leb128.signed g) sig
  wide : j.mod.types.length ≤ 2 ^ 31 → ¬ (-2 ^ 31 ≤ Leb128.signed g ∧ Leb128.signed g < 2 ^ 31) →
    ∀ sig', ¬ j.mod.Resolves (Leb128.signed g) sig'

/-- Every structure that is opened has the signature that the low 32 bits of its block type stand
for. An integer of more bits stands for nothing itself, and is accepted all the same when its low
bits stand for something. -/
theorem block_types_resolve (accepted : j.Accepted md) (found : j.code[k]? = some i)
    (opens : i.opens) (live : (j.walk k).dead = none) : ∃ g sig, j.TypedAs k i g sig := by
  obtain ⟨g, spelled, closed, short, imm⟩ := accepted.blockGroup found opens
  have inside : k < j.code.length := (List.getElem?_eq_some_iff.mp found).1
  obtain ⟨-, -, turn⟩ := accepted.turn found
  obtain ⟨type, kind, sig, imm', resolved, shapes⟩ := turn.of_opens opens live
  obtain rfl : Int32.ofInt (Leb128.signed g) = type := Immediate.block.inj (imm.symm.trans imm')
  have mod : (j.walk k).mod = j.mod := (accepted.paired (Nat.le_of_lt inside)).1
  obtain ⟨f, frames, top, shape, -⟩ := List.map_eq_cons_iff.mp shapes
  obtain ⟨-, rfl⟩ := Prod.mk.inj shape
  obtain ⟨s, scopes, scope, pairs⟩ := (accepted.paired (Nat.succ_le_of_lt inside)).2.top top
  have residue : j.mod.Resolves ((Leb128.signed g).bmod (2 ^ 32)) f.sig := by
    have resolves := Module.blockType_eq_some.mp resolved
    rwa [Int32.toInt_ofInt, Walk.moveTo, mod] at resolves
  refine ⟨g, f.sig, spelled, closed, short, by rw [top]; rfl, ?_, residue, ?_, ?_⟩
  · rw [scope, List.head?_cons, Option.map_some, pairs.sig]
  · rintro ⟨low, high⟩
    rwa [Int.bmod_eq_of_le (by omega) (by omega)] at residue
  · intro few big sig' resolves
    exact big (resolves.narrow few)

def wide : Job where
  mod := {
    types := [{}]
    funcs := [0]
    code := [{
      body := some [
        0x00,                                              -- no locals
        0x02, 0x80, 0x80, 0x80, 0x80, 0x70,                -- block of the type -4294967296
        0x0b, 0x0b]                                        -- end, end
      codeOffset := 1 }] }
  cfg := { convention := ⟨6, 8⟩ }
  func := 0

def wideTable : Metadata where
  bytes := [6, 0, 0, 0, 0, 0, 0, 0, 8, 0, 0, 0, 0, 0, 0, 0]
  locations := []
  returns := []
  func := 0
  numLocals := 0
  numArgs := 0
  numArgsOnStack := 0
  localBase := 16
  bytecodeOffset := 1
  bytecodeLength := 9

theorem block_types_resolve_wide :
    let i : Instr.Located := { opcode := 0x02, imm := .block 0, start := 1, stop := 7 }
    wide.Accepted wideTable ∧ wide.code[0]? = some i ∧ i.opens ∧ (wide.walk 0).dead = none ∧
      ∃ g sig, wide.TypedAs 0 i g sig := by
  intro i
  have accepted : wide.Accepted wideTable := by decide +kernel
  have found : wide.code[0]? = some i := by decide +kernel
  have live : (wide.walk 0).dead = none := by decide +kernel
  exact ⟨accepted, found, rfl, live, block_types_resolve accepted found rfl live⟩

/-- The function is accepted, and its block has the first type, which the integer does not stand
for. -/
theorem wide_block_accepted :
    let g : List UInt8 := [0x80, 0x80, 0x80, 0x80, 0x70]
    wide.Accepted wideTable ∧ Leb128.signed g = -2 ^ 32 ∧
    (∃ i, wide.code[0]? = some i ∧ i.opens ∧ (wide.walk 0).dead = none ∧
      wide.spelling i = i.opcode :: g) ∧
    (wide.walk 1).frames.head?.map Frame.sig = some {} ∧
    ∀ sig, ¬ wide.mod.Resolves (Leb128.signed g) sig := by
  refine ⟨by decide +kernel, by decide,
    ⟨{ opcode := 0x02, imm := .block 0, start := 1, stop := 7 }, ?_⟩, ?_, ?_⟩
  · decide +kernel
  · decide +kernel
  · intro sig resolves
    exact absurd (resolves.narrow (by decide)) (by decide)

end Job
end Sidetable
