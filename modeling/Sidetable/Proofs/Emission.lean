import Sidetable.Proofs.Entries
import Sidetable.Proofs.Patching

/-!
# What the operations of the generator do

Each operation appends the cells of its entry, writes one target into the words that it settles, and
leaves the scopes as `scopesAfter` says. Words are conserved: those that waited and those that are
new are either settled or wait still, and no word is counted twice.
-/
namespace Sidetable

theorem Outcome.andThen_done {σ ε : Type} {o : Outcome σ ε} {next : σ → Outcome σ ε} {s' : σ} :
    o.andThen next = .done s' ↔ ∃ s, o = .done s ∧ next s = .done s' := by
  cases o <;> simp [Outcome.andThen]

theorem Outcome.map_done {σ τ ε δ : Type} {o : Outcome σ ε} {state : σ → τ} {error : ε → δ}
    {t : τ} : o.map state error = .done t ↔ ∃ s, o = .done s ∧ state s = t := by
  cases o <;> simp [Outcome.map]

def Scope.outstanding (scopes : List Scope) : List UInt32 :=
  scopes.flatMap Scope.waiting

/-- Branches to the given labels wait, the first with its word at `pos` and each next 16 bytes
on. -/
def Scope.awaitAll : Nat → List Scope → List UInt32 → List Scope
  | _, scopes, [] => scopes
  | pos, scopes, d :: rest =>
    awaitAll (pos + 16) (scopes.modify d.toNat (·.await (UInt32.ofNat pos))) rest

namespace Generator

def setting (g : Generator) (height : Nat) : Setting where
  globals := g.globals
  registers := g.registers
  layout := g.layout
  pc := g.pc.toNat
  length := g.length.toNat
  height
  arity d := (g.scopes[d.toNat]?.map Scope.branchArity).getD 0
  final := g.scopes.head?.bind fun s => if s.kind = .toplevel then some s.branchTypes else none

def cells (g : Generator) : Op → List Cell
  | .block _ | .loop _ => [.num 8 g.pc.toNat]
  | .cond _ => [.target, .num 8 g.pc.toNat]
  | .otherwise => if g.site.opcode = endOpcode then [] else [.target]
  | .close => ((g.setting 0).final.map Cell.returnData).getD []
  | .branch d height => (g.setting height.toNat).branch d
  | .branchTable ds d height =>
    .num 8 (ds.length + 1) :: (ds ++ [d]).flatMap (g.setting height.toNat).branch
  | .call func callee => [.num 4 func.toNat, .num 4 g.pc.toNat] ++ Cell.callData g.registers callee
  | .callIndirect table type callee =>
    [.num 4 table.toNat, .num 4 type.toNat, .num 4 0, .num 4 g.pc.toNat] ++
      Cell.callData g.registers callee
  | .localSlot index => (g.setting 0).localSlot index
  | .localTee index => (g.setting 0).localSlot index ++ (g.setting 0).localSlot index
  | .globalGet index => (g.setting 0).globalGet index
  | .globalSet index => (g.setting 0).globalSet index
  | .value v => (g.setting 0).value v
  | .pair a b => [.num 4 a.toNat, .num 4 b.toNat, .num 8 g.length.toNat]
  | .i64Const v => [.num 8 v.toUInt64.toNat, .num 8 g.length.toNat]
  | .select => [.num 8 g.length.toNat]
  | .addLocals _ | .startCode | .attempt _ | .handle _ | .delegate _ => []

def settles (g : Generator) : Op → List UInt32
  | .otherwise => (g.scopes.head?.bind Scope.pending).toList
  | .close | .delegate _ => (g.scopes.head?.map Scope.waiting).getD []
  | _ => []

def goal (g : Generator) : Op → Target
  | .otherwise => { pc := g.pc, mc := if g.site.opcode = endOpcode then g.mc else g.mc + 8 }
  | .close =>
    match g.scopes.head? with
    | some s =>
      if s.kind = .loop then s.entry.getD { pc := 0, mc := 0 } else { pc := g.pc - 1, mc := g.mc }
    | none => .unset
  | .delegate _ => { pc := g.pc, mc := g.mc }
  | _ => .unset

def record (g : Generator) (op : Op) (l : Ledger) : Ledger :=
  (l.assign (g.settles op) (g.goal op)).add (g.cells op)

def scopesAfter (g : Generator) : Op → List Scope
  | .block sig => { kind := .block, sig } :: g.scopes
  | .loop sig =>
    { kind := .loop, sig, entry := some { pc := g.pc, mc := UInt32.ofNat (g.size + 8) } } ::
      g.scopes
  | .cond sig => { kind := .cond, sig, pending := some g.mc } :: g.scopes
  | .attempt sig => { kind := .attempt, sig } :: g.scopes
  | .otherwise =>
    match g.scopes with
    | s :: rest =>
      { s.convert .block .none with
        pending := if g.site.opcode = endOpcode then none else some g.mc } :: rest
    | [] => []
  | .close | .delegate _ => g.scopes.tail
  | .handle handler =>
    match g.scopes with
    | s :: rest => s.convert .handler handler :: rest
    | [] => []
  | .branch d _ => Scope.awaitAll g.size g.scopes [d]
  | .branchTable ds d _ => Scope.awaitAll (g.size + 8) g.scopes (ds ++ [d])
  | _ => g.scopes

def plan (g : Generator) : Generator :=
  { g with buffer := {}, scopes := [], bytecodeLength := 0, finished := false, log := #[] }

def planAfter (g : Generator) : Op → Generator
  | .addLocals count => (g.addLocals count).plan
  | .startCode => g.startCode.plan
  | _ => g.plan

variable {g g' : Generator} {l : Ledger}

@[simp] theorem cells_record (g : Generator) (op : Op) (l : Ledger) :
    (g.record op l).cells = l.cells ++ g.cells op :=
  rfl

@[simp] theorem size_record (g : Generator) (op : Op) (l : Ledger) :
    (g.record op l).size = l.size + Cell.sizes (g.cells op) := by
  rw [record, Ledger.size_add, Ledger.size_assign]

theorem emit_done {cells : List Cell} (h : g.emit (Cell.blank cells) = .done g')
    (hold : g.buffer.Holds l) : ∃ b, g' = { g with buffer := b } ∧ b.Holds (l.add cells) := by
  unfold emit at h
  split at h
  · rename_i b hb
    obtain rfl := Outcome.done.inj h
    exact ⟨b, rfl, hold.append hb⟩
  · cases h

theorem patchAll_done (t : Target) (hold : g.buffer.Holds l) {offs : List UInt32}
    (words : ∀ off ∈ offs, off.toNat ∈ l.words) :
    ∃ b, patchAll t g offs = .done { g with buffer := b } ∧ b.Holds (l.assign offs t) := by
  induction offs generalizing g l with
  | nil => exact ⟨g.buffer, rfl, by rwa [Ledger.assign_nil]⟩
  | cons off rest ih =>
    obtain ⟨put, held⟩ := hold.retarget t (words off List.mem_cons_self)
    obtain ⟨b, all, held'⟩ := ih (g := { g with buffer := g.buffer.retarget off t }) held
      fun o ho => words o (List.mem_cons_of_mem _ ho)
    refine ⟨b, ?_, by rwa [Ledger.assign_cons] at held'⟩
    rw [patchAll, Generator.patch, put]
    exact all

theorem emit_eq_done {entry : List UInt8} :
    g.emit entry = .done g' ↔ g.buffer.admits (g.size + entry.length) ∧
      g' = { g with buffer := { g.buffer with data := g.buffer.data ++ entry.toArray } } := by
  unfold emit Buffer.append
  by_cases h : g.buffer.admits (g.buffer.size + entry.length) <;> simp [h, size, eq_comm]

theorem emit_emit {a b : List UInt8} (h : (g.emit a).andThen (fun g => g.emit b) = .done g') :
    g.emit (a ++ b) = .done g' := by
  obtain ⟨g₁, h₁, h₂⟩ := Outcome.andThen_done.mp h
  obtain ⟨-, rfl⟩ := emit_eq_done.mp h₁
  obtain ⟨admitted, rfl⟩ := emit_eq_done.mp h₂
  refine emit_eq_done.mpr ⟨?_, by simp⟩
  simpa [size, Buffer.size, Buffer.admits, Nat.add_assoc] using admitted

theorem callData_emit {callee : FuncType} (h : g.callData callee = .done g') :
    g.emit (Cell.blank (Cell.callData g.registers callee)) = .done g' := by
  obtain ⟨g₁, h₁, h₂⟩ := Outcome.andThen_done.mp h
  have tail := emit_emit h₂
  have whole := emit_emit (Outcome.andThen_done.mpr ⟨g₁, h₁, tail⟩)
  rwa [← List.append_assoc, ← Cell.blank_callData] at whole

theorem callData_done {callee : FuncType} (h : g.callData callee = .done g')
    (hold : g.buffer.Holds l) :
    ∃ b, g' = { g with buffer := b } ∧ b.Holds (l.add (Cell.callData g.registers callee)) :=
  emit_done (callData_emit h) hold

theorem branchArity_await (scopes : List Scope) (n m : Nat) (off : UInt32) :
    (scopes.modify n (·.await off))[m]?.map Scope.branchArity =
    scopes[m]?.map Scope.branchArity := by
  rw [List.getElem?_modify]
  cases scopes[m]? with
  | none => rfl
  | some s =>
    by_cases h : n = m
    · simp only [h, if_pos]
      rfl
    · simp [h]

theorem branch_entry {d : UInt32} {height : Int} {s : Scope} (found : g.scopes[d.toNat]? = some s)
    (enough : ¬ height < s.branchArity) :
    Entry.branch (height - s.branchArity).toNat s.branchArity g.pc =
      Cell.blank ((g.setting height.toNat).branch d) := by
  have pop : (height - s.branchArity).toNat = height.toNat - s.branchArity := by omega
  simp [Setting.branch, setting, found, Entry.branch, pop]

theorem branch_done {d : UInt32} {height : Int} (h : g.branch d height = .done g')
    (hold : g.buffer.Holds l) :
    d.toNat < g.scopes.length ∧ ∃ b,
      g' = { g with buffer := b, scopes := g.scopes.modify d.toNat (·.await g.mc) } ∧
      b.Holds (l.add ((g.setting height.toNat).branch d)) := by
  cases hs : g.scopes[d.toNat]? with
  | none =>
    simp only [branch, scopeAt, hs] at h
    cases h
  | some s =>
    simp only [branch, scopeAt, hs] at h
    split at h
    · cases h
    · rename_i enough
      obtain ⟨g₁, h₁, h₂⟩ := Outcome.andThen_done.mp h
      rw [branch_entry hs enough] at h₁
      obtain ⟨b, rfl, held⟩ := emit_done h₁ hold
      obtain rfl := Outcome.done.inj h₂
      exact ⟨(List.getElem?_eq_some_iff.mp hs).1, b, rfl, held⟩

theorem setting_await (n : Nat) (off : UInt32) (buffer : Buffer) (height : Nat) :
    (Generator.setting { g with buffer, scopes := g.scopes.modify n (·.await off) } height).branch =
      (g.setting height).branch := by
  funext e
  simp only [Setting.branch, setting, branchArity_await]
  rfl

theorem branches_done {ds : List UInt32} {height : Int} (h : g.branches height ds = .done g')
    (hold : g.buffer.Holds l) :
    (∀ d ∈ ds, d.toNat < g.scopes.length) ∧ ∃ b,
      g' = { g with buffer := b, scopes := Scope.awaitAll g.size g.scopes ds } ∧
      b.Holds (l.add (ds.flatMap (g.setting height.toNat).branch)) := by
  induction ds generalizing g l with
  | nil =>
    obtain rfl := Outcome.done.inj h
    exact ⟨by simp, g.buffer, rfl, by rwa [List.flatMap_nil, Ledger.add_nil]⟩
  | cons d rest ih =>
    obtain ⟨g₁, h₁, h₂⟩ := Outcome.andThen_done.mp h
    obtain ⟨inside, b₁, rfl, held⟩ := branch_done h₁ hold
    obtain ⟨others, b, rfl, held'⟩ := ih h₂ held
    have size : b₁.size = g.size + 16 := by
      rw [held.size, Ledger.size_add, Setting.sizes_branch, ← hold.size]
      rfl
    refine ⟨?_, b, ?_, ?_⟩
    · simpa [inside] using others
    · simp [Scope.awaitAll, Generator.size, size, mc]
    · rwa [setting_await, Ledger.add_add] at held'

theorem resolve_done (s : Scope) (t : Target) (hold : g.buffer.Holds l)
    (words : ∀ off ∈ s.waiting, off.toNat ∈ l.words) :
    ∃ b log, g.resolve s t = .done { g with buffer := b, log := log } ∧
      b.Holds (l.assign s.waiting t) := by
  obtain ⟨b, all, held⟩ := patchAll_done t hold words
  refine ⟨b, g.log.push (.scopeClosed g.func s.kind s.awaiting.length t), ?_, held⟩
  rw [resolve, all]
  rfl

structure Did (g : Generator) (op : Op) (g' : Generator) (l : Ledger) : Prop where
  holds : g'.buffer.Holds (g.record op l)
  scopes : g'.scopes = g.scopesAfter op
  plan : g'.plan = g.planAfter op

theorem did_of_holds {op : Op} (holds : g'.buffer.Holds (l.add (g.cells op)))
    (settles : g.settles op = [])
    (scopes : g'.scopes = g.scopesAfter op) (plan : g'.plan = g.planAfter op) : g.Did op g' l :=
  ⟨by rwa [record, settles, Ledger.assign_nil], scopes, plan⟩

theorem did_of_emit {op : Op} (h : g.emit (Cell.blank (g.cells op)) = .done g')
    (hold : g.buffer.Holds l) (settles : g.settles op = []) (scopes : g.scopesAfter op = g.scopes)
    (plan : g.planAfter op = g.plan) : g.Did op g' l := by
  obtain ⟨b, rfl, held⟩ := emit_done h hold
  exact did_of_holds held settles scopes.symm plan.symm

theorem value_entry (v : UInt32) : g.value v = g.emit (Cell.blank ((g.setting 0).value v)) := by
  simp [value, Setting.value, setting, Entry.value]

theorem raw_cells (v : Nat) : Entry.raw v = Cell.blank [.num 8 v] := by
  simp [Entry.raw]

theorem placeholder_cells : Entry.placeholder = Cell.blank [.target] := by
  simp

theorem block_did {sig : FuncType} (h : g.block sig = .done g') (hold : g.buffer.Holds l) :
    g.Did (.block sig) g' l := by
  rw [block, raw_cells] at h
  obtain ⟨b, rfl, held⟩ := emit_done h hold
  exact did_of_holds held rfl rfl rfl

theorem loop_did {sig : FuncType} (h : g.loop sig = .done g') (hold : g.buffer.Holds l) :
    g.Did (.loop sig) g' l := by
  rw [loop, raw_cells] at h
  obtain ⟨g₁, h₁, h₂⟩ := Outcome.andThen_done.mp h
  obtain ⟨b, rfl, held⟩ := emit_done h₁ hold
  obtain rfl := Outcome.done.inj h₂
  have size : b.size = g.size + 8 := by
    rw [held.size, Ledger.size_add, ← hold.size]
    rfl
  exact did_of_holds held rfl (by simp [push, scopesAfter, mc, Generator.size, size]) rfl

theorem cond_did {sig : FuncType} (h : g.cond sig = .done g') (hold : g.buffer.Holds l) :
    g.Did (.cond sig) g' l := by
  rw [cond, raw_cells, placeholder_cells] at h
  obtain ⟨g₁, h₁, h₂⟩ := Outcome.andThen_done.mp h
  obtain ⟨b₁, rfl, held₁⟩ := emit_done h₁ hold
  obtain ⟨b, rfl, held⟩ := emit_done h₂ held₁
  rw [Ledger.add_add] at held
  exact did_of_holds held rfl rfl rfl

theorem patch_done {off : UInt32} {t : Target} (h : g.patch off t = .done g')
    (hold : g.buffer.Holds l) (word : off.toNat ∈ l.words) :
    ∃ b, g' = { g with buffer := b } ∧ b.Holds (l.assign [off] t) := by
  obtain ⟨put, held⟩ := hold.retarget t word
  rw [Generator.patch, put] at h
  exact ⟨_, (Outcome.done.inj h).symm, held⟩

theorem otherwise_did (h : g.otherwise = .done g') (hold : g.buffer.Holds l)
    (words : ∀ off ∈ g.settles .otherwise, off.toNat ∈ l.words) : g.Did .otherwise g' l := by
  cases hs : g.scopes with
  | nil =>
    simp only [otherwise, hs, List.head?_nil] at h
    cases h
  | cons s rest =>
    simp only [otherwise, hs, List.head?_cons] at h
    split at h
    · rename_i p kind pending
      have settled : g.settles .otherwise = [p] := by simp [settles, hs, pending]
      have word := words p (by simp [settled])
      split at h
      · rename_i implied
        obtain ⟨g₁, h₁, h₂⟩ := Outcome.andThen_done.mp h
        obtain ⟨b, rfl, held⟩ := patch_done h₁ hold word
        obtain rfl := Outcome.done.inj h₂
        have target : g.goal .otherwise = { pc := g.pc, mc := g.mc } := by simp [goal, implied]
        refine ⟨?_, ?_, rfl⟩
        · simpa [record, settled, target, cells, implied, setTop] using held
        · simp [setTop, scopesAfter, hs, implied, Scope.convert]
      · rename_i explicit
        obtain ⟨g₁, h₁, h₂⟩ := Outcome.andThen_done.mp h
        obtain ⟨b₁, rfl, held₁⟩ := patch_done h₁ hold word
        rw [placeholder_cells] at h₂
        obtain ⟨g₂, h₃, h₄⟩ := Outcome.andThen_done.mp h₂
        obtain ⟨b, rfl, held⟩ := emit_done h₃ held₁
        obtain rfl := Outcome.done.inj h₄
        have target : g.goal .otherwise = { pc := g.pc, mc := g.mc + 8 } := by simp [goal, explicit]
        have size : b₁.size = g.size := by
          rw [held₁.size, Ledger.size_assign, ← hold.size]
          rfl
        refine ⟨?_, ?_, rfl⟩
        · simpa [record, settled, target, cells, explicit, setTop] using held
        · simp [setTop, scopesAfter, hs, explicit, mc, Generator.size, size]
    · cases h

theorem close_did (h : g.close = .done g') (hold : g.buffer.Holds l)
    (words : ∀ off ∈ g.settles .close, off.toNat ∈ l.words) : g.Did .close g' l := by
  cases hs : g.scopes with
  | nil =>
    simp only [close, hs] at h
    cases h
  | cons s rest =>
    have settled : g.settles .close = s.waiting := by simp [settles, hs]
    rw [settled] at words
    obtain ⟨b, log, resolved, held⟩ :=
      resolve_done (g := { g with scopes := rest }) s (g.goal .close) hold words
    have plainly : g.cells .close = [] →
        Generator.resolve { g with scopes := rest } s (g.goal .close) = .done g' →
        g.Did .close g' l := by
      intro empty done
      obtain rfl := Outcome.done.inj (resolved.symm.trans done)
      exact ⟨by rwa [record, settled, empty, Ledger.add_nil], by simp [scopesAfter, hs], rfl⟩
    simp only [close, hs] at h
    split at h
    · rename_i kind
      refine plainly (by simp [cells, setting, hs, kind]) ?_
      simpa [goal, hs, kind] using h
    · rename_i kind
      have target : g.goal .close = { pc := g.pc - 1, mc := g.mc } := by simp [goal, hs, kind]
      rw [← target] at h
      obtain ⟨g₁, h₁, h₂⟩ := Outcome.andThen_done.mp h
      obtain rfl := Outcome.done.inj (resolved.symm.trans h₁)
      obtain ⟨g₂, h₃, h₄⟩ := Outcome.andThen_done.mp h₂
      rw [← Cell.blank_returnData] at h₃
      obtain ⟨b', rfl, held'⟩ := emit_done h₃ held
      obtain rfl := Outcome.done.inj h₄
      have appended : g.cells .close = Cell.returnData s.branchTypes := by
        simp [cells, setting, hs, kind]
      exact ⟨by rwa [record, settled, appended], by simp [scopesAfter, hs], rfl⟩
    · rename_i notLoop notTop
      have loopless : s.kind ≠ .loop := notLoop
      have inner : s.kind ≠ .toplevel := notTop
      refine plainly (by simp [cells, setting, hs, inner]) ?_
      simpa [goal, hs, loopless] using h

theorem delegate_did {depth : UInt32} (h : g.delegate depth = .done g') (hold : g.buffer.Holds l)
    (words : ∀ off ∈ g.settles (.delegate depth), off.toNat ∈ l.words) :
    g.Did (.delegate depth) g' l := by
  cases hs : g.scopes with
  | nil =>
    simp only [delegate, hs] at h
    cases h
  | cons s rest =>
    have settled : g.settles (.delegate depth) = s.waiting := by simp [settles, hs]
    rw [settled] at words
    simp only [delegate, hs] at h
    split at h
    · obtain ⟨b, log, resolved, held⟩ := resolve_done (g := { g with
        scopes := rest, log := g.log.push (.delegate g.func depth s.awaiting.length) }) s
        { pc := g.pc, mc := g.mc } hold words
      obtain rfl := Outcome.done.inj (resolved.symm.trans h)
      exact ⟨by rwa [record, settled, show g.cells (.delegate depth) = [] from rfl, Ledger.add_nil],
        by simp [scopesAfter, hs], rfl⟩
    · cases h

theorem handle_did {handler : Handler} (h : g.handle handler = .done g') (hold : g.buffer.Holds l) :
    g.Did (.handle handler) g' l := by
  cases hs : g.scopes with
  | nil =>
    simp only [handle, hs, List.head?_nil] at h
    cases h
  | cons s rest =>
    simp only [handle, hs, List.head?_cons] at h
    split at h
    case h_3 => cases h
    all_goals
      obtain rfl := Outcome.done.inj h
      refine did_of_holds ?_ rfl ?_ rfl
      · rwa [show g.cells (.handle handler) = [] from rfl, Ledger.add_nil]
      · simp [setTop, scopesAfter, hs]

theorem globalGet_entry {index : UInt32} {info : GlobalInfo}
    (found : g.globals[index.toNat]? = some info) :
    g.globalGet index = g.emit (Cell.blank (g.cells (.globalGet index))) := by
  have entry : Entry.globalGet index g.length info.binding.code =
      Cell.blank (g.cells (.globalGet index)) := by
    simp [cells, Setting.globalGet, setting, found, Entry.globalGet]
  simp only [globalGet, found, entry]

theorem globalSet_entry {index : UInt32} {info : GlobalInfo}
    (found : g.globals[index.toNat]? = some info) :
    g.globalSet index = g.emit (Cell.blank (g.cells (.globalSet index))) := by
  have entry : Entry.globalSet index g.length info.binding.code info.type.isRef =
      Cell.blank (g.cells (.globalSet index)) := by
    cases hr : info.type.isRef <;>
      simp [cells, Setting.globalSet, setting, found, hr, Entry.globalSet, LittleEndian.encode]
  simp only [globalSet, found, entry]

theorem globalGet_did {index : UInt32} (h : g.globalGet index = .done g')
    (hold : g.buffer.Holds l) : g.Did (.globalGet index) g' l := by
  cases found : g.globals[index.toNat]? with
  | none =>
    simp only [globalGet, found] at h
    cases h
  | some info =>
    rw [globalGet_entry found] at h
    exact did_of_emit h hold rfl rfl rfl

theorem globalSet_did {index : UInt32} (h : g.globalSet index = .done g')
    (hold : g.buffer.Holds l) : g.Did (.globalSet index) g' l := by
  cases found : g.globals[index.toNat]? with
  | none =>
    simp only [globalSet, found] at h
    cases h
  | some info =>
    rw [globalSet_entry found] at h
    exact did_of_emit h hold rfl rfl rfl

theorem call_entry (func : UInt32) :
    Entry.call func g.pc = Cell.blank [.num 4 func.toNat, .num 4 g.pc.toNat] := by
  simp [Entry.call]

theorem callIndirect_entry (table type : UInt32) : Entry.callIndirect table type g.pc =
    Cell.blank [.num 4 table.toNat, .num 4 type.toNat, .num 4 0, .num 4 g.pc.toNat] := by
  simp [Entry.callIndirect]

def Op.appends : Op → Bool
  | .localSlot _ | .value _ | .pair _ _ | .i64Const _ | .select => true
  | _ => false

theorem apply_of_appends {op : Op} (h : op.appends) :
    g.apply op = g.emit (Cell.blank (g.cells op)) := by
  cases op with
  | localSlot index => rw [apply, localSlot, value_entry]; rfl
  | value v => rw [apply, value_entry]; rfl
  | pair a b => simp [apply, pair, cells, Entry.pair]
  | i64Const v => simp [apply, i64Const, cells, Entry.wide]
  | select => rw [apply, select, raw_cells]; rfl
  | _ => cases h

/-- A call is a header followed by the call data of its callee. -/
theorem call_did {op : Op} {header : List Cell} {callee : FuncType}
    (h : (g.emit (Cell.blank header)).andThen (fun g => g.callData callee) = .done g')
    (hold : g.buffer.Holds l) (cells : g.cells op = header ++ Cell.callData g.registers callee)
    (settles : g.settles op = []) (scopes : g.scopesAfter op = g.scopes)
    (plan : g.planAfter op = g.plan) : g.Did op g' l := by
  obtain ⟨g₁, h₁, h₂⟩ := Outcome.andThen_done.mp h
  obtain ⟨b₁, rfl, held₁⟩ := emit_done h₁ hold
  obtain ⟨b, rfl, held⟩ := callData_done h₂ held₁
  rw [Ledger.add_add] at held
  exact did_of_holds (by rwa [cells]) settles scopes.symm plan.symm

theorem localTee_did {index : UInt32} (h : g.localTee index = .done g') (hold : g.buffer.Holds l) :
    g.Did (.localTee index) g' l := by
  obtain ⟨g₁, h₁, h₂⟩ := Outcome.andThen_done.mp h
  rw [localSlot, value_entry] at h₁ h₂
  obtain ⟨b₁, rfl, held₁⟩ := emit_done h₁ hold
  obtain ⟨b, rfl, held⟩ := emit_done h₂ held₁
  rw [Ledger.add_add] at held
  exact did_of_holds held rfl rfl rfl

theorem branch_did {d : UInt32} {height : Int} (h : g.branch d height = .done g')
    (hold : g.buffer.Holds l) : g.Did (.branch d height) g' l := by
  obtain ⟨-, b, rfl, held⟩ := branch_done h hold
  exact did_of_holds held rfl rfl rfl

theorem branchTable_did {ds : List UInt32} {d : UInt32} {height : Int}
    (h : g.branchTable ds d height = .done g') (hold : g.buffer.Holds l) :
    g.Did (.branchTable ds d height) g' l := by
  rw [branchTable, raw_cells] at h
  obtain ⟨g₁, h₁, h₂⟩ := Outcome.andThen_done.mp h
  obtain ⟨b₁, rfl, held₁⟩ := emit_done h₁ hold
  obtain ⟨-, b, rfl, held⟩ := branches_done h₂ held₁
  have size : b₁.size = g.size + 8 := by
    rw [held₁.size, Ledger.size_add, ← hold.size]
    rfl
  rw [Ledger.add_add] at held
  exact did_of_holds held rfl (by simp [scopesAfter, Generator.size, size]) rfl

theorem apply_did {op : Op} (h : g.apply op = .done g') (hold : g.buffer.Holds l)
    (words : ∀ off ∈ g.settles op, off.toNat ∈ l.words) : g.Did op g' l := by
  cases op with
  | addLocals count =>
    obtain rfl := Outcome.done.inj h
    exact did_of_holds (by rwa [show g.cells (.addLocals count) = [] from rfl, Ledger.add_nil]) rfl
      rfl rfl
  | startCode =>
    obtain rfl := Outcome.done.inj h
    exact did_of_holds (by rwa [show g.cells .startCode = [] from rfl, Ledger.add_nil]) rfl rfl rfl
  | attempt sig =>
    obtain rfl := Outcome.done.inj h
    exact did_of_holds (by rwa [show g.cells (.attempt sig) = [] from rfl, Ledger.add_nil]) rfl rfl
      rfl
  | block sig => exact block_did h hold
  | loop sig => exact loop_did h hold
  | cond sig => exact cond_did h hold
  | otherwise => exact otherwise_did h hold words
  | close => exact close_did h hold words
  | handle handler => exact handle_did h hold
  | delegate depth => exact delegate_did h hold words
  | branch d height => exact branch_did h hold
  | branchTable ds d height => exact branchTable_did h hold
  | call func callee =>
    rw [apply, call, call_entry] at h
    exact call_did h hold rfl rfl rfl rfl
  | callIndirect table type callee =>
    rw [apply, callIndirect, callIndirect_entry] at h
    exact call_did h hold rfl rfl rfl rfl
  | localTee index => exact localTee_did h hold
  | globalGet index => exact globalGet_did h hold
  | globalSet index => exact globalSet_did h hold
  | localSlot _ | value _ | pair _ _ | i64Const _ | select =>
    rw [apply_of_appends rfl] at h
    exact did_of_emit h hold rfl rfl rfl

end Generator
end Sidetable
