import Sidetable.Proofs.Marshalling

/-!
# What a branch entry says of the operand stack

A branch keeps the values that its target takes and drops the others of the innermost scope. Its
entry has sixteen bits for each of the two numbers and keeps them modulo 2^16, so that they add up
to the height exactly if both of them fit.
-/
namespace Sidetable

namespace Setting

variable {s : Setting} {d : UInt32} {ds : List UInt32} {n pos width v : Nat}

theorem stores_pop (s : Setting) (d : UInt32) :
    Cell.Stores (s.branch d) 8 2 (s.height - s.arity d) :=
  (Cell.Stores.head _).right [.target]

theorem stores_arity (s : Setting) (d : UInt32) : Cell.Stores (s.branch d) 10 2 (s.arity d) :=
  (Cell.Stores.head _).right [.target, .num 2 (s.height - s.arity d)]

theorem stores_branches (found : ds[n]? = some d) (stores : Cell.Stores (s.branch d) pos width v) :
    Cell.Stores (ds.flatMap s.branch) (16 * n + pos) width v := by
  obtain ⟨inside, rfl⟩ := List.getElem?_eq_some_iff.mp found
  have split : ds.flatMap s.branch =
      (ds.take n).flatMap s.branch ++ (s.branch ds[n] ++ (ds.drop (n + 1)).flatMap s.branch) := by
    rw [← List.flatMap_cons, ← List.flatMap_append, ← List.drop_eq_getElem_cons inside,
      List.take_append_drop]
  have behind :=
    (stores.left ((ds.drop (n + 1)).flatMap s.branch)).right ((ds.take n).flatMap s.branch)
  rwa [sizes_branches, List.length_take, Nat.min_eq_left (Nat.le_of_lt inside), ← split] at behind

end Setting

namespace Scope

/-- Both numbers of a branch with `height` operands to the scope have at most sixteen bits. -/
def FitsBranch (s : Scope) (height : Int) : Prop :=
  s.branchArity < 65536 ∧ height - s.branchArity < 65536

instance (s : Scope) (height : Int) : Decidable (s.FitsBranch height) :=
  inferInstanceAs (Decidable (_ ∧ _))

end Scope

namespace Buffer

variable {b : Buffer} {pos : Nat} {s : Scope} {height : Int}

/-- The branch entry at `pos` keeps what the scope takes and drops all else of `height` operands. -/
def Adjusts (b : Buffer) (pos : Nat) (s : Scope) (height : Int) : Prop :=
  ∃ pop arity, b.get 2 (Int64.ofNat (pos + 8)) = .ok pop ∧
    b.get 2 (Int64.ofNat (pos + 10)) = .ok arity ∧ arity = s.branchArity ∧
      (pop + arity : Int) = height

/-- The branch entry at `pos` keeps the two numbers modulo 2^16. -/
structure Wraps (b : Buffer) (pos : Nat) (s : Scope) (height : Int) : Prop where
  enough : s.branchArity ≤ height
  pop : b.get 2 (Int64.ofNat (pos + 8)) = .ok ((height - s.branchArity).toNat % 65536)
  arity : b.get 2 (Int64.ofNat (pos + 10)) = .ok (s.branchArity % 65536)

theorem le_of_admits {total : Nat} (h : b.admits total) : total ≤ maxSize := by
  simp only [admits, Bool.and_eq_true, decide_eq_true_eq] at h
  exact h.1

theorem size_of_bytes {b' : Buffer} {cells : List Cell}
    (h : b'.bytes = b.bytes ++ Cell.blank cells) : b'.size = b.size + Cell.sizes cells := by
  have length := congrArg List.length h
  rwa [List.length_append, Cell.blank, Cell.length_write] at length

theorem Wraps.adjusts_iff (h : b.Wraps pos s height) :
    b.Adjusts pos s height ↔ s.FitsBranch height := by
  have enough := h.enough
  unfold Adjusts Scope.FitsBranch
  constructor
  · rintro ⟨pop, arity, readPop, readArity, same, sum⟩
    obtain rfl := Except.ok.inj (h.pop.symm.trans readPop)
    obtain rfl := Except.ok.inj (h.arity.symm.trans readArity)
    omega
  · rintro ⟨few, low⟩
    refine ⟨_, _, h.pop, h.arity, Nat.mod_eq_of_lt few, ?_⟩
    omega

end Buffer

namespace Generator

variable {g g' : Generator} {d : UInt32} {ds : List UInt32} {height : Int}

/-- A branch finds its scope with enough operands, and appends its entry. -/
theorem branch_appends (h : g.branch d height = .done g') :
    (∃ s, g.scopes[d.toNat]? = some s ∧ s.branchArity ≤ height) ∧
    g.buffer.admits (g.size + 16) ∧
    ∃ b : Buffer, b.bytes = g.buffer.bytes ++ Cell.blank ((g.setting height.toNat).branch d) ∧
      g' = { g with buffer := b, scopes := g.scopes.modify d.toNat (·.await g.mc) } := by
  cases found : g.scopes[d.toNat]? with
  | none =>
    simp only [branch, scopeAt, found] at h
    cases h
  | some s =>
    simp only [branch, scopeAt, found] at h
    by_cases few : height < s.branchArity
    · rw [if_pos few] at h
      cases h
    · rw [if_neg few, branch_entry found few] at h
      obtain ⟨g₁, emitted, rest⟩ := Outcome.andThen_done.mp h
      obtain ⟨admitted, rfl⟩ := emit_eq_done.mp emitted
      obtain rfl := Outcome.done.inj rest
      have length : (Cell.blank ((g.setting height.toNat).branch d)).length = 16 := by
        rw [Cell.blank, Cell.length_write, Setting.sizes_branch]
      rw [length] at admitted
      refine ⟨⟨s, rfl, Int.not_lt.mp few⟩, admitted, _, ?_, rfl⟩
      simp [Buffer.bytes]

theorem branches_append (h : g.branches height ds = .done g') (small : g.size ≤ Buffer.maxSize) :
    (∀ d ∈ ds, ∃ s, g.scopes[d.toNat]? = some s ∧ s.branchArity ≤ height) ∧
    g'.buffer.bytes = g.buffer.bytes ++ Cell.blank (ds.flatMap (g.setting height.toNat).branch) ∧
    g'.size ≤ Buffer.maxSize := by
  induction ds generalizing g with
  | nil =>
    obtain rfl := Outcome.done.inj h
    exact ⟨by simp, by simp, small⟩
  | cons d rest ih =>
    obtain ⟨g₁, first, others⟩ := Outcome.andThen_done.mp h
    obtain ⟨target, admitted, b, bytes, rfl⟩ := branch_appends first
    have grown := Buffer.size_of_bytes bytes
    rw [Setting.sizes_branch] at grown
    have low : b.size ≤ Buffer.maxSize := by
      rw [grown]
      exact Buffer.le_of_admits admitted
    obtain ⟨targets, all, bounded⟩ := ih others low
    rw [setting_await] at all
    refine ⟨List.forall_mem_cons.mpr ⟨target, ?_⟩, ?_, bounded⟩
    · intro e mem
      obtain ⟨s, found, enough⟩ := targets e mem
      have arity := branchArity_await g.scopes d.toNat e.toNat g.mc
      rw [found] at arity
      obtain ⟨s', found', same⟩ := Option.map_eq_some_iff.mp arity.symm
      exact ⟨s', found', by rwa [same]⟩
    · rw [all, bytes, List.flatMap_cons, Cell.blank_append, List.append_assoc]

theorem branches_wrap (h : g.branches height ds = .done g') (small : g.size ≤ Buffer.maxSize) :
    g'.size = g.size + 16 * ds.length ∧ ∀ n e, ds[n]? = some e →
      ∃ s, g.scopes[e.toNat]? = some s ∧ g'.buffer.Wraps (g.size + 16 * n) s height := by
  obtain ⟨targets, bytes, bounded⟩ := branches_append h small
  constructor
  · have grown := Buffer.size_of_bytes bytes
    rwa [Setting.sizes_branches] at grown
  · intro n e place
    obtain ⟨s, found, enough⟩ := targets e (List.mem_of_getElem? place)
    have arity : (g.setting height.toNat).arity e = s.branchArity := by simp [setting, found]
    have rest :
        (g.setting height.toNat).height - s.branchArity = (height - s.branchArity).toNat := by
      simp only [setting]
      omega
    have pop := Setting.stores_branches place (Setting.stores_pop (g.setting height.toNat) e)
    have kept := Setting.stores_branches place (Setting.stores_arity (g.setting height.toNat) e)
    rw [arity] at pop kept
    rw [rest] at pop
    refine ⟨s, found, enough, ?_, ?_⟩
    · rw [Nat.add_assoc]
      exact Buffer.get_of_stores bytes bounded pop
    · rw [Nat.add_assoc]
      exact Buffer.get_of_stores bytes bounded kept

/-- Every branch that succeeds finds its scope, and appends an entry with the values that the scope
takes and those that remain of the height, each modulo 2^16. The entry adds up to the height exactly
if both numbers fit. -/
theorem branches_adjust_iff (g g' : Generator) (height : Int) :
    (∀ d, g.branch d height = .done g' → g'.size = g.size + 16 ∧
      ∃ s, g.scopes[d.toNat]? = some s ∧ g'.buffer.Wraps g.size s height ∧
        (g'.buffer.Adjusts g.size s height ↔ s.FitsBranch height)) ∧
    ∀ ds d, g.branchTable ds d height = .done g' → g'.size = g.size + 8 + 16 * (ds.length + 1) ∧
      ∀ n e, (ds ++ [d])[n]? = some e →
        ∃ s, g.scopes[e.toNat]? = some s ∧ g'.buffer.Wraps (g.size + 8 + 16 * n) s height ∧
          (g'.buffer.Adjusts (g.size + 8 + 16 * n) s height ↔ s.FitsBranch height) := by
  constructor
  · intro d done
    have small : g.size ≤ Buffer.maxSize := by
      have admitted := Buffer.le_of_admits (branch_appends done).2.1
      omega
    have listed : g.branches height [d] = .done g' := Outcome.andThen_done.mpr ⟨g', done, rfl⟩
    obtain ⟨size, entries⟩ := branches_wrap listed small
    obtain ⟨s, found, wraps⟩ := entries 0 d rfl
    exact ⟨size, s, found, wraps, wraps.adjusts_iff⟩
  · intro ds d done
    obtain ⟨g₁, counted, rest⟩ := Outcome.andThen_done.mp done
    obtain ⟨admitted, rfl⟩ := emit_eq_done.mp counted
    have word : (Entry.raw (ds.length + 1)).length = 8 := by simp [Entry.raw]
    have size : Generator.size { g with buffer := { g.buffer with
        data := g.buffer.data ++ (Entry.raw (ds.length + 1)).toArray } } = g.size + 8 := by
      simp [Generator.size, Buffer.size, word]
    rw [word, ← size] at admitted
    obtain ⟨grown, entries⟩ := branches_wrap rest (Buffer.le_of_admits admitted)
    rw [size] at grown entries
    rw [List.length_append, List.length_singleton] at grown
    refine ⟨grown, fun n e place => ?_⟩
    obtain ⟨s, found, wraps⟩ := entries n e place
    exact ⟨s, found, wraps, wraps.adjusts_iff⟩

def nested : Generator :=
  { start {} [] 0 ⟨[], []⟩ {} with scopes := [{ kind := .loop, sig := ⟨[.i32, .i64], []⟩ },
      { kind := .block, sig := ⟨[], [.f32]⟩ }, { kind := .toplevel, sig := ⟨[], []⟩ }] }

theorem branches_adjust_iff_nested : ∃ g', nested.branchTable [0, 1] 2 3 = .done g' ∧ g'.size = 56 ∧
    ∀ n e, [0, 1, 2][n]? = some e → ∃ s, nested.scopes[UInt32.toNat e]? = some s ∧
      g'.buffer.Wraps (8 + 16 * n) s 3 ∧ (g'.buffer.Adjusts (8 + 16 * n) s 3 ↔ s.FitsBranch 3) := by
  obtain ⟨g', done⟩ : ∃ g', nested.branchTable [0, 1] 2 3 = .done g' := ⟨_, rfl⟩
  obtain ⟨size, entries⟩ := (branches_adjust_iff nested g' 3).2 [0, 1] 2 done
  exact ⟨g', done, size, entries⟩

/-- One operand more than the field can count: the entry drops none. -/
theorem tall_branch_drops_none : ∃ g' s, (start {} [] 0 ⟨[], []⟩ {}).branch 0 65536 = .done g' ∧
    (start {} [] 0 ⟨[], []⟩ {}).scopes[0]? = some s ∧ g'.buffer.get 2 8 = .ok 0 ∧
    g'.buffer.get 2 10 = .ok 0 ∧ ¬ g'.buffer.Adjusts 0 s 65536 := by
  obtain ⟨g', done, dropped, kept⟩ : ∃ g', (start {} [] 0 ⟨[], []⟩ {}).branch 0 65536 = .done g' ∧
      g'.buffer.get 2 8 = .ok 0 ∧ g'.buffer.get 2 10 = .ok 0 :=
    ⟨_, rfl, by decide +kernel, by decide +kernel⟩
  refine ⟨g', _, done, rfl, dropped, kept, ?_⟩
  rintro ⟨pop, arity, readPop, readArity, -, sum⟩
  obtain rfl := Except.ok.inj (dropped.symm.trans readPop)
  obtain rfl := Except.ok.inj (kept.symm.trans readArity)
  cases sum

end Generator
end Sidetable
