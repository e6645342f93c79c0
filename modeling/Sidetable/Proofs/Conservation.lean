import Sidetable.Proofs.Emission
import Mathlib.Data.List.Perm.Lattice

/-!
# Target words are conserved

An operation settles some of the words that waited and adds the words of its own entry. Every word
is either settled or waits still, and none is counted twice: a settled word is never written again.
-/
namespace Sidetable

namespace Cell

theorem words_of_not_mem {cells : List Cell} (h : target ∉ cells) (pos : Nat) :
    words pos cells = [] := by
  induction cells generalizing pos with
  | nil => rfl
  | cons c rest ih =>
    rw [List.mem_cons, not_or] at h
    cases c with
    | target => exact absurd rfl h.1
    | num width value => exact ih h.2 _

theorem target_not_mem_returnData (results : List ValType) : target ∉ returnData results := by
  simp [returnData, zeros]

theorem target_not_mem_callData (r : Registers) (callee : FuncType) :
    target ∉ callData r callee := by
  simp [callData, registers, stackArguments, zeros, target_not_mem_returnData]

end Cell

theorem Setting.words_branches (s : Setting) (pos : Nat) (ds : List UInt32) :
    Cell.words pos (ds.flatMap s.branch) = (List.range ds.length).map (pos + 16 * ·) := by
  induction ds generalizing pos with
  | nil => rfl
  | cons d rest ih =>
    rw [List.flatMap_cons, Cell.words_append, ih, Setting.sizes_branch, List.length_cons,
      List.range_succ_eq_map]
    simp [Setting.branch, Cell.words, Function.comp_def, Nat.mul_add, Nat.add_assoc,
      Nat.add_comm 16]

namespace Scope

theorem outstanding_await {scopes : List Scope} {n : Nat} (off : UInt32) (h : n < scopes.length) :
    (outstanding (scopes.modify n (·.await off))).Perm (outstanding scopes ++ [off]) := by
  induction scopes generalizing n with
  | nil => simp at h
  | cons s rest ih =>
    cases n with
    | zero =>
      simp only [outstanding, List.modify_zero_cons, List.flatMap_cons, waiting, await,
        List.append_assoc]
      exact List.perm_append_comm.append_left _ |>.append_left _
    | succ n =>
      simp only [outstanding, List.modify_succ_cons, List.flatMap_cons, List.append_assoc]
      exact (ih (Nat.lt_of_succ_lt_succ h)).append_left _

theorem outstanding_awaitAll {scopes : List Scope} {ds : List UInt32} (pos : Nat)
    (h : ∀ d ∈ ds, d.toNat < scopes.length) :
    (outstanding (awaitAll pos scopes ds)).Perm
      (outstanding scopes ++ ((List.range ds.length).map (pos + 16 * ·)).map UInt32.ofNat) := by
  induction ds generalizing pos scopes with
  | nil => simp [awaitAll]
  | cons d rest ih =>
    have first := outstanding_await (UInt32.ofNat pos) (h d List.mem_cons_self)
    have inside :
        ∀ e ∈ rest, e.toNat < (scopes.modify d.toNat (·.await (UInt32.ofNat pos))).length :=
      fun e he => by simpa using h e (List.mem_cons_of_mem _ he)
    refine (ih (pos + 16) inside).trans ((first.append_right _).trans ?_)
    rw [List.length_cons, List.range_succ_eq_map]
    simp [Function.comp_def, Nat.mul_add, Nat.add_assoc, Nat.add_comm 16]

def Pends (s : Scope) : Prop :=
  s.pending.isSome → s.kind = .cond ∨ s.kind = .block

theorem pends_awaitAll {scopes : List Scope} {ds : List UInt32} {pos : Nat}
    (h : ∀ s ∈ scopes, s.Pends) : ∀ s ∈ awaitAll pos scopes ds, s.Pends := by
  induction ds generalizing pos scopes with
  | nil => exact h
  | cons d rest ih =>
    refine ih fun s hs => ?_
    obtain ⟨n, hn⟩ := List.mem_iff_getElem?.mp hs
    rw [List.getElem?_modify] at hn
    obtain ⟨old, hold, rfl⟩ := Option.map_eq_some_iff.mp hn
    have pends := h old (List.mem_of_getElem? hold)
    split <;> exact pends

end Scope

namespace Generator

structure Records (g : Generator) (l : Ledger) : Prop where
  holds : g.buffer.Holds l
  tracked : ∀ off ∈ Scope.outstanding g.scopes, off.toNat ∈ l.words
  nodup : (Scope.outstanding g.scopes).Nodup
  pends : ∀ s ∈ g.scopes, s.Pends

variable {g g' : Generator} {l : Ledger} {op : Op}

theorem Records.pending_none (h : g.Records l) {s : Scope} (mem : s ∈ g.scopes)
    (kind : s.kind = .attempt ∨ s.kind = .handler) : s.pending = none := by
  cases pending : s.pending with
  | none => rfl
  | some p => rcases h.pends s mem (by simp [pending]) with eq | eq <;> simp [eq] at kind

theorem settles_subset (op : Op) : ∀ off ∈ g.settles op, off ∈ Scope.outstanding g.scopes := by
  cases hs : g.scopes with
  | nil => cases op <;> simp [settles, hs]
  | cons s rest =>
    intro off hoff
    have waits : off ∈ s.waiting := by
      cases op with
      | otherwise => simp_all [settles, Scope.waiting]
      | close => simpa [settles, hs] using hoff
      | delegate depth => simpa [settles, hs] using hoff
      | _ => simp [settles] at hoff
    exact List.mem_flatMap.mpr ⟨s, List.mem_cons_self, waits⟩

theorem Records.did (h : g.Records l) (done : g.apply op = .done g') : g.Did op g' l :=
  apply_did done h.holds fun off hoff => h.tracked off (settles_subset op off hoff)

theorem otherwise_inv (h : g.otherwise = .done g') :
    ∃ s rest p, g.scopes = s :: rest ∧ s.kind = .cond ∧ s.pending = some p := by
  cases hs : g.scopes with
  | nil =>
    simp only [otherwise, hs, List.head?_nil] at h
    cases h
  | cons s rest =>
    simp only [otherwise, hs, List.head?_cons] at h
    split at h
    · exact ⟨s, rest, _, rfl, ‹_›, ‹_›⟩
    · cases h

theorem handle_inv {handler : Handler} (h : g.handle handler = .done g') :
    ∃ s rest, g.scopes = s :: rest ∧ (s.kind = .attempt ∨ s.kind = .handler) := by
  cases hs : g.scopes with
  | nil =>
    simp only [handle, hs, List.head?_nil] at h
    cases h
  | cons s rest =>
    simp only [handle, hs, List.head?_cons] at h
    split at h
    · exact ⟨s, rest, rfl, .inl ‹_›⟩
    · exact ⟨s, rest, rfl, .inr ‹_›⟩
    · cases h

theorem branchTable_inv {ds : List UInt32} {d : UInt32} {height : Int}
    (h : g.branchTable ds d height = .done g') (hold : g.buffer.Holds l) :
    ∀ e ∈ ds ++ [d], e.toNat < g.scopes.length := by
  rw [branchTable, raw_cells] at h
  obtain ⟨g₁, h₁, h₂⟩ := Outcome.andThen_done.mp h
  obtain ⟨b₁, rfl, held₁⟩ := emit_done h₁ hold
  exact (branches_done h₂ held₁).1

/-- The words that the operation settles, and those that wait after it, are those that waited before
it and those of its entry. -/
def Conserves (g : Generator) (op : Op) : Prop :=
  (g.settles op ++ Scope.outstanding (g.scopesAfter op)).Perm
    (Scope.outstanding g.scopes ++ (Cell.words g.size (g.cells op)).map UInt32.ofNat)

def Op.marks : Op → Bool
  | .cond _ | .otherwise | .branch _ _ | .branchTable _ _ _ => true
  | _ => false

theorem target_not_mem_cells (h : op.marks = false) : Cell.target ∉ g.cells op := by
  cases op with
  | close =>
    cases final : (g.setting 0).final <;> simp [cells, final, Cell.target_not_mem_returnData]
  | call func callee | callIndirect table type callee => simp [cells, Cell.target_not_mem_callData]
  | cond _ | otherwise | branch _ _ | branchTable _ _ _ => cases h
  | _ => simp [cells, Setting.localSlot, Setting.value, Setting.globalGet, Setting.globalSet]

theorem conserves_wordless (cells : Cell.target ∉ g.cells op)
    (same : g.settles op ++ Scope.outstanding (g.scopesAfter op) = Scope.outstanding g.scopes) :
    g.Conserves op := by
  rw [Conserves, same, Cell.words_of_not_mem cells, List.map_nil, List.append_nil]

theorem conserves_otherwise {s : Scope} {rest : List Scope} {p : UInt32} (hs : g.scopes = s :: rest)
    (hp : s.pending = some p) : g.Conserves .otherwise := by
  have settled : g.settles .otherwise = [p] := by simp [settles, hs, hp]
  by_cases implied : g.site.opcode = endOpcode
  · refine conserves_wordless (by simp [cells, implied]) ?_
    simp [settled, scopesAfter, hs, implied, Scope.outstanding, Scope.waiting, Scope.convert, hp]
  · simp only [Conserves, settled, scopesAfter, cells, hs, implied, Scope.outstanding,
      Scope.waiting, Scope.convert, hp, List.flatMap_cons, Option.toList_some, if_false, Cell.words,
      List.map_cons, List.map_nil]
    simp only [List.cons_append]
    exact (List.perm_append_singleton _ _).symm.cons p

theorem conserves_leaving (op : Op) (cells : Cell.target ∉ g.cells op)
    (settles : g.settles op = (g.scopes.head?.map Scope.waiting).getD [])
    (after : g.scopesAfter op = g.scopes.tail) : g.Conserves op := by
  refine conserves_wordless cells ?_
  cases hs : g.scopes <;> simp [settles, after, hs, Scope.outstanding]

theorem apply_conserves (h : g.Records l) (done : g.apply op = .done g') : g.Conserves op := by
  cases op with
  | cond sig =>
    simp only [Conserves, settles, scopesAfter, cells, Scope.outstanding, List.flatMap_cons,
      List.nil_append, Scope.waiting, Cell.words, Option.toList_some, List.map_cons, List.map_nil,
      List.append_nil, mc]
    exact List.perm_append_comm
  | otherwise =>
    obtain ⟨s, rest, p, hs, -, hp⟩ := otherwise_inv done
    exact conserves_otherwise hs hp
  | close => exact conserves_leaving .close (target_not_mem_cells rfl) rfl rfl
  | delegate depth => exact conserves_leaving (.delegate depth) (target_not_mem_cells rfl) rfl rfl
  | handle handler =>
    obtain ⟨s, rest, hs, kind⟩ := handle_inv done
    have none := h.pending_none (by simp [hs]) kind
    refine conserves_wordless (target_not_mem_cells rfl) ?_
    simp [settles, scopesAfter, hs, Scope.outstanding, Scope.waiting, Scope.convert, none]
  | branch d height =>
    obtain ⟨inside, -⟩ := branch_done done h.holds
    have label : ∀ e ∈ [d], e.toNat < g.scopes.length := by simpa using inside
    simpa [Conserves, settles, scopesAfter, cells, Setting.branch, Cell.words] using
      Scope.outstanding_awaitAll g.size label
  | branchTable ds d height =>
    have inside := branchTable_inv done h.holds
    have := Scope.outstanding_awaitAll (g.size + 8) inside
    simpa only [Conserves, settles, scopesAfter, cells, Cell.words, Setting.words_branches,
      List.nil_append] using this
  | _ => exact conserves_wordless (target_not_mem_cells rfl) rfl

theorem apply_pends (pends : ∀ s ∈ g.scopes, s.Pends) : ∀ s ∈ g.scopesAfter op, s.Pends := by
  cases op with
  | branch d height => exact Scope.pends_awaitAll pends
  | branchTable ds d height => exact Scope.pends_awaitAll pends
  | close => exact fun s hs => pends s (List.mem_of_mem_tail hs)
  | delegate depth => exact fun s hs => pends s (List.mem_of_mem_tail hs)
  | block sig | loop sig | cond sig | attempt sig =>
    intro s hs
    rcases List.mem_cons.mp hs with rfl | hs
    · simp [Scope.Pends]
    · exact pends s hs
  | otherwise | handle handler =>
    cases hs : g.scopes with
    | nil => simp [scopesAfter, hs]
    | cons top rest =>
      intro s mem
      simp only [scopesAfter, hs, List.mem_cons] at mem
      rcases mem with rfl | mem
      · simp [Scope.Pends, Scope.convert]
      · exact pends s (by simp [hs, mem])
  | _ => exact pends

def draft (g : Generator) (op : Op) (part : List Cell) (l : Ledger) : Ledger :=
  (l.assign (g.settles op) (g.goal op)).add part

@[simp] theorem size_draft (g : Generator) (op : Op) (part : List Cell) (l : Ledger) :
    (g.draft op part l).size = l.size + Cell.sizes part := by
  rw [draft, Ledger.size_add, Ledger.size_assign]

theorem words_draft {part : List Cell} :
    (g.draft op part l).words = l.words ++ Cell.words l.size part := by
  rw [draft, Ledger.words_add, Ledger.size_assign]
  rfl

theorem mem_words_draft {part : List Cell} {p : Nat} (word : p ∈ l.words) :
    p ∈ (g.draft op part l).words := by
  rw [words_draft]
  exact List.mem_append_left _ word

/-- An operation ends, having appended `part` of its cells: the words that it settles are written,
and the others wait. -/
structure Leaves (g : Generator) (op : Op) (part : List Cell) (g' : Generator)
    (l : Ledger) : Prop where
  holds : g'.buffer.Holds (g.draft op part l)
  conserves : (g.settles op ++ Scope.outstanding g'.scopes).Perm
    (Scope.outstanding g.scopes ++ (Cell.words g.size part).map UInt32.ofNat)
  pends : ∀ s ∈ g'.scopes, s.Pends

structure Settled (g : Generator) (l : Ledger) (pos : Nat) (t : Target) : Prop where
  word : pos ∈ l.words
  target : l.word pos = t
  free : ∀ off ∈ Scope.outstanding g.scopes, off.toNat ≠ pos

theorem Records.moveTo (h : g.Records l) (site : Site) : (g.moveTo site).Records l :=
  ⟨h.holds, h.tracked, h.nodup, h.pends⟩

theorem Settled.moveTo {pos : Nat} {t : Target} (h : g.Settled l pos t) (site : Site) :
    (g.moveTo site).Settled l pos t :=
  ⟨h.word, h.target, h.free⟩

theorem Records.below (h : g.Records l) {off : UInt32} (waits : off ∈ Scope.outstanding g.scopes) :
    off.toNat < l.size := by
  have := (Cell.words_bounds (h.tracked off waits)).2
  simp only [Ledger.size]
  omega

namespace Leaves

variable {part : List Cell} (leaves : g.Leaves op part g' l) (h : g.Records l)
include leaves h

theorem new_word {p : Nat} (word : p ∈ Cell.words g.size part) :
    l.size ≤ p ∧ (UInt32.ofNat p).toNat = p ∧ p ∈ (g.draft op part l).words := by
  have size : g.size = l.size := h.holds.size
  have bound := leaves.holds.bound
  have ⟨above, inside⟩ := Cell.words_bounds word
  rw [size_draft] at bound
  have fits : p < 2 ^ 32 := by
    simp only [Buffer.maxSize] at bound
    omega
  refine ⟨by omega, Nat.mod_eq_of_lt fits, ?_⟩
  rw [words_draft, ← size]
  exact List.mem_append_right _ word

theorem nodup : (g.settles op ++ Scope.outstanding g'.scopes).Nodup := by
  refine leaves.conserves.nodup_iff.mpr (List.nodup_append.mpr ⟨h.nodup, ?_, ?_⟩)
  · refine (Cell.words_nodup _ _).map_on fun a ha b hb eq => ?_
    rw [← (leaves.new_word h ha).2.1, eq, (leaves.new_word h hb).2.1]
  · rintro off waits _ new rfl
    obtain ⟨p, word, rfl⟩ := List.mem_map.mp new
    obtain ⟨above, fits, -⟩ := leaves.new_word h word
    have := h.below waits
    omega

omit h in
theorem waits {off : UInt32} (waits : off ∈ Scope.outstanding g'.scopes) :
    off ∈ Scope.outstanding g.scopes ∨ ∃ p ∈ Cell.words g.size part, UInt32.ofNat p = off := by
  have either := leaves.conserves.subset (List.mem_append_right _ waits)
  rwa [List.mem_append, List.mem_map] at either

theorem records : g'.Records (g.draft op part l) := by
  refine ⟨leaves.holds, fun off waits => ?_, (leaves.nodup h).of_append_right, leaves.pends⟩
  rcases leaves.waits waits with old | ⟨p, word, rfl⟩
  · exact mem_words_draft (h.tracked off old)
  · obtain ⟨-, fits, mem⟩ := leaves.new_word h word
    rwa [fits]

theorem settled {off : UInt32} (settles : off ∈ g.settles op) :
    g'.Settled (g.draft op part l) off.toNat (g.goal op) := by
  refine ⟨mem_words_draft (h.tracked off (settles_subset op off settles)), ?_, fun o waits eq => ?_⟩
  · rw [draft, Ledger.word_add, Ledger.word_assign_of_mem settles]
  · rw [UInt32.toNat_inj.mp eq] at waits
    exact (List.nodup_append.mp (leaves.nodup h)).2.2 off settles off waits rfl

theorem keeps {pos : Nat} {t : Target} (s : g.Settled l pos t) :
    g'.Settled (g.draft op part l) pos t := by
  refine ⟨mem_words_draft s.word, ?_, fun off waits eq => ?_⟩
  · rw [draft, Ledger.word_add, Ledger.word_assign_of_not_mem, s.target]
    exact fun off settles => s.free off (settles_subset op off settles)
  · rcases leaves.waits waits with old | ⟨p, word, rfl⟩
    · exact s.free off old eq
    · obtain ⟨above, fits, -⟩ := leaves.new_word h word
      have inside := (Cell.words_bounds s.word).2
      simp only [Ledger.size] at above
      omega

end Leaves

namespace Records

variable (h : g.Records l) (done : g.apply op = .done g')
include h done

theorem leaves : g.Leaves op (g.cells op) g' l := by
  have did := h.did done
  refine ⟨did.holds, ?_, ?_⟩
  · rw [did.scopes]
    exact apply_conserves h done
  · rw [did.scopes]
    exact apply_pends h.pends

theorem apply : g'.Records (g.record op l) :=
  (h.leaves done).records h

theorem settled {off : UInt32} (settles : off ∈ g.settles op) :
    g'.Settled (g.record op l) off.toNat (g.goal op) :=
  (h.leaves done).settled h settles

theorem keeps {pos : Nat} {t : Target} (s : g.Settled l pos t) : g'.Settled (g.record op l) pos t :=
  (h.leaves done).keeps h s

end Records
end Generator
end Sidetable
