import Sidetable.Proofs.Abreast

/-!
# Comparing side tables

Which bytes of an entry depend on where its instruction stands: offsets into the code, in targets
and where the code goes on, and the length of the instruction. The tables of two jobs that are
abreast agree on all other bytes, and corresponding targets are related.
-/
namespace Sidetable

/-- Fields that hold the offset after the instruction, each with its place in the entry and its
width. -/
def resumeFields (i : Instr) : List (Nat × Nat) :=
  match i.opcode with
  | 0x02 | 0x03 => [(0, 8)]                                -- block, loop
  | 0x04 => [(8, 8)]                                       -- if
  | 0x0c | 0x0d | 0x0e =>                                  -- br, br_if, br_table
    (List.range i.imm.labelList.length).map fun n => (labelOffset i n + 12, 4)
  | 0x10 | 0x12 => [(4, 4)]                                -- call, return_call
  | 0x11 | 0x13 => [(12, 4)]                               -- call_indirect, return_call_indirect
  | _ => []

theorem resumeFields_width {i : Instr} {f : Nat × Nat} (mem : f ∈ resumeFields i) : 4 ≤ f.2 := by
  unfold resumeFields at mem
  split at mem <;> simp only [List.mem_singleton, List.mem_map, List.not_mem_nil] at mem
  case h_4 | h_5 | h_6 =>
    obtain ⟨n, -, rfl⟩ := mem
    exact Nat.le_refl 4
  all_goals simp [mem]

def lengthFields (i : Instr) : List (Nat × Nat) :=
  match i.opcode with
  | 0x1b | 0x1c => [(0, 8)]                                -- select
  | 0x20 | 0x21 | 0x25 | 0x26 | 0x41 | 0xd2 => [(4, 4)]    -- one number
  | 0x22 => [(4, 4), (12, 4)]                              -- local.tee
  | 0x23 | 0x24 => [(4, 2)]                                -- global.get, global.set
  | 0x42 => [(8, 8)]                                       -- i64.const
  | 0xfc =>
    match i.sub with
    | 8 | 9 | 13 | 15 | 16 | 17 => [(4, 4)]
    | 12 | 14 => [(8, 8)]
    | _ => []
  | op => if Opcode.isLoad op || Opcode.isStore op then [(4, 4)] else []

def offsetFields (i : Instr) : List (Nat × Nat) :=
  resumeFields i ++ (targetOffsets i).map fun off => (off, 4)

def Covers (free : Nat → Prop) (pos width : Nat) : Prop :=
  ∀ p, pos ≤ p → p < pos + width → free p

namespace Cell

variable {free : Nat → Prop} {pos : Nat} {a b c d : List Cell}

/-- Cells of the same shape that stand at `pos`. Numbers may differ where the positions are free,
and so may offsets into the code that targets start with. -/
inductive Alike (free : Nat → Prop) : Nat → List Cell → List Cell → Prop where
  | nil {pos : Nat} : Alike free pos [] []
  | num {pos width v v' : Nat} {a b : List Cell} (values : v' = v ∨ Covers free pos width)
      (rest : Alike free (pos + width) a b) : Alike free pos (num width v :: a) (num width v' :: b)
  | target {pos : Nat} {a b : List Cell} (offset : Covers free pos 4)
      (rest : Alike free (pos + 8) a b) :
      Alike free pos (target :: a) (target :: b)

theorem alike_refl (wordless : target ∉ a) : Alike free pos a a := by
  induction a generalizing pos with
  | nil => exact .nil
  | cons c rest ih =>
    rw [List.mem_cons, not_or] at wordless
    cases c with
    | num width v => exact .num (.inl rfl) (ih wordless.2)
    | target => exact absurd rfl wordless.1

theorem Alike.append (h : Alike free pos a b) (h' : Alike free (pos + sizes a) c d) :
    Alike free pos (a ++ c) (b ++ d) := by
  induction h with
  | nil => exact h'
  | num values rest ih =>
    rw [sizes_cons, size, ← Nat.add_assoc] at h'
    exact .num values (ih h')
  | target offset rest ih =>
    rw [sizes_cons, size, ← Nat.add_assoc] at h'
    exact .target offset (ih h')

theorem Alike.getElem? {word word' : Nat → Target} {p : Nat} (h : Alike free pos a b)
    (words : ∀ q ∈ words pos a, (word' q).mc = (word q).mc) (fixed : ¬ free (pos + p)) :
    (write word' pos b)[p]? = (write word pos a)[p]? := by
  induction h generalizing p with
  | nil => rfl
  | @num pos width v v' a b values rest ih =>
    simp only [write]
    rcases Nat.lt_or_ge p width with lt | ge
    · rw [List.getElem?_append_left (by simpa), List.getElem?_append_left (by simpa)]
      rcases values with rfl | covered
      · rfl
      · exact absurd (covered _ (Nat.le_add_right _ _) (by omega)) fixed
    · rw [List.getElem?_append_right (by simpa), List.getElem?_append_right (by simpa)]
      simp only [LittleEndian.length_encode]
      exact ih words (by rwa [Nat.add_assoc, Nat.add_sub_cancel' ge])
  | @target pos a b offset rest ih =>
    simp only [write]
    rcases Nat.lt_or_ge p 8 with lt | ge
    · have high : 4 ≤ p := by
        by_contra low
        exact fixed (offset _ (Nat.le_add_right _ _) (by omega))
      rw [List.getElem?_append_left (by simpa), List.getElem?_append_left (by simpa), Target.bytes,
        Target.bytes, List.getElem?_append_right (by simpa), List.getElem?_append_right (by simpa),
        words pos List.mem_cons_self]
      simp only [LittleEndian.length_encode]
    · rw [List.getElem?_append_right (by simpa), List.getElem?_append_right (by simpa)]
      simp only [Target.length_bytes]
      exact ih (fun q mem => words q (List.mem_cons_of_mem _ mem))
        (by rwa [Nat.add_assoc, Nat.add_sub_cancel' ge])

end Cell

namespace Setting

variable {free : Nat → Prop} {pos : Nat} (s : Setting) (pc length : Nat)

theorem value_alike (v : UInt32) (lengths : length = s.length ∨ Covers free (pos + 4) 4) :
    Cell.Alike free pos (s.value v) ({ s with pc, length }.value v) :=
  .num (.inl rfl) (.num lengths .nil)

theorem call_alike (callee : Option FuncType) :
    Cell.Alike free pos (s.call callee) ({ s with pc, length }.call callee) := by
  cases callee with
  | none => exact .nil
  | some sig => exact Cell.alike_refl (Cell.target_not_mem_callData _ sig)

theorem branches_alike {ds : List UInt32}
    (covers : ∀ n < ds.length, Covers free (pos + 16 * n) 4 ∧ Covers free (pos + 16 * n + 12) 4) :
    Cell.Alike free pos (ds.flatMap s.branch) (ds.flatMap { s with pc, length }.branch) := by
  induction ds generalizing pos with
  | nil => exact .nil
  | cons d rest ih =>
    rw [List.flatMap_cons, List.flatMap_cons]
    refine Cell.Alike.append ?_ (ih fun n lt => ?_)
    · obtain ⟨first, last⟩ := covers 0 (by simp)
      exact .target first (.num (.inl rfl) (.num (.inl rfl) (.num (.inr last) .nil)))
    · have next := covers (n + 1) (by simpa using lt)
      rw [sizes_branch]
      rwa [Nat.mul_succ, Nat.add_comm (16 * n), ← Nat.add_assoc] at next

theorem entry_alike (mod : Module) (i : Instr)
    (resume : ∀ f ∈ resumeFields i, Covers free (pos + f.1) f.2)
    (targets : ∀ off ∈ targetOffsets i, Covers free (pos + off) 4)
    (lengths : length = s.length ∨ ∀ f ∈ lengthFields i, Covers free (pos + f.1) f.2) :
    Cell.Alike free pos (s.entry mod i) ({ s with pc, length }.entry mod i) := by
  obtain ⟨op, sub, imm⟩ := i
  unfold entry
  dsimp only
  split
  case h_1 | h_2 => exact .num (.inr (resume _ List.mem_cons_self)) .nil
  case h_3 =>
    exact .target (targets _ List.mem_cons_self) (.num (.inr (resume _ List.mem_cons_self)) .nil)
  case h_4 => exact .target (targets _ List.mem_cons_self) .nil
  case h_5 =>
    refine Cell.alike_refl ?_
    cases s.final with
    | none => exact List.not_mem_nil
    | some results => exact Cell.target_not_mem_returnData results
  case h_6 | h_7 =>
    refine branches_alike s pc length fun n lt => ?_
    have target := targets _ (List.mem_map_of_mem (List.mem_range.mpr lt))
    have after := resume _ (List.mem_map_of_mem (List.mem_range.mpr lt))
    exact ⟨by simpa [labelOffset] using target, by simpa [labelOffset, Nat.add_assoc] using after⟩
  case h_8 =>
    refine .num (.inl rfl) (branches_alike s pc length fun n lt => ?_)
    have target := targets _ (List.mem_map_of_mem (List.mem_range.mpr lt))
    have after := resume _ (List.mem_map_of_mem (List.mem_range.mpr lt))
    exact ⟨by simpa [labelOffset, Nat.add_assoc] using target,
      by simpa [labelOffset, Nat.add_assoc] using after⟩
  case h_9 | h_10 =>
    exact .num (.inl rfl) (.num (.inr (resume _ List.mem_cons_self)) (call_alike s pc length _))
  case h_11 | h_12 =>
    exact .num (.inl rfl) (.num (.inl rfl) (.num (.inl rfl)
      (.num (.inr (resume _ List.mem_cons_self)) (call_alike s pc length _))))
  case h_13 | h_14 => exact .num (lengths.imp_right fun covers => covers _ List.mem_cons_self) .nil
  case h_15 | h_16 | h_20 | h_21 | h_22 | h_23 =>
    exact value_alike s pc length _ (lengths.imp_right fun covers => covers _ List.mem_cons_self)
  case h_17 =>
    refine .append
      (value_alike s pc length _ (lengths.imp_right fun covers => covers _ List.mem_cons_self))
      (value_alike s pc length _ (lengths.imp_right fun covers => ?_))
    exact covers _ (List.mem_cons_of_mem _ List.mem_cons_self)
  case h_18 =>
    exact .num (.inl rfl)
      (.num (lengths.imp_right fun covers => covers _ List.mem_cons_self) (.num (.inl rfl) .nil))
  case h_19 =>
    exact .num (.inl rfl) (.num (lengths.imp_right fun covers => covers _ List.mem_cons_self)
      (.num (.inl rfl) (.num (.inl rfl) .nil)))
  case h_24 =>
    exact .num (.inl rfl) (.num (lengths.imp_right fun covers => covers _ List.mem_cons_self) .nil)
  case h_25 =>
    unfold misc
    dsimp only
    split
    case h_7 | h_8 =>
      exact .num (.inl rfl)
        (.num (.inl rfl) (.num (lengths.imp_right fun covers => covers _ List.mem_cons_self) .nil))
    case h_9 => exact .nil
    all_goals
      exact value_alike s pc length _
        (lengths.imp_right fun covers => covers _ List.mem_cons_self)
  case h_26 =>
    split
    · rename_i accesses
      refine value_alike s pc length _ (lengths.imp_right fun covers => covers (4, 4) ?_)
      unfold lengthFields
      split <;> first | contradiction | simp [accesses]
    · exact .nil

theorem stores_after (d : UInt32) : Cell.Stores (s.branch d) 12 4 s.pc :=
  (Cell.Stores.head _).right [.target, .num 2 (s.height - s.arity d), .num 2 (s.arity d)]

theorem stores_resume (mod : Module) (i : Instr) {f : Nat × Nat} (mem : f ∈ resumeFields i) :
    Cell.Stores (s.entry mod i) f.1 f.2 s.pc := by
  have label {ds : List UInt32} {n : Nat} (lt : n < ds.length) :
      Cell.Stores (ds.flatMap s.branch) (16 * n + 12) 4 s.pc :=
    stores_branches (List.getElem?_eq_getElem lt) (s.stores_after _)
  obtain ⟨op, sub, imm⟩ := i
  unfold resumeFields at mem
  dsimp only at mem
  split at mem
  case h_1 | h_2 =>
    rw [List.mem_singleton.mp mem]
    exact .head _
  case h_3 =>
    rw [List.mem_singleton.mp mem]
    exact (Cell.Stores.head _).right [.target]
  case h_4 | h_5 =>
    obtain ⟨n, lt, rfl⟩ := List.mem_map.mp mem
    rw [List.mem_range] at lt
    simpa [labelOffset, entry] using label lt
  case h_6 =>
    obtain ⟨n, lt, rfl⟩ := List.mem_map.mp mem
    rw [List.mem_range] at lt
    have behind := (label lt).right [.num 8 imm.labelList.length]
    simpa [labelOffset, entry, Nat.add_assoc, Cell.size] using behind
  case h_7 | h_8 =>
    rw [List.mem_singleton.mp mem]
    exact (Cell.Stores.head _).right [.num 4 _]
  case h_9 | h_10 =>
    rw [List.mem_singleton.mp mem]
    exact (Cell.Stores.head _).right [.num 4 _, .num 4 _, .num 4 0]
  case h_11 => cases mem

end Setting

theorem Metadata.get_of_stores {m : Metadata} {l : Ledger} {pos width v : Nat}
    (bytes : m.bytes = l.bytes)
    (h : Cell.Stores l.cells pos width v) : m.get? width pos = some (v % 256 ^ width) := by
  obtain ⟨before, after, cells, rfl⟩ := h
  rw [Ledger.bytes, cells, Cell.write_append, Cell.write] at bytes
  have length : Cell.sizes before + width ≤ m.bytes.length := by
    rw [bytes]
    simp
  rw [Metadata.get_of_le length, bytes, List.drop_left' (by simp), List.take_left' (by simp),
    LittleEndian.decode_encode]

theorem Walk.Twin.entry_alike {ρ : UInt32 → UInt32 → Prop} {w w' : Walk} {l l' : Ledger}
    {free : Nat → Prop} {pos : Nat}
    {i : Instr} (twin : w.Twin ρ l w' l') (loose : w.skips i = false →
      (∀ f ∈ resumeFields i, Covers free (pos + f.1) f.2) ∧
      (∀ off ∈ targetOffsets i, Covers free (pos + off) 4) ∧
      (w'.gen.length = w.gen.length ∨ ∀ f ∈ lengthFields i, Covers free (pos + f.1) f.2)) :
    Cell.Alike free pos (w.entry i) (w'.entry i) := by
  rw [Walk.entry, Walk.entry, twin.skips, twin.height, twin.gens.setting]
  by_cases skipped : w.skips i
  · rw [if_pos skipped, if_pos skipped]
    exact .nil
  · obtain ⟨resume, targets, lengths⟩ := loose (Bool.eq_false_iff.mpr skipped)
    obtain ⟨code, eq⟩ := twin.swaps
    rw [if_neg skipped, if_neg skipped, eq]
    rw [eq] at lengths
    exact Setting.entry_alike _ _ _ w.mod i resume targets
      (lengths.imp_left (congrArg UInt32.toNat))

theorem toNat_ofNat_sub {a : Nat} {c : UInt32} (le : c.toNat ≤ a) :
    (UInt32.ofNat a - c).toNat = (a - c.toNat) % 2 ^ 32 := by
  have := c.toNat_lt
  rw [UInt32.toNat_sub, UInt32.toNat_ofNat']
  omega

theorem toNat_ofNat_sub_one {a : Nat} {c : UInt32} (lt : c.toNat < a) :
    (UInt32.ofNat a - c - 1).toNat = (a - 1 - c.toNat) % 2 ^ 32 := by
  have := c.toNat_lt
  rw [UInt32.toNat_sub, toNat_ofNat_sub (Nat.le_of_lt lt), UInt32.toNat_one]
  omega

namespace Job

variable {ρ : UInt32 → UInt32 → Prop} {j j' : Job} {place : Nat → Nat} {k n : Nat}
    {i i' : Instr.Located}
  {l l' : Ledger} {md md' : Metadata} {free : Nat → Prop} {b b' : FuncBody}
  {is : List Instr.Located}

theorem toNat_after (laid : Instr.Laid j.base j.code) (found : j.code[k]? = some i) :
    (j.after i).toNat = (i.stop - j.base) % 2 ^ 32 := by
  have := laid.start_lt_stop found
  exact toNat_ofNat_sub (by rw [← base]; omega)

theorem Abreast.mc_eq (abreast : Abreast ρ j j' place k n l l') :
    j.mc k = Cell.sizes ((List.range k).flatMap j.written) := by
  rw [← abreast.cells]
  exact abreast.twin.gens.records.holds.size

def Frees (j j' : Job) (place : Nat → Nat) (free : Nat → Prop) : Prop :=
  ∀ k i i', j.code[k]? = some i → j'.code[place k]? = some i' → j.skips k = false →
    (∀ f ∈ resumeFields i.toInstr, Covers free (j.mc k + f.1) f.2) ∧
    (∀ off ∈ targetOffsets i.toInstr, Covers free (j.mc k + off) 4) ∧
    (UInt32.ofNat i'.stop - UInt32.ofNat i'.start = UInt32.ofNat i.stop - UInt32.ofNat i.start ∨
      ∀ f ∈ lengthFields i.toInstr, Covers free (j.mc k + f.1) f.2)

def InField (j : Job) (fields : Instr → List (Nat × Nat)) (p : Nat) : Prop :=
  ∃ k i, j.code[k]? = some i ∧ j.skips k = false ∧
    ∃ f ∈ fields i.toInstr, j.mc k + f.1 ≤ p ∧ p < j.mc k + f.1 + f.2

theorem covers_inField {fields : Instr → List (Nat × Nat)} (found : j.code[k]? = some i)
    (reached : j.skips k = false)
    {f : Nat × Nat} (mem : f ∈ fields i.toInstr) : Covers (j.InField fields) (j.mc k + f.1) f.2 :=
  fun _ low high => ⟨k, i, found, reached, f, mem, low, high⟩

theorem covers_resume (found : j.code[k]? = some i) (reached : j.skips k = false) {f : Nat × Nat}
    (mem : f ∈ resumeFields i.toInstr) : Covers (j.InField offsetFields) (j.mc k + f.1) f.2 :=
  covers_inField found reached (List.mem_append_left _ mem)

theorem covers_target (found : j.code[k]? = some i) (reached : j.skips k = false) {off : Nat}
    (mem : off ∈ targetOffsets i.toInstr) : Covers (j.InField offsetFields) (j.mc k + off) 4 :=
  covers_inField (f := (off, 4)) found reached (List.mem_append_right _ (List.mem_map_of_mem mem))

section Tables

variable (carries : Carries ρ j j' place) (accepted : j.Accepted md)
include carries accepted

theorem Carries.alike (frees : Frees j j' place free) (le : k ≤ j.code.length) :
    Cell.Alike free 0 ((List.range k).flatMap j.written)
      ((List.range k).flatMap fun k => j'.written (place k)) := by
  induction k with
  | zero => exact .nil
  | succ k ih =>
    obtain ⟨l, l', abreast⟩ :=
      Abreast.of_accepted carries (.inl ⟨md, accepted⟩) (Nat.le_of_succ_le le)
    have found : j.code[k]? = some j.code[k] := List.getElem?_eq_getElem (Nat.lt_of_succ_le le)
    obtain ⟨i', found', same, -⟩ := carries.same k _ found
    rw [List.range_succ, List.flatMap_append, List.flatMap_append, List.flatMap_singleton,
      List.flatMap_singleton]
    refine (ih (Nat.le_of_succ_le le)).append ?_
    rw [Nat.zero_add, ← abreast.mc_eq, written, written, found, found']
    dsimp only
    rw [same]
    refine (abreast.twin.moveTo _ i').entry_alike fun reached => ?_
    rw [← skips_eq found] at reached
    exact frees k _ i' found found' reached

theorem Carries.mc (le : k ≤ j.code.length) : j'.mc (place k) = j.mc k := by
  obtain ⟨l, l', abreast⟩ := Abreast.of_accepted carries (.inl ⟨md, accepted⟩) le
  exact abreast.twin.gens.size

theorem Carries.skips (inside : k < j.code.length) : j'.skips (place k) = j.skips k := by
  obtain ⟨l, l', abreast⟩ := Abreast.of_accepted carries (.inl ⟨md, accepted⟩) (Nat.le_of_lt inside)
  have found : j.code[k]? = some j.code[k] := List.getElem?_eq_getElem inside
  obtain ⟨i', found', same, -⟩ := carries.same k _ found
  rw [skips_eq found, skips_eq found', same]
  exact (abreast.twin.moveTo _ i').skips _

/-- What the two tables hold at the end: cells of the same shape, and related targets. -/
theorem Carries.ends (accepted' : j'.Accepted md') :
    ∃ l l' : Ledger, md.bytes = l.bytes ∧ md'.bytes = l'.bytes ∧
    l.cells = (List.range j.code.length).flatMap j.written ∧
    l'.cells = (List.range j.code.length).flatMap (fun k => j'.written (place k)) ∧
    l'.words = l.words ∧ l'.size = l.size ∧ ∀ p ∈ l.words, (l.word p).Twin ρ (l'.word p) := by
  obtain ⟨l, l', abreast⟩ := Abreast.of_accepted carries (.inl ⟨md, accepted⟩) (Nat.le_refl _)
  have twin := abreast.twin
  -- no scope is open at the end, so that no word waits for its target any more
  have closed : (j.walk j.code.length).gen.scopes = [] := by
    have both := twin.paired.scopes
    rw [Walk.shapes, (accepted_walk accepted).2.2.1] at both
    exact List.forall₂_nil_left_iff.mp both
  refine ⟨l, l', ?_, ?_, abreast.cells, abreast.cells', twin.gens.words, twin.gens.ledger_size,
    fun p word => ?_⟩
  · rw [finalize_bytes accepted, twin.gens.records.holds.bytes]
  · rw [finalize_bytes accepted', ← carries.last, twin.gens.records'.holds.bytes]
  · rcases twin.gens.settled p word with ⟨off, waits, -⟩ | pair
    · rw [closed] at waits
      exact absurd waits List.not_mem_nil
    · exact pair

/-- The tables are of the same size, and bytes at positions that are not free are the same. -/
theorem Carries.bytes (accepted' : j'.Accepted md') (frees : Frees j j' place free) :
    md'.size = md.size ∧ ∀ p, ¬ free p → md'.bytes[p]? = md.bytes[p]? := by
  obtain ⟨l, l', bytes, bytes', cells, cells', -, size, words⟩ := carries.ends accepted accepted'
  constructor
  · rw [Metadata.size, Metadata.size, bytes, bytes', Ledger.length_bytes, Ledger.length_bytes, size]
  · intro p fixed
    have alike := carries.alike accepted frees (Nat.le_refl _)
    rw [← cells, ← cells'] at alike
    rw [bytes, bytes']
    exact alike.getElem? (fun q word => (words q word).mc) (by rwa [Nat.zero_add])

omit carries accepted in
theorem range_split {α : Type} (f : Nat → List α) (lt : k < n) : ∃ later,
    (List.range n).flatMap f = (List.range k).flatMap f ++ (f k ++ later) := by
  obtain ⟨m, rfl⟩ := Nat.exists_eq_add_of_lt lt
  refine ⟨(List.range m).flatMap fun p => f (k + 1 + p), ?_⟩
  rw [Nat.add_right_comm, List.range_add, List.flatMap_append, List.range_succ, List.flatMap_append,
    List.flatMap_singleton, List.flatMap_map, List.append_assoc]

omit carries accepted in
theorem written_eq (found : j.code[k]? = some i) (reached : j.skips k = false) :
    j.written k =
      (((j.walk k).moveTo i).gen.setting (((j.walk k).moveTo i).height i.toInstr)).entry
        (j.walk k).mod i.toInstr := by
  rw [skips_eq found] at reached
  rw [written, found]
  dsimp only
  rw [Walk.entry, if_neg (by simp [reached])]
  rfl

theorem Carries.targets (accepted' : j'.Accepted md') (found : j.code[k]? = some i)
    (reached : j.skips k = false) {off : Nat} (mem : off ∈ targetOffsets i.toInstr) :
    ∃ t t', md.target? (j.mc k + off : Nat) = some t ∧ md'.target? (j.mc k + off : Nat) = some t' ∧
      t.Twin ρ t' := by
  have inside : k < j.code.length := (List.getElem?_eq_some_iff.mp found).1
  obtain ⟨m, m', abreast⟩ := Abreast.of_accepted carries (.inl ⟨md, accepted⟩) (Nat.le_of_lt inside)
  obtain ⟨l, l', bytes, bytes', cells, -, words, -, twins⟩ := carries.ends accepted accepted'
  have word : j.mc k + off ∈ l.words := by
    obtain ⟨later, split⟩ := range_split j.written inside
    rw [Ledger.words, cells, split, Cell.words_append, Cell.words_append, ← abreast.mc_eq,
      written_eq found reached, Setting.words_entry, Nat.zero_add]
    exact List.mem_append_right _ (List.mem_append_left _ (List.mem_map_of_mem mem))
  refine ⟨l.word (j.mc k + off), l'.word (j.mc k + off), Metadata.target_of_word bytes word, ?_,
    twins _ word⟩
  exact Metadata.target_of_word bytes' (words ▸ word)

end Tables

theorem Accepted.carries (accepted : j.Accepted md) : Carries (fun _ _ => True) j j id where
  siblings := ⟨⟨_, rfl⟩, rfl, rfl, rfl, rfl⟩
  reads := (accepted_walk accepted).1
  reads' := (accepted_walk accepted).1
  first := rfl
  last := rfl
  same _ i found := ⟨i, found, rfl, fun _ _ => trivial, fun _ => trivial⟩
  gap k _ _ := ⟨Nat.lt_succ_self k, .inl rfl⟩

/-- The fields of an entry that say where the code goes on hold the offset after the instruction. -/
theorem Accepted.resumes (accepted : j.Accepted md) (found : j.code[k]? = some i)
    (reached : j.skips k = false) {f : Nat × Nat} (mem : f ∈ resumeFields i.toInstr) :
    md.get? f.2 (j.mc k + f.1 : Nat) = some (j.after i).toNat := by
  have carries := accepted.carries
  have inside : k < j.code.length := (List.getElem?_eq_some_iff.mp found).1
  obtain ⟨m, m', abreast⟩ := Abreast.of_accepted carries (.inl ⟨md, accepted⟩) (Nat.le_of_lt inside)
  obtain ⟨l, l', bytes, -, cells, -⟩ := carries.ends accepted accepted
  have stores : Cell.Stores l.cells (j.mc k + f.1) f.2 (j.after i).toNat := by
    obtain ⟨later, split⟩ := range_split j.written inside
    have here :=
      Setting.stores_resume
      (((j.walk k).moveTo i).gen.setting (((j.walk k).moveTo i).height i.toInstr))
      (j.walk k).mod i.toInstr mem
    rw [← written_eq found reached] at here
    have pc : (((j.walk k).moveTo i).gen.setting (((j.walk k).moveTo i).height i.toInstr)).pc =
        (j.after i).toNat := by
      rw [Job.after, ← abreast.offset]
      rfl
    rw [pc] at here
    rw [cells, split, abreast.mc_eq]
    exact (here.left later).right _
  rw [Metadata.get_of_stores bytes stores, Nat.mod_eq_of_lt]
  calc (j.after i).toNat < 256 ^ 4 := (j.after i).toNat_lt
    _ ≤ 256 ^ f.2 := Nat.pow_le_pow_right (by decide) (resumeFields_width mem)

/-! ## Another body -/

def withBody (j : Job) (b : FuncBody) : Job :=
  { j with
    mod := { j.mod with
      code := j.mod.code.set (j.func - UInt32.ofNat j.mod.numImportedFuncs).toNat b } }

theorem bodyOf_withBody (j : Job) (b : FuncBody) :
    (j.withBody b).mod.bodyOf (j.withBody b).func = (j.mod.bodyOf j.func).map fun _ => b := by
  have eq : (j.withBody b).mod.bodyOf (j.withBody b).func =
      if j.func < UInt32.ofNat j.mod.numImportedFuncs then none
      else (j.mod.code.set (j.func - UInt32.ofNat j.mod.numImportedFuncs).toNat b)[
        (j.func - UInt32.ofNat j.mod.numImportedFuncs).toNat]? := rfl
  rw [eq, Module.bodyOf]
  split
  · rfl
  · rw [List.getElem?_set_self']
    rfl

theorem body_withBody (found : (j.mod.bodyOf j.func).isSome) : (j.withBody b).body = b := by
  obtain ⟨old, eq⟩ := Option.isSome_iff_exists.mp found
  rw [body, bodyOf_withBody, eq]
  rfl

theorem siblings_withBody (found : (j.mod.bodyOf j.func).isSome)
    (locals : b'.numLocals = b.numLocals) : (j.withBody b).Siblings (j.withBody b') where
  mod := ⟨_, rfl⟩
  cfg := rfl
  func := rfl
  found := by rw [bodyOf_withBody, bodyOf_withBody, Option.isSome_map, Option.isSome_map]
  locals := by rw [body_withBody found, body_withBody found, locals]

theorem siblings_of_locals (found : (j.mod.bodyOf j.func).isSome)
    (locals : b.numLocals = j.body.numLocals) : j.Siblings (j.withBody b) where
  mod := ⟨_, rfl⟩
  cfg := rfl
  func := rfl
  found := by rw [bodyOf_withBody, Option.isSome_map]
  locals := by rw [body_withBody found, locals]

theorem found_of_withBody (h : (j.withBody b).Accepted md) : (j.mod.bodyOf j.func).isSome := by
  have found := (accepted_found h).1
  rwa [bodyOf_withBody, Option.isSome_map] at found

theorem code_withBody (found : (j.mod.bodyOf j.func).isSome) (decoded : b.decode = .ok is) :
    (j.withBody b).code = is ∧ (j.withBody b).body.decode = .ok is := by
  have reads : (j.withBody b).code = ((j.withBody b).body.decode).toOption.getD [] := rfl
  rw [reads, body_withBody found, decoded]
  exact ⟨rfl, rfl⟩

end Job
end Sidetable
