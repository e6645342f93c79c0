import Sidetable.Proofs.Advance

/-!
# The side table is its entries

The finished side table is the entries of the instructions that are not passed over, one after the
other, and so is the table in front of every instruction. Patches reach target words only.
-/
namespace Sidetable

namespace Cell

theorem write_getElem_of_not_word {f g : Nat → Target} {pos p : Nat} {cells : List Cell}
    (outside : ∀ q ∈ words pos cells, ¬ (q ≤ pos + p ∧ pos + p < q + 8)) :
    (write f pos cells)[p]? = (write g pos cells)[p]? := by
  induction cells generalizing pos p with
  | nil => rfl
  | cons c rest ih =>
    cases c with
    | num width v =>
      simp only [write]
      rcases Nat.lt_or_ge p width with lt | ge
      · rw [List.getElem?_append_left (by simpa), List.getElem?_append_left (by simpa)]
      · rw [List.getElem?_append_right (by simpa), List.getElem?_append_right (by simpa)]
        simp only [LittleEndian.length_encode]
        refine ih fun q hq => ?_
        have := outside q hq
        omega
    | target =>
      simp only [write]
      have here := outside pos (by simp [words])
      have ge : 8 ≤ p := by omega
      rw [List.getElem?_append_right (by simpa), List.getElem?_append_right (by simpa)]
      simp only [Target.length_bytes]
      refine ih fun q hq => ?_
      have := outside q (List.mem_cons_of_mem _ hq)
      omega

end Cell

theorem entrySize_mod (mod : Module) (r : Registers) (i : Instr) : entrySize mod r i % 8 = 0 := by
  have direct := callSize_mod r (mod.funcType i.imm.number)
  have indirect := callSize_mod r (mod.typeAt i.imm.calleeType)
  have misc : miscSize i.sub % 8 = 0 := by
    unfold miscSize
    split <;> rfl
  unfold entrySize
  split <;> first | omega | (split <;> rfl)

theorem Setting.sizes_entry_mod (s : Setting) (mod : Module) (i : Instr) :
    Cell.sizes (s.entry mod i) % 8 = 0 := by
  cases final : s.final with
  | none => rw [s.sizes_entry mod i fun _ => final, entrySize_mod]
  | some results =>
    by_cases opcode : i.opcode = 0x0b
    · simp [entry, opcode, final, Cell.sizes_returnData, Entry.roundUp_mod]
    · rw [s.sizes_entry mod i fun h => absurd h opcode, entrySize_mod]

theorem Setting.words_entry (s : Setting) (mod : Module) (i : Instr) (pos : Nat) :
    Cell.words pos (s.entry mod i) = (targetOffsets i).map (pos + ·) := by
  have call (callee : Option FuncType) : Cell.target ∉ s.call callee := by
    cases callee with
    | none => exact List.not_mem_nil
    | some sig => exact Cell.target_not_mem_callData _ sig
  have misc : Cell.target ∉ s.misc i := by
    unfold misc
    split <;> simp [value]
  have final : Cell.target ∉ (s.final.map Cell.returnData).getD [] := by
    cases s.final with
    | none => exact List.not_mem_nil
    | some results => exact Cell.target_not_mem_returnData results
  obtain ⟨op, sub, imm⟩ := i
  unfold entry targetOffsets
  dsimp only
  split
  case h_3 | h_4 => rfl
  case h_5 => exact Cell.words_of_not_mem final _
  case h_6 | h_7 =>
    rw [s.words_branches]
    simp [labelOffset]
  case h_8 =>
    rw [Cell.words, s.words_branches]
    simp [labelOffset, Nat.add_assoc]
  case h_9 | h_10 | h_11 | h_12 => exact Cell.words_of_not_mem (by simp [call]) _
  case h_25 => exact Cell.words_of_not_mem misc _
  case h_26 =>
    rw [Cell.words_of_not_mem (by split <;> simp [value])]
    split <;> first | contradiction | rfl
  all_goals rfl

namespace Job

variable {j : Job} {k : Nat} {i : Instr.Located} {md : Metadata}

theorem sizes_entries_mod (j : Job) (k : Nat) :
    Cell.sizes ((List.range k).flatMap j.entry) % 8 = 0 := by
  induction k with
  | zero => rfl
  | succ k ih =>
    have last : Cell.sizes (j.entry k) % 8 = 0 := by
      unfold entry
      split
      · split
        · rfl
        · exact Setting.sizes_entry_mod _ _ _
      · rfl
    rw [List.range_succ, List.flatMap_append, Cell.sizes_append, List.flatMap_singleton]
    omega

theorem finalize_bytes (h : j.Accepted md) :
    md.bytes = (j.walk j.code.length).gen.buffer.bytes := by
  obtain ⟨-, -, -, final⟩ := accepted_walk h
  unfold Generator.finalize at final
  split at final
  · rw [← Except.ok.inj final]
  · cases final

end Job

theorem Job.Accepted.last {j : Job} {md : Metadata} (h : j.Accepted md)
    (short : j.body.bytes.length < 2 ^ 31) :
    ∃ c i, j.code.length = c + 1 ∧ Closes j.code .function c i ∧ i.opcode = 0x0b ∧
      j.skips c = false := by
  obtain ⟨-, -, closed, -⟩ := accepted_walk h
  obtain ⟨c, eq⟩ : ∃ c, j.code.length = c + 1 := by
    cases hn : j.code.length with
    | zero => simp [hn, walk_zero, Job.start, Walk.start] at closed
    | succ c => exact ⟨c, rfl⟩
  have found : j.code[c]? = some j.code[c] := List.getElem?_eq_getElem (by omega)
  have here := at_of_accepted h short found
  obtain ⟨levels, l, st⟩ := h.stands short (by omega : c ≤ j.code.length)
  have none : (j.walk (c + 1)).shapes = [] := by rw [← eq, Walk.shapes, closed]; rfl
  refine ⟨c, j.code[c], eq, ?_⟩
  cases here.turn with
  | skip d d' skipped gen shapes _ _ _ => exact absurd (shapes.symm.trans none) here.inside
  | within live inner _ shapes _ _ => exact absurd (shapes.symm.trans none) here.inside
  | enter o type sig _ _ _ _ _ shapes _ => simp [none] at shapes
  | otherwise sig rest _ _ _ _ shapes' _ => simp [none] at shapes'
  | handle kind last handler sig rest _ _ _ _ _ shapes' _ => simp [none] at shapes'
  | close kind sig rest mid opcode live shapes _ _ shapes' _ =>
    obtain ⟨L, inner, rfl, -, inner_shapes, -⟩ := st.top shapes
    obtain rfl : inner = [] := by
      rw [none] at shapes'
      simpa [← shapes'] using inner_shapes
    have shuts : j.code[c].shuts := by simp [Instr.shuts, opcode]
    have top : L.region = .function := st.bottom L.region rfl
    exact ⟨⟨found, shuts, by rw [st.innermost live, top]⟩, opcode,
      here.not_skipped live (.inl shuts)⟩
  | delegate depth sig rest _ _ _ inner _ shapes' _ => exact absurd (shapes'.symm.trans none) inner

namespace Job

/-- The side table is the entries of the instructions, one after the other. -/
structure LaidOut (j : Job) (md : Metadata) : Prop where
  bytes : ∃ word, md.bytes = Cell.write word 0 ((List.range j.code.length).flatMap j.entry)
  /-- the same holds of the table in front of every instruction -/
  partly : ∀ k ≤ j.code.length, ∃ word,
    (j.walk k).gen.buffer.bytes = Cell.write word 0 ((List.range k).flatMap j.entry)
  starts : ∀ k ≤ j.code.length, j.mc k = Cell.sizes ((List.range k).flatMap j.entry)
  /-- the target words are those of branches, of `if` and of `else`, and no two overlap -/
  targets : ∀ k i, j.code[k]? = some i → j.skips k = false →
    Cell.words (j.mc k) (j.entry k) = (targetOffsets i.toInstr).map (j.mc k + ·)
  apart : (Cell.words 0 ((List.range j.code.length).flatMap j.entry)).Pairwise fun p q => p + 8 ≤ q
  /-- bytes outside the target words are never written again -/
  stable : ∀ k ≤ j.code.length, ∀ p < j.mc k,
    (∀ q ∈ Cell.words 0 ((List.range j.code.length).flatMap j.entry), ¬ (q ≤ p ∧ p < q + 8)) →
      md.bytes[p]? = (j.walk k).gen.buffer.bytes[p]?
  ending : ∃ c i, j.code.length = c + 1 ∧ Closes j.code .function c i ∧ i.opcode = 0x0b ∧
    j.entry c = Cell.returnData j.sig.results
  aligned : md.size % 8 = 0

theorem entries_split (j : Job) {k n : Nat} (le : k ≤ n) :
    ∃ later, (List.range n).flatMap j.entry = (List.range k).flatMap j.entry ++ later := by
  obtain ⟨m, rfl⟩ := Nat.exists_eq_add_of_le le
  exact ⟨_, by rw [List.range_add, List.flatMap_append]⟩

section Positions

variable {j : Job} {md : Metadata} {k : Nat} (accepted : j.Accepted md)
    (short : j.body.bytes.length < 2 ^ 31)
include accepted short

theorem Accepted.mc_eq (le : k ≤ j.code.length) :
    j.mc k = Cell.sizes ((List.range k).flatMap j.entry) := by
  obtain ⟨levels, l, st⟩ := accepted.stands short le
  rw [st.mc_eq, Ledger.size, st.cells]

theorem Accepted.mc_succ {i : Instr.Located} (found : j.code[k]? = some i)
    (reached : j.skips k = false) :
    j.mc (k + 1) = j.mc k + Cell.sizes ((j.setting k i).entry j.mod i.toInstr) := by
  have inside : k < j.code.length := (List.getElem?_eq_some_iff.mp found).1
  rw [accepted.mc_eq short (Nat.succ_le_of_lt inside), accepted.mc_eq short (Nat.le_of_lt inside),
    List.range_succ, List.flatMap_append, Cell.sizes_append]
  simp [entry, found, reached]

end Positions

theorem entries_laid_out {j : Job} {md : Metadata} (accepted : j.Accepted md)
    (short : j.body.bytes.length < 2 ^ 31) : j.LaidOut md := by
  have partly (k : Nat) (le : k ≤ j.code.length) : ∃ word,
      (j.walk k).gen.buffer.bytes = Cell.write word 0 ((List.range k).flatMap j.entry) := by
    obtain ⟨levels, l, st⟩ := accepted.stands short le
    exact ⟨l.word, by rw [st.records.holds.bytes, Ledger.bytes, st.cells]⟩
  obtain ⟨word, whole⟩ := partly _ (Nat.le_refl _)
  rw [← finalize_bytes accepted] at whole
  obtain ⟨c, i, last, closes, opcode, reached⟩ := accepted.last short
  refine ⟨⟨word, whole⟩, partly, fun k => accepted.mc_eq short, fun k i found live => ?_,
    Cell.words_apart _ _, fun k le p inside outside => ?_, ⟨c, i, last, closes, opcode, ?_⟩, ?_⟩
  · rw [entry, found]
    simp only [live]
    exact Setting.words_entry _ _ _ _
  · obtain ⟨word', part⟩ := partly k le
    obtain ⟨later, split⟩ := j.entries_split le
    rw [split] at outside whole
    have early : p < (Cell.write word 0 ((List.range k).flatMap j.entry)).length := by
      rw [Cell.length_write, ← accepted.mc_eq short le]
      exact inside
    rw [whole, part, Cell.write_append, List.getElem?_append_left early]
    refine Cell.write_getElem_of_not_word fun q hq => ?_
    rw [Nat.zero_add]
    exact outside q (by rw [Cell.words_append]; exact List.mem_append_left _ hq)
  · simp [entry, closes.found, reached, Setting.entry, opcode, setting, closes.innermost]
  · rw [Metadata.size, whole, Cell.length_write, sizes_entries_mod]

/-- A function with a loop, a branch table, both kinds of conditionals, a try that delegates, and
code that is not reached. -/
def sample : Job where
  mod := {
    types := [{ params := [.i32], results := [.i32] }]
    funcs := [0]
    code := [{
      body := some [
        0x00,                                              -- no locals
        0x02, 0x40, 0x03, 0x40,                            -- block, loop
        0x20, 0x00, 0x04, 0x40,                            -- local.get 0, if
        0x20, 0x00, 0x0e, 0x02, 0x00, 0x01, 0x02,          -- local.get 0, br_table 0 1 2
        0x41, 0x07, 0x05,                                  -- i32.const 7, else
        0x20, 0x00, 0x0d, 0x01,                            -- local.get 0, br_if 1
        0x0b, 0x0b, 0x0b,                                  -- end, end, end
        0x06, 0x40, 0x0c, 0x00, 0x18, 0x00,                -- try, br 0, delegate 0
        0x20, 0x00, 0x04, 0x40, 0x0b,                      -- local.get 0, if, end
        0x20, 0x00, 0x0b]                                  -- local.get 0, end
      codeOffset := 1 }] }
  cfg := { convention := ⟨6, 8⟩ }
  func := 0

def sampleTable : Metadata where
  bytes := [
    2, 0, 0, 0, 0, 0, 0, 0,   4, 0, 0, 0, 0, 0, 0, 0,   0, 0, 0, 0, 2, 0, 0, 0,
    18, 0, 0, 0, 112, 0, 0, 0,
    8, 0, 0, 0, 0, 0, 0, 0,   0, 0, 0, 0, 2, 0, 0, 0,   3, 0, 0, 0, 0, 0, 0, 0,
    22, 0, 0, 0, 136, 0, 0, 0,
    0, 0, 0, 0, 15, 0, 0, 0,  4, 0, 0, 0, 16, 0, 0, 0,  0, 0, 0, 0, 15, 0, 0, 0,
    24, 0, 0, 0, 136, 0, 0, 0,
    0, 0, 0, 0, 15, 0, 0, 0,  22, 0, 0, 0, 136, 0, 0, 0,  0, 0, 0, 0, 2, 0, 0, 0,
    4, 0, 0, 0, 16, 0, 0, 0,
    0, 0, 0, 0, 22, 0, 0, 0,  31, 0, 0, 0, 152, 0, 0, 0,  0, 0, 0, 0, 29, 0, 0, 0,
    0, 0, 0, 0, 2, 0, 0, 0,
    36, 0, 0, 0, 176, 0, 0, 0,  35, 0, 0, 0, 0, 0, 0, 0,  0, 0, 0, 0, 2, 0, 0, 0,
    8, 0, 127, 0, 0, 0, 0, 0]
  locations := [0]
  returns := [.i32]
  func := 0
  numLocals := 1
  numArgs := 1
  numArgsOnStack := 0
  localBase := 15
  bytecodeOffset := 1
  bytecodeLength := 40

theorem entries_laid_out_sample :
    sample.Accepted sampleTable ∧ sample.body.bytes.length < 2 ^ 31 ∧ sample.LaidOut sampleTable :=
  ⟨by decide +kernel, by decide, entries_laid_out (by decide +kernel) (by decide)⟩

end Job
end Sidetable
