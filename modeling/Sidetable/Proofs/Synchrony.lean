import Sidetable.Proofs.Resolution
import Mathlib.Logic.Relation

/-!
# Offsets and positions stay together

A machine walks the code and the side table side by side: it goes on to the next instruction and
past the entry of the one it leaves, or to a place that it finds in that entry. Wherever it comes,
it stands at an instruction and at the entry of that instruction.
-/
namespace Sidetable

namespace Job

variable {j : Job} {k : Nat} {i : Instr.Located} {md : Metadata} {spot spot' : Nat × Nat}

/-- A move of the machine, which knows the code, the sizes of entries and where their target words
are. -/
inductive Moves (j : Job) (md : Metadata) : Nat × Nat → Nat × Nat → Prop where
  | falls {k m : Nat} {i : Instr.Located} (found : j.code[k]? = some i) (falls : i.falls)
      (inner : ¬ (i.opcode = 0x0b ∧ Closes j.code .function k i)) :
      Moves j md (i.start - j.base, m)
        (i.stop - j.base, m + entrySize j.mod j.cfg.registers i.toInstr)
  | jumps {k m off : Nat} {i : Instr.Located} {spot : Nat × Nat} (found : j.code[k]? = some i)
      (word : off ∈ targetOffsets i.toInstr) (target : md.jump? (m + off) = some spot) :
      Moves j md (i.start - j.base, m) spot

section

variable (accepted : j.Accepted md) (short : j.body.bytes.length < 2 ^ 31)
include accepted short

theorem Accepted.reached_start : j.Reached (0, 0) := by
  obtain ⟨c, i, length, -⟩ := accepted.last short
  have found : j.code[0]? = some j.code[0] := List.getElem?_eq_getElem (by omega)
  have start : j.code[0].start = j.base := (code_laid accepted).start_eq found
  refine ⟨0, _, found, skips_of_live rfl, ?_⟩
  rw [accepted.mc_eq short (Nat.zero_le _), start, Nat.sub_self]
  rfl

theorem Accepted.of_reached {m : Nat} (found : j.code[k]? = some i)
    (h : j.Reached (i.start - j.base, m)) : j.skips k = false ∧ m = j.mc k := by
  obtain ⟨k', i', found', reached, eq⟩ := h
  have here := at_of_accepted accepted short found
  have here' := at_of_accepted accepted short found'
  obtain ⟨start, rfl⟩ := Prod.mk.inj eq
  have := here.base_le
  have := here'.base_le
  obtain rfl := (code_laid accepted).index_eq found found' (by omega)
  exact ⟨reached, rfl⟩

/-- After an instruction that falls through the walk goes on alive, but for the `end` of the
function. -/
theorem Accepted.goes_on (found : j.code[k]? = some i) (reached : j.skips k = false)
    (falls : i.falls) (inner : ¬ (i.opcode = 0x0b ∧ Closes j.code .function k i)) :
    (j.walk (k + 1)).dead = none ∧ (j.walk (k + 1)).shapes ≠ [] := by
  have here := at_of_accepted accepted short found
  cases here.turn with
  | skip _ _ skipped _ _ _ _ _ => simp [skips_eq found, skipped] at reached
  | within _ _ _ shapes _ dead =>
    exact ⟨by rw [dead, if_pos falls], by rw [shapes]; exact here.inside⟩
  | enter _ _ _ _ _ _ _ _ shapes dead => exact ⟨dead, by simp [shapes]⟩
  | otherwise _ _ _ _ _ _ shapes' dead => exact ⟨dead, by simp [shapes']⟩
  | handle _ _ _ _ _ _ _ _ _ _ shapes' dead => exact ⟨dead, by simp [shapes']⟩
  | close kind sig rest mid opcode live shapes _ _ shapes' dead =>
    refine ⟨dead, ?_⟩
    have inside : k < j.code.length := (List.getElem?_eq_some_iff.mp found).1
    obtain ⟨levels, l, st⟩ := accepted.stands short (Nat.le_of_lt inside)
    obtain ⟨L, others, rfl, -, rfl, -⟩ := st.top shapes
    have region : L.region ≠ .function := by
      intro top
      exact inner ⟨opcode, found, by simp [Instr.shuts, opcode], by rw [st.innermost live, top]⟩
    rw [shapes']
    simpa using st.inner_ne_nil region
  | delegate _ _ _ _ _ _ some_rest _ shapes' dead => exact ⟨dead, by rwa [shapes']⟩

theorem Accepted.reached_falls (found : j.code[k]? = some i) (reached : j.skips k = false)
    (falls : i.falls) (inner : ¬ (i.opcode = 0x0b ∧ Closes j.code .function k i)) :
    j.Reached (i.stop - j.base, j.mc k + entrySize j.mod j.cfg.registers i.toInstr) := by
  obtain ⟨dead, opened⟩ := accepted.goes_on short found reached falls inner
  have size : j.mc (k + 1) = j.mc k + entrySize j.mod j.cfg.registers i.toInstr := by
    rw [accepted.mc_succ short found reached]
    refine congrArg _ (Setting.sizes_entry _ _ _ fun opcode => ?_)
    refine if_neg fun innermost => inner ⟨opcode, found, ?_, innermost⟩
    simp [Instr.shuts, opcode]
  rw [← size]
  exact (at_of_accepted accepted short found).reached_next opened dead

theorem Accepted.else_inside (found : j.code[k]? = some i) (reached : j.skips k = false)
    (opcode : i.opcode = 0x05) : ∃ r, (enclosing j.code k).head? = some r := by
  have here := at_of_accepted accepted short found
  have inside : k < j.code.length := (List.getElem?_eq_some_iff.mp found).1
  obtain ⟨levels, l, st⟩ := accepted.stands short (Nat.le_of_lt inside)
  rw [skips_eq found] at reached
  obtain ⟨live, sig, rest, shapes⟩ := here.turn.of_else reached opcode
  obtain ⟨L, inner, rfl, -⟩ := st.top shapes
  exact ⟨L.region, st.innermost live⟩

theorem Accepted.promises (found : j.code[k]? = some i) (reached : j.skips k = false) {off : Nat}
    (word : off ∈ targetOffsets i.toInstr) : ∃ aim r, j.Promises k (j.mc k + off) aim r := by
  have branching (branches : i.opcode = 0x0c ∨ i.opcode = 0x0d ∨ i.opcode = 0x0e) :
      ∃ aim r, j.Promises k (j.mc k + off) aim r := by
    have offsets :
        targetOffsets i.toInstr = (List.range i.labels.length).map (labelOffset i.toInstr) := by
      rcases branches with eq | eq | eq <;> simp [targetOffsets, Instr.labels, eq]
    rw [offsets] at word
    obtain ⟨n, inside, rfl⟩ := List.mem_map.mp word
    have label : i.labels[n]? = some (i.labels.get ⟨n, List.mem_range.mp inside⟩) :=
      List.getElem?_eq_getElem (List.mem_range.mp inside)
    obtain ⟨r, names⟩ := accepted.label_names short found reached (List.mem_of_getElem? label)
    exact ⟨_, r, .branch found reached label names⟩
  by_cases cond : i.opcode = 0x04
  · obtain rfl : off = 0 := by simpa [targetOffsets, cond] using word
    exact ⟨_, _, .cond found reached cond⟩
  by_cases otherwise : i.opcode = 0x05
  · obtain rfl : off = 0 := by simpa [targetOffsets, otherwise] using word
    obtain ⟨r, innermost⟩ := accepted.else_inside short found reached otherwise
    exact ⟨_, r, .otherwise ⟨found, otherwise, innermost⟩ reached⟩
  · refine branching ?_
    unfold targetOffsets at word
    split at word <;> simp_all

theorem Accepted.reached_jumps (found : j.code[k]? = some i) (reached : j.skips k = false)
    {off : Nat}
    (word : off ∈ targetOffsets i.toInstr) (target : md.jump? (j.mc k + off) = some spot) :
    j.Reached spot := by
  obtain ⟨aim, r, promises⟩ := accepted.promises short found reached word
  obtain ⟨spot', jump, -, arrives⟩ := accepted.promise_met short promises
  rwa [← Option.some.inj (jump.symm.trans target)]

theorem Accepted.reached_move (h : j.Reached spot) (move : j.Moves md spot spot') :
    j.Reached spot' := by
  cases move with
  | falls found falls inner =>
    obtain ⟨reached, rfl⟩ := accepted.of_reached short found h
    exact accepted.reached_falls short found reached falls inner
  | jumps found word target =>
    obtain ⟨reached, rfl⟩ := accepted.of_reached short found h
    exact accepted.reached_jumps short found reached word target

end

/-- Wherever the machine comes, it stands at an instruction that is not passed over and at its
entry. -/
theorem runs_stay_together (accepted : j.Accepted md) (short : j.body.bytes.length < 2 ^ 31)
    (run : Relation.ReflTransGen (j.Moves md) (0, 0) spot) : j.Reached spot := by
  induction run with
  | refl => exact accepted.reached_start short
  | tail _ move ih => exact accepted.reached_move short ih move

/-- In the sample: into the loop, past the first part of the conditional, and back to the start of
the loop. -/
theorem runs_stay_together_sample : sample.Accepted sampleTable ∧
    Relation.ReflTransGen (sample.Moves sampleTable) (0, 0) (4, 16) ∧ sample.Reached (4, 16) := by
  have accepted : sample.Accepted sampleTable := by decide +kernel
  have falls (k m : Nat) (i : Instr.Located) (found : sample.code[k]? = some i) (falls : i.falls)
      (inner : i.opcode ≠ 0x0b) : sample.Moves sampleTable (i.start - sample.base, m)
        (i.stop - sample.base, m + entrySize sample.mod sample.cfg.registers i.toInstr) :=
    .falls found falls fun h => inner h.1
  have run : Relation.ReflTransGen (sample.Moves sampleTable) (0, 0) (4, 16) := by
    refine .head (b := (2, 8)) ?_ <| .head (b := (4, 16)) ?_ <| .head (b := (6, 24)) ?_ <|
      .head (b := (18, 112)) ?_ <| .head (b := (20, 120)) ?_ <| .head (b := (4, 16)) ?_ .refl
    · exact falls 0 0 { opcode := 0x02, imm := .block (-64), start := 1, stop := 3 }
        (by decide +kernel) rfl (by decide)
    · exact falls 1 8 { opcode := 0x03, imm := .block (-64), start := 3, stop := 5 }
        (by decide +kernel) rfl (by decide)
    · exact falls 2 16 { opcode := 0x20, imm := .localIndex 0, start := 5, stop := 7 }
        (by decide +kernel) rfl (by decide)
    · exact .jumps (k := 3) (m := 24)
        (i := { opcode := 0x04, imm := .block (-64), start := 7, stop := 9 })
        (by decide +kernel) List.mem_cons_self (by decide +kernel)
    · exact falls 8 112 { opcode := 0x20, imm := .localIndex 0, start := 19, stop := 21 }
        (by decide +kernel) rfl (by decide)
    · exact .jumps (k := 9) (m := 120)
        (i := { opcode := 0x0d, imm := .label 1, start := 21, stop := 23 })
        (by decide +kernel) List.mem_cons_self (by decide +kernel)
  exact ⟨accepted, run, runs_stay_together accepted (by decide) run⟩

end Job
end Sidetable
