import Sidetable.Proofs.Marshalling

/-!
# Slots of a frame

A frame has a slot for every parameter and every declared local. Parameters go to registers while
there are some of their class, all others to the stack, and the locals follow these. No two
variables share a slot, each class takes its slots in the order of declaration, and the stack slots
have no gaps.
-/
namespace Sidetable

namespace Arguments

variable {which : Nat → Bool} {i k : Nat}

def rank (which : Nat → Bool) (i : Nat) : Nat :=
  ((List.range i).filter which).length

theorem rank_inj (hi : which i) (hk : which k) (same : rank which i = rank which k) : i = k := by
  have first := filter_range_getElem (n := i + k + 1) (i := i) (by omega) hi
  have second := filter_range_getElem (n := i + k + 1) (i := k) (by omega) hk
  rw [rank, rank] at same
  rw [same] at first
  exact Option.some.inj (first.symm.trans second)

theorem rank_lt {n : Nat} (inside : i < n) (hi : which i) : rank which i < rank which n :=
  (List.getElem?_eq_some_iff.mp (filter_range_getElem inside hi)).1

theorem map_rank (which : Nat → Bool) (n : Nat) :
    ((List.range n).filter which).map (rank which) = List.range (rank which n) := by
  induction n with
  | zero => rfl
  | succ n ih =>
    by_cases last : which n
    · have grown : rank which (n + 1) = rank which n + 1 := by simp [rank, List.range_succ, last]
      rw [grown, List.range_succ, List.range_succ, ← ih]
      simp [last]
    · have kept : rank which (n + 1) = rank which n := by simp [rank, List.range_succ, last]
      rw [kept, List.range_succ, ← ih]
      simp [last]

end Arguments

namespace Layout

open Arguments

variable {r : Registers} {params : List ValType} {i total : Nat}

theorem slotAt_gpr (inside : i < params.length) (gpr : inGpr r params i) :
    slotAt r params i = rank (inGpr r params) i := by
  rw [slotAt, if_pos gpr]
  exact (length_placed_before inside gpr).symm

theorem slotAt_fpr (inside : i < params.length) (fpr : inFpr r params i) :
    slotAt r params i = fprBase + rank (inFpr r params) i := by
  rw [slotAt, if_neg (not_inGpr_of_inFpr fpr), if_pos fpr]
  exact congrArg (fprBase + ·) (length_placed_before inside fpr).symm

theorem slotAt_stack (inside : i < params.length) (stack : Arguments.onStack r params i) :
    slotAt r params i = stackBase + rank (Arguments.onStack r params) i := by
  obtain ⟨gpr, fpr⟩ : inGpr r params i = false ∧ inFpr r params i = false := by
    simpa only [Arguments.onStack, Bool.and_eq_true, Bool.not_eq_true'] using stack
  rw [slotAt, gpr, fpr]
  exact congrArg (stackBase + ·) (length_onStack_before inside).symm

def slotOf (l : Layout) (i : Nat) : Nat :=
  (l.slot (UInt32.ofNat i)).toNat

theorem slotOf_param (few : params.length + stackBase < 2 ^ 32) (inside : i < params.length) :
    (ofParams params r).slotOf i = slotAt r params i := by
  have index : (UInt32.ofNat i).toNat = i := UInt32.toNat_ofNat_of_lt' (by change i < 2 ^ 32; omega)
  rw [slotOf, slot, index, location_of_lt inside]
  exact toNat_slotAt few inside

theorem toInt_localBase (few : params.length < 2 ^ 31) :
    (ofParams params r).localBase.toInt = stackBase + overflow r params - params.length := by
  have stack := overflow_le r params
  rw [localBase, length_locations, ofParams_eq, Int32.toInt_ofInt, stackBase]
  exact Int.bmod_eq_of_le (by simp only [Int32.size]; omega) (by simp only [Int32.size]; omega)

theorem slotOf_local (short : total + stackBase < 2 ^ 31) (outside : params.length ≤ i)
    (inside : i < total) :
    (ofParams params r).slotOf i = stackBase + overflow r params + (i - params.length) := by
  have stack := overflow_le r params
  have index : (UInt32.ofNat i).toNat = i := UInt32.toNat_ofNat_of_lt' (by change i < 2 ^ 32; omega)
  have none : (ofParams params r).locations[i]? = none := by
    rw [List.getElem?_eq_none_iff, length_locations]
    exact outside
  rw [slotOf, slot, index, none, toInt_localBase (by omega), UInt32.ofInt, UInt32.toNat_ofNat',
    stackBase] at *
  omega

/-- A variable is in a register of its class, on the stack as a parameter, or behind the parameters
as a local. -/
theorem slotOf_cases (few : params.length ≤ total) (short : total + stackBase < 2 ^ 31)
    (inside : i < total) :
    (inGpr r params i ∧ (ofParams params r).slotOf i = rank (inGpr r params) i ∧
      rank (inGpr r params) i < 8) ∨
    (inFpr r params i ∧ (ofParams params r).slotOf i = 8 + rank (inFpr r params) i ∧
      rank (inFpr r params) i < 8) ∨
    (Arguments.onStack r params i ∧
      (ofParams params r).slotOf i = 16 + rank (Arguments.onStack r params) i ∧
      rank (Arguments.onStack r params) i < overflow r params) ∨
    (params.length ≤ i ∧
      (ofParams params r).slotOf i = 16 + overflow r params + (i - params.length)) := by
  by_cases param : i < params.length
  · have slot : (ofParams params r).slotOf i = slotAt r params i := slotOf_param (by omega) param
    by_cases gpr : inGpr r params i
    · have free := count_lt_of_placed gpr
      rw [← length_placed_before param gpr] at free
      exact .inl ⟨gpr, slot.trans (slotAt_gpr param gpr), Nat.lt_of_lt_of_le free r.gprs_le⟩
    · by_cases fpr : inFpr r params i
      · have free := count_lt_of_placed fpr
        rw [← length_placed_before param fpr] at free
        exact .inr
          (.inl ⟨fpr, slot.trans (slotAt_fpr param fpr), Nat.lt_of_lt_of_le free r.fprs_le⟩)
      · have stack : Arguments.onStack r params i := by simp [Arguments.onStack, gpr, fpr]
        have bound := rank_lt param stack
        rw [rank, rank, length_onStack] at bound
        exact .inr (.inr (.inl ⟨stack, slot.trans (slotAt_stack param stack), bound⟩))
  · exact .inr
      (.inr (.inr ⟨Nat.le_of_not_lt param, slotOf_local short (Nat.le_of_not_lt param) inside⟩))

theorem slotOf_inj (few : params.length ≤ total) (short : total + stackBase < 2 ^ 31) {k : Nat}
    (hi : i < total)
    (hk : k < total) (same : (ofParams params r).slotOf i = (ofParams params r).slotOf k) :
    i = k := by
  -- slots of different regions differ, and in a region the rank is known from the slot
  have homes := slotOf_cases (r := r) few short hk
  rcases slotOf_cases (r := r) few short hi with
    ⟨gpr, slot, low⟩ | ⟨fpr, slot, low⟩ | ⟨stack, slot, low⟩ | ⟨low, slot⟩
  · rcases homes with ⟨gpr', slot', -⟩ | ⟨-, slot', -⟩ | ⟨-, slot', -⟩ | ⟨-, slot'⟩
    · exact rank_inj gpr gpr' (by omega)
    all_goals omega
  · rcases homes with ⟨-, slot', low'⟩ | ⟨fpr', slot', -⟩ | ⟨-, slot', -⟩ | ⟨-, slot'⟩
    · omega
    · exact rank_inj fpr fpr' (by omega)
    all_goals omega
  · rcases homes with ⟨-, slot', low'⟩ | ⟨-, slot', low'⟩ | ⟨stack', slot', -⟩ | ⟨-, slot'⟩
    · omega
    · omega
    · exact rank_inj stack stack' (by omega)
    · omega
  · rcases homes with ⟨-, slot', low'⟩ | ⟨-, slot', low'⟩ | ⟨-, slot', low'⟩ | ⟨low', slot'⟩
    all_goals omega

/-- The members of a class have the slots from `base` on, in their order. -/
theorem map_slotOf (which : Nat → Bool) (base : Nat) (few : params.length + stackBase < 2 ^ 32)
    (each : ∀ i < params.length, which i → slotAt r params i = base + rank which i) :
    ((List.range params.length).filter which).map (ofParams params r).slotOf =
      (List.range (rank which params.length)).map (base + ·) := by
  rw [← map_rank, List.map_map]
  refine List.map_congr_left fun i mem => ?_
  obtain ⟨inside, member⟩ := List.mem_filter.mp mem
  rw [slotOf_param few (List.mem_range.mp inside), each i (List.mem_range.mp inside) member]
  rfl

theorem map_gprs (few : params.length + stackBase < 2 ^ 32) :
    ((List.range params.length).filter (inGpr r params)).map (ofParams params r).slotOf =
      List.range (ofParams params r).gprsUsed := by
  have used : (ofParams params r).gprsUsed = rank (inGpr r params) params.length := by
    rw [ofParams_eq]
    exact (length_placed ValType.isInteger r.gprs params).symm
  have slots := map_slotOf (inGpr r params) 0 few fun i inside gpr => by
    rw [slotAt_gpr inside gpr, Nat.zero_add]
  rw [used, slots]
  simp

theorem map_fprs (few : params.length + stackBase < 2 ^ 32) :
    ((List.range params.length).filter (inFpr r params)).map (ofParams params r).slotOf =
      (List.range (ofParams params r).fprsUsed).map (8 + ·) := by
  have used : (ofParams params r).fprsUsed = rank (inFpr r params) params.length := by
    rw [ofParams_eq]
    exact (length_placed ValType.isFloat r.fprs params).symm
  rw [used]
  exact map_slotOf _ _ few fun i inside fpr => slotAt_fpr inside fpr

theorem map_stack (few : params.length + stackBase < 2 ^ 32) :
    ((List.range params.length).filter (Arguments.onStack r params)).map
    (ofParams params r).slotOf =
      (List.range (ofParams params r).onStack).map (16 + ·) := by
  have used : (ofParams params r).onStack = rank (Arguments.onStack r params) params.length := by
    rw [ofParams_eq]
    exact (length_onStack r params).symm
  rw [used]
  exact map_slotOf _ _ few fun i inside stack => slotAt_stack inside stack

theorem onStack_eq (params : List ValType) (r : Registers) :
    (ofParams params r).onStack = overflow r params := by
  rw [ofParams_eq]

theorem gapless (few : params.length ≤ total) (short : total + stackBase < 2 ^ 31) {s : Nat}
    (low : 16 ≤ s) :
    (∃ i < total, (ofParams params r).slotOf i = s) ↔
    s < 16 + overflow r params + (total - params.length) := by
  constructor
  · rintro ⟨i, inside, rfl⟩
    rcases slotOf_cases (r := r) few short inside with
      ⟨-, slot, high⟩ | ⟨-, slot, high⟩ | ⟨-, slot, high⟩ | ⟨low', slot⟩
    all_goals omega
  · intro high
    by_cases param : s < 16 + overflow r params
    · have mem : s ∈ (List.range (ofParams params r).onStack).map (16 + ·) := by
        refine List.mem_map.mpr ⟨s - 16, List.mem_range.mpr ?_, by omega⟩
        rw [onStack_eq]
        omega
      rw [← map_stack (by omega)] at mem
      obtain ⟨i, found, slot⟩ := List.mem_map.mp mem
      have inside := List.mem_range.mp (List.mem_filter.mp found).1
      exact ⟨i, by omega, slot⟩
    · refine ⟨params.length + (s - 16 - overflow r params), by omega, ?_⟩
      rw [slotOf_local short (by omega) (by omega), stackBase]
      omega

/-- How `total` variables lie in a frame, the first of which are the parameters. -/
structure Assigns (l : Layout) (params : List ValType) (r : Registers) (total : Nat) : Prop where
  apart : ∀ i k : UInt32, i.toNat < total → k.toNat < total → l.slot i = l.slot k → i = k
  gprsUsed : l.gprsUsed = min (params.countP ValType.isInteger) r.gprs
  gprs : ((List.range params.length).filter (inGpr r params)).map l.slotOf = List.range l.gprsUsed
  fprsUsed : l.fprsUsed = min (params.countP ValType.isFloat) r.fprs
  fprs : ((List.range params.length).filter (inFpr r params)).map l.slotOf =
    (List.range l.fprsUsed).map (8 + ·)
  stack : ((List.range params.length).filter (Arguments.onStack r params)).map l.slotOf =
    (List.range l.onStack).map (16 + ·)
  counted : l.gprsUsed + l.fprsUsed + l.onStack = params.length
  locals : ∀ j, params.length + j < total → l.slotOf (params.length + j) = 16 + l.onStack + j
  gapless :
    ∀ s, 16 ≤ s → ((∃ i < total, l.slotOf i = s) ↔ s < 16 + l.onStack + (total - params.length))

/-- No two variables of a frame share a slot. Each class of registers and the stack are filled in
the order of declaration, and the declared locals follow the parameters on the stack. -/
theorem slots_apart (params : List ValType) (cc : Convention) {total : Nat}
    (few : params.length ≤ total) (short : total + 16 < 2 ^ 31) :
    (ofParams params cc.clamp).Assigns params cc.clamp total := by
  have fits : params.length + stackBase < 2 ^ 32 := by
    rw [stackBase]
    omega
  have whole := ofParams_eq params cc.clamp
  constructor
  case apart =>
    intro i k hi hk same
    rw [← UInt32.toNat_inj]
    refine slotOf_inj (r := cc.clamp) few short hi hk ?_
    rw [slotOf, slotOf, UInt32.ofNat_toNat, UInt32.ofNat_toNat, same]
  case gprsUsed => rw [whole]
  case gprs => exact map_gprs fits
  case fprsUsed => rw [whole]
  case fprs => exact map_fprs fits
  case stack => exact map_stack fits
  case counted =>
    have classes := length_classes cc.clamp params
    rw [length_onStack] at classes
    rw [whole]
    exact classes
  case locals =>
    intro j inside
    rw [slotOf_local short (Nat.le_add_right _ _) inside, onStack_eq, Nat.add_sub_cancel_left]
    rfl
  case gapless =>
    intro s low
    rw [onStack_eq]
    exact gapless few short low

/-- Two integer registers and one for floats, which leave two numbers, a vector and a reference to
the stack, in front of three locals. -/
theorem slots_apart_mixed :
    let params : List ValType := [.i32, .f64, .v128, .i64, .f32, .i32, .funcref]
    let l := ofParams params (Convention.clamp ⟨2, 1⟩)
    (params.length ≤ 10 ∧ 10 + 16 < 2 ^ 31) ∧ l.Assigns params (Convention.clamp ⟨2, 1⟩) 10 ∧
      (List.range 10).map l.slotOf = [0, 8, 16, 1, 17, 18, 19, 20, 21, 22] := by
  intro params l
  exact ⟨by decide, slots_apart params ⟨2, 1⟩ (by decide) (by decide), by decide⟩

end Layout
end Sidetable
