import Sidetable.Proofs.Emission

/-!
# Calls and argument layouts

A call tells where each argument lies on the caller's operand stack, and a layout tells where the
callee looks for it. The two are computed apart, one from the top of the stack down and one in the
order of the parameters, and they name the same registers and stack slots.
-/
namespace Sidetable

namespace Arguments

variable {p : ValType → Bool} {free : Nat} {r : Registers} {params : List ValType} {i : Nat}

theorem placed_take {k : Nat} (hi : i < k) (hk : k ≤ params.length) :
    placed p free (params.take k) i = placed p free params i := by
  have split : params.take k ++ params.drop k = params := List.take_append_drop k params
  have inside : i < (params.take k).length := by
    rw [List.length_take]
    omega
  have get : params[i]? = (params.take k)[i]? := by
    rw [← split, List.getElem?_append_left inside, split]
  have taken : (params.take k).take i = params.take i := by
    rw [List.take_take, Nat.min_eq_left (Nat.le_of_lt hi)]
  simp only [placed, get, taken]

/-- An item of a class has as many items of its class before it as its place in the class says. -/
theorem filter_range_getElem {which : Nat → Bool} {n : Nat} (hi : i < n) (h : which i) :
    ((List.range n).filter which)[((List.range i).filter which).length]? = some i := by
  obtain ⟨m, rfl⟩ := Nat.exists_eq_add_of_le (Nat.succ_le_of_lt hi)
  rw [List.range_add, List.range_succ, List.filter_append, List.filter_append,
    List.filter_singleton, h]
  simp

theorem depths_getElem {which : Nat → Bool} (hi : i < params.length) (h : which i) :
    (depths params which)[((List.range i).filter which).length]? =
      some (params.length - 1 - i) := by
  rw [depths, List.getElem?_map, filter_range_getElem hi h]
  rfl

theorem length_depths_onStack (r : Registers) (params : List ValType) :
    (depths params (onStack r params)).length = overflow r params := by
  rw [depths, List.length_map, length_onStack]

theorem exists_of_depths {which : Nat → Bool} {k d : Nat} (h : (depths params which)[k]? = some d) :
    ∃ i < params.length, which i ∧ ((List.range i).filter which).length = k := by
  rw [depths, List.getElem?_map] at h
  obtain ⟨i, found, -⟩ := Option.map_eq_some_iff.mp h
  obtain ⟨mem, holds⟩ := List.mem_filter.mp (List.mem_of_getElem? found)
  have inside := List.mem_range.mp mem
  have again := filter_range_getElem inside holds
  have nodup : ((List.range params.length).filter which).Nodup := List.nodup_range.filter _
  have bound := (List.getElem?_eq_some_iff.mp again).1
  exact ⟨i, inside, holds, (List.getElem?_inj bound nodup).mp (again.trans found.symm)⟩

/-- Parameters before `i` that a class takes, while it still takes `i`. -/
theorem length_placed_before (hi : i < params.length) (h : placed p free params i) :
    ((List.range i).filter (placed p free params)).length = (params.take i).countP p := by
  have same : (List.range i).filter (placed p free params) =
      (List.range (params.take i).length).filter (placed p free (params.take i)) := by
    rw [List.length_take, Nat.min_eq_left (Nat.le_of_lt hi)]
    refine List.filter_congr fun k hk => ?_
    exact (placed_take (List.mem_range.mp hk) (Nat.le_of_lt hi)).symm
  have room : (params.take i).countP p < free := by
    simp only [placed, Bool.and_eq_true, decide_eq_true_eq] at h
    exact h.2
  rw [same, length_placed, Nat.min_eq_left (Nat.le_of_lt room)]

theorem count_lt_of_placed (h : placed p free params i) : (params.take i).countP p < free := by
  simp only [placed, Bool.and_eq_true, decide_eq_true_eq] at h
  exact h.2

theorem length_onStack_before (hi : i < params.length) :
    ((List.range i).filter (onStack r params)).length = overflow r (params.take i) := by
  have same : (List.range i).filter (onStack r params) =
      (List.range (params.take i).length).filter (onStack r (params.take i)) := by
    rw [List.length_take, Nat.min_eq_left (Nat.le_of_lt hi)]
    refine List.filter_congr fun k hk => ?_
    have before := List.mem_range.mp hk
    simp only [onStack, inGpr, inFpr, placed_take before (Nat.le_of_lt hi)]
  rw [same, length_onStack]

theorem overflow_le (r : Registers) (params : List ValType) :
    overflow r params ≤ params.length := by
  unfold overflow
  omega

theorem not_inGpr_of_inFpr (h : inFpr r params i) : ¬ inGpr r params i := by
  intro gpr
  simp only [inFpr, inGpr, placed, Bool.and_eq_true, Option.any_eq_true] at h gpr
  obtain ⟨⟨t, ht, float⟩, -⟩ := h
  obtain ⟨⟨u, hu, integer⟩, -⟩ := gpr
  obtain rfl := Option.some.inj (ht.symm.trans hu)
  rw [ValType.not_float_of_integer integer] at float
  cases float

end Arguments

namespace Layout

open Arguments

variable {r : Registers} {params : List ValType} {i : Nat} {loc : UInt32}

def slotAt (r : Registers) (params : List ValType) (i : Nat) : Nat :=
  if inGpr r params i then (params.take i).countP ValType.isInteger
  else if inFpr r params i then fprBase + (params.take i).countP ValType.isFloat
  else stackBase + overflow r (params.take i)

theorem slotAt_append {t : ValType} (hi : i < params.length) :
    slotAt r (params ++ [t]) i = slotAt r params i := by
  have taken : (params ++ [t]).take i = params.take i :=
    List.take_append_of_le_length (Nat.le_of_lt hi)
  have gpr : inGpr r (params ++ [t]) i = inGpr r params i := placed_append hi
  have fpr : inFpr r (params ++ [t]) i = inFpr r params i := placed_append hi
  rw [slotAt, slotAt, gpr, fpr, taken]

theorem ofParams_eq (params : List ValType) (r : Registers) :
    ofParams params r =
      { locations := (List.range params.length).map fun i => UInt32.ofNat (slotAt r params i)
        gprsUsed := min (params.countP ValType.isInteger) r.gprs
        fprsUsed := min (params.countP ValType.isFloat) r.fprs
        onStack := overflow r params } := by
  induction params using List.reverseRecOn with
  | nil => simp [ofParams, overflow]
  | append_singleton params t ih =>
    have last : ofParams (params ++ [t]) r = (ofParams params r).place r t := by simp [ofParams]
    have others :
        (List.range params.length).map (fun i => UInt32.ofNat (slotAt r (params ++ [t]) i)) =
        (List.range params.length).map fun i => UInt32.ofNat (slotAt r params i) :=
      List.map_congr_left fun i hi => by rw [slotAt_append (List.mem_range.mp hi)]
    have grows := length_onStack r params
    have total := length_onStack r (params ++ [t])
    rw [List.length_append, List.length_singleton, filter_range_succ fun i hi => onStack_append hi,
      List.length_append, grows] at total
    have freeGpr : min (params.countP ValType.isInteger) r.gprs < r.gprs ↔
        params.countP ValType.isInteger < r.gprs := by omega
    have freeFpr : min (params.countP ValType.isFloat) r.fprs < r.fprs ↔
        params.countP ValType.isFloat < r.fprs := by omega
    rw [last, ih, List.length_append, List.length_singleton, List.range_succ, List.map_append,
      others]
    simp only [place, freeGpr, freeFpr, slotAt, Arguments.onStack, inGpr, inFpr, placed_last,
      List.take_left', List.map_cons, List.map_nil, List.countP_append,
      List.countP_singleton] at total ⊢
    by_cases hi : t.isInteger
    · have hf := ValType.not_float_of_integer hi
      by_cases hc : params.countP ValType.isInteger < r.gprs
      · simp [hi, hf, hc, Nat.min_eq_left (Nat.le_of_lt hc)] at total ⊢
        omega
      · simp [hi, hf, hc] at total ⊢
        omega
    · by_cases hf : t.isFloat
      · by_cases hc : params.countP ValType.isFloat < r.fprs
        · simp [hi, hf, hc, Nat.min_eq_left (Nat.le_of_lt hc)] at total ⊢
          omega
        · simp [hi, hf, hc] at total ⊢
          omega
      · simp [hi, hf] at total ⊢
        exact total

theorem length_locations (params : List ValType) (r : Registers) :
    (ofParams params r).locations.length = params.length := by
  rw [ofParams_eq, List.length_map, List.length_range]

theorem location_eq (h : (ofParams params r).locations[i]? = some loc) :
    i < params.length ∧ loc = UInt32.ofNat (slotAt r params i) := by
  rw [ofParams_eq, List.getElem?_map] at h
  obtain ⟨k, hk, rfl⟩ := Option.map_eq_some_iff.mp h
  obtain ⟨hi, rfl⟩ := List.getElem?_eq_some_iff.mp hk
  rw [List.length_range] at hi
  rw [List.getElem_range]
  exact ⟨hi, rfl⟩

theorem location_of_lt (hi : i < params.length) :
    (ofParams params r).locations[i]? = some (UInt32.ofNat (slotAt r params i)) := by
  rw [ofParams_eq, List.getElem?_map, List.getElem?_range hi]
  rfl

theorem toNat_slotAt (few : params.length + stackBase < 2 ^ 32) (hi : i < params.length) :
    (UInt32.ofNat (slotAt r params i)).toNat = slotAt r params i := by
  have small : slotAt r params i < 2 ^ 32 := by
    have ints := List.countP_le_length (p := ValType.isInteger) (l := params.take i)
    have floats := List.countP_le_length (p := ValType.isFloat) (l := params.take i)
    have stack := overflow_le r (params.take i)
    rw [List.length_take] at ints floats stack
    unfold slotAt fprBase
    unfold stackBase at few ⊢
    split
    · omega
    · split <;> omega
  rw [UInt32.toNat_ofNat', Nat.mod_eq_of_lt small]

/-- Where the call data keeps the depth of the argument for a slot: eight words for each class of
registers, the header of the stack arguments and a word for each of them. -/
def depthOffset (slot : Nat) : Nat :=
  if slot < fprBase then 2 * slot
  else if slot < stackBase then 16 + 2 * (slot - fprBase)
  else 38 + 2 * (slot - stackBase)

theorem depthOffset_gpr {k : Nat} (h : k < 8) : depthOffset k = 2 * k :=
  if_pos h

theorem depthOffset_fpr {k : Nat} (h : k < 8) : depthOffset (fprBase + k) = 16 + 2 * k := by
  have high : ¬ fprBase + k < fprBase := by omega
  have low : fprBase + k < stackBase := by
    simp only [fprBase, stackBase]
    omega
  rw [depthOffset, if_neg high, if_pos low, Nat.add_sub_cancel_left]

theorem depthOffset_stack (k : Nat) : depthOffset (stackBase + k) = 38 + 2 * k := by
  have high : ¬ stackBase + k < fprBase := by
    simp only [fprBase, stackBase]
    omega
  have above : ¬ stackBase + k < stackBase := by omega
  rw [depthOffset, if_neg high, if_neg above, Nat.add_sub_cancel_left]

end Layout

namespace Cell

def Stores (cells : List Cell) (pos width v : Nat) : Prop :=
  ∃ before after, cells = before ++ num width v :: after ∧ sizes before = pos

namespace Stores

variable {a b : List Cell} {pos width v : Nat}

theorem left (h : Stores a pos width v) (b : List Cell) : Stores (a ++ b) pos width v := by
  obtain ⟨before, after, rfl, rfl⟩ := h
  exact ⟨before, after ++ b, by simp, rfl⟩

theorem right (h : Stores b pos width v) (a : List Cell) :
    Stores (a ++ b) (sizes a + pos) width v := by
  obtain ⟨before, after, rfl, rfl⟩ := h
  exact ⟨a ++ before, after, by simp, by simp⟩

theorem head (rest : List Cell) : Stores (num width v :: rest) 0 width v :=
  ⟨[], rest, rfl, rfl⟩

theorem map {α : Type} {f : α → Nat} {list : List α} {i : Nat} {x : α} (h : list[i]? = some x) :
    Stores (list.map fun x => num width (f x)) (width * i) width (f x) := by
  obtain ⟨inside, rfl⟩ := List.getElem?_eq_some_iff.mp h
  refine ⟨(list.take i).map fun x => num width (f x),
    (list.drop (i + 1)).map fun x => num width (f x), ?_, ?_⟩
  · have split : list.take i ++ list[i] :: list.drop (i + 1) = list := by
      rw [← List.drop_eq_getElem_cons inside, List.take_append_drop]
    rw [← List.map_cons (f := fun x => num width (f x)), ← List.map_append, split]
  · rw [sizes_map_num, List.length_take, Nat.min_eq_left (Nat.le_of_lt inside)]

theorem registers {depths : List Nat} {slot : Nat} (h : slot < 8) :
    Stores (registers depths) (2 * slot) 2 (depths[slot]?.getD 0) :=
  map (f := fun r => depths[r]?.getD 0) (List.getElem?_range h)

end Stores

end Cell

/-- A number of the cells that end the buffer is read back modulo its width. -/
theorem Buffer.get_of_stores {b : Buffer} {front : List UInt8} {cells : List Cell}
    {pos width v : Nat} (ends : b.bytes = front ++ Cell.blank cells) (bound : b.size ≤ maxSize)
    (h : Cell.Stores cells pos width v) :
    b.get width (Int64.ofNat (front.length + pos)) = .ok (v % 256 ^ width) := by
  obtain ⟨before, after, rfl, rfl⟩ := h
  rw [Cell.blank_append, Cell.blank_num] at ends
  have size : b.size = (front.length + Cell.sizes before) + (width + Cell.sizes after) := by
    rw [Buffer.size, ← Array.length_toList, ← Buffer.bytes, ends]
    simp [Cell.blank, Nat.add_assoc]
  have found : b.span 0 (Int64.ofNat (front.length + Cell.sizes before)) width =
      .ok (front.length + Cell.sizes before) := by
    have inside : (0 : UInt32).toNat + (front.length + Cell.sizes before) + width ≤ b.size := by
      rw [UInt32.toNat_zero]
      omega
    rw [span_ofNat inside bound, UInt32.toNat_zero, Nat.zero_add]
  have read : (b.bytes.drop (front.length + Cell.sizes before)).take width =
      LittleEndian.encode width v := by
    rw [ends, ← List.append_assoc, List.drop_left' (by simp [Cell.blank]),
      List.take_left' (by simp)]
  have whole : LittleEndian.decode (b.data.extract (front.length + Cell.sizes before)
      (front.length + Cell.sizes before + width)).toList = v % 256 ^ width := by
    rw [Array.toList_extract, List.extract_eq_take_drop, Nat.add_sub_cancel_left,
      ← LittleEndian.decode_encode, ← read, Buffer.bytes]
  rw [get, found, ← whole]
  rfl

/-! ## What a call writes -/

namespace Cell

open Arguments

variable {r : Registers} {callee : FuncType} {i pos width v slot : Nat}

theorem stores_gpr (h : slot < 8) : Stores (callData r callee) (2 * slot) 2
    ((depths callee.params (inGpr r callee.params))[slot]?.getD 0) := by
  have word : Stores (registers (depths callee.params (inGpr r callee.params))) (2 * slot) 2 _ :=
    .registers h
  exact ((word.left _).left _).left _

theorem stores_fpr (h : slot < 8) : Stores (callData r callee) (16 + 2 * slot) 2
    ((depths callee.params (inFpr r callee.params))[slot]?.getD 0) := by
  have word : Stores (registers (depths callee.params (inFpr r callee.params))) (2 * slot) 2 _ :=
    .registers h
  have region := word.right (registers (depths callee.params (inGpr r callee.params)))
  rw [sizes_registers] at region
  exact (region.left _).left _

theorem stores_tail (h : Stores (stackArguments callee.params.length
    (depths callee.params (onStack r callee.params))) pos width v) :
    Stores (callData r callee) (32 + pos) width v := by
  have behind := h.right (registers (depths callee.params (inGpr r callee.params)) ++
    registers (depths callee.params (inFpr r callee.params)))
  rw [sizes_append, sizes_registers, sizes_registers] at behind
  exact behind.left _

theorem stores_returnData (h : Stores (returnData callee.results) pos width v) :
    Stores (callData r callee) (32 + Entry.roundUp (2 * overflow r callee.params + 6) + pos) width
      v := by
  have behind := h.right (registers (depths callee.params (inGpr r callee.params)) ++
    registers (depths callee.params (inFpr r callee.params)) ++
    stackArguments callee.params.length (depths callee.params (onStack r callee.params)))
  rw [sizes_append, sizes_append, sizes_registers, sizes_registers, sizes_stackArguments,
    length_depths_onStack] at behind
  exact behind

theorem stores_header (r : Registers) (callee : FuncType) :
    Stores (callData r callee) 32 2 (Entry.roundUp (2 * overflow r callee.params + 6)) ∧
      Stores (callData r callee) 34 2 callee.params.length ∧
      Stores (callData r callee) 36 2 (overflow r callee.params) := by
  rw [← length_depths_onStack]
  have second : Stores (stackArguments _ _) (2 + 0) 2 callee.params.length :=
    (Stores.head _).right
      [num 2 (Entry.roundUp (2 * (depths callee.params (onStack r callee.params)).length + 6))]
  have third :
      Stores (stackArguments _ _) (4 + 0) 2
      (depths callee.params (onStack r callee.params)).length :=
    (Stores.head _).right [num 2 _, num 2 callee.params.length]
  exact ⟨stores_tail (.head _), stores_tail second, stores_tail third⟩

theorem stores_stackDepth {argc d j : Nat} {depths : List Nat} (h : depths[j]? = some d) :
    Stores (stackArguments argc depths) (6 + 2 * j) 2 d := by
  have word : Stores (depths.map fun d => num 2 (id d)) (2 * j) 2 (id d) := .map h
  exact (word.right [num 2 _, num 2 _, num 2 _]).left _

/-- The depth of an argument is kept at the place of its slot. -/
theorem stores_depth (hi : i < callee.params.length) :
    Stores (callData r callee) (Layout.depthOffset (Layout.slotAt r callee.params i)) 2
      (callee.params.length - 1 - i) := by
  by_cases gpr : inGpr r callee.params i
  · have room : (callee.params.take i).countP ValType.isInteger < 8 :=
      Nat.lt_of_lt_of_le (count_lt_of_placed gpr) r.gprs_le
    have depth := depths_getElem hi gpr
    rw [inGpr, length_placed_before hi gpr] at depth
    have word : Stores (callData r callee) _ 2 _ := stores_gpr room
    rw [inGpr, depth] at word
    rw [Layout.slotAt, if_pos gpr, Layout.depthOffset_gpr room]
    exact word
  · by_cases fpr : inFpr r callee.params i
    · have room : (callee.params.take i).countP ValType.isFloat < 8 :=
        Nat.lt_of_lt_of_le (count_lt_of_placed fpr) r.fprs_le
      have depth := depths_getElem hi fpr
      rw [inFpr, length_placed_before hi fpr] at depth
      have word : Stores (callData r callee) _ 2 _ := stores_fpr room
      rw [inFpr, depth] at word
      rw [Layout.slotAt, if_neg gpr, if_pos fpr, Layout.depthOffset_fpr room]
      exact word
    · have stack : onStack r callee.params i := by simp [onStack, gpr, fpr]
      have depth := depths_getElem hi stack
      rw [length_onStack_before hi] at depth
      rw [Layout.slotAt, if_neg gpr, if_neg fpr, Layout.depthOffset_stack]
      have word : Stores (callData r callee) _ 2 _ := stores_tail (stores_stackDepth depth)
      rwa [← Nat.add_assoc] at word

theorem stores_zero (h : slot < Layout.stackBase)
    (free : ∀ i < callee.params.length, Layout.slotAt r callee.params i ≠ slot) :
    Stores (callData r callee) (Layout.depthOffset slot) 2 0 := by
  by_cases gpr : slot < 8
  · have none : (depths callee.params (inGpr r callee.params))[slot]? = none := by
      cases taken : (depths callee.params (inGpr r callee.params))[slot]? with
      | none => rfl
      | some d =>
        obtain ⟨i, inside, holds, index⟩ := exists_of_depths taken
        rw [inGpr, length_placed_before inside holds] at index
        refine absurd ?_ (free i inside)
        rw [Layout.slotAt, if_pos holds, index]
    have word : Stores (callData r callee) _ 2 _ := stores_gpr gpr
    rw [none] at word
    rwa [Layout.depthOffset_gpr gpr]
  · obtain ⟨k, rfl⟩ : ∃ k, slot = Layout.fprBase + k :=
      Nat.exists_eq_add_of_le (Nat.le_of_not_lt gpr)
    have room : k < 8 := by
      simp only [Layout.fprBase, Layout.stackBase] at h
      omega
    have none : (depths callee.params (inFpr r callee.params))[k]? = none := by
      cases taken : (depths callee.params (inFpr r callee.params))[k]? with
      | none => rfl
      | some d =>
        obtain ⟨i, inside, holds, index⟩ := exists_of_depths taken
        rw [inFpr, length_placed_before inside holds] at index
        refine absurd ?_ (free i inside)
        rw [Layout.slotAt, if_neg (not_inGpr_of_inFpr holds), if_pos holds, index]
    have word : Stores (callData r callee) _ 2 _ := stores_fpr room
    rw [none] at word
    rwa [Layout.depthOffset_fpr room]

end Cell

/-- The call data at `base`, read against the layout that the callee has: every argument is where
its location says. -/
structure Buffer.Marshals (b : Buffer) (base : Nat) (callee : FuncType)
    (layout : Layout) : Prop where
  located : layout.locations.length = callee.params.length
  argument : ∀ i loc, layout.locations[i]? = some loc →
    b.get 2 (Int64.ofNat (base + Layout.depthOffset loc.toNat)) = .ok (callee.params.length - 1 - i)
  unused : ∀ slot < Layout.stackBase, (∀ loc ∈ layout.locations, loc.toNat ≠ slot) →
    b.get 2 (Int64.ofNat (base + Layout.depthOffset slot)) = .ok 0
  tailSize : b.get 2 (Int64.ofNat (base + 32)) = .ok (Entry.roundUp (2 * layout.onStack + 6))
  argc : b.get 2 (Int64.ofNat (base + 34)) = .ok callee.params.length
  onStack : b.get 2 (Int64.ofNat (base + 36)) = .ok layout.onStack
  returnSize : b.get 2 (Int64.ofNat (base + (32 + Entry.roundUp (2 * layout.onStack + 6)))) =
    .ok (Entry.roundUp (callee.results.length + 2))
  returned : ∀ i t, callee.results[i]? = some t →
    b.get 1 (Int64.ofNat (base + (32 + Entry.roundUp (2 * layout.onStack + 6) + (2 + i)))) =
    .ok t.code.toNat
  ends : b.size =
    base + (32 + Entry.roundUp (2 * layout.onStack + 6) + Entry.roundUp (callee.results.length + 2))

theorem Buffer.marshals_of_ends {b : Buffer} {front : List UInt8} {r : Registers}
    {callee : FuncType}
    (ends : b.bytes = front ++ Cell.blank (Cell.callData r callee)) (bound : b.size ≤ maxSize)
    (params : callee.params.length ≤ 32761) (results : callee.results.length ≤ 65526) :
    b.Marshals front.length callee (.ofParams callee.params r) := by
  have overflow := Arguments.overflow_le r callee.params
  have few : callee.params.length + Layout.stackBase < 2 ^ 32 := by
    rw [Layout.stackBase]
    omega
  have word : ∀ {pos v}, v < 256 ^ 2 → Cell.Stores (Cell.callData r callee) pos 2 v →
      b.get 2 (Int64.ofNat (front.length + pos)) = .ok v := by
    intro pos v small stores
    rw [get_of_stores ends bound stores, Nat.mod_eq_of_lt small]
  have onStack :
      (Layout.ofParams callee.params r).onStack = Arguments.overflow r callee.params := by
    rw [Layout.ofParams_eq]
  refine ⟨Layout.length_locations _ _, ?_, ?_, ?_, ?_, ?_, ?_, ?_, ?_⟩
  · intro i loc found
    obtain ⟨inside, rfl⟩ := Layout.location_eq found
    rw [Layout.toNat_slotAt few inside]
    exact word (by omega) (Cell.stores_depth inside)
  · intro slot low free
    refine word (by decide) (Cell.stores_zero low fun i inside eq => ?_)
    refine free _ (List.mem_of_getElem? (Layout.location_of_lt inside)) ?_
    rw [Layout.toNat_slotAt few inside, eq]
  · rw [onStack]
    exact word (by unfold Entry.roundUp; omega) (Cell.stores_header r callee).1
  · exact word (by omega) (Cell.stores_header r callee).2.1
  · rw [onStack]
    exact word (by omega) (Cell.stores_header r callee).2.2
  · rw [onStack]
    exact word (by unfold Entry.roundUp; omega) (Cell.stores_returnData (.head _))
  · intro i t found
    have code :
        Cell.Stores (callee.results.map fun t => .num 1 t.code.toNat) (1 * i) 1 t.code.toNat :=
        .map found
    have stores : Cell.Stores (Cell.returnData callee.results) (2 + 1 * i) 1 t.code.toNat :=
      (code.right [.num 2 (Entry.roundUp (callee.results.length + 2))]).left _
    rw [Nat.one_mul] at stores
    have small : t.code.toNat < 256 ^ 1 := t.code.toNat_lt
    have read := get_of_stores ends bound (Cell.stores_returnData stores)
    rwa [← onStack, Nat.mod_eq_of_lt small] at read
  · rw [onStack, Buffer.size, ← Array.length_toList, ← Buffer.bytes, ends, List.length_append,
      Cell.blank, Cell.length_write]
    exact congrArg (front.length + ·) (Cell.sizes_callData r callee)

namespace Generator

variable {g g' : Generator}

theorem marshals_of_emit {header : List UInt8} {callee : FuncType}
    (h : (g.emit header).andThen (fun g => g.callData callee) = .done g')
    (params : callee.params.length ≤ 32761) (results : callee.results.length ≤ 65526) :
    g'.buffer.Marshals (g.size + header.length) callee (.ofParams callee.params g.registers) := by
  obtain ⟨g₁, h₁, h₂⟩ := Outcome.andThen_done.mp h
  obtain ⟨-, rfl⟩ := emit_eq_done.mp h₁
  obtain ⟨admitted, rfl⟩ := emit_eq_done.mp (callData_emit h₂)
  simp only [Buffer.admits, Bool.and_eq_true, decide_eq_true_eq] at admitted
  have front : (g.buffer.bytes ++ header).length = g.size + header.length := by
    simp [Buffer.bytes, size, Buffer.size]
  rw [← front]
  refine Buffer.marshals_of_ends ?_ ?_ params results
  · simp [Buffer.bytes]
  · simpa [Buffer.size, size, Nat.add_assoc] using admitted.1

theorem calls_marshal_arguments {cfg : Config} {callee : FuncType}
    (effective : g.registers = cfg.registers) (params : callee.params.length ≤ 32761)
    (results : callee.results.length ≤ 65526) :
    (∀ func, g.call func callee = .done g' →
      g'.buffer.Marshals (g.size + 8) callee (.ofParams callee.params cfg.registers)) ∧
    ∀ table type, g.callIndirect table type callee = .done g' →
      g'.buffer.Marshals (g.size + 16) callee (.ofParams callee.params cfg.registers) := by
  rw [← effective]
  refine ⟨fun func h => ?_, fun table type h => ?_⟩
  · have header : (Entry.call func g.pc).length = 8 := by simp [Entry.call]
    have marshals := marshals_of_emit h params results
    rwa [header] at marshals
  · have header : (Entry.callIndirect table type g.pc).length = 16 := by simp [Entry.callIndirect]
    have marshals := marshals_of_emit h params results
    rwa [header] at marshals

/-- Two integer registers and one for floats, with a vector and a reference that never are in
any. -/
def mixedCall : FuncType where
  params := [.i32, .f64, .funcref, .i64, .f32, .v128, .i32]
  results := [.f32, .i64]

theorem calls_marshal_arguments_mixed : ∃ g',
    (start { convention := ⟨2, 1⟩ } [] 0 ⟨[], []⟩ {}).call 3 mixedCall = .done g' ∧
      g'.buffer.Marshals 8 mixedCall
        (.ofParams mixedCall.params (Convention.registers ⟨2, 1⟩ "amd64")) :=
  have registers : (start { convention := ⟨2, 1⟩ } [] 0 ⟨[], []⟩ {}).registers =
      (Config.mk ⟨2, 1⟩ 0 "amd64").registers := rfl
  ⟨_, rfl, (calls_marshal_arguments registers (by decide) (by decide)).1 3 rfl⟩

end Generator
end Sidetable
