import Sidetable.Proofs.Format

/-!
# Entries as cells

The bytes of each kind of entry are those of its cells, before any target word is written. For a
call this says that arguments are sorted into registers and stack as the format has it.
-/
namespace Sidetable

open LittleEndian (encode)

theorem LittleEndian.encode_mod (width v : Nat) :
    encode width (v % 256 ^ width) = encode width v := by
  induction width generalizing v with
  | zero => rfl
  | succ width ih =>
    have low : UInt8.ofNat (v % 256 ^ (width + 1)) = UInt8.ofNat v := by
      apply UInt8.toNat_inj.mp
      rw [UInt8.toNat_ofNat', UInt8.toNat_ofNat', Nat.pow_add_one 256 width]
      exact Nat.mod_mul_left_mod v (256 ^ width) 256
    have high : v % 256 ^ (width + 1) / 256 = v / 256 % 256 ^ width := by
      rw [Nat.pow_add_one 256 width, Nat.mul_comm, Nat.mod_mul_right_div_self]
    rw [encode, encode, low, high, ih]

theorem LittleEndian.encode_zero (width : Nat) : encode width 0 = List.replicate width 0 := by
  induction width with
  | zero => rfl
  | succ width ih =>
    rw [encode, Nat.zero_div, ih, List.replicate_succ]
    rfl

namespace Cell

@[simp] theorem blank_nil : blank [] = [] := rfl

theorem blank_append (a b : List Cell) : blank (a ++ b) = blank a ++ blank b := by
  rw [blank, write_append, write_unset b fun _ _ => rfl]
  rfl

@[simp] theorem blank_num (width v : Nat) (rest : List Cell) :
    blank (num width v :: rest) = encode width v ++ blank rest := by
  have head : blank [num width v] = encode width v := by
    rw [blank, write, write, List.append_nil]
  rw [← List.singleton_append, blank_append, head]

@[simp] theorem blank_target (rest : List Cell) :
    blank (target :: rest) = Entry.placeholder ++ blank rest := by
  rw [← List.singleton_append, blank_append]
  rfl

theorem blank_map_num {α : Type} (width : Nat) (f : α → Nat) (list : List α) :
    blank (list.map fun a => num width (f a)) = list.flatMap fun a => encode width (f a) := by
  induction list with
  | nil => rfl
  | cons a rest ih => rw [List.map_cons, blank_num, ih, List.flatMap_cons]

theorem blank_zeros (n : Nat) : blank (zeros n) = List.replicate n 0 := by
  induction n with
  | zero => rfl
  | succ n ih =>
    have : zeros (n + 1) = num 1 0 :: zeros n := List.replicate_succ
    rw [this, blank_num, ih, List.replicate_succ]
    rfl

theorem length_flatMap_encode {α : Type} (width : Nat) (f : α → Nat) (list : List α) :
    (list.flatMap fun a => encode width (f a)).length = width * list.length := by
  rw [← blank_map_num, blank, length_write, sizes_map_num]

theorem blank_returnData (results : List ValType) :
    blank (returnData results) = Entry.returnData results := by
  have codes : (results.flatMap fun t => encode 1 t.code.toNat) = results.map ValType.code := by
    rw [← List.flatMap_singleton' results, List.flatMap_assoc, List.map_flatMap]
    refine List.flatMap_congr fun t _ => ?_
    simp [encode]
  rw [returnData, Entry.returnData, blank_append, blank_num, blank_map_num, codes, blank_zeros,
    Entry.padTo]
  simp [Nat.add_comm]

theorem blank_registers {depths : List Nat} (h : depths.length ≤ 8) :
    blank (registers depths) = Entry.padTo 16 (depths.flatMap (encode 2)) := by
  have padded : (List.range 8).map (fun r => depths[r]?.getD 0) =
      depths ++ List.replicate (8 - depths.length) 0 := by
    apply List.ext_getElem?
    intro r
    by_cases hr : r < depths.length
    · simp [List.getElem?_append_left hr, List.getElem?_range (Nat.lt_of_lt_of_le hr h), hr]
    · rw [List.getElem?_append_right (by omega), List.getElem?_replicate, List.getElem?_map]
      by_cases h8 : r < 8
      · simp [List.getElem?_range h8, hr, show r - depths.length < 8 - depths.length by omega]
      · simp [h8]
        omega
  have zero : (List.replicate (8 - depths.length) 0).flatMap (encode 2) =
      List.replicate (16 - 2 * depths.length) 0 := by
    rw [List.flatMap_replicate, LittleEndian.encode_zero, List.flatten_replicate_replicate]
    congr 1
    omega
  rw [registers, blank_map_num, ← List.flatMap_map, padded, List.flatMap_append, zero, Entry.padTo]
  congr 2
  have := length_flatMap_encode 2 id depths
  simp only [id_eq] at this
  rw [this]

end Cell

namespace Entry.Marshal

open Arguments

theorem addAll_append (r : Registers) (m : Marshal) (depth : UInt16) (params : List ValType)
    (t : ValType) :
    addAll r m depth (params ++ [t]) =
      (addAll r m depth params).add r t (depth - UInt16.ofNat params.length) := by
  induction params generalizing m depth with
  | nil => simp [addAll]
  | cons u rest ih =>
    have next : depth - 1 - UInt16.ofNat rest.length = depth - UInt16.ofNat (rest.length + 1) := by
      rw [UInt16.ofNat_add]
      grind
    rw [List.cons_append, addAll, addAll, ih, List.length_cons, next]

/-- Arguments sorted by class, each class in order; the argument with number `i` is `i` steps up
from `depth`. -/
theorem addAll_eq (r : Registers) (depth : UInt16) (params : List ValType) :
    addAll r {} depth params =
      { gprs := ((List.range params.length).filter (inGpr r params)).map (depth - UInt16.ofNat ·)
        fprs := ((List.range params.length).filter (inFpr r params)).map (depth - UInt16.ofNat ·)
        stack := ((List.range params.length).filter (onStack r params)).map (depth - UInt16.ofNat ·)
        } := by
  induction params using List.reverseRecOn with
  | nil => rfl
  | append_singleton params t ih =>
    have gprs : ∀ i < params.length, inGpr r (params ++ [t]) i = inGpr r params i :=
      fun i hi => placed_append hi
    have fprs : ∀ i < params.length, inFpr r (params ++ [t]) i = inFpr r params i :=
      fun i hi => placed_append hi
    have stack : ∀ i < params.length, onStack r (params ++ [t]) i = onStack r params i :=
      fun i hi => onStack_append hi
    rw [addAll_append, ih, List.length_append, List.length_singleton, filter_range_succ gprs,
      filter_range_succ fprs, filter_range_succ stack]
    have freeGpr : min (params.countP ValType.isInteger) r.gprs < r.gprs ↔
        params.countP ValType.isInteger < r.gprs := by omega
    have freeFpr : min (params.countP ValType.isFloat) r.fprs < r.fprs ↔
        params.countP ValType.isFloat < r.fprs := by omega
    simp only [add, List.length_map, onStack, inGpr, inFpr, length_placed, placed_last, freeGpr,
      freeFpr]
    by_cases hi : t.isInteger
    · have hf := ValType.not_float_of_integer hi
      by_cases hc : params.countP ValType.isInteger < r.gprs <;> simp [hi, hf, hc]
    · by_cases hf : t.isFloat <;> by_cases hc : params.countP ValType.isFloat < r.fprs <;>
        simp [hi, hf, hc]

/-- The depths that a call writes are those of the format, in 16 bits. -/
theorem words_depths (params : List ValType) (which : Nat → Bool) :
    words (((List.range params.length).filter which).map
        (UInt16.ofInt (params.length - 1) - UInt16.ofNat ·)) =
      (depths params which).flatMap (encode 2) := by
  rw [words, depths, List.flatMap_map, List.flatMap_map]
  refine List.flatMap_congr fun i hi => ?_
  have inside : i < params.length := List.mem_range.mp (List.mem_filter.mp hi).1
  have start : UInt16.ofInt (params.length - 1) = UInt16.ofNat (params.length - 1) := by
    have low : ((params.length : Int) - 1) % 2 ^ 16 = ((params.length - 1) % 2 ^ 16 : Nat) := by
      omega
    apply UInt16.toNat_inj.mp
    rw [UInt16.ofInt, low, Int.toNat_natCast, UInt16.toNat_ofNat', UInt16.toNat_ofNat', Nat.mod_mod]
  rw [start, ← UInt16.ofNat_sub (by omega), UInt16.toNat_ofNat']
  exact LittleEndian.encode_mod 2 _

end Entry.Marshal

theorem Arguments.length_depths_le (p : ValType → Bool) {free : Nat} (h : free ≤ 8)
    (params : List ValType) : (depths params (placed p free params)).length ≤ 8 := by
  rw [depths, List.length_map, length_placed]
  omega

theorem Cell.blank_stackArguments {m : Entry.Marshal} {depths : List Nat} (argc : Nat)
    (length : m.stack.length = depths.length)
    (words : Entry.Marshal.words m.stack = depths.flatMap (encode 2)) :
    Cell.blank (Cell.stackArguments argc depths) = m.tail argc := by
  have nums := Cell.blank_map_num 2 id depths
  have size := Cell.length_flatMap_encode 2 id depths
  simp only [id_eq] at nums size
  have total : ∀ v, (encode 2 v ++ encode 2 argc ++ encode 2 depths.length ++
      depths.flatMap (encode 2)).length = 2 * depths.length + 6 := by
    intro v
    simp only [List.length_append, LittleEndian.length_encode, size]
    omega
  rw [Entry.Marshal.tail, Entry.Marshal.tailSize, length, words, Entry.padTo, total,
    Cell.stackArguments, Cell.blank_append, Cell.blank_append, nums, Cell.blank_zeros]
  simp

theorem Cell.blank_region (r : Registers) (params : List ValType) :
    Cell.blank (Cell.registers (Arguments.depths params (Arguments.inGpr r params)) ++
      Cell.registers (Arguments.depths params (Arguments.inFpr r params))) =
      (Entry.Marshal.ofParams params r).region := by
  have gprs := Cell.blank_registers (Arguments.length_depths_le ValType.isInteger r.gprs_le params)
  have fprs := Cell.blank_registers (Arguments.length_depths_le ValType.isFloat r.fprs_le params)
  rw [Cell.blank_append, Arguments.inGpr, Arguments.inFpr, gprs, fprs, ← Entry.Marshal.words_depths,
    ← Entry.Marshal.words_depths, Entry.Marshal.region, Entry.Marshal.ofParams,
    Entry.Marshal.addAll_eq]
  rfl

theorem Cell.blank_tail (r : Registers) (params : List ValType) :
    Cell.blank
      (Cell.stackArguments params.length (Arguments.depths params (Arguments.onStack r params))) =
      (Entry.Marshal.ofParams params r).tail params.length := by
  have sorted := Entry.Marshal.addAll_eq r (UInt16.ofInt (params.length - 1)) params
  apply Cell.blank_stackArguments
  · rw [Entry.Marshal.ofParams, sorted, Arguments.depths, List.length_map, List.length_map]
  · rw [Entry.Marshal.ofParams, sorted]
    exact Entry.Marshal.words_depths _ _

theorem Cell.blank_callData (r : Registers) (callee : FuncType) :
    Cell.blank (Cell.callData r callee) =
      (Entry.Marshal.ofParams callee.params r).region ++
        (Entry.Marshal.ofParams callee.params r).tail callee.params.length ++
        Entry.returnData callee.results := by
  rw [Cell.callData, Cell.blank_append, Cell.blank_append, Cell.blank_region, Cell.blank_tail,
    Cell.blank_returnData]

end Sidetable
