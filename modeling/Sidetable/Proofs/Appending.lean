import Sidetable.Proofs.Exactness

/-!
# Appending numbers

Appending shifts seven bits at a time off a number. What it puts behind the bytes is the shortest
group of the number: the decoders read it back in front of any other bytes, and nothing shorter is
read as that number.
-/
namespace Sidetable.Leb128

open Fault (Cause)

variable {bytes dst g : List UInt8}

/-! ## Groups of bits -/

theorem toNat_low64 (v : UInt64) : (v &&& 0x7f).toUInt8 = UInt8.ofNat (v.toNat % 128) := by
  have mask : (v &&& 0x7f).toNat = v.toNat % 128 := by
    rw [UInt64.toNat_and]
    exact Nat.and_two_pow_sub_one_eq_mod v.toNat 7
  apply UInt8.toNat_inj.mp
  rw [UInt64.toNat_toUInt8, mask, UInt8.toNat_ofNat']

theorem toUInt64_mod (v : Int64) : v.toUInt64.toNat % 128 = (v.toInt % 128).toNat := by
  have value : v.toInt = (v.toUInt64.toNat : Int).bmod (2 ^ 64) :=
    BitVec.toInt_eq_toNat_bmod v.toBitVec
  rw [value]
  have := Int.bmod_def v.toUInt64.toNat (2 ^ 64)
  split at this <;> omega

theorem or_continue {n : Nat} (small : n < 128) :
    UInt8.ofNat n ||| 0x80 = UInt8.ofNat (n + 128) := by
  have each : ∀ n < 128, UInt8.ofNat n ||| 0x80 = UInt8.ofNat (n + 128) := by decide +kernel
  exact each n small

theorem appendU64_eq {more : Nat} {v : UInt64} (small : v.toNat < 128 ^ (more + 1)) :
    appendU64 dst v = dst ++ unsignedGroup more v.toNat := by
  induction more generalizing dst v with
  | zero =>
    have done : v >>> 7 = 0 := by
      apply UInt64.toNat_inj.mp
      rw [toNat_shiftRight_seven]
      exact Nat.div_eq_of_lt small
    rw [appendU64, if_pos done, toNat_low64, unsignedGroup]
  | succ more ih =>
    have zero : v >>> 7 = 0 ↔ v.toNat / 128 = 0 := by
      rw [← UInt64.toNat_inj, toNat_shiftRight_seven]
      rfl
    rw [appendU64, unsignedGroup]
    by_cases last : v.toNat / 128 = 0
    · rw [if_pos (zero.mpr last), if_pos last, toNat_low64]
    · have shifted : (v >>> 7).toNat < 128 ^ (more + 1) := by
        rw [toNat_shiftRight_seven]
        exact Nat.div_lt_of_lt_mul (by rwa [Nat.mul_comm, ← Nat.pow_succ])
      rw [if_neg (zero.not.mpr last), if_neg last, ih shifted, toNat_low64, toNat_shiftRight_seven,
        or_continue (Nat.mod_lt _ (by decide)), List.append_assoc, List.singleton_append]

theorem low_signed (v : Int64) :
    (v &&& 0x7f).toUInt64.toUInt8 = UInt8.ofNat (v.toInt % 128).toNat := by
  rw [Int64.toUInt64_and, ← toUInt64_mod]
  exact toNat_low64 v.toUInt64

theorem stops_iff (v : Int64) :
    ((v >>> 7 = 0 ∧ (v &&& 0x7f).toUInt64.toUInt8 &&& 0x40 = 0) ∨
      (v >>> 7 = -1 ∧ (v &&& 0x7f).toUInt64.toUInt8 &&& 0x40 ≠ 0)) ↔
    (v.toInt / 128 = 0 ∧ (v.toInt % 128).toNat < 64) ∨
    (v.toInt / 128 = -1 ∧ 64 ≤ (v.toInt % 128).toNat) := by
  have zero : v >>> 7 = 0 ↔ v.toInt / 128 = 0 := by
    rw [← Int64.toInt_inj, toInt_shiftRight_seven]
    rfl
  have ones : v >>> 7 = -1 ↔ v.toInt / 128 = -1 := by
    rw [← Int64.toInt_inj, toInt_shiftRight_seven]
    rfl
  have digit : payload (UInt8.ofNat (v.toInt % 128).toNat) = (v.toInt % 128).toNat := by
    have := (payload_ofNat (v.toInt % 128).toNat).1
    rwa [Nat.mod_eq_of_lt (by omega)] at this
  rw [low_signed, ne_eq, sign_eq_zero, digit, zero, ones, Nat.not_lt]

theorem appendS64_eq {more : Nat} {v : Int64} (low : -(64 * 128 ^ more) ≤ v.toInt)
    (high : v.toInt < 64 * 128 ^ more) : appendS64 dst v = dst ++ signedGroup more v.toInt := by
  induction more generalizing dst v with
  | zero =>
    rw [appendS64, if_pos ((stops_iff v).mpr (by omega)), low_signed, signedGroup]
  | succ more ih =>
    rw [appendS64, signedGroup]
    simp only [stops_iff]
    split
    · rw [low_signed]
    · rw [pow_succ] at low high
      rw [ih (by rw [toInt_shiftRight_seven]; omega) (by rw [toInt_shiftRight_seven]; omega),
        low_signed, toInt_shiftRight_seven, or_continue (by omega), List.append_assoc,
        List.singleton_append]

/-! ## The fewest bytes -/

theorem shortest_u64 {v : UInt64} {n : Nat} (found : decodeU64 bytes = .ok (v, n)) :
    (encodeU64 v).length ≤ n := by
  obtain ⟨g, closed, -, -, value, rfl⟩ := (decodeU64_wraps bytes v n).mp found
  exact unsignedGroup_minimal 9 closed.ne_nil (by dsimp only at value; omega)

theorem shortest_u32 {v : UInt32} {n : Nat} (found : decodeU32 bytes = .ok (v, n)) :
    (encodeU32 v).length ≤ n := by
  obtain ⟨g, closed, -, -, -, -, value, rfl⟩ := (decodeU32_exact bytes v n).mp found
  exact unsignedGroup_minimal 9 closed.ne_nil
    (by rw [UInt32.toNat_toUInt64]; dsimp only at value; omega)

theorem length_encodeU32_mono {v w : UInt32} (below : w.toNat ≤ v.toNat) :
    (encodeU32 w).length ≤ (encodeU32 v).length := by
  obtain ⟨closed, value⟩ := encodeU32_spec v
  refine unsignedGroup_minimal 9 closed.ne_nil ?_
  rw [value, UInt32.toNat_toUInt64]
  exact below

/-- A group of ten bytes is never too short; a shorter one holds the number itself. -/
theorem length_encodeS64_le {v : Int64} (closed : Closed g)
    (value : v.toInt = (signed g).bmod (2 ^ 64)) : (encodeS64 v).length ≤ g.length := by
  have low := v.le_toInt
  have high := v.toInt_lt
  have pos := closed.length_pos
  by_cases short : g.length ≤ 9
  · rw [bmod_signed closed short] at value
    obtain ⟨least, most⟩ := signed_bounds closed
    have := length_signedGroup_le 9 (k := g.length - 1) (value ▸ least) (value ▸ most)
    exact Nat.le_trans this (by omega)
  · exact Nat.le_trans (length_signedGroup_le 9 (k := 9) (by omega) (by omega)) (by omega)

theorem shortest_s64 {v : Int64} {n : Nat} (found : decodeS64 bytes = .ok (v, n)) :
    (encodeS64 v).length ≤ n := by
  obtain ⟨g, closed, -, -, value, rfl⟩ := (decodeS64_wraps bytes v n).mp found
  exact length_encodeS64_le closed value

theorem shortest_s33 {v : Int64} {n : Nat} (found : decodeS33 bytes = .ok (v, n)) :
    (encodeS64 v).length ≤ n :=
  shortest_s64 (decodeS33_ok_iff.mp found).1

theorem shortest_s32 {v : Int32} {n : Nat} (found : decodeS32 bytes = .ok (v, n)) :
    (encodeS32 v).length ≤ n := by
  obtain ⟨w, wide, same⟩ := decodeS32_ok_iff.mp found
  have equal : v.toInt64 = w := Int64.toInt_inj.mp (v.toInt_toInt64.trans same)
  rw [encodeS32, equal]
  exact shortest_s33 wide

/-! ## Round trips -/

section

variable {α : Type} (append : List UInt8 → α → List UInt8)
    (decode : List UInt8 → Except Cause (α × Nat))

/-- What is appended for `v` does not depend on the bytes before it, is read as `v` in front of any
other bytes, and is the shortest that is. -/
def Inverts (v : α) : Prop :=
  ∃ e, (∀ dst, append dst v = dst ++ e) ∧ (∀ rest, decode (e ++ rest) = .ok (v, e.length)) ∧
    ∀ bytes n, decode bytes = .ok (v, n) → e.length ≤ n

end

theorem appendU64_encodeU64 (dst : List UInt8) (v : UInt64) :
    appendU64 dst v = dst ++ encodeU64 v := by
  have small : v.toNat < 128 ^ 10 := by
    have := v.toNat_lt
    omega
  exact appendU64_eq small

theorem inverts_u64 (v : UInt64) : Inverts appendU64 decodeU64 v :=
  ⟨encodeU64 v, fun dst => appendU64_encodeU64 dst v, fun _ => decodeU64_encodeU64 v,
    fun _ _ => shortest_u64⟩

theorem inverts_u32 (v : UInt32) : Inverts appendU32 decodeU32 v :=
  ⟨encodeU32 v, fun dst => appendU64_encodeU64 dst v.toUInt64, fun _ => decodeU32_encodeU32 v,
    fun _ _ => shortest_u32⟩

theorem appendS64_encodeS64 (dst : List UInt8) (v : Int64) :
    appendS64 dst v = dst ++ encodeS64 v := by
  have low := v.le_toInt
  have high := v.toInt_lt
  exact appendS64_eq (by omega) (by omega)

theorem inverts_s64 (v : Int64) : Inverts appendS64 decodeS64 v :=
  ⟨encodeS64 v, fun dst => appendS64_encodeS64 dst v, fun _ => decodeS64_encodeS64 v,
    fun _ _ => shortest_s64⟩

theorem inverts_s33 {v : Int64} (low : -2 ^ 32 ≤ v.toInt) (high : v.toInt < 2 ^ 32) :
    Inverts appendS64 decodeS33 v :=
  ⟨encodeS64 v, fun dst => appendS64_encodeS64 dst v,
    fun _ => decodeS33_encodeS64 (by omega) (by omega), fun _ _ => shortest_s33⟩

theorem inverts_s32 (v : Int32) : Inverts appendS32 decodeS32 v :=
  ⟨encodeS32 v, fun dst => appendS64_encodeS64 dst v.toInt64, fun _ => decodeS32_encodeS32 v,
    fun _ _ => shortest_s32⟩

/-- Numbers that are appended are read back, and in the fewest bytes. -/
theorem appended_numbers_read_back :
    (∀ v, Inverts appendU32 decodeU32 v) ∧ (∀ v, Inverts appendU64 decodeU64 v) ∧
    (∀ v, Inverts appendS32 decodeS32 v) ∧ (∀ v, Inverts appendS64 decodeS64 v) ∧
    ∀ v : Int64, -2 ^ 32 ≤ v.toInt → v.toInt < 2 ^ 32 → Inverts appendS64 decodeS33 v :=
  ⟨inverts_u32, inverts_u64, inverts_s32, inverts_s64, fun _ => inverts_s33⟩

theorem appended_numbers_read_back_least :
    (-2 ^ 32 ≤ (-0x100000000 : Int64).toInt ∧ (-0x100000000 : Int64).toInt < 2 ^ 32) ∧
      Inverts appendS64 decodeS33 (-0x100000000) := by
  have low : -2 ^ 32 ≤ (-0x100000000 : Int64).toInt := by decide
  have high : (-0x100000000 : Int64).toInt < 2 ^ 32 := by decide
  exact ⟨⟨low, high⟩, appended_numbers_read_back.2.2.2.2 _ low high⟩

end Sidetable.Leb128
