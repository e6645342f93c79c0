import Sidetable.Proofs.Groups

/-!
# What the decoders accept

A number is the value of the closed group at the front of the bytes. A decoder is `Exact` on bytes
if it accepts them exactly when they start with a group of its length whose value lies in its range.
The 32-bit decoders are exact. The 64-bit decoders and the 33-bit one bound the length of a group
and not its value: `Wraps` says what they make of a value outside the range, and they are exact on
the bytes that start with no such group.
-/
namespace Sidetable.Leb128

open Fault (Cause)

section

variable {α : Type} (decode : List UInt8 → Except Cause (α × Nat)) (limit : Nat)
    (value : List UInt8 → Int)
  (toInt : α → Int)

/-- A number is found exactly at the closed groups of at most `limit` bytes with a value in the
range. -/
def Exact (low high : Int) (bytes : List UInt8) : Prop :=
  ∀ v n, decode bytes = .ok (v, n) ↔
    ∃ g, Closed g ∧ g.length ≤ limit ∧ g <+: bytes ∧ low ≤ value g ∧ value g < high ∧
      toInt v = value g ∧ n = g.length

/-- A number is found at every closed group of at most `limit` bytes, and it is a residue of the
value. -/
def Wraps (residue : Int → Int) (bytes : List UInt8) : Prop :=
  ∀ v n, decode bytes = .ok (v, n) ↔
    ∃ g, Closed g ∧ g.length ≤ limit ∧ g <+: bytes ∧ toInt v = residue (value g) ∧ n = g.length

/-- The closed group of at most `limit` bytes in front, if there is one, has a value in the
range. -/
def InRange (low high : Int) (bytes : List UInt8) : Prop :=
  ∀ g, Closed g → g.length ≤ limit → g <+: bytes → low ≤ value g ∧ value g < high

end

variable {limit : Nat} {g bytes : List UInt8}

/-- A decoder that keeps residues is exact where the value is its own residue, and only there. -/
theorem Wraps.exact_iff {α : Type} {decode : List UInt8 → Except Cause (α × Nat)}
    {value : List UInt8 → Int} {toInt : α → Int} {residue : Int → Int} {low high : Int}
    (wraps : Wraps decode limit value toInt residue bytes)
    (keeps : ∀ g, low ≤ value g → value g < high → residue (value g) = value g)
    (onto : ∀ g, Closed g → g.length ≤ limit → ∃ v, toInt v = residue (value g)) :
    Exact decode limit value toInt low high bytes ↔ InRange limit value low high bytes := by
  constructor
  · intro exact g closed length front
    obtain ⟨v, number⟩ := onto g closed length
    obtain ⟨g', -, -, front', low, high, -, same⟩ :=
      (exact v g.length).mp ((wraps v g.length).mpr ⟨g, closed, length, front, number, rfl⟩)
    -- the group that is exact has the length of the one that was read, and both are in front
    rw [(List.prefix_of_prefix_length_le front front' (Nat.le_of_eq same)).eq_of_length same]
    exact ⟨low, high⟩
  · intro inside v n
    rw [wraps v n]
    constructor
    · rintro ⟨g, closed, length, front, number, rfl⟩
      obtain ⟨low, high⟩ := inside g closed length front
      exact ⟨g, closed, length, front, low, high, number.trans (keeps g low high), rfl⟩
    · rintro ⟨g, closed, length, front, low, high, number, rfl⟩
      exact ⟨g, closed, length, front, number.trans (keeps g low high).symm, rfl⟩

theorem bind_group_ok {α : Type} {value : List UInt8 → α} {v : α} {n : Nat} :
    (do let g ← group limit bytes; return (value g, g.length)) = .ok (v, n) ↔
      ∃ g, Closed g ∧ g.length ≤ limit ∧ g <+: bytes ∧ value g = v ∧ n = g.length := by
  constructor
  · intro done
    cases found : group limit bytes with
    | error cause => simp [found, bind, Except.bind] at done
    | ok g =>
      obtain ⟨closed, length, front⟩ := group_eq_ok.mp found
      simp only [found, bind, Except.bind] at done
      obtain ⟨rfl, rfl⟩ := Prod.mk.inj (Except.ok.inj done)
      exact ⟨g, closed, length, front, rfl, rfl⟩
  · rintro ⟨g, closed, length, front, rfl, rfl⟩
    simp only [group_eq_ok.mpr ⟨closed, length, front⟩, bind, Except.bind]
    rfl

theorem decodeU64_wraps (bytes : List UInt8) :
    Wraps decodeU64 10 (fun g => unsigned g) (fun v => v.toNat) (· % 2 ^ 64) bytes := by
  intro v n
  have same (g : List UInt8) :
      UInt64.ofNat (unsigned g) = v ↔ (v.toNat : Int) = (unsigned g : Int) % 2 ^ 64 := by
    rw [← UInt64.toNat_inj, UInt64.toNat_ofNat']
    omega
  rw [decodeU64_eq, bind_group_ok]
  simp only [same]

theorem decodeS64_wraps (bytes : List UInt8) :
    Wraps decodeS64 10 signed Int64.toInt (Int.bmod · (2 ^ 64)) bytes := by
  intro v n
  have same (g : List UInt8) : Int64.ofInt (signed g) = v ↔ v.toInt = (signed g).bmod (2 ^ 64) := by
    rw [← Int64.toInt_inj, Int64.toInt_ofInt]
    exact eq_comm
  rw [decodeS64_eq, bind_group_ok]
  simp only [same]

theorem decodeU32_exact (bytes : List UInt8) :
    Exact decodeU32 5 (fun g => unsigned g) (fun v => v.toNat) 0 (2 ^ 32) bytes := by
  intro v n
  constructor
  · intro done
    rw [decodeU32_eq] at done
    split at done
    · cases done
    · rename_i inside
      obtain ⟨g, closed, length, ⟨rest, rfl⟩, rfl, rfl⟩ := bind_group_ok.mp done
      rw [exceeds32_iff closed length] at inside
      have value : (UInt32.ofNat (unsigned g)).toNat = unsigned g := by
        rw [UInt32.toNat_ofNat', Nat.mod_eq_of_lt (by omega)]
      exact ⟨g, closed, length, List.prefix_append g rest,
        Int.natCast_nonneg _, by dsimp only; omega, congrArg Nat.cast value, rfl⟩
  · rintro ⟨g, closed, length, ⟨rest, rfl⟩, -, -, value, rfl⟩
    have number : unsigned g = v.toNat := (Int.ofNat.inj value).symm
    rw [decodeU32_append closed length (number ▸ v.toNat_lt), number, UInt32.ofNat_toNat]

theorem signed_bounds (closed : Closed g) :
    -(64 * 128 ^ (g.length - 1)) ≤ signed g ∧ signed g < 64 * 128 ^ (g.length - 1) := by
  induction g with
  | nil => exact absurd closed id
  | cons c g ih =>
    have digit := payload_lt c
    cases g with
    | nil =>
      simp only [signed, List.length_singleton, Nat.sub_self, pow_zero]
      split <;> omega
    | cons d rest =>
      obtain ⟨low, high⟩ := ih closed.2
      simp only [List.length_cons, Nat.add_sub_cancel] at low high ⊢
      rw [signed_cons (List.cons_ne_nil d rest), pow_succ]
      omega

theorem bmod_signed (closed : Closed g) (length : g.length ≤ 9) :
    (signed g).bmod (2 ^ 64) = signed g := by
  obtain ⟨low, high⟩ := signed_bounds closed
  have power : (128 : Int) ^ (g.length - 1) ≤ 128 ^ 8 := by
    exact_mod_cast Nat.pow_le_pow_right (by decide) (by omega)
  exact Int.bmod_eq_of_le (by omega) (by omega)

theorem decodeS33_ok_iff {v : Int64} {n : Nat} :
    decodeS33 bytes = .ok (v, n) ↔ decodeS64 bytes = .ok (v, n) ∧ n ≤ 5 := by
  cases found : decodeS64 bytes with
  | error cause => simp [decodeS33, found, bind, Except.bind]
  | ok pair =>
    by_cases long : 5 < pair.2
    · have refused : decodeS33 bytes = .error .overflow := by
        simp [decodeS33, found, bind, Except.bind, long]
      simp only [refused, reduceCtorEq, Except.ok.injEq, false_iff, not_and]
      rintro rfl
      exact Nat.not_le.mpr long
    · have kept : decodeS33 bytes = .ok pair := by
        simp [decodeS33, found, bind, Except.bind, long, pure, Except.pure]
      simp only [kept, Except.ok.injEq, iff_self_and]
      rintro rfl
      exact Nat.not_lt.mp long

theorem decodeS32_ok_iff {v : Int32} {n : Nat} :
    decodeS32 bytes = .ok (v, n) ↔ ∃ w, decodeS33 bytes = .ok (w, n) ∧ v.toInt = w.toInt := by
  have low := v.le_toInt
  have high := v.toInt_lt
  simp only [decodeS33_ok_iff]
  cases found : decodeS64 bytes with
  | error cause => simp [decodeS32, found, bind, Except.bind]
  | ok pair =>
    obtain ⟨w, m⟩ := pair
    by_cases outside : 5 < m ∨ w.toInt < -0x80000000 ∨ 0x80000000 ≤ w.toInt
    · have refused : decodeS32 bytes = .error .overflow := by
        simp [decodeS32, found, bind, Except.bind, or_assoc, outside]
      rw [refused]
      simp only [reduceCtorEq, Except.ok.injEq, Prod.mk.injEq, false_iff, not_exists]
      rintro w' ⟨⟨⟨rfl, rfl⟩, short⟩, value⟩
      omega
    · have kept : decodeS32 bytes = .ok (Int32.ofInt w.toInt, m) := by
        simp [decodeS32, found, bind, Except.bind, or_assoc, outside, pure, Except.pure]
      have value : (Int32.ofInt w.toInt).toInt = w.toInt := by
        rw [Int32.toInt_ofInt, Int32.size]
        exact Int.bmod_eq_of_le (by omega) (by omega)
      rw [kept, Except.ok.injEq, Prod.mk.injEq, ← Int32.toInt_inj, value]
      constructor
      · rintro ⟨same, rfl⟩
        exact ⟨w, ⟨rfl, by omega⟩, same.symm⟩
      · rintro ⟨w', ⟨same, -⟩, number⟩
        obtain ⟨rfl, rfl⟩ := Prod.mk.inj (Except.ok.inj same)
        exact ⟨number.symm, rfl⟩

theorem decodeS33_wraps (bytes : List UInt8) : Wraps decodeS33 5 signed Int64.toInt id bytes := by
  intro v n
  rw [decodeS33_ok_iff, decodeS64_wraps bytes v n]
  constructor
  · rintro ⟨⟨g, closed, -, front, value, rfl⟩, short⟩
    exact ⟨g, closed, short, front, value.trans (bmod_signed closed (by omega)), rfl⟩
  · rintro ⟨g, closed, short, front, value, rfl⟩
    exact ⟨⟨g, closed, by omega, front, value.trans (bmod_signed closed (by omega)).symm, rfl⟩,
      short⟩

theorem decodeS32_exact (bytes : List UInt8) :
    Exact decodeS32 5 signed Int32.toInt (-2 ^ 31) (2 ^ 31) bytes := by
  intro v n
  rw [decodeS32_ok_iff]
  constructor
  · rintro ⟨w, found, same⟩
    obtain ⟨g, closed, short, front, value, rfl⟩ := (decodeS33_wraps bytes w n).mp found
    have number : v.toInt = signed g := same.trans value
    exact ⟨g, closed, short, front, number ▸ v.le_toInt, number ▸ v.toInt_lt, number, rfl⟩
  · rintro ⟨g, closed, short, front, low, high, number, rfl⟩
    have wide : (Int64.ofInt (signed g)).toInt = signed g := by
      rw [Int64.toInt_ofInt]
      exact bmod_signed closed (by omega)
    exact ⟨Int64.ofInt (signed g), (decodeS33_wraps _ _ _).mpr ⟨g, closed, short, front, wide, rfl⟩,
      number.trans wide.symm⟩

theorem decodeU64_exact_iff (bytes : List UInt8) :
    Exact decodeU64 10 (fun g => unsigned g) (fun v => v.toNat) 0 (2 ^ 64) bytes ↔
      InRange 10 (fun g => unsigned g) 0 (2 ^ 64) bytes := by
  refine (decodeU64_wraps bytes).exact_iff (fun g low high => Int.emod_eq_of_lt low high)
    fun g _ _ => ?_
  exact ⟨UInt64.ofNat (unsigned g), by simp⟩

theorem decodeS64_exact_iff (bytes : List UInt8) :
    Exact decodeS64 10 signed Int64.toInt (-2 ^ 63) (2 ^ 63) bytes ↔
      InRange 10 signed (-2 ^ 63) (2 ^ 63) bytes := by
  refine (decodeS64_wraps bytes).exact_iff (fun g low high => ?_) fun g _ _ => ?_
  · exact Int.bmod_eq_of_le (by omega) (by omega)
  · exact ⟨Int64.ofInt (signed g), Int64.toInt_ofInt⟩

theorem decodeS33_exact_iff (bytes : List UInt8) :
    Exact decodeS33 5 signed Int64.toInt (-2 ^ 32) (2 ^ 32) bytes ↔
      InRange 5 signed (-2 ^ 32) (2 ^ 32) bytes := by
  refine (decodeS33_wraps bytes).exact_iff (fun g _ _ => rfl) fun g closed short => ?_
  exact ⟨Int64.ofInt (signed g), by rw [Int64.toInt_ofInt]; exact bmod_signed closed (by omega)⟩

/-- The 32-bit decoders are exact. A 64-bit decoder keeps the value of ten bytes modulo `2 ^ 64`,
and the 33-bit one keeps all of the 35 bits of five bytes: they are exact on the bytes whose group
has a value in the range, and on no others. -/
theorem decoders_exact_or_wrap (bytes : List UInt8) :
    Exact decodeU32 5 (fun g => unsigned g) (fun v => v.toNat) 0 (2 ^ 32) bytes ∧
    Exact decodeS32 5 signed Int32.toInt (-2 ^ 31) (2 ^ 31) bytes ∧
    (Wraps decodeU64 10 (fun g => unsigned g) (fun v => v.toNat) (· % 2 ^ 64) bytes ∧
      (Exact decodeU64 10 (fun g => unsigned g) (fun v => v.toNat) 0 (2 ^ 64) bytes ↔
        InRange 10 (fun g => unsigned g) 0 (2 ^ 64) bytes)) ∧
    (Wraps decodeS64 10 signed Int64.toInt (Int.bmod · (2 ^ 64)) bytes ∧
      (Exact decodeS64 10 signed Int64.toInt (-2 ^ 63) (2 ^ 63) bytes ↔
        InRange 10 signed (-2 ^ 63) (2 ^ 63) bytes)) ∧
    (Wraps decodeS33 5 signed Int64.toInt id bytes ∧
      (Exact decodeS33 5 signed Int64.toInt (-2 ^ 32) (2 ^ 32) bytes ↔
        InRange 5 signed (-2 ^ 32) (2 ^ 32) bytes)) :=
  ⟨decodeU32_exact bytes, decodeS32_exact bytes, ⟨decodeU64_wraps bytes, decodeU64_exact_iff bytes⟩,
    ⟨decodeS64_wraps bytes, decodeS64_exact_iff bytes⟩,
      ⟨decodeS33_wraps bytes, decodeS33_exact_iff bytes⟩⟩

/-- Groups of a value outside the range that are accepted: ten bytes with more than 64 bits, read as
another number, and five bytes with more than 33. -/
theorem wide_groups_accepted :
    let ones := List.replicate 9 0xff ++ [0x7f]
    let half := List.replicate 9 0x80 ++ [0x01]
    let type := [0x80, 0x80, 0x80, 0x80, 0x10]
    (Closed ones ∧ unsigned ones = 2 ^ 70 - 1 ∧ decodeU64 ones = .ok (0xffffffffffffffff, 10)) ∧
    (Closed half ∧ signed half = 2 ^ 63 ∧ decodeS64 half = .ok (-0x8000000000000000, 10)) ∧
    (Closed type ∧ signed type = 2 ^ 32 ∧ decodeS33 type = .ok (0x100000000, 5)) := by
  refine ⟨⟨?_, by decide, by decide +kernel⟩, ⟨?_, by decide, by decide +kernel⟩,
    ⟨?_, by decide, by decide +kernel⟩⟩ <;> simp [List.replicate, Closed, continues]

end Sidetable.Leb128
