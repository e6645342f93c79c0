import Sidetable.Leb128
import Mathlib.Algebra.Order.Group.Nat
import Mathlib.Tactic.Ring

/-!
# Groups of seven bits

A decoder finds the closed group at the front of the bytes, and what follows the group does not
matter. The bits that it shifts together are the value of the group in a fixed width. The encoders
write the shortest closed group of a number.
-/
namespace Sidetable.Leb128

open Fault (Cause)

def Closed : List UInt8 → Prop
  | [] => False
  | [c] => continues c = false
  | c :: d :: rest => continues c = true ∧ Closed (d :: rest)

variable {limit : Nat} {bytes g rest : List UInt8} {c : UInt8}

theorem Closed.ne_nil (h : Closed g) : g ≠ [] := by
  rintro rfl
  exact h

theorem Closed.length_pos (h : Closed g) : 0 < g.length :=
  List.length_pos_iff.mpr h.ne_nil

theorem closed_cons (more : continues c = true) : Closed (c :: g) ↔ Closed g := by
  cases g with
  | nil => simp [Closed, more]
  | cons d rest => simp [Closed, more]

theorem closed_last (last : continues c = false) : Closed (c :: g) ↔ g = [] := by
  cases g with
  | nil => simp [Closed, last]
  | cons d rest => simp [Closed, last]

theorem group_eq_ok : group limit bytes = .ok g ↔ Closed g ∧ g.length ≤ limit ∧ g <+: bytes := by
  induction limit generalizing bytes g with
  | zero =>
    have empty : ¬ (Closed g ∧ g.length ≤ 0 ∧ g <+: bytes) := by
      rintro ⟨closed, length, -⟩
      have := closed.length_pos
      omega
    cases bytes <;> simpa [group] using empty
  | succ limit ih =>
    cases bytes with
    | nil =>
      simp only [group, reduceCtorEq, List.prefix_nil, false_iff]
      rintro ⟨closed, -, rfl⟩
      exact closed
    | cons c rest =>
      by_cases more : continues c = true
      · have step : group (limit + 1) (c :: rest) = (group limit rest).map (c :: ·) := by
          simp [group, more]
        rw [step]
        constructor
        · intro h
          cases found : group limit rest with
          | error cause => simp [found, Except.map] at h
          | ok tail =>
            obtain rfl : c :: tail = g := by simpa [found, Except.map] using h
            obtain ⟨closed, length, front⟩ := ih.mp found
            exact ⟨(closed_cons more).mpr closed, Nat.succ_le_succ length,
              List.cons_prefix_cons.mpr ⟨rfl, front⟩⟩
        · rintro ⟨closed, length, front⟩
          cases g with
          | nil => exact absurd closed id
          | cons d tail =>
            obtain ⟨rfl, tail_front⟩ := List.cons_prefix_cons.mp front
            rw [ih.mpr ⟨(closed_cons more).mp closed, Nat.le_of_succ_le_succ length, tail_front⟩]
            rfl
      · have last : continues c = false := by simpa using more
        have step : group (limit + 1) (c :: rest) = .ok [c] := by simp [group, last]
        rw [step]
        constructor
        · intro h
          obtain rfl := Except.ok.inj h
          exact ⟨last, Nat.succ_le_succ (Nat.zero_le _),
            List.cons_prefix_cons.mpr ⟨rfl, List.nil_prefix⟩⟩
        · rintro ⟨closed, -, front⟩
          cases g with
          | nil => exact absurd closed id
          | cons d tail =>
            obtain ⟨rfl, -⟩ := List.cons_prefix_cons.mp front
            obtain rfl := (closed_last last).mp closed
            rfl

theorem group_append (closed : Closed g) (length : g.length ≤ limit) :
    group limit (g ++ rest) = .ok g :=
  group_eq_ok.mpr ⟨closed, length, List.prefix_append g rest⟩

theorem payload_lt (c : UInt8) : payload c < 128 :=
  Nat.mod_lt _ (by decide)

theorem unsigned_lt (g : List UInt8) : unsigned g < 128 ^ g.length := by
  induction g with
  | nil => simp [unsigned]
  | cons c rest ih =>
    have := payload_lt c
    rw [unsigned, List.length_cons, Nat.pow_succ]
    omega

theorem signed_cons (nonempty : g ≠ []) : signed (c :: g) = payload c + 128 * signed g := by
  cases g with
  | nil => exact absurd rfl nonempty
  | cons d rest => rfl

/-! ## Shifting bits together -/

theorem toNat_low (c : UInt8) : (c &&& 0x7f).toNat = payload c := by
  rw [UInt8.toNat_and]
  exact Nat.and_two_pow_sub_one_eq_mod c.toNat 7

theorem top_eq_zero (c : UInt8) : c &&& 0x80 = 0 ↔ continues c = false := by
  have each : ∀ n < 256, n &&& 128 = 0 ↔ ¬ 128 ≤ n := by decide +kernel
  rw [← UInt8.toNat_inj, UInt8.toNat_and, continues, decide_eq_false_iff_not]
  exact each c.toNat c.toNat_lt

theorem sign_eq_zero (c : UInt8) : c &&& 0x40 = 0 ↔ payload c < 64 := by
  have each : ∀ n < 256, n &&& 64 = 0 ↔ n % 128 < 64 := by decide +kernel
  rw [← UInt8.toNat_inj, UInt8.toNat_and, payload]
  exact each c.toNat c.toNat_lt

/-- Bits that are put above those read so far are added to them. -/
theorem or_shiftLeft {bits p : UInt64} {k : Nat} (low : bits.toNat < 2 ^ k) (inside : k < 64) :
    bits ||| p <<< UInt64.ofNat k = bits + UInt64.ofNat (2 ^ k * p.toNat) := by
  have amount : (UInt64.ofNat k).toNat % 64 = k := by
    rw [UInt64.toNat_ofNat']
    omega
  have cut : 2 ^ k * p.toNat % 2 ^ 64 = 2 ^ k * (p.toNat % 2 ^ (64 - k)) := by
    rw [← Nat.mul_mod_mul_left, ← Nat.pow_add, Nat.add_sub_cancel' (Nat.le_of_lt inside)]
  have disjoint := Nat.two_pow_add_eq_or_of_lt low (p.toNat % 2 ^ (64 - k))
  have whole : 2 ^ k * (p.toNat % 2 ^ (64 - k)) + bits.toNat < 2 ^ 64 := by
    rw [disjoint]
    exact Nat.or_lt_two_pow (cut ▸ Nat.mod_lt _ (by decide)) bits.toNat_lt
  apply UInt64.toNat_inj.mp
  rw [UInt64.toNat_or, UInt64.toNat_shiftLeft, amount, UInt64.toNat_add, UInt64.toNat_ofNat',
    Nat.shiftLeft_eq, Nat.mul_comm p.toNat, cut, Nat.or_comm, ← disjoint, Nat.add_comm bits.toNat]
  exact (Nat.mod_eq_of_lt whole).symm

theorem gather_eq {more n : Nat} {bits : UInt64} {bytes : List UInt8} (room : n + more ≤ 10)
    (low : bits.toNat < 2 ^ (7 * n)) :
    gather more n bits bytes = (group more bytes).map fun g =>
      (bits + UInt64.ofNat (2 ^ (7 * n) * unsigned g), n + g.length, g.getLastD 0) := by
  induction more generalizing n bits bytes with
  | zero => cases bytes <;> rfl
  | succ more ih =>
    cases bytes with
    | nil => rfl
    | cons c rest =>
      have value : (c &&& 0x7f).toUInt64.toNat = payload c := by
        rw [UInt8.toNat_toUInt64, toNat_low]
      have added : bits ||| (c &&& 0x7f).toUInt64 <<< UInt64.ofNat (7 * n) =
          bits + UInt64.ofNat (2 ^ (7 * n) * payload c) := by
        rw [or_shiftLeft low (by omega), value]
      rw [gather, added]
      by_cases last : continues c = false
      · rw [if_pos ((top_eq_zero c).mpr last)]
        simp [group, last, Except.map, unsigned]
      · have more_ : continues c = true := by simpa using last
        have below := payload_lt c
        have scale : 2 ^ (7 * (n + 1)) = 2 ^ (7 * n) * 128 := by rw [Nat.mul_succ, Nat.pow_add]
        have bound : (bits + UInt64.ofNat (2 ^ (7 * n) * payload c)).toNat < 2 ^ (7 * (n + 1)) := by
          rw [UInt64.toNat_add, UInt64.toNat_ofNat', Nat.add_mod_mod, scale]
          refine Nat.lt_of_le_of_lt (Nat.mod_le _ _) ?_
          calc bits.toNat + 2 ^ (7 * n) * payload c < 2 ^ (7 * n) * (payload c + 1) := by
                rw [Nat.mul_succ]
                omega
            _ ≤ 2 ^ (7 * n) * 128 := Nat.mul_le_mul_left _ below
        rw [if_neg (by rwa [top_eq_zero]), ih (by omega) bound]
        simp only [group, more_, if_true]
        cases found : group more rest with
        | error cause => rfl
        | ok g =>
          have sum : bits + UInt64.ofNat (2 ^ (7 * n) * payload c) +
              UInt64.ofNat (2 ^ (7 * (n + 1)) * unsigned g) =
              bits + UInt64.ofNat (2 ^ (7 * n) * unsigned (c :: g)) := by
            rw [UInt64.add_assoc, ← UInt64.ofNat_add, scale, Nat.mul_assoc, ← Nat.mul_add, unsigned]
          have last_ : (c :: g).getLastD 0 = g.getLastD 0 := by
            cases g with
            | nil => exact absurd (group_eq_ok.mp found).1 id
            | cons d tail => rfl
          simp only [Except.map, sum, last_, List.length_cons]
          congr 3
          omega

theorem signed_eq (closed : Closed g) :
    signed g =
      if payload (g.getLastD 0) < 64 then (unsigned g : Int) else unsigned g - 128 ^ g.length := by
  induction g with
  | nil => exact absurd closed id
  | cons c g ih =>
    cases g with
    | nil => simp [signed, unsigned]
    | cons d rest =>
      have last : (c :: d :: rest).getLastD 0 = (d :: rest).getLastD 0 := rfl
      have value : (unsigned (c :: d :: rest) : Int) = payload c + 128 * unsigned (d :: rest) := by
        simp [unsigned]
      rw [signed_cons (List.cons_ne_nil d rest), ih closed.2, last, value,
        List.length_cons (a := c), pow_succ]
      split <;> ring

theorem toInt64_ofNat_eq {m : Nat} {v : Int} (h : (2 ^ 64 : Int) ∣ m - v) :
    (UInt64.ofNat m).toInt64 = Int64.ofInt v := by
  apply Int64.toInt_inj.mp
  rw [UInt64.toInt64_ofNat', Int64.toInt_ofNat', Int64.toInt_ofInt,
    Int.bmod_eq_bmod_iff_bmod_sub_eq_zero]
  exact Int.bmod_eq_zero_of_dvd h

theorem extend_sign (closed : Closed g) (length : g.length ≤ 10) :
    (UInt64.ofNat (unsigned g) ||| signBits g.length (g.getLastD 0)).toInt64 =
      Int64.ofInt (signed g) := by
  have scale : 128 ^ g.length = 2 ^ (7 * g.length) := by rw [Nat.pow_mul]
  rw [signed_eq closed, signBits]
  by_cases positive : payload (g.getLastD 0) < 64
  · rw [if_pos positive, if_neg (fun h => h.2 ((sign_eq_zero _).mpr positive)), UInt64.or_zero]
    exact toInt64_ofNat_eq (by simp)
  · have negative : g.getLastD 0 &&& 0x40 ≠ 0 := by rwa [ne_eq, sign_eq_zero]
    rw [if_neg positive]
    by_cases inside : 7 * g.length < 64
    · have small : unsigned g < 2 ^ (7 * g.length) := scale ▸ unsigned_lt g
      have fits : 2 ^ (7 * g.length) < 2 ^ 64 := Nat.pow_lt_pow_right (by decide) inside
      have low : (UInt64.ofNat (unsigned g)).toNat < 2 ^ (7 * g.length) := by
        rwa [UInt64.toNat_ofNat', Nat.mod_eq_of_lt (by omega)]
      rw [if_pos ⟨inside, negative⟩, or_shiftLeft low inside, ← UInt64.ofNat_add]
      refine toInt64_ofNat_eq ⟨2 ^ (7 * g.length), ?_⟩
      have power : (128 ^ g.length : Int) = 2 ^ (7 * g.length) := by exact_mod_cast scale
      have ones : ((0xffffffffffffffff : UInt64).toNat : Int) = 2 ^ 64 - 1 := rfl
      rw [power, Int.natCast_add, Int.natCast_mul, ones]
      push_cast
      ring
    · rw [if_neg fun h => inside h.1, UInt64.or_zero]
      refine toInt64_ofNat_eq ?_
      have ten : g.length = 10 := by omega
      rw [ten, sub_sub_cancel]
      decide

theorem decodeU64_eq (bytes : List UInt8) : decodeU64 bytes = do
    let g ← group 10 bytes
    return (UInt64.ofNat (unsigned g), g.length) := by
  rw [decodeU64, gather_eq (by decide) (by decide)]
  cases group 10 bytes with
  | error cause => rfl
  | ok g => simp [Except.map, bind, Except.bind, pure, Except.pure]

theorem decodeS64_eq (bytes : List UInt8) : decodeS64 bytes = do
    let g ← group 10 bytes
    return (Int64.ofInt (signed g), g.length) := by
  rw [decodeS64, gather_eq (by decide) (by decide)]
  cases found : group 10 bytes with
  | error cause => rfl
  | ok g =>
    obtain ⟨closed, length, -⟩ := group_eq_ok.mp found
    simp only [Except.map, bind, Except.bind, pure, Except.pure, Nat.mul_zero, Nat.pow_zero,
      Nat.one_mul, Nat.zero_add, UInt64.zero_add, extend_sign closed length]

theorem decodeU32_eq (bytes : List UInt8) :
    decodeU32 bytes = if exceeds32 bytes then .error .overflow else do
    let g ← group 5 bytes
    return (UInt32.ofNat (unsigned g), g.length) := by
  rw [decodeU32, gather_eq (by decide) (by decide)]
  cases group 5 bytes with
  | error cause => rfl
  | ok g => simp [Except.map, bind, Except.bind, pure, Except.pure]

/-! ## Decoders -/

theorem exceeds32_iff (closed : Closed g) (length : g.length ≤ 5) :
    exceeds32 (g ++ rest) = true ↔ 0x100000000 ≤ unsigned g := by
  match g, closed with
  | [a], last =>
    have := payload_lt a
    simp only [Closed] at last
    simp [exceeds32, unsigned, last]
    omega
  | [a, b], ⟨_, last⟩ =>
    have := payload_lt a
    have := payload_lt b
    simp only [Closed] at last
    simp [exceeds32, unsigned, last]
    omega
  | [a, b, c], ⟨_, _, last⟩ =>
    have := payload_lt a
    have := payload_lt b
    have := payload_lt c
    simp only [Closed] at last
    simp [exceeds32, unsigned, last]
    omega
  | [a, b, c, d], ⟨_, _, _, last⟩ =>
    have := payload_lt a
    have := payload_lt b
    have := payload_lt c
    have := payload_lt d
    simp only [Closed] at last
    simp [exceeds32, unsigned, last]
    omega
  | [a, b, c, d, e], ⟨ha, hb, hc, hd, _⟩ =>
    have := payload_lt a
    have := payload_lt b
    have := payload_lt c
    have := payload_lt d
    have := payload_lt e
    simp [exceeds32, unsigned, ha, hb, hc, hd]
    omega
  | _ :: _ :: _ :: _ :: _ :: _ :: _, _ =>
    simp only [List.length_cons] at length
    omega

theorem decodeU32_append (closed : Closed g) (length : g.length ≤ 5)
    (fits : unsigned g < 0x100000000) :
    decodeU32 (g ++ rest) = .ok (UInt32.ofNat (unsigned g), g.length) := by
  have inside : ¬ exceeds32 (g ++ rest) = true := by
    rw [exceeds32_iff closed length]
    omega
  rw [decodeU32_eq, if_neg inside, group_append closed length]
  rfl

theorem decodeU64_append (closed : Closed g) (length : g.length ≤ 10) :
    decodeU64 (g ++ rest) = .ok (UInt64.ofNat (unsigned g), g.length) := by
  rw [decodeU64_eq, group_append closed length]
  rfl

theorem decodeS64_append (closed : Closed g) (length : g.length ≤ 10) :
    decodeS64 (g ++ rest) = .ok (Int64.ofInt (signed g), g.length) := by
  rw [decodeS64_eq, group_append closed length]
  rfl

/-! ## Encoders -/

theorem payload_ofNat (v : Nat) : payload (UInt8.ofNat (v % 128)) = v % 128 ∧
    continues (UInt8.ofNat (v % 128)) = false := by
  have small : (UInt8.ofNat (v % 128)).toNat = v % 128 := by
    rw [UInt8.toNat_ofNat']
    omega
  simp only [payload, continues, small, decide_eq_false_iff_not]
  omega

theorem payload_continued (v : Nat) : payload (UInt8.ofNat (v % 128 + 128)) = v % 128 ∧
    continues (UInt8.ofNat (v % 128 + 128)) = true := by
  have marked : (UInt8.ofNat (v % 128 + 128)).toNat = v % 128 + 128 := by
    rw [UInt8.toNat_ofNat']
    omega
  simp only [payload, continues, marked, decide_eq_true_eq]
  omega

theorem unsignedGroup_spec (more : Nat) {v : Nat} (h : v < 128 ^ (more + 1)) :
    Closed (unsignedGroup more v) ∧ unsigned (unsignedGroup more v) = v := by
  induction more generalizing v with
  | zero =>
    obtain ⟨value, last⟩ := payload_ofNat v
    refine ⟨last, ?_⟩
    simp only [unsignedGroup, unsigned, value]
    omega
  | succ more ih =>
    rw [unsignedGroup]
    split
    · obtain ⟨value, last⟩ := payload_ofNat v
      refine ⟨last, ?_⟩
      simp only [unsigned, value]
      omega
    · obtain ⟨value, continued⟩ := payload_continued v
      obtain ⟨closed, quotient⟩ :=
        ih (v := v / 128) (Nat.div_lt_of_lt_mul (by rwa [Nat.mul_comm, ← Nat.pow_succ]))
      refine ⟨(closed_cons continued).mpr closed, ?_⟩
      rw [unsigned, value, quotient]
      omega

theorem length_unsignedGroup_le (more : Nat) {v k : Nat} (h : v < 128 ^ (k + 1)) :
    (unsignedGroup more v).length ≤ k + 1 := by
  induction more generalizing v k with
  | zero => simp [unsignedGroup]
  | succ more ih =>
    rw [unsignedGroup]
    split
    · simp
    · cases k with
      | zero => omega
      | succ k =>
        have :=
          ih (v := v / 128) (k := k) (Nat.div_lt_of_lt_mul (by rwa [Nat.mul_comm, ← Nat.pow_succ]))
        simpa using this

/-- No group of the same number is shorter, nor is one of a larger number. -/
theorem unsignedGroup_minimal (more : Nat) {v : Nat} (some : g ≠ []) (h : v ≤ unsigned g) :
    (unsignedGroup more v).length ≤ g.length := by
  have pos := List.length_pos_iff.mpr some
  have := length_unsignedGroup_le more (k := g.length - 1) (v := v) (by
    rw [Nat.sub_add_cancel pos]
    exact Nat.lt_of_le_of_lt h (unsigned_lt g))
  omega

theorem signedGroup_spec (more : Nat) {v : Int} (low : -(64 * 128 ^ more) ≤ v)
    (high : v < 64 * 128 ^ more) :
    Closed (signedGroup more v) ∧ signed (signedGroup more v) = v := by
  have digit (v : Int) :
      ((v % 128).toNat : Int) = v % 128 ∧ (v % 128).toNat % 128 = (v % 128).toNat := by
    omega
  induction more generalizing v with
  | zero =>
    obtain ⟨value, last⟩ := payload_ofNat (v % 128).toNat
    rw [(digit v).2] at value last
    refine ⟨last, ?_⟩
    simp only [signedGroup, signed, value]
    omega
  | succ more ih =>
    rw [signedGroup]
    split
    · rename_i short
      obtain ⟨value, last⟩ := payload_ofNat (v % 128).toNat
      rw [(digit v).2] at value last
      refine ⟨last, ?_⟩
      simp only [signed, value]
      omega
    · obtain ⟨value, continued⟩ := payload_continued (v % 128).toNat
      rw [(digit v).2] at value continued
      rw [pow_succ] at low high
      obtain ⟨closed, quotient⟩ := ih (v := v / 128) (by omega) (by omega)
      refine ⟨(closed_cons continued).mpr closed, ?_⟩
      rw [signed_cons closed.ne_nil, value, quotient]
      omega

theorem length_signedGroup_le (more : Nat) {k : Nat} {v : Int} (low : -(64 * 128 ^ k) ≤ v)
    (high : v < 64 * 128 ^ k) : (signedGroup more v).length ≤ k + 1 := by
  induction more generalizing v k with
  | zero => simp [signedGroup]
  | succ more ih =>
    rw [signedGroup]
    split
    · simp
    · rename_i long
      cases k with
      | zero => omega
      | succ k =>
        rw [pow_succ] at low high
        have := ih (v := v / 128) (k := k) (by omega) (by omega)
        simpa using this

/-! ## Round trips -/

theorem encodeU32_spec (v : UInt32) : Closed (encodeU32 v) ∧ unsigned (encodeU32 v) = v.toNat := by
  have small : v.toUInt64.toNat < 128 ^ 10 := by
    have := v.toUInt64.toNat_lt
    omega
  obtain ⟨closed, value⟩ := unsignedGroup_spec 9 small
  exact ⟨closed, value.trans v.toNat_toUInt64⟩

theorem decodeU32_encodeU32 (v : UInt32) :
    decodeU32 (encodeU32 v ++ rest) = .ok (v, (encodeU32 v).length) := by
  obtain ⟨closed, value⟩ := encodeU32_spec v
  have small : v.toUInt64.toNat < 128 ^ 5 := by
    have := v.toNat_lt
    rw [UInt32.toNat_toUInt64]
    omega
  have length : (encodeU32 v).length ≤ 5 := length_unsignedGroup_le 9 (k := 4) small
  rw [decodeU32_append closed length (by rw [value]; exact v.toNat_lt), value, UInt32.ofNat_toNat]

theorem decodeU64_encodeU64 (v : UInt64) :
    decodeU64 (encodeU64 v ++ rest) = .ok (v, (encodeU64 v).length) := by
  have small : v.toNat < 128 ^ 10 := by
    have := v.toNat_lt
    omega
  obtain ⟨closed, value⟩ := unsignedGroup_spec 9 small
  rw [encodeU64, decodeU64_append closed (length_unsignedGroup_le 9 small), value,
    UInt64.ofNat_toNat]

theorem decodeS64_encodeS64 (v : Int64) :
    decodeS64 (encodeS64 v ++ rest) = .ok (v, (encodeS64 v).length) := by
  have low : -(64 * 128 ^ 9) ≤ v.toInt := by
    have := v.le_toInt
    omega
  have high : v.toInt < 64 * 128 ^ 9 := by
    have := v.toInt_lt
    omega
  obtain ⟨closed, value⟩ := signedGroup_spec 9 low high
  rw [encodeS64, decodeS64_append closed (length_signedGroup_le 9 low high), value,
    Int64.ofInt_toInt]

theorem decodeS33_encodeS64 {v : Int64} (low : -0x400000000 ≤ v.toInt)
    (high : v.toInt < 0x400000000) :
    decodeS33 (encodeS64 v ++ rest) = .ok (v, (encodeS64 v).length) := by
  have length : (encodeS64 v).length ≤ 5 := length_signedGroup_le 9 (k := 4) (by omega) (by omega)
  rw [decodeS33, decodeS64_encodeS64]
  exact if_neg (by omega)

theorem decodeS33_encodeS32 (v : Int32) :
    decodeS33 (encodeS32 v ++ rest) = .ok (v.toInt64, (encodeS32 v).length) := by
  have low := v.le_toInt
  have high := v.toInt_lt
  exact decodeS33_encodeS64 (by rw [Int32.toInt_toInt64]; omega)
    (by rw [Int32.toInt_toInt64]; omega)

theorem decodeS32_encodeS32 (v : Int32) :
    decodeS32 (encodeS32 v ++ rest) = .ok (v, (encodeS32 v).length) := by
  have low := v.le_toInt
  have high := v.toInt_lt
  have length : (encodeS32 v).length ≤ 5 :=
    length_signedGroup_le 9 (k := 4) (by rw [Int32.toInt_toInt64]; omega)
      (by rw [Int32.toInt_toInt64]; omega)
  have inside : ¬ (5 < (encodeS32 v).length || v.toInt64.toInt < -0x80000000 ||
      0x80000000 ≤ v.toInt64.toInt) = true := by
    simp only [Int32.toInt_toInt64, Bool.or_eq_true, decide_eq_true_eq]
    omega
  rw [decodeS32, encodeS32, decodeS64_encodeS64]
  refine (if_neg inside).trans ?_
  rw [Int32.toInt_toInt64, Int32.ofInt_toInt]
  rfl

/-! ## What is found depends on the bytes that are used -/

def Settled {α : Type} (decode : List UInt8 → Except Cause (α × Nat)) : Prop :=
  ∀ bytes v n, decode bytes = .ok (v, n) → ∃ g, g <+: bytes ∧ n = g.length ∧ g ≠ [] ∧
    ∀ rest, decode (g ++ rest) = .ok (v, n)

theorem settled_group {α : Type} (limit : Nat) (value : List UInt8 → α) :
    Settled fun bytes => do
      let g ← group limit bytes
      return (value g, g.length) := by
  intro bytes v n h
  cases found : group limit bytes with
  | error cause => simp [found, bind, Except.bind] at h
  | ok g =>
    obtain ⟨closed, length, front⟩ := group_eq_ok.mp found
    simp only [found, bind, Except.bind] at h
    obtain ⟨rfl, rfl⟩ := Prod.mk.inj (Except.ok.inj h)
    refine ⟨g, front, rfl, closed.ne_nil, fun rest => ?_⟩
    simp only [group_append closed length, bind, Except.bind]
    rfl

theorem Settled.check {α β : Type} {decode : List UInt8 → Except Cause (α × Nat)}
    {check : α × Nat → Except Cause (β × Nat)} (h : Settled decode)
    (keeps : ∀ v n w m, check (v, n) = .ok (w, m) → n = m) :
    Settled fun bytes => decode bytes >>= check := by
  intro bytes w m done
  cases found : decode bytes with
  | error cause => simp [found, bind, Except.bind] at done
  | ok pair =>
    simp only [found, bind, Except.bind] at done
    obtain rfl := keeps pair.1 pair.2 w m done
    obtain ⟨g, front, length, nonempty, again⟩ := h bytes pair.1 pair.2 found
    refine ⟨g, front, length, nonempty, fun rest => ?_⟩
    simp only [again rest, bind, Except.bind]
    exact done

theorem settled_u32 : Settled decodeU32 := by
  intro bytes v n h
  rw [decodeU32_eq] at h
  split at h
  · cases h
  · rename_i inside
    cases found : group 5 bytes with
    | error cause => simp [found, bind, Except.bind] at h
    | ok g =>
      obtain ⟨closed, length, tail, rfl⟩ := group_eq_ok.mp found
      simp only [found, bind, Except.bind] at h
      obtain ⟨rfl, rfl⟩ := Prod.mk.inj (Except.ok.inj h)
      rw [exceeds32_iff closed length] at inside
      exact ⟨g, List.prefix_append g tail, rfl, closed.ne_nil,
        fun rest => decodeU32_append closed length (by omega)⟩

theorem settled_u64 : Settled decodeU64 := by
  simpa only [Settled, ← decodeU64_eq] using settled_group 10 fun g => UInt64.ofNat (unsigned g)

theorem settled_s64 : Settled decodeS64 := by
  simpa only [Settled, ← decodeS64_eq] using settled_group 10 fun g => Int64.ofInt (signed g)

theorem settled_s32 : Settled decodeS32 :=
  settled_s64.check fun v n w m h => by
    dsimp only at h
    split at h
    · cases h
    · exact (Prod.mk.inj (Except.ok.inj h)).2

theorem settled_s33 : Settled decodeS33 :=
  settled_s64.check fun v n w m h => by
    dsimp only at h
    split at h
    · cases h
    · exact (Prod.mk.inj (Except.ok.inj h)).2

end Sidetable.Leb128
