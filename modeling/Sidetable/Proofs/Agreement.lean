import Sidetable.Field
import Sidetable.Proofs.Appending
import Sidetable.Proofs.Reading

/-!
# Two ways to read a number

A decoder looks for a number at the front of some bytes and leaves them alone; a read takes the
number off a cursor byte by byte. The two are loops of their own. They test for a number that is too
long at different places, and the 32-bit ones for a number that is too large: by the fifth byte,
before it is added, or by the finished value. They accept the same bytes, with the same value and
the same length. The writer of fields and the append of numbers are two such loops as well, and
write the same bytes.
-/
namespace Sidetable

namespace Read

open Fault (Cause)
open Leb128

/-- The read yields what the decoder finds in the bytes that are left, and moves past as many
bytes. -/
def Agrees {α : Type} (decode : List UInt8 → Except Cause (α × Nat)) (r : Read α) : Prop :=
  ∀ c v c', r c = .ok v c' ↔ ∃ n, decode c.rest = .ok (v, n) ∧ c' = c.advance n

variable {α : Type} {more n m pos : Nat} {bits v : UInt64} {b last : UInt8}
    {bytes rest : List UInt8} {c c' : Cursor}

/-! ## The loops, byte by byte -/

def gathered (n : Nat) (bits : UInt64) (b : UInt8) : UInt64 :=
  bits ||| (b &&& 0x7f).toUInt64 <<< UInt64.ofNat (7 * n)

theorem gather_cons : gather (more + 1) n bits (b :: rest) =
    if b &&& 0x80 = 0 then .ok (gathered n bits b, n + 1, b) else
      gather more (n + 1) (gathered n bits b) rest := by
  rw [gather]
  rfl

theorem lt_of_gather (found : gather more n bits bytes = .ok (v, m, last)) : n < m := by
  induction more generalizing n bits bytes with
  | zero => cases bytes <;> cases found
  | succ more ih =>
    cases bytes with
    | nil => cases found
    | cons b rest =>
      rw [gather_cons] at found
      split at found
      · cases found
        exact Nat.lt_succ_self n
      · exact Nat.lt_of_succ_lt (ih found)

/-- A loop over a cursor that collects bits as `gather` does. What it yields is made of all bits,
the number of bytes and the last of them. -/
structure Collects (loop : Nat → Nat → UInt64 → Read α)
    (finish : UInt64 → Nat → UInt8 → α) : Prop where
  full : ∀ n bits c v c', loop 0 n bits c ≠ .ok v c'
  empty : ∀ more n bits pos v c', loop (more + 1) n bits ⟨pos, []⟩ ≠ .ok v c'
  cons : ∀ more n bits pos b rest, loop (more + 1) n bits ⟨pos, b :: rest⟩ =
    if b &&& 0x80 = 0 then .ok (finish (gathered n bits b) (n + 1) b) ⟨pos + 1, rest⟩
    else loop more (n + 1) (gathered n bits b) ⟨pos + 1, rest⟩

theorem collects_natural : Collects natural fun bits _ _ => bits where
  full n bits c v c' done := by cases done
  empty more n bits pos v c' done := by cases done
  cons more n bits pos b rest := by
    rw [natural]
    by_cases ends : b &&& 0x80 = 0
    · rw [if_pos ends]
      simp [bind, EStateM.bind, digit, ends, gathered, pure, EStateM.pure]
    · rw [if_neg ends]
      simp [bind, EStateM.bind, digit, ends, gathered]

theorem collects_integer : Collects integer fun bits n last =>
      (bits ||| signBits n last).toInt64 where
  full n bits c v c' done := by cases done
  empty more n bits pos v c' done := by cases done
  cons more n bits pos b rest := by
    rw [integer]
    by_cases ends : b &&& 0x80 = 0
    · rw [if_pos ends, signBits]
      by_cases negative : 7 * (n + 1) < 64 ∧ b &&& 0x40 ≠ 0
      · rw [if_pos negative]
        simp [bind, EStateM.bind, digit, ends, negative, gathered, pure, EStateM.pure]
      · rw [if_neg negative, UInt64.or_zero]
        simp [bind, EStateM.bind, digit, ends, negative, gathered, pure, EStateM.pure]
    · rw [if_neg ends]
      simp [bind, EStateM.bind, digit, ends, gathered]

theorem advance_cons (k : Nat) :
    Cursor.advance ⟨pos, b :: rest⟩ (k + 1) = Cursor.advance ⟨pos + 1, rest⟩ k := by
  simp [Cursor.advance, Nat.add_assoc, Nat.add_comm 1 k]

/-- A loop over the cursor stops where the loop over the bytes does, with the same bits. -/
theorem Collects.ok_iff {loop : Nat → Nat → UInt64 → Read α} {finish : UInt64 → Nat → UInt8 → α}
    {a : α} (collects : Collects loop finish) : loop more n bits c = .ok a c' ↔
      ∃ v m last, gather more n bits c.rest = .ok (v, m, last) ∧ finish v m last = a ∧
        c' = c.advance (m - n) := by
  induction more generalizing n bits c with
  | zero =>
    constructor
    · intro done
      exact absurd done (collects.full n bits c a c')
    · rintro ⟨v, m, last, found, -⟩
      cases rest : c.rest <;> rw [rest] at found <;> cases found
  | succ more ih =>
    obtain ⟨pos, rest⟩ := c
    cases rest with
    | nil =>
      constructor
      · intro done
        exact absurd done (collects.empty more n bits pos a c')
      · rintro ⟨v, m, last, found, -⟩
        cases found
    | cons b rest =>
      rw [collects.cons, gather_cons]
      by_cases ends : b &&& 0x80 = 0
      · rw [if_pos ends, if_pos ends]
        have next : Cursor.advance ⟨pos, b :: rest⟩ (n + 1 - n) = ⟨pos + 1, rest⟩ := by
          rw [Nat.add_sub_cancel_left, advance_cons 0]
          rfl
        constructor
        · intro done
          cases done
          exact ⟨_, n + 1, b, rfl, rfl, next.symm⟩
        · rintro ⟨v, m, last, found, rfl, rfl⟩
          cases found
          rw [next]
      · rw [if_neg ends, if_neg ends, ih]
        refine exists_congr fun v => exists_congr fun m => exists_congr fun last =>
          and_congr_right fun found => ?_
        have further := lt_of_gather found
        rw [← advance_cons, Nat.sub_add_eq, Nat.sub_add_cancel (by omega)]

/-! ## The readers of numbers -/

theorem Collects.agrees {loop : Nat → Nat → UInt64 → Read α} {finish : UInt64 → Nat → UInt8 → α}
    (collects : Collects loop finish) (limit : Nat) :
    Agrees (fun bytes => do
      let (bits, n, last) ← gather limit 0 0 bytes
      return (finish bits n last, n)) (loop limit 0 0) := by
  intro c a c'
  rw [collects.ok_iff]
  dsimp only
  constructor
  · rintro ⟨v, m, last, found, rfl, rfl⟩
    rw [found]
    exact ⟨m, rfl, rfl⟩
  · rintro ⟨n, done, rfl⟩
    cases found : gather limit 0 0 c.rest with
    | error cause =>
      rw [found] at done
      cases done
    | ok result =>
      rw [found] at done
      cases done
      exact ⟨_, _, _, rfl, rfl, rfl⟩

theorem agrees_u64 : Agrees decodeU64 u64 :=
  collects_natural.agrees 10

theorem agrees_s64 : Agrees decodeS64 s64 :=
  collects_integer.agrees 10

/-- The fifth byte has bits that 32 bits have no room for exactly if the finished number has. -/
theorem exceeds32_iff_shiftRight (found : gather 5 0 0 bytes = .ok (v, m, last)) :
    exceeds32 bytes = true ↔ v >>> 32 ≠ 0 := by
  rw [gather_eq (by decide) (by decide)] at found
  cases front : group 5 bytes with
  | error cause =>
    rw [front] at found
    cases found
  | ok g =>
    rw [front] at found
    obtain ⟨closed, length, rest, rfl⟩ := group_eq_ok.mp front
    have value : v = UInt64.ofNat (unsigned g) := by
      have := (Prod.mk.inj (Except.ok.inj found)).1
      simpa using this.symm
    have small : unsigned g < 2 ^ 64 := by
      have below := unsigned_lt g
      have power : 128 ^ g.length ≤ 128 ^ 5 := Nat.pow_le_pow_right (by decide) length
      omega
    have shifted : (v >>> 32).toNat = unsigned g / 2 ^ 32 := by
      rw [value, UInt64.toNat_shiftRight, UInt64.toNat_ofNat', Nat.mod_eq_of_lt small]
      exact Nat.shiftRight_eq_div_pow _ _
    rw [exceeds32_iff closed length, ne_eq, ← UInt64.toNat_inj, shifted, UInt64.toNat_zero]
    omega

theorem agrees_u32 : Agrees decodeU32 u32 := by
  intro c v c'
  rw [u32, bind_ok, decodeU32]
  constructor
  · rintro ⟨_, _, first, second⟩
    obtain ⟨bits, m, last, found, rfl, rfl⟩ := collects_natural.ok_iff.mp first
    by_cases fits : bits >>> 32 = 0
    · rw [if_pos fits] at second
      cases second
      rw [if_neg (by rw [exceeds32_iff_shiftRight found]; exact not_not_intro fits), found]
      exact ⟨m, rfl, rfl⟩
    · rw [if_neg fits] at second
      cases second
  · rintro ⟨n, done, rfl⟩
    split at done
    · cases done
    · rename_i inside
      cases found : gather 5 0 0 c.rest with
      | error cause =>
        rw [found] at done
        cases done
      | ok result =>
        obtain ⟨bits, m, last⟩ := result
        rw [exceeds32_iff_shiftRight found, not_not] at inside
        rw [found] at done
        cases done
        refine ⟨bits, c.advance n, collects_natural.ok_iff.mpr ⟨bits, n, last, found, rfl, rfl⟩, ?_⟩
        rw [if_pos inside]
        rfl

end Read

namespace Leb128

theorem shiftRight_eq_zero (v : UInt64) : v >>> 7 = 0 ↔ v < 0x80 := by
  rw [← UInt64.toNat_inj, toNat_shiftRight_seven, UInt64.lt_iff_toNat_lt]
  exact Nat.div_eq_zero_iff_lt (by decide)

/-- The mark of a byte that continues covers bit seven of the number. -/
theorem low_continue (v : UInt64) : (v &&& 0x7f).toUInt8 ||| 0x80 = v.toUInt8 ||| 0x80 := by
  have each : ∀ n < 256, UInt8.ofNat (n % 128) ||| 0x80 = UInt8.ofNat n ||| 0x80 := by
    decide +kernel
  have byte : v.toUInt8 = UInt8.ofNat (v.toNat % 256) := by
    apply UInt8.toNat_inj.mp
    rw [UInt64.toNat_toUInt8, UInt8.toNat_ofNat', Nat.mod_mod]
  rw [toNat_low64, byte, ← each _ (Nat.mod_lt _ (by decide)), Nat.mod_mod_of_dvd _ (by decide)]

theorem low_of_small {v : UInt64} (small : v < 0x80) : (v &&& 0x7f).toUInt8 = v.toUInt8 := by
  have small : v.toNat < 128 := UInt64.lt_iff_toNat_lt.mp small
  apply UInt8.toNat_inj.mp
  rw [toNat_low64, UInt8.toNat_ofNat', UInt64.toNat_toUInt8, Nat.mod_eq_of_lt small]

/-- What is appended for a number is what its field is written as. -/
theorem appendU64_varint (dst : List UInt8) (v : UInt64) :
    appendU64 dst v = dst ++ Field.varint v := by
  fun_induction appendU64 dst v with
  | case1 dst v low done =>
    have small : v < 0x80 := (shiftRight_eq_zero v).mp done
    rw [Field.varint, if_pos small, ← low_of_small small]
  | case2 dst v low more ih =>
    have large : ¬ v < 0x80 := (shiftRight_eq_zero v).not.mp more
    have step : Field.varint v = (low ||| 0x80) :: Field.varint (v >>> 7) := by
      rw [Field.varint, if_neg large, low_continue]
    rw [ih, step, List.append_assoc, List.singleton_append]

end Leb128

/-- The reads of numbers accept what the decoders accept, with the same value and the same length,
and a number is written into a binary as it is appended to bytes. -/
theorem numbers_agree :
    Read.Agrees Leb128.decodeU32 Read.u32 ∧ Read.Agrees Leb128.decodeU64 Read.u64 ∧
    Read.Agrees Leb128.decodeS64 Read.s64 ∧
    ∀ (fields : List Field) (v : UInt64),
      Field.encodeAll (fields ++ [.u64 v]) = Leb128.appendU64 (Field.encodeAll fields) v := by
  refine ⟨Read.agrees_u32, Read.agrees_u64, Read.agrees_s64, fun fields v => ?_⟩
  rw [Leb128.appendU64_varint, Field.encodeAll, List.flatMap_append, List.flatMap_singleton]
  rfl

end Sidetable
