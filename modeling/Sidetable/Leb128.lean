import Sidetable.Fault
import Sidetable.LittleEndian

/-!
# LEB128 numbers

A number is a group of bytes that carry seven bits each, low bits first; every byte but the last has
its top bit set. `unsigned` and `signed` are the value of a group as an integer without bounds; the
decoders shift the bytes at the front of a byte string into a fixed width until one ends the group.
-/
namespace Sidetable.Leb128

open Fault (Cause)

def continues (c : UInt8) : Bool :=
  128 ≤ c.toNat

def payload (c : UInt8) : Nat :=
  c.toNat % 128

def unsigned : List UInt8 → Nat
  | [] => 0
  | c :: rest => payload c + 128 * unsigned rest

/-- Value of a group in two's complement: bit six of the last byte is the sign. -/
def signed : List UInt8 → Int
  | [] => 0
  | [c] => if payload c < 64 then payload c else payload c - 128
  | c :: rest => payload c + 128 * signed rest

/-- The group at the front of the bytes, at most `limit` bytes long. -/
def group : Nat → List UInt8 → Except Cause (List UInt8)
  | _, [] => .error .unexpectedEnd
  | 0, _ :: _ => .error .overflow
  | limit + 1, c :: rest =>
    if continues c then (group limit rest).map (c :: ·) else .ok [c]

/-- Puts the bytes above the `n` groups of seven bits read so far, until one does not continue: all
bits, the number of bytes and the last of them. At most `more` bytes are read. -/
def gather : Nat → Nat → UInt64 → List UInt8 → Except Cause (UInt64 × Nat × UInt8)
  | _, _, _, [] => .error .unexpectedEnd
  | 0, _, _, _ :: _ => .error .overflow
  | more + 1, n, bits, c :: rest =>
    let bits := bits ||| (c &&& 0x7f).toUInt64 <<< UInt64.ofNat (7 * n)
    if c &&& 0x80 = 0 then .ok (bits, n + 1, c) else gather more (n + 1) bits rest

def exceeds32 (bytes : List UInt8) : Bool :=
  (bytes.take 4).all continues && bytes[4]?.any fun c => 16 ≤ payload c

def decodeU32 (bytes : List UInt8) : Except Cause (UInt32 × Nat) :=
  if exceeds32 bytes then .error .overflow
  else do
    let (bits, n, _) ← gather 5 0 0 bytes
    return (bits.toUInt32, n)

/-- Value and length of the unsigned 64-bit number at the front. Of a tenth byte only the lowest bit
counts. -/
def decodeU64 (bytes : List UInt8) : Except Cause (UInt64 × Nat) := do
  let (bits, n, _) ← gather 10 0 0 bytes
  return (bits, n)

/-- The bits above `n` groups of seven, when bit six of the last byte is set. -/
def signBits (n : Nat) (last : UInt8) : UInt64 :=
  if 7 * n < 64 ∧ last &&& 0x40 ≠ 0 then 0xffffffffffffffff <<< UInt64.ofNat (7 * n) else 0

/-- Value and length of the signed 64-bit number at the front. Of a tenth byte only the lowest bit
counts. -/
def decodeS64 (bytes : List UInt8) : Except Cause (Int64 × Nat) := do
  let (bits, n, last) ← gather 10 0 0 bytes
  return ((bits ||| signBits n last).toInt64, n)

def decodeS32 (bytes : List UInt8) : Except Cause (Int32 × Nat) := do
  let (v, n) ← decodeS64 bytes
  if 5 < n || v.toInt < -0x80000000 || 0x80000000 ≤ v.toInt then .error .overflow
  else return (Int32.ofInt v.toInt, n)

/-- Value and length of the number at the front that encodes a block or heap type. Five bytes are
the only bound: all of their 35 bits are kept. -/
def decodeS33 (bytes : List UInt8) : Except Cause (Int64 × Nat) := do
  let (v, n) ← decodeS64 bytes
  if 5 < n then .error .overflow else return (v, n)

def unsignedGroup : Nat → Nat → List UInt8
  | 0, v => [UInt8.ofNat (v % 128)]
  | more + 1, v =>
    if v / 128 = 0 then [UInt8.ofNat (v % 128)]
    else UInt8.ofNat (v % 128 + 128) :: unsignedGroup more (v / 128)

def signedGroup : Nat → Int → List UInt8
  | 0, v => [UInt8.ofNat (v % 128).toNat]
  | more + 1, v =>
    let low := (v % 128).toNat
    if (v / 128 = 0 ∧ low < 64) ∨ (v / 128 = -1 ∧ 64 ≤ low) then [UInt8.ofNat low]
    else UInt8.ofNat (low + 128) :: signedGroup more (v / 128)

def encodeU64 (v : UInt64) : List UInt8 :=
  unsignedGroup 9 v.toNat

def encodeU32 (v : UInt32) : List UInt8 :=
  encodeU64 v.toUInt64

def encodeS64 (v : Int64) : List UInt8 :=
  signedGroup 9 v.toInt

def encodeS32 (v : Int32) : List UInt8 :=
  encodeS64 v.toInt64

theorem toNat_shiftRight_seven (v : UInt64) : (v >>> 7).toNat = v.toNat / 128 :=
  Nat.shiftRight_eq_div_pow v.toNat 7

theorem toInt_shiftRight_seven (v : Int64) : (v >>> 7).toInt = v.toInt / 128 := by
  have := BitVec.toInt_sshiftRight (x := v.toBitVec) (n := 7)
  rw [Int.shiftRight_eq_div_pow] at this
  exact this

/-- Appends the groups of seven bits of a number, until the bits above them are all zero. -/
def appendU64 (dst : List UInt8) (v : UInt64) : List UInt8 :=
  let low := (v &&& 0x7f).toUInt8
  if v >>> 7 = 0 then dst ++ [low] else appendU64 (dst ++ [low ||| 0x80]) (v >>> 7)
termination_by v.toNat
decreasing_by
  rename_i more
  rw [← UInt64.toNat_inj] at more
  rw [toNat_shiftRight_seven] at more ⊢
  exact Nat.div_lt_self (Nat.pos_of_ne_zero fun zero => more (by rw [zero]; rfl)) (by decide)

/-- Appends the groups of seven bits of a number, until the bits above them are all equal to bit six
of the last group. -/
def appendS64 (dst : List UInt8) (v : Int64) : List UInt8 :=
  let low := (v &&& 0x7f).toUInt64.toUInt8
  if (v >>> 7 = 0 ∧ low &&& 0x40 = 0) ∨ (v >>> 7 = -1 ∧ low &&& 0x40 ≠ 0) then dst ++ [low]
  else appendS64 (dst ++ [low ||| 0x80]) (v >>> 7)
termination_by v.toInt.natAbs
decreasing_by
  rename_i more
  have zero : v ≠ 0 := by
    rintro rfl
    exact more (.inl (by decide))
  have ones : v ≠ -1 := by
    rintro rfl
    exact more (.inr (by decide))
  rw [ne_eq, ← Int64.toInt_inj] at zero ones
  rw [toInt_shiftRight_seven]
  simp at zero ones
  omega

def appendU32 (dst : List UInt8) (v : UInt32) : List UInt8 :=
  appendU64 dst v.toUInt64

def appendS32 (dst : List UInt8) (v : Int32) : List UInt8 :=
  appendS64 dst v.toInt64

end Sidetable.Leb128
