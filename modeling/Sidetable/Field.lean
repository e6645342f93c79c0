import Sidetable.LittleEndian

/-!
# Fields of a binary

What a module binary is written from. Each field has one encoding, and a part of a binary is the
concatenation of its fields.
-/
namespace Sidetable

inductive Field where
  | byte (b : UInt8)
  | bytes (raw : List UInt8)
  | u32 (v : UInt32)
  | u64 (v : UInt64)
  | name (text : String)
  | u32le (v : UInt32)
  | sectionOf (id : UInt8) (payload : List UInt8)
  deriving DecidableEq

namespace Field

/-- Seven bits a byte, low bits first, the top bit set on every byte but the last. -/
def varint (v : UInt64) : List UInt8 :=
  if v < 0x80 then [v.toUInt8] else (v.toUInt8 ||| 0x80) :: varint (v >>> 7)
termination_by v.toNat
decreasing_by
  rename_i more
  have pos : 0 < v.toNat := Nat.pos_of_ne_zero fun zero =>
    more (UInt64.lt_iff_toNat_lt.mpr (by rw [zero]; decide))
  have shifted : (v >>> 7).toNat = v.toNat / 128 := Nat.shiftRight_eq_div_pow v.toNat 7
  rw [shifted]
  exact Nat.div_lt_self pos (by decide)

def count (n : Nat) : Field :=
  .u32 (UInt32.ofNat n)

def encode : Field → List UInt8
  | byte b => [b]
  | bytes raw => raw
  | u32 v => varint v.toUInt64
  | u64 v => varint v
  | name text =>
    let raw := text.toUTF8.toList
    varint (UInt32.ofNat raw.length).toUInt64 ++ raw
  | u32le v => LittleEndian.encode 4 v.toNat
  | sectionOf id payload => id :: varint (UInt32.ofNat payload.length).toUInt64 ++ payload

def encodeAll (fields : List Field) : List UInt8 :=
  fields.flatMap encode

end Field
end Sidetable
