import Sidetable.Cursor
import Sidetable.Leb128
import Sidetable.Validation.Invalid

/-!
# Reading for validation

Validation reads a binary once more, by rules of its own. Unsigned numbers fit 32 bits. A signed
number of the greatest length has to repeat its sign in the bits of its last byte, of which bit six
is left out.
-/
namespace Sidetable
namespace Validation

/-- A step over a cursor that yields an `α` or says why the binary is not valid. -/
abbrev Scan := EStateM Invalid Cursor

namespace Scan

def position : Scan Nat := fun c =>
  .ok c.pos c

def ended : Scan Bool := fun c =>
  .ok c.rest.isEmpty c

def byte : Scan UInt8 := fun c =>
  match c.rest with
  | [] => .error .unexpectedEnd c
  | b :: rest => .ok b { pos := c.pos + 1, rest }

def bytes (n : Nat) : Scan (List UInt8) := fun c =>
  if c.has n then .ok (c.rest.take n) (c.advance n) else .error .unexpectedEnd c

def skip (n : Nat) : Scan Unit := do
  let _ ← bytes n

def reserved : Scan Unit := do
  if (← byte) ≠ 0 then throw (.refused "a reserved byte is not zero")

/-- The bytes of the unsigned number at the cursor, which fits 32 bits. -/
def index : Scan (List UInt8) := fun c =>
  match Leb128.decodeU32 c.rest with
  | .ok (_, n) => .ok (c.rest.take n) (c.advance n)
  | .error _ => .error .number c

def u32 : Scan UInt32 := do
  return UInt32.ofNat (Leb128.unsigned (← index))

def agrees (mask : UInt8) (group : List UInt8) : Bool :=
  let bits := group.getLast?.getD 0 &&& mask
  bits = 0 || bits = mask

/-- Moves past a signed number of at most `limit` bytes. `mask` has the sign and the spare bits of
the last of `limit` bytes. -/
def signed (limit : Nat) (mask : UInt8) : Scan Unit := fun c =>
  match Leb128.group limit c.rest with
  | .ok g =>
    if g.length = limit && !agrees mask g then .error .number c else .ok () (c.advance g.length)
  | .error _ => .error .number c

def s32 : Scan Unit :=
  signed 5 0x38

def s64 : Scan Unit :=
  signed 10 0x3f

/-- The group at the front of the bytes. The last of `limit` bytes ends it even if it says that
another follows. -/
def cutGroup : Nat → List UInt8 → Option (List UInt8)
  | 0, _ => some []
  | _ + 1, [] => none
  | limit + 1, c :: rest =>
    if Leb128.continues c then (cutGroup limit rest).map (c :: ·) else some [c]

def s33 : Scan Int := fun c =>
  match cutGroup 5 c.rest with
  | none => .error .unexpectedEnd c
  | some g =>
    let next := c.advance g.length
    if g.length < 5 then .ok (Leb128.signed g) next
    else if agrees 0x30 g then
      let v : Int := Leb128.unsigned g % 0x200000000
      .ok (if v < 0x100000000 then v else v - 0x200000000) next
    else .error .number c

def name : Scan String := do
  let raw ← bytes (← u32).toNat
  match String.fromUTF8? raw.toByteArray with
  | some text => return text
  | none => throw .name

def times {α : Type} (item : Scan α) : Nat → Scan (List α)
  | 0 => return []
  | n + 1 => do
    let a ← item
    let rest ← times item n
    return a :: rest

def vector {α : Type} (item : Scan α) : Scan (List α) := do
  times item (← u32).toNat

def valType : Scan ValType := do
  let t : ValType := ⟨← byte⟩
  if t.isSimple then return t else throw (.refused "unknown value type")

def refType : Scan ValType := do
  let t : ValType := ⟨← byte⟩
  if t = .funcref || t = .externref then return t else throw (.refused "unknown reference type")

end Scan
end Validation
end Sidetable
