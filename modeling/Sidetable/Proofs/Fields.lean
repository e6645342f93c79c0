import Sidetable.Proofs.Taking

/-!
# Fields are read as they were written

Fields follow each other without marks between them. Each is taken by the read of its kind wherever
it stands, so any fields are read back in their order, and what follows them is left.
-/
namespace Sidetable
namespace Field

/-- How a field is read. The length of raw bytes is not written and has to be known. -/
inductive Kind where
  | byte
  | bytes (length : Nat)
  | u32
  | u64
  | name
  | u32le
  | sectionOf
  deriving DecidableEq

inductive Item where
  | byte (b : UInt8)
  | bytes (raw : List UInt8)
  | u32 (v : UInt32)
  | u64 (v : UInt64)
  | name (text : String)
  | u32le (v : UInt32)
  | sectionOf (id : UInt8) (size : UInt32) (payload : Cursor)
  deriving DecidableEq

def Kind.read : Kind → Read Item
  | byte => do return .byte (← Read.byte)
  | bytes length => do return .bytes (← Read.bytes length)
  | u32 => do return .u32 (← Read.u32)
  | u64 => do return .u64 (← Read.u64)
  | name => do return .name (← Read.name)
  | u32le => do return .u32le (← Read.u32le)
  | sectionOf => do
    let id ← Read.byte
    let size ← Read.u32
    return .sectionOf id size (← Read.sub size.toNat)

def Kind.readAll : List Kind → Read (List Item)
  | [] => return []
  | kind :: rest => do
    let item ← kind.read
    return item :: (← readAll rest)

def kind : Field → Kind
  | byte _ => .byte
  | bytes raw => .bytes raw.length
  | u32 _ => .u32
  | u64 _ => .u64
  | name _ => .name
  | u32le _ => .u32le
  | sectionOf _ _ => .sectionOf

/-- The field as it is read: a section brings its size and a cursor at the start of its payload. -/
def item : Field → Item
  | byte b => .byte b
  | bytes raw => .bytes raw
  | u32 v => .u32 v
  | u64 v => .u64 v
  | name text => .name text
  | u32le v => .u32le v
  | sectionOf id payload =>
    .sectionOf id (UInt32.ofNat payload.length) { pos := 0, rest := payload }

def Short : Field → Prop
  | name text => text.utf8ByteSize < 4294967296
  | sectionOf _ payload => payload.length < 4294967296
  | _ => True

theorem length_toUTF8 (text : String) : text.toUTF8.toList.length = text.utf8ByteSize := by
  rw [toList_eq_data, Array.length_toList]
  rfl

theorem takes_sectionOf {payload : List UInt8} (id : UInt8) (short : payload.length < 4294967296) :
    Kind.sectionOf.read.Takes (sectionOf id payload).encode (sectionOf id payload).item := by
  have size : (UInt32.ofNat payload.length).toNat = payload.length :=
    UInt32.toNat_ofNat_of_lt' short
  have raw := (Read.takes_bytes payload).map Cursor.ofBytes
  rw [← size] at raw
  exact (Read.takes_byte id).bind ((Read.takes_u32 (UInt32.ofNat payload.length)).bind (raw.map _))

/-- Whatever follows a field, the read of its kind stops where the field does. -/
theorem takes_item {f : Field} (short : f.Short) : f.kind.read.Takes f.encode f.item := by
  cases f with
  | byte b => exact (Read.takes_byte b).map _
  | bytes raw => exact (Read.takes_bytes raw).map _
  | u32 v => exact (Read.takes_u32 v).map _
  | u64 v => exact (Read.takes_u64 v).map _
  | name text =>
    have short : text.toUTF8.toList.length < 4294967296 := by
      rw [length_toUTF8]
      exact short
    exact (Read.takes_name short).map _
  | u32le v => exact (Read.takes_u32le v).map _
  | sectionOf id payload => exact takes_sectionOf id short

theorem takes_sequence {fields : List Field} (short : ∀ f ∈ fields, f.Short) :
    (Kind.readAll (fields.map kind)).Takes (encodeAll fields) (fields.map item) := by
  induction fields with
  | nil => exact Read.takes_pure []
  | cons f fields ih =>
    have first := takes_item (short f List.mem_cons_self)
    have others := ih fun g member => short g (List.mem_cons_of_mem f member)
    exact first.bind (others.map _)

/-- Reading the fields that were written, one after the other, never fails, yields them, and stops
before what follows, at the length that was written. -/
theorem written_fields_read_back (fields : List Field) (short : ∀ f ∈ fields, f.Short)
    (rest : List UInt8) :
    Kind.readAll (fields.map kind) (.ofBytes (encodeAll fields ++ rest)) =
      .ok (fields.map item) { pos := (encodeAll fields).length, rest } := by
  have taken := takes_sequence short 0 rest
  rwa [Nat.zero_add] at taken

def assorted : List Field :=
  [.u32 4294967295, .byte 128, .sectionOf 0 [128, 0, 128], .name "é", .bytes [],
    .u64 18446744073709551615, .u32le 16909060, .bytes [255, 128]]

theorem written_fields_read_back_assorted :
    (∀ f ∈ assorted, f.Short) ∧
    Kind.readAll (assorted.map kind) (.ofBytes (encodeAll assorted ++ [128])) =
      .ok (assorted.map item) { pos := (encodeAll assorted).length, rest := [128] } := by
  have short : ∀ f ∈ assorted, f.Short := by
    simp [assorted, Short]
    decide
  exact ⟨short, written_fields_read_back assorted short [128]⟩

end Field
end Sidetable
