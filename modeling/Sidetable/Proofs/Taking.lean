import Sidetable.Module.Encode
import Sidetable.Proofs.Agreement
import Sidetable.Proofs.Ledger

/-!
# What a read takes

A read takes some bytes when it reads a value from exactly these, whatever follows them and wherever
they stand. A field is taken by the read of its kind, and a vector by the vector of what takes its
items. `Finds` is the other direction: it says of every successful read which bytes it used.
-/
namespace Sidetable

namespace LittleEndian

theorem decode_lt (raw : List UInt8) : decode raw < 256 ^ raw.length := by
  induction raw with
  | nil => exact Nat.one_pos
  | cons b rest ih =>
    have := b.toNat_lt
    rw [decode, List.length_cons, Nat.pow_succ]
    omega

theorem encode_decode (raw : List UInt8) : encode raw.length (decode raw) = raw := by
  induction raw with
  | nil => rfl
  | cons b rest ih =>
    have := b.toNat_lt
    have low : UInt8.ofNat (b.toNat + 256 * decode rest) = b := by
      apply UInt8.toNat_inj.mp
      rw [UInt8.toNat_ofNat']
      omega
    have high : (b.toNat + 256 * decode rest) / 256 = decode rest := by omega
    rw [decode, List.length_cons, encode, low, high, ih]

end LittleEndian

namespace Read

variable {α β : Type} {r : Read α} {f : α → Read β} {used used' raw : List UInt8} {a : α} {b : β}

def Takes (r : Read α) (used : List UInt8) (a : α) : Prop :=
  ∀ (pos : Nat) (rest : List UInt8), r ⟨pos, used ++ rest⟩ = .ok a ⟨pos + used.length, rest⟩

theorem takes_pure (a : α) : Takes (pure a) [] a := by
  intro pos rest
  rfl

theorem Takes.bind (h : Takes r used a) (h' : Takes (f a) used' b) :
    Takes (r >>= f) (used ++ used') b := by
  intro pos rest
  refine bind_ok.mpr ⟨a, ⟨pos + used.length, used' ++ rest⟩, ?_, ?_⟩
  · rw [List.append_assoc]
    exact h pos (used' ++ rest)
  · rw [List.length_append, ← Nat.add_assoc]
    exact h' (pos + used.length) rest

theorem Takes.map (h : Takes r used a) (g : α → β) : Takes (do return g (← r)) used (g a) := by
  have := h.bind (f := fun a => pure (g a)) (takes_pure (g a))
  rwa [List.append_nil] at this

theorem Takes.within (h : Takes r used a) (place : Fault.Place) :
    Takes (within place r) used a := by
  intro pos rest
  rw [Read.within, h pos rest]

theorem Takes.inPart (h : Takes r used a) (name : String) : Takes (inPart name r) used a := by
  intro pos rest
  rw [Read.inPart, h pos rest]

theorem Takes.guard {p : Prop} [Decidable p] {cause : Fault.Cause} (h : Takes r used a)
    (passes : ¬ p) :
    Takes (do
      if p then fail cause
      r) used a := by
  simpa only [passes, if_false] using h

theorem takes_byte (b : UInt8) : Takes byte [b] b := by
  intro pos rest
  rfl

theorem takes_bytes (raw : List UInt8) : Takes (bytes raw.length) raw raw := by
  intro pos rest
  have room : Cursor.has ⟨pos, raw ++ rest⟩ raw.length := by simp
  simp [bytes, room, Cursor.advance]

/-! ## Numbers -/

/-- A number is taken from the bytes that its decoder finds it in. -/
theorem Agrees.takes {decode : List UInt8 → Except Fault.Cause (α × Nat)} (agrees : Agrees decode r)
    (found : ∀ rest, decode (used ++ rest) = .ok (a, used.length)) : Takes r used a := by
  intro pos rest
  refine (agrees _ _ _).mpr ⟨used.length, found rest, ?_⟩
  simp [Cursor.advance]

end Read

theorem Field.encode_u64 (v : UInt64) : (Field.u64 v).encode = Leb128.encodeU64 v :=
  (Leb128.appendU64_varint [] v).symm.trans (Leb128.appendU64_encodeU64 [] v)

theorem Field.encode_u32 (v : UInt32) : (Field.u32 v).encode = Leb128.encodeU32 v :=
  Field.encode_u64 v.toUInt64

namespace Read

variable {α β : Type} {r : Read α} {used : List UInt8} {a : α}

theorem takes_u32 (v : UInt32) : Takes u32 (Field.u32 v).encode v := by
  rw [Field.encode_u32]
  exact agrees_u32.takes fun _ => Leb128.decodeU32_encodeU32 v

theorem takes_u64 (v : UInt64) : Takes u64 (Field.u64 v).encode v := by
  rw [Field.encode_u64]
  exact agrees_u64.takes fun _ => Leb128.decodeU64_encodeU64 v

theorem takes_u32le (v : UInt32) : Takes u32le (Field.u32le v).encode v := by
  have raw := takes_bytes (LittleEndian.encode 4 v.toNat)
  rw [LittleEndian.length_encode] at raw
  have := raw.map fun raw => UInt32.ofNat (LittleEndian.decode raw)
  rwa [LittleEndian.decode_encode, Nat.mod_eq_of_lt (by have := v.toNat_lt; omega),
    UInt32.ofNat_toNat] at this

end Read

theorem Field.toList_eq_data (raw : ByteArray) : raw.toList = raw.data.toList := by
  have loop (i : Nat) (r : List UInt8) :
      ByteArray.toList.loop raw i r = r.reverse ++ raw.data.toList.drop i := by
    fun_induction ByteArray.toList.loop raw i r with
    | case1 i r inside ih =>
      have inside : i < raw.data.size := inside
      have first : raw.get! i = raw.data[i] := getElem!_pos raw.data i inside
      have split :=
        List.drop_eq_getElem_cons (l := raw.data.toList) (i := i) (by simpa using inside)
      rw [ih, split, first]
      simp
    | case2 i r outside =>
      have outside : raw.data.toList.length ≤ i := by simpa using outside
      simp [List.drop_eq_nil_of_le outside]
  exact loop 0 []

theorem Field.fromUTF8_toUTF8 (text : String) :
    String.fromUTF8? text.toUTF8.toList.toByteArray = some text := by
  have same : text.toUTF8.toList.toByteArray = text.toUTF8 := by
    apply ByteArray.ext
    rw [List.data_toByteArray, toList_eq_data, Array.toArray_toList]
  have valid : text.toUTF8.IsValidUTF8 := text.isValidUTF8
  rw [same, String.fromUTF8?, dif_pos valid]
  rfl

theorem Field.encode_name (text : String) :
    (Field.name text).encode = (Field.count text.toUTF8.toList.length).encode ++
    text.toUTF8.toList :=
  rfl

namespace Read

variable {α : Type} {r : Read α}

theorem takes_count {n : Nat} (small : n < 0x100000000) :
    ∃ v : UInt32, v.toNat = n ∧ Takes u32 (Field.count n).encode v :=
  ⟨UInt32.ofNat n, UInt32.toNat_ofNat_of_lt' small, takes_u32 _⟩

theorem takes_name_of {text : String} {count : List UInt8} {n : UInt32}
    (spelled : Takes u32 count n) (length : n.toNat = text.toUTF8.toList.length) :
    Takes name (count ++ text.toUTF8.toList) text := by
  refine spelled.bind ?_
  have raw := takes_bytes text.toUTF8.toList
  rw [← length] at raw
  rw [← List.append_nil text.toUTF8.toList]
  refine raw.bind ?_
  rw [Field.fromUTF8_toUTF8]
  exact takes_pure text

theorem takes_name {text : String} (short : text.toUTF8.toList.length < 0x100000000) :
    Takes name (Field.name text).encode text := by
  obtain ⟨n, length, count⟩ := takes_count short
  exact takes_name_of count length

theorem takes_entries {pieces : List (List UInt8)} {list : List α}
    (h : List.Forall₂ (Takes r) pieces list)
    (i : Nat) : Takes (entries r i list.length) pieces.flatten list := by
  induction h generalizing i with
  | nil => exact takes_pure []
  | cons first others ih =>
    rw [List.length_cons, List.flatten_cons]
    exact (first.within (.entry i)).bind ((ih (i + 1)).map _)

/-- Items of one byte at least are no more than the bytes that are left. -/
theorem length_le_flatten {pieces : List (List UInt8)} {list : List α}
    (h : List.Forall₂ (fun piece _ => piece ≠ []) pieces list) :
    list.length ≤ pieces.flatten.length := by
  induction h with
  | nil => exact Nat.zero_le _
  | cons first others ih =>
    have := List.length_pos_iff.mpr first
    rw [List.length_cons, List.flatten_cons, List.length_append]
    omega

theorem takes_vector {pieces : List (List UInt8)} {list : List α}
    (small : list.length < 0x100000000)
    (h : List.Forall₂ (fun piece a => Takes r piece a ∧ piece ≠ []) pieces list) :
    Takes (vector r) ((Field.count list.length).encode ++ pieces.flatten) list := by
  obtain ⟨n, length, count⟩ := takes_count small
  refine count.bind ?_
  intro pos rest
  have room : Cursor.has ⟨pos, pieces.flatten ++ rest⟩ n.toNat := by
    have := length_le_flatten (h.imp fun _ _ item => item.2)
    rw [Cursor.has_iff, length, List.length_append]
    omega
  refine bind_ok.mpr ⟨_, _, rfl, ?_⟩
  simp only [room]
  rw [length]
  exact takes_entries (h.imp fun _ _ item => item.1) 0 pos rest

/-! ## The bytes of a read that succeeds -/

section Finds

variable {β : Type} {f : α → Read β} {a : α} {P : List UInt8 → α → Prop} {Q : List UInt8 → β → Prop}

def Finds (r : Read α) (P : List UInt8 → α → Prop) : Prop :=
  ∀ c a c', r c = .ok a c' → ∃ used, c = ⟨c.pos, used ++ c'.rest⟩ ∧
    c' = ⟨c.pos + used.length, c'.rest⟩ ∧ P used a

theorem Finds.mono {P' : List UInt8 → α → Prop} (h : Finds r P)
    (weaker : ∀ used a, P used a → P' used a) : Finds r P' := by
  intro c a c' done
  obtain ⟨used, front, stop, found⟩ := h c a c' done
  exact ⟨used, front, stop, weaker used a found⟩

theorem Finds.and {P' : List UInt8 → α → Prop} (h : Finds r P) (h' : Finds r P') :
    Finds r fun used a => P used a ∧ P' used a := by
  intro c a c' done
  obtain ⟨used, front, stop, found⟩ := h c a c' done
  obtain ⟨used', front', -, found'⟩ := h' c a c' done
  have same : used ++ c'.rest = used' ++ c'.rest := (Cursor.mk.inj (front.symm.trans front')).2
  rw [← List.append_cancel_right same] at found'
  exact ⟨used, front, stop, found, found'⟩

theorem finds_pure (h : P [] a) : Finds (pure a) P := by
  rintro c b c' ⟨⟩
  exact ⟨[], rfl, rfl, h⟩

theorem finds_fail (cause : Fault.Cause) : Finds (fail cause) P := by
  rintro c a c' ⟨⟩

theorem finds_failHere (cause : Fault.Cause) : Finds (failHere cause) P := by
  rintro c a c' ⟨⟩

theorem finds_bind (h : Finds r P)
    (next : ∀ used a, P used a → Finds (f a) fun used' b => Q (used ++ used') b) :
    Finds (r >>= f) Q := by
  intro c b c'' done
  obtain ⟨a, c', first, second⟩ := bind_ok.mp done
  obtain ⟨used, front, stop, found⟩ := h c a c' first
  obtain ⟨used', front', stop', found'⟩ := next used a found c' b c'' second
  refine ⟨used ++ used', ?_, ?_, found'⟩
  · rw [front, front', List.append_assoc]
  · rw [stop', stop, List.length_append, Nat.add_assoc]

theorem Finds.map (h : Finds r P) (g : α → β) (each : ∀ used a, P used a → Q used (g a)) :
    Finds (do return g (← r)) Q := by
  refine finds_bind h fun used a found => finds_pure ?_
  rw [List.append_nil]
  exact each used a found

theorem finds_guard {p : Prop} [Decidable p] {cause : Fault.Cause} (h : ¬ p → Finds r P) :
    Finds (do
      if p then fail cause
      r) P := by
  by_cases fails : p
  · rw [if_pos fails]
    exact finds_bind (finds_fail (P := fun _ _ => False) cause) fun _ _ => False.elim
  · simpa only [fails, if_false] using h fails

theorem Finds.within (h : Finds r P) (place : Fault.Place) : Finds (within place r) P := by
  intro c a c' done
  unfold Read.within at done
  split at done
  · rename_i found
    cases done
    exact h c a c' found
  · cases done

theorem Finds.inPart (h : Finds r P) (name : String) : Finds (inPart name r) P := by
  intro c a c' done
  unfold Read.inPart at done
  split at done
  · rename_i found
    cases done
    exact h c a c' found
  · cases done

theorem finds_byte : Finds byte fun used b => used = [b] := by
  intro c b c' done
  obtain ⟨pos, rest⟩ := c
  cases rest with
  | nil => cases done
  | cons d rest =>
    cases done
    exact ⟨[b], rfl, rfl, rfl⟩

theorem finds_bytes (n : Nat) : Finds (bytes n) fun used raw => used = raw ∧ raw.length = n := by
  intro c raw c' done
  unfold bytes at done
  split at done
  · rename_i room
    have room : n ≤ c.rest.length := by simpa using room
    cases done
    refine ⟨c.rest.take n, ?_, ?_, rfl, by simpa using room⟩
    · simp [Cursor.advance]
    · simp [Cursor.advance, room]
  · cases done

theorem finds_u32le : Finds u32le fun used v => used = (Field.u32le v).encode := by
  refine (finds_bytes 4).map _ fun used raw found => ?_
  obtain ⟨rfl, length⟩ := found
  have bound := LittleEndian.decode_lt used
  have whole := LittleEndian.encode_decode used
  rw [length] at bound whole
  rw [Field.encode, UInt32.toNat_ofNat_of_lt' bound, whole]

/-- The bytes of a number are those that its decoder finds it in. -/
theorem Agrees.finds {decode : List UInt8 → Except Fault.Cause (α × Nat)} (agrees : Agrees decode r)
    (settled : Leb128.Settled decode) :
    Finds r fun used a => used ≠ [] ∧ ∀ rest, decode (used ++ rest) = .ok (a, used.length) := by
  intro c a c' done
  obtain ⟨n, found, rfl⟩ := (agrees c a c').mp done
  obtain ⟨used, ⟨rest, front⟩, rfl, some, again⟩ := settled c.rest a n found
  have behind : (c.advance used.length).rest = rest := by simp [Cursor.advance, ← front]
  refine ⟨used, ?_, rfl, some, again⟩
  rw [behind, front]

def Repeats (r : Read α) : Prop :=
  Finds r (Takes r)

theorem repeats_pure (a : α) : Repeats (pure a) :=
  finds_pure (takes_pure a)

theorem repeats_bind (h : Repeats r) (next : ∀ a, Repeats (f a)) : Repeats (r >>= f) :=
  finds_bind h fun _ a takes => (next a).mono fun _ _ takes' => takes.bind takes'

theorem repeats_byte : Repeats byte := by
  refine finds_byte.mono fun used b same => ?_
  rw [same]
  exact takes_byte b

end Finds

end Read
end Sidetable
