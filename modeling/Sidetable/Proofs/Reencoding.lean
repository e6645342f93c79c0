import Sidetable.Proofs.Sections
import Mathlib.Algebra.Order.BigOperators.Group.List
import Mathlib.Algebra.Order.Ring.Canonical

/-!
# Parsed modules written again

What is read takes no fewer bytes than its fields, and a typed reference takes more, since its heap
type is not written. So a parsed module is read back from its own binary exactly when it has no
typed reference outside the bodies, which are kept as they were.
-/
namespace Sidetable

def ValType.typedRefs (t : ValType) : Nat :=
  if t.isTypedRef then 1 else 0

def FuncType.typedRefs (t : FuncType) : Nat :=
  (t.params.map ValType.typedRefs).sum + (t.results.map ValType.typedRefs).sum

def ImportDesc.typedRefs : ImportDesc → Nat
  | .table (some t) => t.elem.typedRefs
  | .global (some g) => g.type.typedRefs
  | _ => 0

def Module.typedRefs (m : Module) : Nat :=
  (m.types.map FuncType.typedRefs).sum + (m.imports.map fun i => i.desc.typedRefs).sum +
    (m.tables.map fun t => t.elem.typedRefs).sum +
      (m.globals.map fun g => g.type.type.typedRefs).sum

namespace Read

open Sidetable.Field (encodeAll)

variable {α : Type} {r : Read α}

theorem finds_u32 : Finds u32 fun used v =>
      ∀ n ≤ v.toNat, (Field.count n).encode.length ≤ used.length := by
  refine (agrees_u32.finds Leb128.settled_u32).mono fun used v found n below => ?_
  rw [Field.count, Field.encode_u32]
  refine (Leb128.length_encodeU32_mono (v := v) ?_).trans (Leb128.shortest_u32 (found.2 []))
  rw [UInt32.toNat_ofNat']
  exact (Nat.mod_le _ _).trans below

theorem finds_u64 : Finds u64 fun used v => (Field.u64 v).encode.length ≤ used.length := by
  refine (agrees_u64.finds Leb128.settled_u64).mono fun used v found => ?_
  rw [Field.encode_u64]
  exact Leb128.shortest_u64 (found.2 [])

theorem finds_s64 : Finds s64 fun used _ => used ≠ [] :=
  (agrees_s64.finds Leb128.settled_s64).mono fun _ _ => And.left

theorem toUTF8_of_fromUTF8 {raw : ByteArray} {text : String}
    (h : String.fromUTF8? raw = some text) : text.toUTF8 = raw := by
  unfold String.fromUTF8? at h
  split at h
  · obtain rfl := Option.some.inj h
    rfl
  · cases h

theorem finds_name : Finds name fun used text => (Field.name text).encode.length ≤ used.length := by
  refine finds_bind finds_u32 fun used n count =>
    finds_bind (finds_bytes n.toNat) fun used' raw found => ?_
  obtain ⟨rfl, length⟩ := found
  split
  · rename_i text spelled
    refine finds_pure ?_
    have bytes : text.toUTF8.toList = used' := by
      rw [toUTF8_of_fromUTF8 spelled, Field.toList_eq_data, List.data_toByteArray]
    rw [Field.encode_name, bytes, length, List.append_nil, List.length_append, List.length_append,
      length]
    have := count n.toNat le_rfl
    omega
  · exact finds_failHere _

/-- What is read has fields that take no more bytes than were used, less one for each typed
reference. -/
def Spares (r : Read α) (fields : α → List Field) (refs : α → Nat) (good : α → Prop) : Prop :=
  Finds r fun used a => (refs a = 0 → good a) ∧ (encodeAll (fields a)).length + refs a ≤ used.length

variable {fields : α → List Field} {refs : α → Nat} {good : α → Prop}

theorem finds_entries (h : Spares r fields refs good) (i n : Nat) :
    Finds (entries r i n) fun used list => list.length = n ∧ (∀ a ∈ list, refs a = 0 → good a) ∧
      (list.map fun a => encodeAll (fields a)).flatten.length + (list.map refs).sum ≤
      used.length := by
  induction n generalizing i with
  | zero => exact finds_pure ⟨rfl, by simp, by simp⟩
  | succ n ih =>
    refine finds_bind (h.within _) fun used a first =>
      finds_bind (ih (i + 1)) fun used' list others => finds_pure ?_
    obtain ⟨fine, spared⟩ := first
    obtain ⟨length, each, total⟩ := others
    refine ⟨by rw [List.length_cons, length], List.forall_mem_cons.mpr ⟨fine, each⟩, ?_⟩
    simp only [List.map_cons, List.flatten_cons, List.sum_cons, List.length_append, List.length_nil]
    omega

theorem each_of_sum {list : List α} (h : (list.map refs).sum = 0) : ∀ a ∈ list, refs a = 0 := by
  intro a ha
  exact List.sum_eq_zero_iff.mp h _ (List.mem_map_of_mem ha)

theorem spares_vector (h : Spares r fields refs good) :
    Spares (vector r) (Field.vector fields) (fun list => (list.map refs).sum) fun list =>
      ∀ a ∈ list, good a := by
  have state : Finds (get : Read Cursor) fun used _ => used = [] := by
    rintro c a c' ⟨⟩
    exact ⟨[], rfl, rfl, rfl⟩
  refine finds_bind finds_u32 fun used n count => finds_bind state fun _ c nothing =>
    finds_guard fun _ => ?_
  subst nothing
  refine (finds_entries h 0 n.toNat).mono fun used' list found => ?_
  obtain ⟨length, each, total⟩ := found
  refine ⟨fun none a ha => each a ha (each_of_sum none a ha), ?_⟩
  have first := count list.length length.le
  rw [Field.encodeAll_vector, List.length_append, List.length_append, List.nil_append]
  dsimp only
  omega

/-! ## Items -/

theorem spares_u32 : Spares u32 (fun v => [.u32 v]) (fun _ => 0) fun _ => True := by
  refine finds_u32.mono fun used v count => ⟨fun _ => trivial, ?_⟩
  have := count v.toNat le_rfl
  rw [Field.count, UInt32.ofNat_toNat] at this
  simpa using this

theorem spares_valType : Spares valType ValType.fields ValType.typedRefs fun t => t.isSimple := by
  refine finds_bind finds_byte fun used b same => ?_
  subst same
  dsimp only
  by_cases simple : (⟨b⟩ : ValType).isSimple
  · rw [if_pos simple]
    have plain : ¬ (⟨b⟩ : ValType).isTypedRef := by
      intro typed
      simp only [ValType.isTypedRef, Bool.or_eq_true, decide_eq_true_eq] at typed
      rcases typed with h | h <;> rw [h] at simple <;> exact absurd simple (by decide)
    refine finds_pure ⟨fun _ => simple, ?_⟩
    simp [ValType.fields, ValType.typedRefs, plain, Field.encode]
  · rw [if_neg simple]
    split
    · rename_i typed
      refine finds_bind finds_s64 fun used _ some => finds_pure ⟨?_, ?_⟩
      · intro none
        simp [ValType.typedRefs, typed] at none
      · have := List.length_pos_iff.mpr some
        simp [ValType.fields, ValType.typedRefs, typed, Field.encode]
        omega
    · exact finds_fail _

theorem spares_funcType : Spares funcType FuncType.fields FuncType.typedRefs fun t =>
      t.isSimple := by
  refine finds_bind finds_byte fun used form same => finds_guard fun _ => ?_
  subst same
  refine finds_bind (spares_vector spares_valType) fun used params first => ?_
  refine finds_bind (spares_vector spares_valType) fun used' results second =>
    finds_pure ⟨fun none => ?_, ?_⟩
  · obtain ⟨none, none'⟩ := Nat.add_eq_zero_iff.mp none
    simp only [FuncType.isSimple, Bool.and_eq_true, List.all_eq_true]
    exact ⟨first.1 none, second.1 none'⟩
  · have first := first.2
    have second := second.2
    simp only [FuncType.fields, FuncType.typedRefs, List.cons_append, Field.encodeAll_cons,
      Field.encodeAll_append, List.length_append, List.length_cons, List.length_nil,
      Field.encode] at first second ⊢
    omega

theorem spares_limits : Spares limits Limits.fields (fun _ => 0) fun l => l.isOrdered := by
  refine finds_bind finds_byte fun used flags same => ?_
  subst same
  refine finds_bind finds_u64 fun used min first => ?_
  dsimp only
  split
  · refine finds_pure ⟨fun _ => rfl, ?_⟩
    simp only [Limits.fields, Option.toList_none, List.map_nil, List.append_nil,
      Field.encodeAll_cons, Field.encodeAll_nil,
      List.length_append, List.length_cons, List.length_nil, Field.encode] at first ⊢
    omega
  · refine finds_bind finds_u64 fun used' max second => finds_guard fun above =>
      finds_pure ⟨fun _ => ?_, ?_⟩
    · simpa [Limits.isOrdered] using above
    · simp only [Limits.fields, Option.toList_some, List.map_cons, List.map_nil,
        Field.encodeAll_append, Field.encodeAll_cons, Field.encodeAll_nil, List.length_append,
        List.length_cons, List.length_nil, Field.encode] at first second ⊢
      omega

theorem spares_tableType : Spares tableType TableType.fields (fun t => t.elem.typedRefs) fun t =>
      t.isSimple := by
  refine finds_bind spares_valType fun used elem first => finds_guard fun reference => ?_
  refine finds_bind spares_limits fun used' limits second => finds_pure ⟨fun none => ?_, ?_⟩
  · have simple := first.1 none
    have typed : elem.isTypedRef = false := by
      by_contra typed
      simp [ValType.typedRefs, typed] at none
    simp only [ValType.isRef, typed, Bool.or_false, Bool.not_eq_true',
      Bool.not_eq_false] at reference
    simp only [TableType.isSimple, reference, Bool.true_and]
    exact second.1 rfl
  · have first := first.2
    have second := second.2
    simp only [TableType.fields, ValType.fields, Field.encodeAll_cons, Field.encodeAll_nil,
      List.length_append, List.length_nil] at first second ⊢
    omega

theorem spares_globalType :
    Spares globalType GlobalType.fields (fun g => g.type.typedRefs) fun g => g.type.isSimple := by
  refine finds_bind spares_valType fun used type first =>
    finds_bind finds_byte fun used' flag same => ?_
  subst same
  refine finds_guard fun _ => finds_pure ⟨first.1, ?_⟩
  have first := first.2
  simp only [GlobalType.fields, ValType.fields, Field.encodeAll_cons, Field.encodeAll_nil,
    List.length_append, List.length_cons, List.length_nil, Field.encode] at first ⊢
  omega

theorem spares_tagType : Spares tagType TagType.fields (fun _ => 0) fun _ => True := by
  refine finds_bind finds_byte fun used attr same => ?_
  subst same
  refine finds_bind spares_u32 fun used' index count => finds_pure ⟨fun _ => trivial, ?_⟩
  have count := count.2
  have one : (Field.byte attr).encode.length = 1 := rfl
  simp only [TagType.fields, Field.encodeAll_cons, Field.encodeAll_nil, List.length_append,
    List.length_cons, List.length_nil] at count ⊢
  omega

theorem finds_importDesc (kind : UInt8) :
    Finds (importDesc kind) fun used d => (d.typedRefs = 0 → d.isSimple) ∧
      ∃ fields, d.fields = some (.byte kind :: fields) ∧
      (encodeAll fields).length + d.typedRefs ≤ used.length := by
  unfold importDesc
  split
  · exact spares_u32.map _ fun used t found => ⟨fun _ => rfl, _, rfl, found.2⟩
  · exact spares_tableType.map _ fun used t found => ⟨found.1, _, rfl, found.2⟩
  · exact spares_limits.map _ fun used l found => ⟨found.1, _, rfl, found.2⟩
  · exact spares_globalType.map _ fun used g found => ⟨found.1, _, rfl, found.2⟩
  · exact spares_tagType.map _ fun used t found => ⟨fun _ => rfl, _, rfl, found.2⟩
  · exact finds_fail _

theorem spares_import :
    Spares importItem (fun i => i.fields.getD []) (fun i => i.desc.typedRefs) fun i =>
      i.desc.isSimple := by
  refine finds_bind finds_name fun used moduleName first =>
    finds_bind finds_name fun used' item second => ?_
  refine finds_bind finds_byte fun _ kind same =>
    finds_bind (finds_importDesc kind) fun used'' desc found => ?_
  subst same
  obtain ⟨simple, fields, described, spared⟩ := found
  refine finds_pure ⟨simple, ?_⟩
  have one : (Field.byte kind).encode.length = 1 := rfl
  simp only [Import.fields, described, Option.map_some, Option.getD_some, Field.encodeAll_append,
    Field.encodeAll_cons,
    Field.encodeAll_nil, List.length_append, List.length_cons, List.length_nil]
  omega

theorem spares_export : Spares exportItem Export.fields (fun _ => 0) fun e => e.kind ≤ 4 := by
  refine finds_bind finds_name fun used item first => finds_bind finds_byte fun _ kind same =>
    finds_guard fun known => ?_
  subst same
  refine finds_bind spares_u32 fun used' index second =>
    finds_pure ⟨fun _ => UInt8.not_lt.mp known, ?_⟩
  have second := second.2
  have one : (Field.byte kind).encode.length = 1 := rfl
  simp only [Export.fields, Field.encodeAll_cons, Field.encodeAll_nil, List.length_append,
    List.length_cons, List.length_nil] at second ⊢
  omega

theorem spares_global : Spares global Global.fields (fun g => g.type.type.typedRefs) fun g =>
    g.type.type.isSimple ∧ Instr.Skips g.init := by
  refine finds_bind spares_globalType fun used type first =>
    finds_bind finds_initExpr fun used' init second => ?_
  obtain ⟨rfl, skips⟩ := second
  refine finds_pure ⟨fun none => ⟨first.1 none, skips⟩, ?_⟩
  have first := first.2
  have raw : (Field.bytes init).encode.length = init.length := rfl
  simp only [Global.fields, Field.encodeAll_append, Field.encodeAll_cons, Field.encodeAll_nil,
    List.length_append, List.length_nil] at first ⊢
  omega

theorem finds_remaining : Finds remaining fun used _ => used = [] := by
  rintro c a c' ⟨⟩
  exact ⟨[], rfl, rfl, rfl⟩

theorem finds_onBytes (raw : List UInt8) (r : Read α) :
    Finds (onBytes raw r) fun used a => used = [] ∧ ∃ c, r (.ofBytes raw) = .ok a c := by
  intro c a c' done
  unfold onBytes at done
  split at done
  · rename_i stop found
    cases done
    exact ⟨[], rfl, rfl, rfl, stop, found⟩
  · cases done

theorem spares_funcBody : Spares funcBody FuncBody.fields (fun _ => 0) fun b =>
      Accepts funcBody b.fields b := by
  refine finds_bind finds_u32 fun used n count =>
    finds_bind (finds_bytes n.toNat) fun used' body found => ?_
  obtain ⟨rfl, length⟩ := found
  refine finds_bind (finds_onBytes used' _) fun _ p declared => finds_pure ⟨fun _ => ?_, ?_⟩
  · obtain ⟨-, stop, done⟩ := declared
    obtain ⟨locals, stop', runs, ⟨⟩⟩ := bind_ok.mp done
    exact accepts_funcBody fun _ => runs
  · obtain ⟨rfl, -⟩ := declared
    have first := count used'.length length.le
    have raw : (Field.bytes used').encode.length = used'.length := rfl
    simp only [FuncBody.fields, FuncBody.raw, Option.getD_some, Field.encodeAll_cons,
      Field.encodeAll_nil, List.length_append,
      List.length_nil]
    omega

end Read

/-! ## Sections -/

namespace Section

open Read Sidetable.Module
open Sidetable.Field (encodeAll)

def fields : Section → List Field
  | custom c => [customSection c]
  | types ts => vectorSection 1 FuncType.fields ts
  | imports is => vectorSection 2 (fun i => i.fields.getD []) is
  | funcs fs => vectorSection 3 (fun f => [.u32 f]) fs
  | tables ts => vectorSection 4 TableType.fields ts
  | memories ms => vectorSection 5 Limits.fields ms
  | tags ts => vectorSection 13 TagType.fields ts
  | globals gs => vectorSection 6 Global.fields gs
  | exports es => vectorSection 7 Export.fields es
  | start f => numberSection 8 (some f)
  | dataCount n => numberSection 12 (some n)
  | code bodies => vectorSection 10 FuncBody.fields bodies
  | elements _ | data _ => []

def typedRefs : Section → Nat
  | types ts => (ts.map FuncType.typedRefs).sum
  | imports is => (is.map fun i => i.desc.typedRefs).sum
  | tables ts => (ts.map fun t => t.elem.typedRefs).sum
  | globals gs => (gs.map fun g => g.type.type.typedRefs).sum
  | _ => 0

def Fine : Section → Prop
  | types ts => ∀ t ∈ ts, t.isSimple
  | imports is => ∀ i ∈ is, i.desc.isSimple
  | tables ts => ∀ t ∈ ts, t.isSimple
  | memories ms => ∀ l ∈ ms, l.isOrdered
  | globals gs => ∀ g ∈ gs, g.type.type.isSimple ∧ Instr.Skips g.init
  | exports es => ∀ e ∈ es, e.kind ≤ 4
  | code bodies => ∀ b ∈ bodies, Accepts funcBody b.fields b
  | _ => True

structure Fits (s : Section) (bound : Nat) : Prop where
  fine : s.typedRefs = 0 → s.Fine
  spared : (∀ f ∈ s.fields, f.payload.length + s.typedRefs ≤ bound)
  single : s.fields = [] ∧ s.typedRefs = 0 ∨ ∃ id payload, s.fields = [.sectionOf id payload]

theorem fits_vector {α : Type} {r : Read α} {items : α → List Field} {refs : α → Nat}
    {good : α → Prop} {id : UInt8} (wrap : List α → Section) (h : Spares r items refs good)
    (written : ∀ list, (wrap list).fields = vectorSection id items list)
    (lost : ∀ list, (wrap list).typedRefs = (list.map refs).sum)
    (fine : ∀ list, (∀ a ∈ list, good a) → (wrap list).Fine)
    {c c' : Cursor} {s : Section}
    (done : (do return wrap (← vector r) : Read Section) c = .ok s c') : s.Fits c.rest.length := by
  obtain ⟨list, stop, read, ⟨⟩⟩ := bind_ok.mp done
  obtain ⟨used, front, -, all, spared⟩ := spares_vector h c list c' read
  have room : used.length ≤ c.rest.length := by
    rw [front, List.length_append]
    exact Nat.le_add_right _ _
  refine ⟨fun none => fine list (all ((lost list).symm.trans none)), ?_, ?_⟩
  · rw [written, lost]
    cases list with
    | nil => exact fun f hf => absurd hf List.not_mem_nil
    | cons a rest =>
      intro f hf
      obtain rfl := List.mem_singleton.mp hf
      exact spared.trans room
  · rw [written, lost]
    cases list with
    | nil => exact .inl ⟨rfl, rfl⟩
    | cons a rest => exact .inr ⟨_, _, rfl⟩

theorem fits_number (wrap : UInt32 → Section)
    (written : ∀ v, (wrap v).fields = [] ∨ ∃ id,
      (wrap v).fields = [.sectionOf id (encodeAll [.u32 v])])
    (lost : ∀ v, (wrap v).typedRefs = 0) (fine : ∀ v, (wrap v).Fine)
    {c c' : Cursor} {s : Section} (done : (do return wrap (← u32) : Read Section) c = .ok s c') :
    s.Fits c.rest.length := by
  obtain ⟨v, stop, read, ⟨⟩⟩ := bind_ok.mp done
  obtain ⟨used, front, -, -, spared⟩ := spares_u32 c v c' read
  have room : used.length ≤ c.rest.length := by
    rw [front, List.length_append]
    exact Nat.le_add_right _ _
  rcases written v with none | ⟨id, one⟩
  · refine ⟨fun _ => fine v, ?_, .inl ⟨none, lost v⟩⟩
    rw [none]
    exact fun f hf => absurd hf List.not_mem_nil
  · refine ⟨fun _ => fine v, ?_, .inr ⟨id, _, one⟩⟩
    rw [one, lost]
    intro f hf
    obtain rfl := List.mem_singleton.mp hf
    exact spared.trans room

theorem fits_custom {c c' : Cursor} {s : Section} (done : Section.read 0 c = .ok s c') :
    s.Fits c.rest.length := by
  obtain ⟨name, stop, named, done⟩ := bind_ok.mp done
  obtain ⟨data, stop', ⟨⟩, ⟨⟩⟩ := bind_ok.mp done
  obtain ⟨used, front, -, short⟩ := finds_name c name c' named
  refine ⟨fun _ => trivial, fun f hf => ?_, .inr ⟨_, _, rfl⟩⟩
  obtain rfl := List.mem_singleton.mp hf
  have raw : (Field.bytes c'.rest).encode.length = c'.rest.length := rfl
  rw [front]
  simp only [customSection, Field.payload, typedRefs, Field.encodeAll_cons, Field.encodeAll_nil,
    List.length_append, List.length_nil]
  omega

theorem fits_read {id : UInt8} {c c' : Cursor} {s : Section} (done : Section.read id c = .ok s c') :
    s.Fits c.rest.length := by
  unfold Section.read at done
  split at done
  · exact fits_custom done
  · exact fits_vector .types spares_funcType (fun _ => rfl) (fun _ => rfl) (fun _ h => h) done
  · exact fits_vector .imports spares_import (fun _ => rfl) (fun _ => rfl) (fun _ h => h) done
  · exact fits_vector .funcs spares_u32 (fun _ => rfl) (by simp [typedRefs]) (fun _ _ => trivial)
      done
  · exact fits_vector .tables spares_tableType (fun _ => rfl) (fun _ => rfl) (fun _ h => h) done
  · exact fits_vector .memories spares_limits (fun _ => rfl) (by simp [typedRefs]) (fun _ h => h)
      done
  · exact fits_vector .globals spares_global (fun _ => rfl) (fun _ => rfl) (fun _ h => h) done
  · exact fits_vector .exports spares_export (fun _ => rfl) (by simp [typedRefs]) (fun _ h => h)
      done
  · exact fits_number .start (fun _ => .inr ⟨8, rfl⟩) (fun _ => rfl) (fun _ => trivial) done
  · exact fits_number .elements (fun _ => .inl rfl) (fun _ => rfl) (fun _ => trivial) done
  · exact fits_vector .code spares_funcBody (fun _ => rfl) (by simp [typedRefs]) (fun _ h => h) done
  · exact fits_number .data (fun _ => .inl rfl) (fun _ => rfl) (fun _ => trivial) done
  · exact fits_number .dataCount (fun _ => .inr ⟨12, rfl⟩) (fun _ => rfl) (fun _ => trivial) done
  · exact fits_vector .tags spares_tagType (fun _ => rfl) (by simp [typedRefs]) (fun _ _ => trivial)
      done
  · cases done

end Section

namespace Module

open Read
open Sidetable.Field (encodeAll)

theorem finds_readRank (last : Nat) : Finds (readRank last) fun used p => used = [p.1] ∧
    (p.1 ≠ 0 → last < Section.rank p.1) ∧ p.2 = if p.1 = 0 then last else Section.rank p.1 := by
  refine finds_bind (finds_byte.inPart _) fun used id same => ?_
  subst same
  dsimp only
  by_cases custom : id = 0
  · rw [if_pos custom]
    exact finds_pure ⟨rfl, fun other => absurd custom other, by rw [if_pos custom]⟩
  · rw [if_neg custom]
    exact finds_guard fun above =>
      finds_pure ⟨rfl, fun _ => Nat.not_le.mp above, by rw [if_neg custom]⟩

/-- Nothing is lost of a section but heap types, and what is written of it is not longer. -/
theorem finds_readSection (last : Nat) :
    Finds (readSection last) fun used p => (p.1.typedRefs = 0 → p.1.Fine) ∧ Short p.1.fields ∧
      (encodeAll p.1.fields).length + p.1.typedRefs ≤ used.length := by
  refine finds_bind (finds_readRank last) fun u₁ p rank =>
    finds_bind (finds_u32.inPart _) fun u₂ size count => ?_
  have rank : u₁.length = 1 := congrArg List.length rank.1
  refine finds_bind ((finds_bytes size.toNat).inPart _) fun u₃ payload found => ?_
  obtain ⟨rfl, length⟩ := found
  refine finds_bind ((finds_onBytes u₃ _).within _) fun u₄ s read => finds_pure ?_
  obtain ⟨rfl, c, done⟩ := read
  obtain ⟨fine, spared, single⟩ := Section.fits_read done
  have small := size.toNat_lt
  change ∀ f ∈ s.fields, f.payload.length + s.typedRefs ≤ u₃.length at spared
  refine ⟨fine, fun f hf => ?_, ?_⟩
  · have := spared f hf
    omega
  · rcases single with ⟨none, zero⟩ | ⟨id, payload, one⟩
    · simp [none, zero]
    · have within : payload.length + s.typedRefs ≤ u₃.length :=
        spared (.sectionOf id payload) (by rw [one]; exact List.mem_singleton_self _)
      have header := count payload.length (by omega)
      have shape : (Field.sectionOf id payload).encode =
          [id] ++ ((Field.count payload.length).encode ++ payload) := by
        simp [Field.encode, Field.count]
      simp only [one, Field.encodeAll_cons, Field.encodeAll_nil, shape, List.length_append,
        List.length_cons, List.length_nil]
      omega

def cost (m : Module) : Nat :=
  (encodeAll (m.sectionFields (m.imports.map fun i => i.fields.getD []))).length + m.typedRefs

theorem vectorSection_map {α β : Type} (id : UInt8) (fields : β → List Field) (f : α → β)
    (items : List α) :
    vectorSection id fields (items.map f) = vectorSection id (fun a => fields (f a)) items := by
  simp [vectorSection, Field.vector, List.flatMap_map]

theorem cost_addTo (m : Module) (s : Section) :
    (s.addTo m).cost ≤ m.cost + ((encodeAll s.fields).length + s.typedRefs) := by
  cases s <;>
    simp only [Section.addTo, cost, sectionFields, typedRefs, Section.fields, Section.typedRefs,
    vectorSection_map,
    List.map_append, List.map_cons, List.map_nil, Field.encodeAll_append, List.length_append, id]
    <;> omega

structure Parsed (m : Module) : Prop where
  types : (m.types.map FuncType.typedRefs).sum = 0 → ∀ t ∈ m.types, t.isSimple
  imports : (m.imports.map fun i => i.desc.typedRefs).sum = 0 → ∀ i ∈ m.imports, i.desc.isSimple
  tables : (m.tables.map fun t => t.elem.typedRefs).sum = 0 → ∀ t ∈ m.tables, t.isSimple
  memories : ∀ l ∈ m.memories, l.isOrdered
  globals : (m.globals.map fun g => g.type.type.typedRefs).sum = 0 →
    ∀ g ∈ m.globals, g.type.type.isSimple ∧ Instr.Skips g.init
  exports : ∀ e ∈ m.exports, e.kind ≤ 4
  code : ∀ b ∈ m.code, Accepts funcBody b.fields b
  short : Short (m.sectionFields (m.imports.map fun i => i.fields.getD []))

theorem parsed_empty : Parsed {} := by
  constructor <;> simp [Short, sectionFields, vectorSection, numberSection]

theorem Parsed.addTo {m : Module} {s : Section} (h : m.Parsed) (fine : s.typedRefs = 0 → s.Fine)
    (written : Short s.fields) : (s.addTo m).Parsed := by
  have short :
      Short ((s.addTo m).sectionFields ((s.addTo m).imports.map fun i => i.fields.getD [])) := by
    have old := h.short
    cases s <;> simp only [Short, Section.addTo, sectionFields, Section.fields, vectorSection_map,
      List.forall_mem_append,
      List.map_append, List.map_cons, List.map_nil, id] at old written ⊢ <;> tauto
  cases s with
  | types ts => exact { h with types := fine, short }
  | imports is => exact { h with imports := fine, short }
  | tables ts => exact { h with tables := fine, short }
  | memories ms => exact { h with memories := fine rfl, short }
  | globals gs => exact { h with globals := fine, short }
  | exports es => exact { h with exports := fine rfl, short }
  | code bodies => exact { h with code := fine rfl, short }
  | _ => exact { h with short }

theorem finds_readSections (fuel last : Nat) {m : Module} (h : m.Parsed) :
    Finds (readSections fuel last m) fun used m' => m'.Parsed ∧ m'.cost ≤ m.cost + used.length := by
  induction fuel generalizing last m with
  | zero => exact finds_pure ⟨h, Nat.le_add_right _ _⟩
  | succ fuel ih =>
    refine finds_bind finds_remaining fun used unread nothing => ?_
    subst nothing
    split
    · exact finds_pure ⟨h, Nat.le_add_right _ _⟩
    · refine finds_bind (finds_readSection last) fun used p found => ?_
      obtain ⟨fine, short, spared⟩ := found
      refine (ih p.2 (h.addTo fine short)).mono fun used' m' found => ⟨found.1, ?_⟩
      have := cost_addTo m p.1
      have := found.2
      simp only [List.nil_append, List.length_append]
      omega

theorem finds_header : Finds readHeader fun used _ =>
      used = encodeAll [.u32le magic, .u32le version] := by
  refine finds_bind (finds_u32le.inPart _) fun used v first => finds_guard fun known => ?_
  refine finds_bind (finds_u32le.inPart _) fun used' v' second => finds_guard fun known' =>
    finds_pure ?_
  rw [first, second, not_not.mp known, not_not.mp known']
  rfl

/-- Of every binary that is read as a module, what would be written for the module is not longer. -/
theorem parse_ok {b : List UInt8} {m : Module} (h : parse b = .ok m) :
    m.Parsed ∧ m.funcs.length = m.code.length ∧ m.cost + 8 ≤ b.length := by
  have found : Finds Module.read fun used m =>
      m.Parsed ∧ m.funcs.length = m.code.length ∧ m.cost + 8 ≤ used.length := by
    refine finds_bind finds_header fun used _ header =>
      finds_bind finds_remaining fun _ unread nothing => ?_
    subst nothing
    refine finds_bind (finds_readSections _ 0 parsed_empty) fun used' m found =>
      finds_guard fun paired => finds_pure ?_
    refine ⟨found.1, (not_not.mp paired).symm, ?_⟩
    have empty : cost {} = 0 := rfl
    have eight : used.length = 8 := congrArg List.length header
    have := found.2
    simp only [List.nil_append, List.append_nil, List.length_append]
    omega
  unfold parse at h
  split at h
  · rename_i m' stop read
    obtain rfl := Except.ok.inj h
    obtain ⟨used, front, -, parsed, paired, length⟩ := found _ _ _ read
    refine ⟨parsed, paired, length.trans ?_⟩
    have : b = used ++ stop.rest := (Cursor.mk.inj front).2
    rw [this, List.length_append]
    exact Nat.le_add_right _ _
  · cases h

theorem fields?_some {m : Module} {fields : List Field} (h : m.fields? = some fields) :
    fields = [.u32le magic, .u32le version] ++
      m.sectionFields (m.imports.map fun i => i.fields.getD []) := by
  have each {imports : List Import} {list : List (List Field)}
      (h : imports.mapM Import.fields = some list) :
      list = imports.map fun i => i.fields.getD [] := by
    induction imports generalizing list with
    | nil => simpa using h.symm
    | cons i rest ih =>
      simp only [List.mapM_cons, Option.bind_eq_bind, Option.bind_eq_some_iff, Option.pure_def,
        Option.some.injEq] at h
      obtain ⟨first, one, others, more, rfl⟩ := h
      rw [List.map_cons, one, ih more]
      rfl
  cases written : m.imports.mapM Import.fields with
  | none => simp [fields?, written] at h
  | some list =>
    rw [fields?_eq written, each written] at h
    exact (Option.some.inj h).symm

theorem length_encode? {m : Module} {e : List UInt8} (h : m.encode? = some e) :
    e.length + m.typedRefs = m.cost + 8 := by
  obtain ⟨fields, written, rfl⟩ := Option.map_eq_some_iff.mp h
  rw [fields?_some written, Field.encodeAll_append, List.length_append, cost]
  have header : (encodeAll [.u32le magic, .u32le version]).length = 8 := rfl
  omega

/-- A module that was parsed is parsed again from its own binary, the counts of segments apart,
exactly when it has no typed reference outside its bodies. -/
theorem reparse_iff {b : List UInt8} {m : Module} (h : parse b = .ok m) :
    (∃ e, m.encode? = some e ∧ parse e = .ok { m with elementSegments := 0, dataSegments := 0 }) ↔
      m.typedRefs = 0 := by
  obtain ⟨parsed, paired, -⟩ := parse_ok h
  constructor
  · rintro ⟨e, written, again⟩
    obtain ⟨-, -, bound⟩ := parse_ok again
    change m.cost + 8 ≤ e.length at bound
    have := length_encode? written
    omega
  · intro none
    obtain ⟨⟨⟨types, imports⟩, tables⟩, globals⟩ : ((_ ∧ _) ∧ _) ∧ _ := by
      simpa only [typedRefs, Nat.add_eq_zero_iff] using none
    have well : m.WellFormed := {
      types := parsed.types types, imports := parsed.imports imports, tables := parsed.tables tables
      memories := parsed.memories, globals := fun g hg => (parsed.globals globals g hg).1
      exports := parsed.exports, paired }
    refine parse_of_encode well (fun g hg => (parsed.globals globals g hg).2)
      (List.forall₂_same.mpr parsed.code) ?_
    intro fields written
    rw [fields?_some written]
    exact List.forall_mem_append.mpr ⟨by decide, parsed.short⟩

/-- A number of types in two bytes, a segment, and a body with a local of a typed reference. -/
theorem reparse_iff_sample :
    let b : List UInt8 :=
      [0, 0x61, 0x73, 0x6d, 1, 0, 0, 0, 1, 5, 0x81, 0, 0x60, 0, 0, 3, 2, 1, 0, 9, 1, 1,
      10, 7, 1, 5, 1, 1, 0x63, 0x70, 0x0b]
    let m : Module := {
      types := [⟨[], []⟩], funcs := [0], elementSegments := 1
      code := [⟨[⟨1, .refNull⟩], some [1, 1, 0x63, 0x70, 0x0b], [0x0b], 4⟩] }
    parse b = .ok m ∧ ∃ e, m.encode? = some e ∧
      parse e = .ok { m with elementSegments := 0, dataSegments := 0 } := by
  intro b m
  have read : parse b = .ok m := by decide +kernel
  exact ⟨read, (reparse_iff read).mpr (by decide)⟩

/-- A function type with a typed reference: its heap type is not written, and the binary breaks
off. -/
theorem typed_reference_breaks_off :
    let b : List UInt8 := [0, 0x61, 0x73, 0x6d, 1, 0, 0, 0, 1, 6, 1, 0x60, 1, 0x63, 0x70, 0]
    let m : Module := { types := [⟨[.refNull], []⟩] }
    let e : List UInt8 := [0, 0x61, 0x73, 0x6d, 1, 0, 0, 0, 1, 5, 1, 0x60, 1, 0x63, 0]
    parse b = .ok m ∧ m.encode? = some e ∧
      parse e = .error ⟨[.sectionNamed "type", .entry 0, .offset 5], .unexpectedEnd⟩ := by
  decide +kernel

end Module
end Sidetable
