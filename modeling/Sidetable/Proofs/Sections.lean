import Sidetable.Proofs.Spelling

/-!
# Modules written and read back

Each part of a module is read back from its fields, each section from its payload, and the sections
in their order from the binary.
-/
namespace Sidetable

namespace Field

@[simp] theorem encodeAll_nil : encodeAll [] = [] :=
  rfl

@[simp] theorem encodeAll_cons (f : Field) (fields : List Field) :
    encodeAll (f :: fields) = f.encode ++ encodeAll fields :=
  rfl

@[simp] theorem encodeAll_append (fields others : List Field) :
    encodeAll (fields ++ others) = encodeAll fields ++ encodeAll others :=
  List.flatMap_append

theorem varint_ne_nil (v : UInt64) : varint v ≠ [] := by
  rw [varint]
  split <;> simp

theorem encode_ne_nil {f : Field} (h : ∀ raw, f ≠ .bytes raw) : f.encode ≠ [] := by
  cases f with
  | bytes raw => exact absurd rfl (h raw)
  | byte b => simp [encode]
  | u32 v | u64 v => exact varint_ne_nil _
  | name text => simp [encode, varint_ne_nil]
  | u32le v => simp [encode, LittleEndian.encode]
  | sectionOf id payload => simp [encode]

theorem encodeAll_vector {α : Type} (fields : α → List Field) (items : List α) :
    encodeAll (vector fields items) =
      (count items.length).encode ++ (items.map fun a => encodeAll (fields a)).flatten := by
  rw [vector, encodeAll_cons]
  congr 1
  induction items with
  | nil => rfl
  | cons a rest ih => simp [ih]

def payload : Field → List UInt8
  | sectionOf _ payload => payload
  | _ => []

end Field

namespace Read

open Sidetable.Field (encodeAll)

variable {α β : Type} {r : Read α}

/-- The fields of an item are taken for it, provided that their encoding is not too long for a
length in it. -/
def Accepts (r : Read α) (fields : List Field) (a : α) : Prop :=
  encodeAll fields ≠ [] ∧ ((encodeAll fields).length < 0x100000000 → Takes r (encodeAll fields) a)

theorem takes_fields {fields : β → List Field} {items : List β} {list : List α}
    (h : List.Forall₂ (fun b a => Accepts r (fields b) a) items list)
    (small : (encodeAll (Field.vector fields items)).length < 0x100000000) :
    Takes (vector r) (encodeAll (Field.vector fields items)) list := by
  rw [Field.encodeAll_vector] at small ⊢
  have each : List.Forall₂ (fun piece a => Takes r piece a ∧ piece ≠ [])
      (items.map fun b => encodeAll (fields b)) list := by
    rw [List.length_append] at small
    replace small := Nat.lt_of_le_of_lt (Nat.le_add_left _ _) small
    rw [List.forall₂_map_left_iff]
    induction h with
    | nil => exact .nil
    | cons first others ih =>
      rw [List.map_cons, List.flatten_cons, List.length_append] at small
      exact .cons ⟨first.2 (by omega), first.1⟩ (ih (by omega))
  have count := length_le_flatten (each.imp fun _ _ item => item.2)
  rw [h.length_eq]
  rw [List.length_append] at small
  exact takes_vector (by omega) each

theorem takes_items (fields : α → List Field) {items : List α}
    (h : ∀ a ∈ items, Accepts r (fields a) a)
    (small : (encodeAll (Field.vector fields items)).length < 0x100000000) :
    Takes (vector r) (encodeAll (Field.vector fields items)) items :=
  takes_fields (List.forall₂_same.mpr h) small

theorem accepts_valType {t : ValType} (simple : t.isSimple) : Accepts valType t.fields t := by
  refine ⟨by simp [ValType.fields, Field.encode], fun _ => (takes_byte t.code).bind ?_⟩
  dsimp only
  rw [if_pos simple]
  exact takes_pure t

end Read

def FuncType.isSimple (t : FuncType) : Bool :=
  t.params.all ValType.isSimple && t.results.all ValType.isSimple

def Limits.isOrdered (l : Limits) : Bool :=
  l.max.all (l.min ≤ ·)

def TableType.isSimple (t : TableType) : Bool :=
  (t.elem = .funcref || t.elem = .externref) && t.limits.isOrdered

def ImportDesc.isSimple : ImportDesc → Bool
  | .func _ | .tag (some _) => true
  | .table (some t) => t.isSimple
  | .memory (some l) => l.isOrdered
  | .global (some g) => g.type.isSimple
  | _ => false

namespace Read

open Sidetable.Field (encodeAll)

theorem accepts_funcType {t : FuncType} (simple : t.isSimple) : Accepts funcType t.fields t := by
  refine ⟨by simp [FuncType.fields, Field.encode], fun small => ?_⟩
  simp only [FuncType.isSimple, Bool.and_eq_true, List.all_eq_true] at simple
  rw [FuncType.fields, List.cons_append, Field.encodeAll_cons, Field.encodeAll_append] at small ⊢
  simp only [List.length_append] at small
  have params := takes_items ValType.fields (fun p hp => accepts_valType (simple.1 p hp)) (by omega)
  have results :=
    takes_items ValType.fields (fun r hr => accepts_valType (simple.2 r hr)) (by omega)
  exact (takes_byte 0x60).bind (Takes.guard (params.bind (results.map _)) (by decide))

theorem flags_spec (l : Limits) :
    decide (l.flags &&& 2 ≠ 0) = l.shared ∧ decide (l.flags &&& 4 ≠ 0) = l.memory64 ∧
    (l.flags &&& 1 = 0 ↔ l.max = none) := by
  obtain ⟨min, max, shared, memory64⟩ := l
  cases max <;> cases shared <;> cases memory64 <;> simp [Limits.flags] <;> decide

theorem accepts_limits {l : Limits} (ordered : l.isOrdered) : Accepts limits l.fields l := by
  refine ⟨by simp [Limits.fields, Field.encode], fun _ => ?_⟩
  obtain ⟨shared, memory64, bounded⟩ := flags_spec l
  have same {max : Option UInt64} (h : l.max = max) :
      (⟨l.min, max, decide (l.flags &&& 2 ≠ 0), decide (l.flags &&& 4 ≠ 0)⟩ : Limits) = l := by
    rw [shared, memory64, ← h]
  rw [Limits.fields, Field.encodeAll_append, Field.encodeAll_cons, List.append_assoc]
  refine (takes_byte l.flags).bind ?_
  dsimp only
  rw [Field.encodeAll_cons, Field.encodeAll_nil, List.append_nil]
  refine (takes_u64 l.min).bind ?_
  cases max : l.max with
  | none =>
    rw [if_pos (bounded.mpr max), same max]
    exact takes_pure l
  | some v =>
    have above : ¬ v < l.min := by simpa [Limits.isOrdered, max] using ordered
    rw [if_neg (by simp [bounded, max])]
    rw [Option.toList_some, List.map_cons, List.map_nil, Field.encodeAll_cons]
    refine (takes_u64 v).bind (Takes.guard ?_ above)
    rw [same max]
    exact takes_pure l


theorem accepts_tableType {t : TableType} (simple : t.isSimple) : Accepts tableType t.fields t := by
  refine ⟨by simp [TableType.fields, Field.encode], fun small => ?_⟩
  simp only [TableType.isSimple, Bool.and_eq_true, Bool.or_eq_true, decide_eq_true_eq] at simple
  obtain ⟨elem, ordered⟩ := simple
  obtain ⟨known, reference⟩ : t.elem.isSimple ∧ t.elem.isRef := by
    rcases elem with h | h <;> rw [h] <;> decide
  rw [TableType.fields, Field.encodeAll_cons, List.length_append] at small
  have first := (accepts_valType known).2 (by simp [ValType.fields, Field.encode])
  have second := (accepts_limits ordered).2 (by omega)
  exact first.bind (Takes.guard (second.map _) (by simp [reference]))

theorem accepts_globalType {g : GlobalType} (simple : g.type.isSimple) :
    Accepts globalType g.fields g := by
  refine ⟨by simp [GlobalType.fields, Field.encode], fun _ => ?_⟩
  have first := (accepts_valType simple).2 (by simp [ValType.fields, Field.encode])
  refine first.bind ((takes_byte (if g.mutable then 1 else 0)).bind ?_)
  obtain ⟨type, mutable⟩ := g
  cases mutable
  · exact takes_pure (⟨type, false⟩ : GlobalType)
  · exact takes_pure (⟨type, true⟩ : GlobalType)

theorem accepts_tagType (t : TagType) : Accepts tagType t.fields t := by
  refine ⟨by simp [TagType.fields, Field.encode], fun _ => ?_⟩
  rw [TagType.fields, Field.encodeAll_cons, Field.encodeAll_cons, Field.encodeAll_nil,
    List.append_nil]
  exact (takes_byte t.attr).bind ((takes_u32 t.typeIndex).map _)

theorem takes_importDesc {d : ImportDesc} (simple : d.isSimple) :
    ∃ kind fields, d.fields = some (.byte kind :: fields) ∧
      ((encodeAll fields).length < 0x100000000 → Takes (importDesc kind) (encodeAll fields) d) := by
  match d, simple with
  | .func t, _ =>
    refine ⟨0, _, rfl, fun _ => ?_⟩
    rw [Field.encodeAll_cons, Field.encodeAll_nil, List.append_nil]
    exact (takes_u32 t).map _
  | .table (some t), simple =>
    exact ⟨1, _, rfl, fun small => ((accepts_tableType simple).2 small).map _⟩
  | .memory (some l), ordered =>
    exact ⟨2, _, rfl, fun small => ((accepts_limits ordered).2 small).map _⟩
  | .global (some g), simple =>
    exact ⟨3, _, rfl, fun small => ((accepts_globalType simple).2 small).map _⟩
  | .tag (some t), _ => exact ⟨4, _, rfl, fun small => ((accepts_tagType t).2 small).map _⟩

theorem length_name_le (text : String) :
    text.toUTF8.toList.length ≤ (Field.name text).encode.length := by
  rw [Field.encode_name, List.length_append]
  exact Nat.le_add_left _ _

theorem accepts_import {i : Import} (simple : i.desc.isSimple) :
    ∃ fields, i.fields = some fields ∧ Accepts importItem fields i := by
  obtain ⟨kind, desc, described, takes⟩ := takes_importDesc simple
  refine ⟨[.name i.moduleName, .name i.name] ++ .byte kind :: desc,
    by rw [Import.fields, described]; rfl, ?_, fun small => ?_⟩
  · simp [Field.encode_ne_nil]
  · have first := length_name_le i.moduleName
    have second := length_name_le i.name
    simp only [Field.encodeAll_cons, Field.encodeAll_append, Field.encodeAll_nil, List.append_nil,
      List.append_assoc, List.length_append] at small ⊢
    exact (takes_name (by omega)).bind ((takes_name (by omega)).bind
      ((takes_byte kind).bind ((takes (by omega)).map _)))

theorem accepts_export {e : Export} (known : e.kind ≤ 4) : Accepts exportItem e.fields e := by
  refine ⟨by simp [Export.fields, Field.encode_ne_nil], fun small => ?_⟩
  have name := length_name_le e.name
  simp only [Export.fields, Field.encodeAll_cons, Field.encodeAll_nil, List.append_nil,
    List.length_append] at small ⊢
  exact (takes_name (by omega)).bind ((takes_byte e.kind).bind
    (Takes.guard ((takes_u32 e.index).map _) (UInt8.not_lt.mpr known)))

theorem accepts_global {g : Global} (simple : g.type.type.isSimple) (init : Instr.Skips g.init) :
    Accepts global g.fields g := by
  refine ⟨by simp [Global.fields, GlobalType.fields, Field.encode], fun small => ?_⟩
  rw [Global.fields, Field.encodeAll_append, Field.encodeAll_cons, Field.encodeAll_nil,
    List.append_nil] at small ⊢
  rw [List.length_append] at small
  have type := (accepts_globalType simple).2 (by omega)
  exact type.bind ((takes_initExpr init).map _)

theorem accepts_func (f : UInt32) : Accepts u32 [.u32 f] f := by
  refine ⟨by simp [Field.encode_ne_nil], fun _ => ?_⟩
  rw [Field.encodeAll_cons, Field.encodeAll_nil, List.append_nil]
  exact takes_u32 f

/-! ## Bodies -/

theorem takes_onBytes {α : Type} {r : Read α} {raw : List UInt8} {a : α} {c : Cursor}
    (h : r (.ofBytes raw) = .ok a c) : Takes (onBytes raw r) [] a := by
  intro pos rest
  simp only [onBytes, h]
  rfl

theorem takes_localRuns {locals : List LocalRun} (simple : ∀ r ∈ locals, r.type.isSimple)
    (few : LocalRun.total locals ≤ maxLocals)
    (small : (FuncBody.assemble locals []).length < 0x100000000) :
    Takes localRuns (FuncBody.assemble locals []) locals := by
  have each : List.Forall₂ (fun piece r => Takes localRun piece r ∧ piece ≠ [])
      (locals.map fun r => Leb128.encodeU32 r.count ++ [r.type.code]) locals := by
    rw [List.forall₂_map_left_iff]
    refine List.forall₂_same.mpr fun r hr => ⟨?_, by simp⟩
    have count := takes_u32 r.count
    have type := (accepts_valType (simple r hr)).2 (by simp [ValType.fields, Field.encode])
    rw [Field.encode_u32] at count
    exact count.bind (type.map _)
  have length := length_le_flatten (each.imp fun _ _ item => item.2)
  rw [FuncBody.assemble, List.append_nil, List.flatMap_def, List.length_append] at small
  have runs := takes_vector (by omega) each
  rw [Field.count, Field.encode_u32, ← List.flatMap_def, ← List.append_nil (_ ++ _)] at runs
  have := (runs.within .locals).bind (f := fun runs => do
    if maxLocals < LocalRun.total runs then fail (.tooManyLocals (LocalRun.total runs))
    return runs) (Takes.guard (takes_pure locals) (Nat.not_lt.mpr few))
  rwa [List.append_nil] at this

/-- A body is kept as it is, apart from what its declarations of locals say. -/
theorem accepts_funcBody {b : FuncBody} {locals : List LocalRun} {stop : Cursor}
    (h : b.raw.length < 0x100000000 → localRuns (.ofBytes b.raw) = .ok locals stop) :
    Accepts funcBody b.fields
      { locals, body := some b.raw, code := b.raw.drop stop.pos,
        codeOffset := UInt32.ofNat stop.pos } := by
  refine ⟨by simp [FuncBody.fields, Field.count, Field.encode_ne_nil], fun small => ?_⟩
  simp only [FuncBody.fields, Field.encodeAll_cons, Field.encodeAll_nil, List.append_nil,
    List.length_append] at small ⊢
  have short : b.raw.length < 0x100000000 := by
    rw [Field.encode] at small
    omega
  obtain ⟨n, length, count⟩ := takes_count short
  have raw := takes_bytes b.raw
  rw [← length] at raw
  refine count.bind ?_
  rw [← List.append_nil (Field.encode _)]
  refine raw.bind ?_
  have declared : (do
      let runs ← localRuns
      return (runs, ← position) : Read _) (.ofBytes b.raw) = .ok (locals, stop.pos) stop :=
    bind_ok.mpr ⟨locals, stop, h short, rfl⟩
  exact (takes_onBytes declared).map fun p =>
    ({ locals := p.1, body := some b.raw, code := b.raw.drop p.2, codeOffset := UInt32.ofNat p.2 } :
      FuncBody)

end Read

/-! ## Sections -/

namespace Module

open Read
open Sidetable.Field (encodeAll)

theorem takes_section {id : UInt8} {size payload : List UInt8} {n : UInt32} {s : Section}
    {c : Cursor} {last : Nat} (above : id ≠ 0 → last < Section.rank id) (spelled : Takes u32 size n)
    (length : n.toNat = payload.length) (h : Section.read id (.ofBytes payload) = .ok s c) :
    Takes (readSection last) (id :: (size ++ payload))
      (s, if id = 0 then last else Section.rank id) := by
  have rank : Takes (readRank last) [id] (id, if id = 0 then last else Section.rank id) := by
    refine ((takes_byte id).inPart "section header").bind ?_
    by_cases custom : id = 0
    · simp only [custom, if_true]
      exact takes_pure _
    · have := above custom
      simp only [custom, if_false]
      exact Takes.guard (takes_pure _) (by omega)
  have raw := takes_bytes payload
  rw [← length] at raw
  have contents := (takes_onBytes h).within (.sectionNamed (Section.nameOf id))
  rw [← List.append_nil payload]
  exact rank.bind
    ((spelled.inPart "section size").bind ((raw.inPart "section data").bind (contents.map _)))

/-- Sections in front of others that rank above `low` are read as what they add to a module. Those
behind them have to rank above `high`. -/
def Adds (low high : Nat) (fields : List Field) (m m' : Module) : Prop :=
  ∀ fuel last pos rest, last ≤ low → (encodeAll fields ++ rest).length ≤ fuel →
    ∃ fuel' last', last' ≤ high ∧ rest.length ≤ fuel' ∧
      readSections fuel last m ⟨pos, encodeAll fields ++ rest⟩ =
      readSections fuel' last' m' ⟨pos + (encodeAll fields).length, rest⟩

variable {low mid high : Nat} {fields others : List Field} {m m' m'' : Module}

theorem adds_nil (h : low ≤ high) : Adds low high [] m m :=
  fun fuel last _ _ ranked enough => ⟨fuel, last, ranked.trans h, by simpa using enough, rfl⟩

theorem Adds.append (h : Adds low mid fields m m') (h' : Adds mid high others m' m'') :
    Adds low high (fields ++ others) m m'' := by
  intro fuel last pos rest ranked enough
  rw [Field.encodeAll_append, List.append_assoc] at enough ⊢
  obtain ⟨fuel', last', ranked', enough', same⟩ :=
    h fuel last pos (encodeAll others ++ rest) ranked enough
  obtain ⟨fuel'', last'', ranked'', enough'', same'⟩ := h' fuel' last' _ rest ranked' enough'
  refine ⟨fuel'', last'', ranked'', enough'', ?_⟩
  rw [same, same', List.length_append, Nat.add_assoc]

theorem readSections_succ {fuel last last' : Nat} {c c' : Cursor} {s : Section} (more : c.rest ≠ [])
    (h : readSection last c = .ok (s, last') c') :
    readSections (fuel + 1) last m c = readSections fuel last' (s.addTo m) c' := by
  have unread : c.rest.isEmpty = false := by simp [more]
  simp only [readSections, bind, EStateM.bind, remaining, unread, Bool.false_eq_true, if_false, h]

theorem adds_section {id : UInt8} {payload : List UInt8} {s : Section} {c : Cursor}
    (above : id ≠ 0 → low < Section.rank id) (small : payload.length < 0x100000000)
    (h : Section.read id (.ofBytes payload) = .ok s c) :
    Adds low (if id = 0 then low else Section.rank id) [.sectionOf id payload] m (s.addTo m) := by
  intro fuel last pos rest ranked enough
  rw [Field.encodeAll_cons, Field.encodeAll_nil, List.append_nil] at enough ⊢
  have some := Field.encode_ne_nil (f := .sectionOf id payload) nofun
  have positive := List.length_pos_iff.mpr some
  rw [List.length_append] at enough
  obtain ⟨fuel, rfl⟩ : ∃ n, fuel = n + 1 := ⟨fuel - 1, by omega⟩
  refine ⟨fuel, if id = 0 then last else Section.rank id, ?_, by omega, ?_⟩
  · split
    · exact ranked
    · exact le_rfl
  · obtain ⟨n, length, count⟩ := takes_count small
    have one :=
      takes_section (fun custom => Nat.lt_of_le_of_lt ranked (above custom)) count length h pos rest
    exact readSections_succ (by simp [some]) one

def Short (fields : List Field) : Prop :=
  ∀ f ∈ fields, f.payload.length < 0x100000000

theorem adds_customs (customs : List Custom) (short : Short (customs.map customSection)) :
    Adds low low (customs.map customSection) m { m with customs := m.customs ++ customs } := by
  induction customs generalizing m with
  | nil =>
    rw [List.append_nil]
    exact adds_nil le_rfl
  | cons c rest ih =>
    have small : (encodeAll [.name c.name, .bytes c.data]).length < 0x100000000 :=
      short _ List.mem_cons_self
    have text := length_name_le c.name
    simp only [Field.encodeAll_cons, Field.encodeAll_nil, List.append_nil,
      List.length_append] at small
    have read :
        Section.read 0 (.ofBytes (encodeAll [.name c.name, .bytes c.data])) = .ok (.custom c)
        ⟨(Field.name c.name).encode.length, c.data⟩ := by
      rw [Field.encodeAll_cons, Field.encodeAll_cons, Field.encodeAll_nil, List.append_nil]
      have named : Takes name (Field.name c.name).encode c.name := takes_name (by omega)
      have front := named 0 c.data
      rw [Nat.zero_add] at front
      exact bind_ok.mpr ⟨c.name, _, front, rfl⟩
    have first : Adds low low _ m _ :=
      adds_section (fun custom => absurd rfl custom) (by simpa using small) read
    have others := ih (m := { m with customs := m.customs ++ [c] }) fun f hf =>
      short f (List.mem_cons_of_mem _ hf)
    rw [List.append_assoc] at others
    exact first.append others

/-- A section of items; an empty one is left out and adds nothing. -/
theorem adds_vector {α β : Type} {r : Read α} {id : UInt8} {fields : β → List Field}
    {items : List β} {list : List α}
    (wrap : List α → Section) (read : Section.read id = do return wrap (← vector r))
    (place : id ≠ 0 ∧ low < Section.rank id) (short : Short (vectorSection id fields items))
    (h : List.Forall₂ (fun b a => Accepts r (fields b) a) items list)
    (something : (wrap list).addTo m = m') (nothing : list = [] → m' = m) :
    Adds low (Section.rank id) (vectorSection id fields items) m m' := by
  obtain ⟨custom, above⟩ := place
  cases h with
  | nil =>
    rw [nothing rfl]
    exact adds_nil above.le
  | cons first others =>
    rw [← something]
    have small : (encodeAll _).length < _ := short _ List.mem_cons_self
    have contents := (takes_fields (.cons first others) small).map wrap 0 []
    rw [List.append_nil] at contents
    have := adds_section (m := m) (fun _ => above) small ((congrFun read _).trans contents)
    rwa [if_neg custom] at this

theorem adds_number {id : UInt8} {v : Option UInt32} (wrap : UInt32 → Section)
    (read : Section.read id = do return wrap (← u32)) (place : id ≠ 0 ∧ low < Section.rank id)
    (short : Short (numberSection id v)) (something : ∀ n, v = some n → (wrap n).addTo m = m')
    (nothing : v = none → m' = m) : Adds low (Section.rank id) (numberSection id v) m m' := by
  obtain ⟨custom, above⟩ := place
  cases v with
  | none =>
    rw [nothing rfl]
    exact adds_nil above.le
  | some n =>
    have small : (encodeAll _).length < _ := short _ List.mem_cons_self
    have contents := (takes_u32 n).map wrap 0 []
    rw [← something n rfl]
    have := adds_section (m := m) (fun _ => above) small ((congrFun read _).trans contents)
    rwa [if_neg custom] at this

/-- What the reader asks of the parts of a module. -/
structure WellFormed (m : Module) : Prop where
  types : ∀ t ∈ m.types, t.isSimple
  imports : ∀ i ∈ m.imports, i.desc.isSimple
  tables : ∀ t ∈ m.tables, t.isSimple
  memories : ∀ l ∈ m.memories, l.isOrdered
  globals : ∀ g ∈ m.globals, g.type.type.isSimple
  exports : ∀ e ∈ m.exports, e.kind ≤ 4
  paired : m.funcs.length = m.code.length

theorem accepts_imports {imports : List Import} (simple : ∀ i ∈ imports, i.desc.isSimple) :
    ∃ list, imports.mapM Import.fields = some list ∧
      List.Forall₂ (fun fields i => Accepts importItem fields i) list imports := by
  induction imports with
  | nil => exact ⟨[], rfl, .nil⟩
  | cons i rest ih =>
    obtain ⟨fields, written, accepts⟩ := accepts_import (simple i List.mem_cons_self)
    obtain ⟨list, others, accept⟩ := ih fun j hj => simple j (List.mem_cons_of_mem i hj)
    exact ⟨fields :: list, by simp [written, others], .cons accepts accept⟩

theorem takes_header : Takes readHeader (encodeAll [.u32le magic, .u32le version]) () := by
  have word (v : UInt32) := (takes_u32le v).inPart "header"
  exact (word magic).bind
    (Takes.guard ((word version).bind (Takes.guard (takes_pure ()) (by decide))) (by decide))

theorem readSections_nil (fuel last pos : Nat) :
    readSections fuel last m ⟨pos, []⟩ = .ok m ⟨pos, []⟩ := by
  cases fuel <;> rfl

def sectionFields (m : Module) (imports : List (List Field)) : List Field :=
  vectorSection 1 FuncType.fields m.types ++ (vectorSection 2 id imports ++
    (vectorSection 3 (fun f => [.u32 f]) m.funcs ++ (vectorSection 4 TableType.fields m.tables ++
    (vectorSection 5 Limits.fields m.memories ++ (vectorSection 13 TagType.fields m.tags ++
    (vectorSection 6 Global.fields m.globals ++ (vectorSection 7 Export.fields m.exports ++
    (numberSection 8 m.start ++
    (numberSection 12 m.dataCount ++ (vectorSection 10 FuncBody.fields m.code ++
    m.customs.map customSection))))))))))

theorem fields?_eq {imports : List (List Field)} (h : m.imports.mapM Import.fields = some imports) :
    m.fields? = some ([.u32le magic, .u32le version] ++ m.sectionFields imports) := by
  rw [fields?, h]
  simp only [sectionFields, List.append_assoc]
  rfl

theorem adds_sectionFields {imports : List (List Field)} {bodies : List FuncBody}
    (well : m.WellFormed) (inits : ∀ g ∈ m.globals, Instr.Skips g.init)
    (imported : List.Forall₂ (fun fields i => Accepts importItem fields i) imports m.imports)
    (accepted : List.Forall₂ (fun b b' => Accepts funcBody b.fields b') m.code bodies)
    (short : Short (m.sectionFields imports)) :
    Adds 0 12 (m.sectionFields imports) {} { m with
      code := bodies, elementSegments := 0, dataSegments := 0 } := by
  have same {α : Type} {r : Read α} {fields : α → List Field} {items : List α}
      (h : ∀ a ∈ items, Accepts r (fields a) a) :
      List.Forall₂ (fun b a => Accepts r (fields b) a) items items := List.forall₂_same.mpr h
  have funcs := same fun f (_ : f ∈ m.funcs) => accepts_func f
  have tags := same fun t (_ : t ∈ m.tags) => accepts_tagType t
  have types := same fun t ht => accepts_funcType (well.types t ht)
  have tables := same fun t ht => accepts_tableType (well.tables t ht)
  have memories := same fun l hl => accepts_limits (well.memories l hl)
  have globals := same fun g hg => accepts_global (well.globals g hg) (inits g hg)
  have exports := same fun e he => accepts_export (well.exports e he)
  simp only [sectionFields, Short, List.forall_mem_append] at short
  obtain ⟨s₁, s₂, s₃, s₄, s₅, s₁₃, s₆, s₇, s₈, s₁₂, s₁₀, s₀⟩ := short
  let m₁ : Module := { types := m.types }
  let m₂ : Module := { m₁ with imports := m.imports }
  let m₃ : Module := { m₂ with funcs := m.funcs }
  let m₄ : Module := { m₃ with tables := m.tables }
  let m₅ : Module := { m₄ with memories := m.memories }
  let m₁₃ : Module := { m₅ with tags := m.tags }
  let m₆ : Module := { m₁₃ with globals := m.globals }
  let m₇ : Module := { m₆ with exports := m.exports }
  let m₈ : Module := { m₇ with start := m.start }
  let m₁₂ : Module := { m₈ with dataCount := m.dataCount }
  let m₁₀ : Module := { m₁₂ with code := bodies }
  have h₁ : Adds 0 1 _ {} m₁ := adds_vector .types rfl (by decide) s₁ types rfl fun h => by
    simp only [m₁, h]
  have h₂ : Adds 1 2 _ m₁ m₂ := adds_vector .imports rfl (by decide) s₂ imported rfl
    fun h => by simp only [m₂, h]; rfl
  have h₃ : Adds 2 3 _ m₂ m₃ := adds_vector .funcs rfl (by decide) s₃ funcs rfl fun h => by
    simp only [m₃, h]; rfl
  have h₄ : Adds 3 4 _ m₃ m₄ := adds_vector .tables rfl (by decide) s₄ tables rfl fun h => by
    simp only [m₄, h]; rfl
  have h₅ : Adds 4 5 _ m₄ m₅ := adds_vector .memories rfl (by decide) s₅ memories rfl
    fun h => by simp only [m₅, h]; rfl
  have h₁₃ : Adds 5 6 _ m₅ m₁₃ := adds_vector .tags rfl (by decide) s₁₃ tags rfl fun h => by
    simp only [m₁₃, h]; rfl
  have h₆ : Adds 6 7 _ m₁₃ m₆ := adds_vector .globals rfl (by decide) s₆ globals rfl
    fun h => by simp only [m₆, h]; rfl
  have h₇ : Adds 7 8 _ m₆ m₇ := adds_vector .exports rfl (by decide) s₇ exports rfl fun h => by
    simp only [m₇, h]; rfl
  have h₈ : Adds 8 9 _ m₇ m₈ :=
    adds_number .start rfl (by decide) s₈ (fun n h => by simp only [m₈, h]; rfl)
    fun h => by simp only [m₈, h]; rfl
  have h₁₂ : Adds 9 11 _ m₈ m₁₂ :=
    adds_number .dataCount rfl (by decide) s₁₂ (fun n h => by simp only [m₁₂, h]; rfl)
    fun h => by simp only [m₁₂, h]; rfl
  have h₁₀ : Adds 11 12 _ m₁₂ m₁₀ := adds_vector .code rfl (by decide) s₁₀ accepted rfl
    fun h => by simp only [m₁₀, h]; rfl
  have h₀ : Adds 12 12 _ m₁₀ { m₁₀ with customs := [] ++ m.customs } := adds_customs m.customs s₀
  exact h₁.append
    (h₂.append (h₃.append (h₄.append (h₅.append (h₁₃.append (h₆.append (h₇.append (h₈.append
    (h₁₂.append (h₁₀.append h₀))))))))))

/-- The binary of a well-formed module is read as the module, with each body as it is read from its
bytes. -/
theorem parse_of_encode {bodies : List FuncBody} (well : m.WellFormed)
    (inits : ∀ g ∈ m.globals, Instr.Skips g.init)
    (accepted : List.Forall₂ (fun b b' => Accepts funcBody b.fields b') m.code bodies)
    (short : ∀ fields, m.fields? = some fields → Short fields) :
    ∃ bytes, m.encode? = some bytes ∧
      parse bytes = .ok { m with code := bodies, elementSegments := 0, dataSegments := 0 } := by
  obtain ⟨imports, written, imported⟩ := accepts_imports well.imports
  have fields := fields?_eq written
  refine ⟨_, by rw [encode?, fields]; rfl, ?_⟩
  rw [Field.encodeAll_append]
  have sections :=
    adds_sectionFields well inits imported accepted (List.forall_mem_append.mp (short _ fields)).2
  obtain ⟨fuel, last, -, -, read⟩ := sections _ 0 8 [] le_rfl le_rfl
  rw [readSections_nil, List.append_nil] at read
  have count : ¬ bodies.length ≠ m.funcs.length := by
    rw [not_not, ← accepted.length_eq, well.paired]
  have whole : Module.read
      (.ofBytes (encodeAll [.u32le magic, .u32le version] ++ encodeAll (m.sectionFields imports))) =
      .ok _ _ :=
    bind_ok.mpr ⟨(), _, takes_header 0 _, bind_ok.mpr ⟨_, _, rfl,
      bind_ok.mpr ⟨_, _, read, by rw [if_neg count]; rfl⟩⟩⟩
  rw [parse, whole]

end Module

/-- The initial value is given by instructions of which the last and only the last is an `end`. -/
def Global.Ends (g : Global) : Prop :=
  ∃ front last, Instr.decodeAll g.init = .ok (front ++ [last]) ∧ last.opcode = 0x0b ∧ ∀ i ∈ front,
    i.opcode ≠ 0x0b

def FuncBody.isLoose (b : FuncBody) : Bool :=
  b.body = none && (b.locals.all fun r => r.type.isSimple) && b.numLocals ≤ Read.maxLocals

def FuncBody.assembled (b : FuncBody) : FuncBody :=
  { b with
    body := some (assemble b.locals b.code)
    codeOffset := UInt32.ofNat (assemble b.locals []).length }

namespace Module

open Read

theorem accepts_assembled {b : FuncBody} (loose : b.isLoose) :
    Accepts funcBody b.fields b.assembled := by
  simp only [FuncBody.isLoose, Bool.and_eq_true, decide_eq_true_eq, List.all_eq_true] at loose
  obtain ⟨⟨none, simple⟩, few⟩ := loose
  have raw : b.raw = FuncBody.assemble b.locals [] ++ b.code := by
    rw [FuncBody.raw, none]
    simp [FuncBody.assemble]
  have declared (short : b.raw.length < 0x100000000) : localRuns (.ofBytes b.raw) =
      .ok b.locals ⟨0 + (FuncBody.assemble b.locals []).length, b.code⟩ := by
    rw [raw, List.length_append] at short
    rw [raw]
    exact takes_localRuns simple few (by omega) 0 b.code
  have accepts := accepts_funcBody declared
  have same :
      b.assembled = ⟨b.locals, some b.raw, b.raw.drop (0 + (FuncBody.assemble b.locals []).length),
      UInt32.ofNat (0 + (FuncBody.assemble b.locals []).length)⟩ := by
    rw [Nat.zero_add, raw, List.drop_left]
    simp [FuncBody.assembled, FuncBody.assemble]
  rw [same]
  exact accepts

/-- A well-formed module has a binary, and reading it gives the module back without the counts of
segments and with its bodies put together. -/
theorem parse_encode_assembled {m : Module} (well : m.WellFormed) (inits : ∀ g ∈ m.globals, g.Ends)
    (loose : ∀ b ∈ m.code, b.isLoose)
    (short : ∀ fields, m.fields? = some fields → ∀ f ∈ fields, f.payload.length < 0x80000000) :
    ∃ bytes, m.encode? = some bytes ∧ parse bytes =
      .ok { m with
        elementSegments := 0, dataSegments := 0, code := m.code.map FuncBody.assembled } := by
  refine parse_of_encode well (fun g hg => ?_) ?_ fun fields written f hf => ?_
  · obtain ⟨front, last, decoded, stop, others⟩ := inits g hg
    exact Instr.skips_of_readAll (c := .ofBytes g.init) le_rfl decoded stop others
  · rw [List.forall₂_map_right_iff]
    exact List.forall₂_same.mpr fun b hb => accepts_assembled (loose b hb)
  · have := short fields written f hf
    omega

/-- A module with something in every section that is written. -/
theorem parse_encode_assembled_sample :
    let m : Module := {
      types := [⟨[.i32, .funcref], [.f64]⟩]
      imports := [⟨"env", "t", .table (some ⟨.externref, ⟨1, some 2, false, false⟩⟩)⟩]
      funcs := [0], tables := [⟨.funcref, ⟨0, none, false, false⟩⟩],
      memories := [⟨1, some 300, true, true⟩], globals := [⟨⟨.i32, true⟩, [0x41, 0x0b, 0x0b]⟩],
      exports := [⟨"run", 0, 0⟩], start := some 0,
      code := [{ locals := [⟨2, .i64⟩], code := [0x0b] }], tags := [⟨0, 0⟩], dataCount := some 1,
      elementSegments := 3, customs := [⟨"name", [1, 2]⟩] }
    ∃ bytes, m.encode? = some bytes ∧ parse bytes =
      .ok { m with
        elementSegments := 0, code := [⟨[⟨2, .i64⟩], some [1, 2, 0x7e, 0x0b], [0x0b], 3⟩] } := by
  intro m
  have well : m.WellFormed := by
    constructor <;> decide
  have inits : ∀ g ∈ m.globals, g.Ends := by
    intro g hg
    obtain rfl := List.mem_singleton.mp hg
    exact ⟨[⟨⟨0x41, 0, .i32 11⟩, 0, 2⟩], ⟨⟨0x0b, 0, .none⟩, 2, 3⟩, by decide, rfl, by decide⟩
  have short : ∀ fields, m.fields? = some fields → ∀ f ∈ fields, f.payload.length < 0x80000000 := by
    intro fields written
    obtain rfl : m.fields?.getD [] = fields := by
      rw [written]
      rfl
    decide +kernel
  exact parse_encode_assembled well inits (by decide) short

end Module
end Sidetable
