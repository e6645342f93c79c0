import Sidetable.Proofs.Chunks
import Sidetable.Proofs.Scans

/-!
# Index spaces

The index of an imported item is the number of imports of its kind that stand before it, and the
defined items follow the imported ones. Every lookup of a module agrees with that, whatever other
imports stand between, and the bindings of the globals are derived for the same indices.
-/
namespace Sidetable
namespace Module

open ImportKind (func global tag)

def Described (m : Module) : Prop :=
  global.Filled m.imports ∧ tag.Filled m.imports

/-- What the lookups of a module have to say of the index `i`. -/
structure Indexed (m : Module) (i : UInt32) : Prop where
  importedFunc : i.toNat < m.numImportedFuncs →
    ∃ t, func.Nth m.imports i.toNat t ∧ m.funcType i = m.typeAt t
  definedFunc : m.numImportedFuncs ≤ i.toNat →
    m.funcType i = m.funcs[i.toNat - m.numImportedFuncs]?.bind m.typeAt
  importedGlobal : i.toNat < m.numImportedGlobals →
    ∃ g, global.Nth m.imports i.toNat g ∧ m.globalAt i = some (g, true)
  definedGlobal : m.numImportedGlobals ≤ i.toNat →
    m.globalAt i = m.globals[i.toNat - m.numImportedGlobals]?.map fun g => (g.type, false)
  importedTag : i.toNat < m.numImportedTags →
    ∃ t, tag.Nth m.imports i.toNat t ∧ m.tagAt i = some t
  definedTag : m.numImportedTags ≤ i.toNat →
    m.tagAt i = m.tags[i.toNat - m.numImportedTags]?
  /-- the global has a binding exactly if it exists, and there it has the same type -/
  bound : m.globalInfos[i.toNat]?.map GlobalInfo.type = (m.globalAt i).map fun (g, _) => g.type
  /-- the binding is portable exactly if the global can be written from elsewhere -/
  portable : ∀ info g imported,
    m.globalInfos[i.toNat]? = some info → m.globalAt i = some (g, imported) →
    (info.binding = .portable ↔
      g.mutable ∧ (imported ∨ ∃ e ∈ m.exports, e.kind = Export.globalKind ∧ e.index = i))

variable {m : Module} {i : UInt32}

theorem filled_func (m : Module) : func.Filled m.imports :=
  fun _ _ _ => rfl

theorem portable_iff {p : Bool} : (if p then Binding.portable else .embedded) = .portable ↔ p := by
  cases p <;> decide

section Lookup

variable {α : Type} {k : ImportKind α} (filled : k.Filled m.imports)
include filled

/-- The loop that counts imports and those that look them up agree on how many there are. -/
theorem length_picked_eq : (k.picked m.imports).length = m.numImported k.number := by
  rw [ImportKind.length_picked filled, numImported_eq]

theorem nth_of_lt {n : Nat} (below : n < m.numImported k.number) :
    ∃ a, (k.picked m.imports)[n]? = some a ∧ k.Nth m.imports n a := by
  rw [← length_picked_eq filled] at below
  have there := List.getElem?_eq_getElem below
  exact ⟨_, there, ImportKind.nth_of_picked filled there⟩

end Lookup

theorem Described.indexed (h : m.Described) (i : UInt32) : m.Indexed i := by
  obtain ⟨globals, tags⟩ := h
  have funcs := m.filled_func
  constructor
  · intro below
    obtain ⟨t, there, nth⟩ := nth_of_lt funcs below
    exact ⟨t, nth, funcType_imported there⟩
  · intro above
    have length : (func.picked m.imports).length = m.numImportedFuncs := length_picked_eq funcs
    rw [funcType_defined (by rwa [length]), length]
  · intro below
    obtain ⟨g, there, nth⟩ := nth_of_lt globals below
    exact ⟨g, nth, globalAt_imported there⟩
  · intro above
    have length : (global.picked m.imports).length = m.numImportedGlobals :=
      length_picked_eq globals
    rw [globalAt_defined (by rwa [length]), length]
  · intro below
    obtain ⟨t, there, nth⟩ := nth_of_lt tags below
    exact ⟨t, nth, tagAt_imported there⟩
  · intro above
    have length : (tag.picked m.imports).length = m.numImportedTags := length_picked_eq tags
    rw [tagAt_defined (by rwa [length]), length]
  · rw [globalInfos_eq, Option.map_map]
    rfl
  · intro info g imported bound found
    rw [globalInfos_eq, found] at bound
    obtain rfl := Option.some.inj bound
    refine portable_iff.trans ?_
    simp [isExported]

end Module

/-! ## What is read -/

open Read in
theorem Read.described_importItem {p : Import} {c stop : Cursor} (h : importItem c = .ok p stop) :
    (p.desc.kind = ImportDesc.globalKind → p.desc.global?.isSome) ∧
    (p.desc.kind = ImportDesc.tagKind → p.desc.tag?.isSome) := by
  obtain ⟨moduleName, c₁, -, h⟩ := bind_ok.mp h
  obtain ⟨item, c₂, -, h⟩ := bind_ok.mp h
  obtain ⟨kind, c₃, -, h⟩ := bind_ok.mp h
  obtain ⟨desc, c₄, read, h⟩ := bind_ok.mp h
  cases h
  unfold importDesc at read
  split at read
  case h_6 => cases read
  all_goals
    obtain ⟨a, c₅, -, read⟩ := bind_ok.mp read
    cases read
    refine ⟨fun same => ?_, fun same => ?_⟩
    all_goals first
      | rfl
      | cases same

namespace Module

variable {m : Module}

theorem described_of_parse {b : List UInt8} (h : parse b = .ok m) : m.Described := by
  refine parse_induction ⟨nofun, nofun⟩ (fun m s described read => ?_) h
  obtain ⟨id, c, stop, read⟩ := read
  have items := Section.items_of_read read
  cases s with
  | imports imports =>
    obtain ⟨stop, items⟩ := items
    have each := Read.each_of_vector (fun _ _ _ => Read.described_importItem) items
    exact ⟨fun p member => (each p member).1, fun p member => (each p member).2⟩
  | _ => exact described

/-- In each index space the imports of the kind come first, and all lookups split there. -/
theorem index_spaces_agree :
    (∀ b m, parse b = .ok m → Described m) ∧
    ∀ m, Described m →
      m.numImportedFuncs = ImportKind.func.count m.imports ∧
      m.numImportedGlobals = ImportKind.global.count m.imports ∧
      m.numImportedTags = ImportKind.tag.count m.imports ∧ ∀ i, m.Indexed i := by
  refine ⟨fun _ _ h => described_of_parse h, fun m h => ?_⟩
  exact ⟨m.numImported_eq .func, m.numImported_eq .global, m.numImported_eq .tag, h.indexed⟩

/-- Imports of all kinds in turn, and an exported global after an imported one. -/
theorem index_spaces_agree_mixed :
    let m : Module := {
      types := [⟨[], []⟩, ⟨[.i32], []⟩]
      imports := [⟨"a", "m", .memory none⟩, ⟨"a", "g", .global (some ⟨.i32, true⟩)⟩,
        ⟨"a", "f", .func 1⟩, ⟨"a", "t", .tag (some ⟨0, 1⟩)⟩, ⟨"a", "h", .func 0⟩]
      funcs := [1], tags := [⟨0, 0⟩], globals := [⟨⟨.i64, true⟩, []⟩, ⟨⟨.i64, true⟩, []⟩]
      exports := [⟨"e", Export.globalKind, 1⟩] }
    m.Described ∧ (∃ t, ImportKind.func.Nth m.imports 1 t ∧ m.funcType 1 = m.typeAt t) ∧
      m.funcType 2 = m.typeAt 1 ∧
      (∃ g, ImportKind.global.Nth m.imports 0 g ∧ m.globalAt 0 = some (g, true)) ∧
      m.globalAt 3 = none ∧ m.tagAt 1 = some ⟨0, 0⟩ ∧
      (m.globalInfos[1]? = some ⟨.i64, .portable⟩ ∧
        ∃ e ∈ m.exports, e.kind = Export.globalKind ∧ e.index = 1) ∧
      m.globalInfos[2]? = some ⟨.i64, .embedded⟩ := by
  intro m
  have described : m.Described := by
    constructor
    all_goals
      intro p member same
      simp only [m, List.mem_cons, List.not_mem_nil, or_false] at member
      rcases member with rfl | rfl | rfl | rfl | rfl
    all_goals first
      | rfl
      | cases same
  have agree := (index_spaces_agree.2 m described).2.2.2
  have shared := (agree 1).portable ⟨.i64, .portable⟩ ⟨.i64, true⟩ false (by decide) (by decide)
  refine ⟨described, (agree 1).importedFunc (by decide), (agree 2).definedFunc (by decide), ?_⟩
  refine ⟨(agree 0).importedGlobal (by decide), (agree 3).definedGlobal (by decide), ?_⟩
  refine ⟨(agree 1).definedTag (by decide), ⟨by decide, ?_⟩, by decide⟩
  exact (shared.mp rfl).2.resolve_left (by decide)

end Module
end Sidetable
