import Sidetable.Module

/-!
# Scans of the imports

Functions, globals and tags are looked up by loops of their own, a further loop counts the imports
of a kind, and another one derives the bindings of the globals. Each passes over the imports of
other kinds, so they agree on which import has which index.
-/
namespace Sidetable

/-- The number of a kind of imports that have indices, and what a description of it says. -/
structure ImportKind (α : Type) where
  number : UInt8
  get? : ImportDesc → Option α

namespace ImportKind

def func : ImportKind UInt32 := ⟨ImportDesc.funcKind, fun d => some d.typeIndex⟩

def global : ImportKind GlobalType := ⟨ImportDesc.globalKind, ImportDesc.global?⟩

def tag : ImportKind TagType := ⟨ImportDesc.tagKind, ImportDesc.tag?⟩

variable {α : Type} (k : ImportKind α) (imports : List Import)

def count : Nat :=
  imports.countP fun p => p.desc.kind = k.number

def pick (p : Import) : Option α :=
  if p.desc.kind = k.number then k.get? p.desc else none

def picked : List α :=
  imports.filterMap k.pick

def Filled : Prop :=
  ∀ p ∈ imports, p.desc.kind = k.number → (k.get? p.desc).isSome

def Nth (i : Nat) (a : α) : Prop :=
  ∃ before p after, imports = before ++ p :: after ∧ p.desc.kind = k.number ∧
    k.get? p.desc = some a ∧ k.count before = i

structure Scans (i : Nat) (scan : Nat → List Import → Module.Search α) : Prop where
  nil : ∀ idx, scan idx [] = .ended idx
  skip : ∀ idx p rest, k.pick p = none → scan idx (p :: rest) = scan idx rest
  meet : ∀ idx p rest a, k.pick p = some a →
    scan idx (p :: rest) = if idx = i then .found a else scan (idx + 1) rest

variable {k imports} {p : Import} {rest : List Import} {i idx : Nat} {a : α}
  {scan : Nat → List Import → Module.Search α}

theorem pick_none : k.pick p = none ↔ p.desc.kind ≠ k.number ∨ k.get? p.desc = none := by
  rw [pick]
  by_cases same : p.desc.kind = k.number
  · rw [if_pos same, or_iff_right (not_not_intro same)]
  · rw [if_neg same]
    exact iff_of_true rfl (.inl same)

theorem pick_some : k.pick p = some a ↔ p.desc.kind = k.number ∧ k.get? p.desc = some a := by
  rw [pick]
  by_cases same : p.desc.kind = k.number
  · rw [if_pos same, and_iff_right same]
  · rw [if_neg same]
    exact iff_of_false nofun fun h => same h.1

theorem picked_cons_none (none : k.pick p = none) : k.picked (p :: rest) = k.picked rest :=
  List.filterMap_cons_none none

theorem picked_cons_some (some : k.pick p = some a) :
    k.picked (p :: rest) = a :: k.picked rest :=
  List.filterMap_cons_some some

theorem count_cons :
    k.count (p :: rest) = k.count rest + if p.desc.kind = k.number then 1 else 0 := by
  rw [count, List.countP_cons, count]
  simp only [decide_eq_true_eq]

namespace Filled

theorem tail (filled : k.Filled (p :: rest)) : k.Filled rest :=
  fun q member => filled q (List.mem_cons_of_mem p member)

theorem count_cons_none (filled : k.Filled (p :: rest)) (none : k.pick p = none) :
    k.count (p :: rest) = k.count rest := by
  have other : p.desc.kind ≠ k.number := by
    intro same
    have some := filled p List.mem_cons_self same
    rw [(pick_none.mp none).resolve_left (not_not_intro same)] at some
    cases some
  rw [count_cons, if_neg other, Nat.add_zero]

end Filled

theorem count_cons_some (some : k.pick p = some a) : k.count (p :: rest) = k.count rest + 1 := by
  rw [count_cons, if_pos (pick_some.mp some).1]

theorem length_picked (filled : k.Filled imports) :
    (k.picked imports).length = k.count imports := by
  induction imports with
  | nil => rfl
  | cons p rest ih =>
    cases found : k.pick p with
    | none => rw [picked_cons_none found, filled.count_cons_none found, ih filled.tail]
    | some a =>
      rw [picked_cons_some found, count_cons_some found, List.length_cons, ih filled.tail]

/-- What is picked as number `i` comes from the import that has `i` of its kind before it. -/
theorem nth_of_picked (filled : k.Filled imports) (h : (k.picked imports)[i]? = some a) :
    k.Nth imports i a := by
  induction imports generalizing i with
  | nil => cases h
  | cons p rest ih =>
    cases found : k.pick p with
    | none =>
      rw [picked_cons_none found] at h
      obtain ⟨before, q, after, rfl, same, asks, number⟩ := ih filled.tail h
      have passed : k.Filled (p :: before) :=
        fun r member => filled r (List.mem_append_left (q :: after) member)
      exact ⟨p :: before, q, after, rfl, same, asks, (passed.count_cons_none found).trans number⟩
    | some b =>
      rw [picked_cons_some found] at h
      cases i with
      | zero =>
        obtain rfl := Option.some.inj h
        obtain ⟨same, asks⟩ := pick_some.mp found
        exact ⟨[], p, rest, rfl, same, asks, rfl⟩
      | succ i =>
        obtain ⟨before, q, after, rfl, same, asks, number⟩ := ih filled.tail h
        refine ⟨p :: before, q, after, rfl, same, asks, ?_⟩
        rw [count_cons_some found, number]

namespace Scans

theorem found (scans : k.Scans i scan) (le : idx ≤ i)
    (there : (k.picked imports)[i - idx]? = some a) : scan idx imports = .found a := by
  induction imports generalizing idx with
  | nil => cases there
  | cons p rest ih =>
    cases picked : k.pick p with
    | none =>
      rw [picked_cons_none picked] at there
      rw [scans.skip idx p rest picked]
      exact ih le there
    | some b =>
      rw [picked_cons_some picked] at there
      rw [scans.meet idx p rest b picked]
      by_cases here : idx = i
      · rw [here, Nat.sub_self] at there
        rw [if_pos here, Option.some.inj there]
      · have next : i - idx = (i - (idx + 1)) + 1 := by omega
        rw [next, List.getElem?_cons_succ] at there
        rw [if_neg here]
        exact ih (by omega) there

/-- A loop that meets too few imports has counted all of them. -/
theorem ended (scans : k.Scans i scan) (few : idx + (k.picked imports).length ≤ i) :
    scan idx imports = .ended (idx + (k.picked imports).length) := by
  induction imports generalizing idx with
  | nil => exact scans.nil idx
  | cons p rest ih =>
    cases picked : k.pick p with
    | none =>
      rw [picked_cons_none picked] at few ⊢
      rw [scans.skip idx p rest picked]
      exact ih few
    | some b =>
      rw [picked_cons_some picked, List.length_cons] at few ⊢
      rw [scans.meet idx p rest b picked, if_neg (by omega), ih (by omega)]
      congr 1
      omega

theorem ended_start (scans : k.Scans i scan) (few : (k.picked imports).length ≤ i) :
    scan 0 imports = .ended (k.picked imports).length := by
  rw [← Nat.zero_add (k.picked imports).length] at few ⊢
  exact scans.ended few

end Scans
end ImportKind

namespace Module

open ImportKind (func global tag pick_none pick_some)

variable {m : Module} {i : UInt32}

theorem numImported_eq {α : Type} (m : Module) (k : ImportKind α) :
    m.numImported k.number = k.count m.imports := by
  have counts (imports : List Import) (n : Nat) :
      imports.foldl (fun n p => if p.desc.kind = k.number then n + 1 else n) n =
        n + k.count imports := by
    induction imports generalizing n with
    | nil => rfl
    | cons p rest ih =>
      rw [List.foldl_cons, ih, ImportKind.count_cons]
      split <;> omega
  rw [numImported, counts, Nat.zero_add]

/-! ## Lookups -/

theorem scans_func (i : UInt32) : func.Scans i.toNat (searchFunc i) where
  nil _ := rfl
  skip idx p rest none := by
    have other : p.desc.kind ≠ ImportDesc.funcKind := (pick_none.mp none).resolve_right nofun
    rw [searchFunc, if_pos other]
  meet idx p rest t some := by
    obtain ⟨same, asks⟩ := pick_some.mp some
    obtain rfl := Option.some.inj asks
    exact if_neg (not_not_intro same)

theorem scans_global (i : UInt32) : global.Scans i.toNat (searchGlobal i) where
  nil _ := rfl
  skip idx p rest none := by
    rw [searchGlobal]
    obtain other | empty : p.desc.kind ≠ ImportDesc.globalKind ∨ p.desc.global? = .none :=
      pick_none.mp none
    · exact if_pos other
    · rw [empty, ite_self]
  meet idx p rest g some := by
    obtain ⟨same, full⟩ : p.desc.kind = ImportDesc.globalKind ∧ p.desc.global? = .some g :=
      pick_some.mp some
    rw [searchGlobal, if_neg (not_not_intro same), full]

theorem scans_tag (i : UInt32) : tag.Scans i.toNat (searchTag i) where
  nil _ := rfl
  skip idx p rest none := by
    rw [searchTag]
    obtain other | empty : p.desc.kind ≠ ImportDesc.tagKind ∨ p.desc.tag? = .none :=
      pick_none.mp none
    · exact if_pos other
    · rw [empty, ite_self]
  meet idx p rest t some := by
    obtain ⟨same, full⟩ : p.desc.kind = ImportDesc.tagKind ∧ p.desc.tag? = .some t :=
      pick_some.mp some
    rw [searchTag, if_neg (not_not_intro same), full]

/-- A position that is not negative and not too large is looked up as it is. -/
theorem lookup_position {α β : Type} (list : List α) {f : Option α → Option β}
    (none : f none = none) {i idx : Nat} (le : idx ≤ i) :
    (if ((i : Int) - idx < 0 || list.length ≤ (i : Int) - idx) then .none
      else f list[((i : Int) - idx).toNat]?) = f list[i - idx]? := by
  have position : ((i : Int) - idx).toNat = i - idx := by omega
  by_cases inside : i - idx < list.length
  · have within : ¬ (((i : Int) - idx < 0 || list.length ≤ (i : Int) - idx) = true) := by
      simp only [Bool.or_eq_true, decide_eq_true_eq]
      omega
    rw [if_neg within, position]
  · rw [List.getElem?_eq_none (by omega : list.length ≤ i - idx), position,
      List.getElem?_eq_none (by omega : list.length ≤ i - idx), none, ite_self]

theorem funcType_imported {t : UInt32} (h : (func.picked m.imports)[i.toNat]? = some t) :
    m.funcType i = m.typeAt t := by
  rw [funcType, (scans_func i).found (Nat.zero_le _) h]

theorem funcType_defined (above : (func.picked m.imports).length ≤ i.toNat) :
    m.funcType i = m.funcs[i.toNat - (func.picked m.imports).length]?.bind m.typeAt := by
  rw [funcType, (scans_func i).ended_start above]
  exact lookup_position m.funcs (f := (·.bind m.typeAt)) rfl above

theorem globalAt_imported {g : GlobalType} (h : (global.picked m.imports)[i.toNat]? = some g) :
    m.globalAt i = some (g, true) := by
  rw [globalAt, (scans_global i).found (Nat.zero_le _) h]

theorem globalAt_defined (above : (global.picked m.imports).length ≤ i.toNat) :
    m.globalAt i =
      m.globals[i.toNat - (global.picked m.imports).length]?.map fun g => (g.type, false) := by
  rw [globalAt, (scans_global i).ended_start above]
  exact lookup_position m.globals (f := (·.map fun g => (g.type, false))) rfl above

theorem tagAt_imported {t : TagType} (h : (tag.picked m.imports)[i.toNat]? = some t) :
    m.tagAt i = some t := by
  rw [tagAt, (scans_tag i).found (Nat.zero_le _) h]

theorem tagAt_defined (above : (tag.picked m.imports).length ≤ i.toNat) :
    m.tagAt i = m.tags[i.toNat - (tag.picked m.imports).length]? := by
  rw [tagAt, (scans_tag i).ended_start above]
  exact lookup_position m.tags (f := id) rfl above

/-! ## Bindings -/

section Infos

variable {add : UInt32 → GlobalType → Bool → GlobalInfo} {defined : List Global} {idx : UInt32}
  {p : Import} {imports : List Import} {g : GlobalType} {n : Nat}

theorem importedInfos_skip (none : global.pick p = none) :
    importedInfos add defined idx (p :: imports) = importedInfos add defined idx imports := by
  rw [importedInfos]
  obtain other | empty : p.desc.kind ≠ ImportDesc.globalKind ∨ p.desc.global? = .none :=
    pick_none.mp none
  · exact if_pos other
  · rw [empty, ite_self]

theorem importedInfos_meet (some : global.pick p = some g) :
    importedInfos add defined idx (p :: imports) =
      add idx g true :: importedInfos add defined (idx + 1) imports := by
  obtain ⟨same, full⟩ : p.desc.kind = ImportDesc.globalKind ∧ p.desc.global? = .some g :=
    pick_some.mp some
  rw [importedInfos, if_neg (not_not_intro same), full]

theorem add_ofNat_succ (idx : UInt32) (n : Nat) :
    idx + UInt32.ofNat (n + 1) = idx + 1 + UInt32.ofNat n := by
  rw [UInt32.ofNat_add, UInt32.add_assoc, UInt32.add_comm (UInt32.ofNat n)]
  rfl

theorem getElem?_definedInfos :
    (definedInfos add idx defined)[n]? =
      defined[n]?.map fun g => add (idx + UInt32.ofNat n) g.type false := by
  induction defined generalizing idx n with
  | nil => rfl
  | cons g rest ih =>
    cases n with
    | zero => simp [definedInfos]
    | succ n =>
      rw [definedInfos, List.getElem?_cons_succ, ih, List.getElem?_cons_succ, add_ofNat_succ]

/-- The loop over the imports is at index `n` where it meets import `n` of its kind. -/
theorem importedInfos_imported (h : (global.picked imports)[n]? = some g) :
    (importedInfos add defined idx imports)[n]? = some (add (idx + UInt32.ofNat n) g true) := by
  induction imports generalizing idx n with
  | nil => cases h
  | cons p rest ih =>
    cases picked : global.pick p with
    | none =>
      rw [ImportKind.picked_cons_none picked] at h
      rw [importedInfos_skip picked]
      exact ih h
    | some b =>
      rw [ImportKind.picked_cons_some picked] at h
      rw [importedInfos_meet picked]
      cases n with
      | zero =>
        obtain rfl := Option.some.inj h
        simp
      | succ n => rw [List.getElem?_cons_succ, ih h, add_ofNat_succ]

/-- The loop over the definitions goes on with the next index. -/
theorem importedInfos_defined (above : (global.picked imports).length ≤ n) :
    (importedInfos add defined idx imports)[n]? =
      defined[n - (global.picked imports).length]?.map
        fun g => add (idx + UInt32.ofNat n) g.type false := by
  induction imports generalizing idx n with
  | nil => exact getElem?_definedInfos
  | cons p rest ih =>
    cases picked : global.pick p with
    | none =>
      rw [ImportKind.picked_cons_none picked] at above ⊢
      rw [importedInfos_skip picked]
      exact ih above
    | some b =>
      rw [ImportKind.picked_cons_some picked, List.length_cons] at above ⊢
      rw [importedInfos_meet picked]
      cases n with
      | zero => cases above
      | succ n =>
        rw [List.getElem?_cons_succ, ih (Nat.le_of_succ_le_succ above), add_ofNat_succ,
          Nat.add_sub_add_right]

theorem length_definedInfos : (definedInfos add idx defined).length = defined.length := by
  induction defined generalizing idx with
  | nil => rfl
  | cons g rest ih => rw [definedInfos, List.length_cons, ih, List.length_cons]

theorem length_importedInfos :
    (importedInfos add defined idx imports).length =
      (global.picked imports).length + defined.length := by
  induction imports generalizing idx with
  | nil => exact length_definedInfos.trans (Nat.zero_add _).symm
  | cons p rest ih =>
    cases picked : global.pick p with
    | none => rw [importedInfos_skip picked, ih, ImportKind.picked_cons_none picked]
    | some g =>
      rw [importedInfos_meet picked, List.length_cons, ih, ImportKind.picked_cons_some picked,
        List.length_cons, Nat.add_right_comm]

end Infos

/-- A global has a binding exactly if it is found, and it is derived from what is found. -/
theorem globalInfos_eq (m : Module) (i : UInt32) :
    m.globalInfos[i.toNat]? =
      (m.globalAt i).map fun (g, imported) => m.globalInfo i g imported := by
  have here : (0 : UInt32) + UInt32.ofNat i.toNat = i := by
    rw [UInt32.zero_add, UInt32.ofNat_toNat]
  by_cases below : i.toNat < (global.picked m.imports).length
  · have there := List.getElem?_eq_getElem below
    rw [globalInfos, importedInfos_imported there, here, globalAt_imported there]
    rfl
  · have above := Nat.le_of_not_lt below
    rw [globalInfos, importedInfos_defined above, here, globalAt_defined above, Option.map_map]
    rfl

def globalSpace (m : Module) : List (GlobalType × Bool) :=
  (global.picked m.imports).map (·, true) ++ m.globals.map (·.type, false)

theorem length_globalInfos (m : Module) : m.globalInfos.length = m.globalSpace.length := by
  rw [globalInfos, length_importedInfos, globalSpace, List.length_append, List.length_map,
    List.length_map]

end Module
end Sidetable
