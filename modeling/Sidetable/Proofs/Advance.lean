import Sidetable.Proofs.Standing

/-!
# Every instruction keeps the structures

One lemma for each turn: what stands before the instruction stands after it, words that are settled
stay so, words that wait for a structure wait on until they are settled with the place that they
stand for, and words that are new wait.
-/
namespace Sidetable

variable {j : Job} {k : Nat} {i : Instr.Located} {levels levels' : List Level} {l l' : Ledger}

structure Passes (j : Job) (k : Nat) (levels : List Level) (l : Ledger) (levels' : List Level)
    (l' : Ledger) : Prop where
  keeps : ∀ pos t, (j.walk k).gen.Settled l pos t → (j.walk (k + 1)).gen.Settled l' pos t
  waits : ∀ L ∈ levels, ∀ aim, ∀ off ∈ L.waits aim,
    (∃ L' ∈ levels', L'.region = L.region ∧ off ∈ L'.waits aim) ∨
      ∃ t, j.Meets L.region aim t.spot ∧ j.Reached t.spot ∧
      (j.walk (k + 1)).gen.Settled l' off.toNat t
  fresh : ∀ pos aim r, j.Promises k pos aim r →
    ∃ L' ∈ levels', L'.region = r ∧ ∃ off ∈ L'.waits aim, off.toNat = pos

namespace Job

theorem skips_eq (found : j.code[k]? = some i) :
    j.skips k = ((j.walk k).moveTo i).skips i.toInstr := by
  simp [skips, found]
  rfl

theorem skips_of_live (live : (j.walk k).dead = none) : j.skips k = false := by
  cases found : j.code[k]? <;> simp [skips, found, Walk.skips, live]

theorem At.reached_next (here : j.At k i) (opened : (j.walk (k + 1)).shapes ≠ [])
    (dead : (j.walk (k + 1)).dead = none) : j.Reached (i.stop - j.base, j.mc (k + 1)) := by
  obtain ⟨i', found, start⟩ := here.next opened
  exact ⟨k + 1, i', found, skips_of_live dead, by rw [start]⟩

/-- An instruction that divides or closes a structure is not passed over where that structure was
reached. -/
theorem At.not_skipped (here : j.At k i) (live : (j.walk k).dead.getD 0 = 0)
    (h : i.shuts ∨ i.divides) : j.skips k = false := by
  rw [skips_eq here.found]
  cases dead : (j.walk k).dead with
  | none => simp [Walk.skips, Walk.moveTo, dead]
  | some d =>
    obtain rfl : d = 0 := by simpa [dead] using live
    rcases h with h | h <;> simp [Walk.skips, Walk.moveTo, dead, h]

theorem At.undivided (here : j.At k i) (other : i.opcode ≠ 0x05) (r : Region) (i' : Instr.Located) :
    ¬ ElseOf j.code r k i' := by
  intro h
  obtain rfl : i = i' := Option.some.inj (here.found.symm.trans h.found)
  exact other h.opcode

/-- Of the instructions that open, divide or close a structure, `if` and `else` write target
words. -/
theorem At.promises_inv (here : j.At k i) (structural : i.structural) {pos : Nat} {aim : Aim}
    {r : Region} (promises : j.Promises k pos aim r) :
    (aim = .exit ∧ pos = j.mc k ∧ ElseOf j.code r k i) ∨
      (aim = .edge ∧ pos = j.mc k ∧ r = .opened k ∧ i.opcode = 0x04) := by
  cases promises with
  | branch found _ label _ =>
    obtain rfl : i = _ := Option.some.inj (here.found.symm.trans found)
    simp [Instr.labels_of_structural structural] at label
  | otherwise divides _ =>
    obtain rfl : i = _ := Option.some.inj (here.found.symm.trans divides.found)
    exact .inl ⟨rfl, rfl, divides⟩
  | cond found _ opcode =>
    obtain rfl : i = _ := Option.some.inj (here.found.symm.trans found)
    exact .inr ⟨rfl, rfl, rfl, opcode⟩

end Job

namespace Level

theorem Divided.succ {L L' : Level} (h : L.Divided j k)
    (undivided : ∀ i, ¬ ElseOf j.code L.region k i)
    (region : L'.region = L.region) (kind : ∀ b, L'.kind = .cond b → L.kind = .cond b) :
    L'.Divided j (k + 1) := by
  intro b hb
  rw [h b (kind b hb), region]
  constructor
  · rintro ⟨e, before, divides⟩
    exact ⟨e, Nat.lt_succ_of_lt before, divides⟩
  · rintro ⟨e, before, i, divides⟩
    rcases Nat.lt_or_eq_of_le (Nat.le_of_lt_succ before) with lt | rfl
    · exact ⟨e, lt, i, divides⟩
    · exact absurd divides (undivided i)

end Level

namespace Stands

theorem succ (st : Stands j k levels l) (here : j.At k i) (reached : j.skips k = false)
    (dead : (j.walk (k + 1)).dead.getD 0 = 0)
    (regions : levels'.map Level.region = enclosing j.code (k + 1))
    (shapes : levels'.map (fun L => (L.kind, L.scope.sig)) = (j.walk (k + 1)).shapes)
    (scopes : levels'.map Level.scope = (j.walk (k + 1)).gen.scopes)
    (good : ∀ L ∈ levels', L.Good j) (divided : ∀ L ∈ levels', L.Divided j (k + 1))
    (bottom : ∀ r, (levels'.map Level.region).getLast? = some r → r = .function)
    (records : (j.walk (k + 1)).gen.Records l')
    (cells : l'.cells = l.cells ++ (j.setting k i).entry j.mod i.toInstr)
    (plan : (j.walk (k + 1)).gen.plan = ((j.walk k).moveTo i).gen.plan) :
    Stands j (k + 1) levels' l' where
  regions := by rw [dead, List.drop_zero, regions]
  shapes := shapes
  scopes := scopes
  good := good
  divided := divided
  bottom := bottom
  buried := by
    rw [dead, List.take_zero]
    exact fun _ h => absurd h List.not_mem_nil
  records := records
  cells := by
    rw [cells, st.cells, List.range_succ, List.flatMap_append]
    simp [Job.entry, here.found, reached]
  mod := here.mod.trans st.mod
  constants := (Generator.constants_of_plan plan).trans st.constants

theorem records_here (st : Stands j k levels l) : ((j.walk k).moveTo i).gen.Records l :=
  st.records.moveTo _

theorem regions_live (st : Stands j k levels l) (live : (j.walk k).dead.getD 0 = 0) :
    levels.map Level.region = enclosing j.code k := by
  rw [st.regions, live, List.drop_zero]

theorem mc_succ (st : Stands j k levels l) {op : Generator.Op}
    (done : ((j.walk k).moveTo i).gen.apply op = .done (j.walk (k + 1)).gen) :
    j.mc (k + 1) = j.mc k + Cell.sizes (((j.walk k).moveTo i).gen.cells op) ∧
    j.mc (k + 1) < 2 ^ 32 := by
  have holds := (st.records_here.apply done).holds
  have size : j.mc (k + 1) = _ := holds.size
  have bound := holds.bound
  rw [← size] at bound
  exact ⟨by rw [size, Generator.size_record, st.mc_eq], Nat.lt_of_le_of_lt bound (by decide)⟩

theorem top (st : Stands j k levels l) {kind : FrameKind} {sig : FuncType}
    {rest : List (FrameKind × FuncType)} (shapes : (j.walk k).shapes = (kind, sig) :: rest) :
    ∃ L inner, levels = L :: inner ∧ L.kind = kind ∧
      inner.map (fun L => (L.kind, L.scope.sig)) = rest ∧
      (j.walk k).gen.scopes = L.scope :: inner.map Level.scope ∧ L.scope.sig = sig := by
  have shapes' := st.shapes
  rw [shapes] at shapes'
  cases levels with
  | nil => simp at shapes'
  | cons L inner =>
    simp only [List.map_cons, List.cons.injEq, Prod.mk.injEq] at shapes'
    exact ⟨L, inner, rfl, shapes'.1.1, shapes'.2, st.scopes.symm, shapes'.1.2⟩

theorem regions_nodup (st : Stands j k levels l) : (levels.map Level.region).Nodup := by
  rw [st.regions]
  exact (enclosing_nodup j.code k).sublist (List.drop_sublist _ _)

theorem skip (st : Stands j k levels l) (here : j.At k i) {d d' : Nat} (skipped : j.skips k)
    (gen : (j.walk (k + 1)).gen = ((j.walk k).moveTo i).gen)
    (shapes : (j.walk (k + 1)).shapes = (j.walk k).shapes)
    (before : (j.walk k).dead = some d) (after : (j.walk (k + 1)).dead = some d')
    (depth : if i.opens then d' = d + 1 else if i.shuts then d = d' + 1 else d' = d) :
    Stands j (k + 1) levels l ∧ Passes j k levels l levels l := by
  have dead : (j.walk k).dead.getD 0 = d := by rw [before]; rfl
  have dead' : (j.walk (k + 1)).dead.getD 0 = d' := by rw [after]; rfl
  have old_regions := st.regions
  have old_buried := st.buried
  rw [dead] at old_regions old_buried
  -- the first `d` of the enclosing structures were opened in unreachable code, and only they change
  have ⟨same, deeper⟩ : (enclosing j.code (k + 1)).drop d' = (enclosing j.code k).drop d ∧
      ∀ r ∈ (enclosing j.code (k + 1)).take d', ∃ o, r = .opened o ∧ j.skips o := by
    split at depth
    · rename_i opens
      subst depth
      rw [enclosing_of_opens here.found opens]
      refine ⟨rfl, fun r hr => ?_⟩
      rcases List.mem_cons.mp hr with rfl | hr
      · exact ⟨k, rfl, skipped⟩
      · exact old_buried r hr
    · rename_i opens
      split at depth
      · rename_i shuts
        subst depth
        rw [enclosing_of_shuts here.found shuts]
        refine ⟨by rw [List.drop_tail], fun r hr => old_buried r ?_⟩
        cases hE : enclosing j.code k with
        | nil => simp [hE] at hr
        | cons a rest =>
          rw [hE, List.tail_cons] at hr
          exact List.mem_cons_of_mem a hr
      · rename_i shuts
        subst depth
        rw [enclosing_of_inner here.found (by simpa using opens) (by simpa using shuts)]
        exact ⟨rfl, old_buried⟩
  have undivided (L : Level) (mem : L ∈ levels) (i' : Instr.Located) :
      ¬ ElseOf j.code L.region k i' := by
    intro divides
    have region : L.region ∈ (enclosing j.code k).drop d := by
      rw [← old_regions]
      exact List.mem_map_of_mem mem
    cases d with
    | zero =>
      obtain rfl : i = i' := Option.some.inj (here.found.symm.trans divides.found)
      rw [Job.skips_eq here.found] at skipped
      simp [Walk.skips, Walk.moveTo, before, Instr.divides, divides.opcode] at skipped
    | succ d =>
      obtain ⟨rest, eq⟩ := List.head?_eq_some_iff.mp divides.innermost
      have nodup := enclosing_nodup j.code k
      rw [eq] at region nodup
      exact (List.nodup_cons.mp nodup).1 (List.mem_of_mem_drop region)
  refine ⟨⟨?_, ?_, ?_, st.good, ?_, st.bottom, ?_, ?_, ?_, ?_, ?_⟩, ?_, ?_, ?_⟩
  · rw [dead', same, old_regions]
  · rw [shapes, st.shapes]
  · rw [gen]
    exact st.scopes
  · exact fun L mem => (st.divided L mem).succ (undivided L mem) rfl fun _ h => h
  · rwa [dead']
  · rw [gen]
    exact st.records.moveTo _
  · rw [st.cells, List.range_succ, List.flatMap_append]
    simp [Job.entry, here.found, skipped]
  · rw [here.mod, st.mod]
  · rw [gen]
    exact st.constants
  · intro pos t settled
    rw [gen]
    exact settled.moveTo _
  · exact fun L mem aim off waits => .inl ⟨L, mem, rfl, waits⟩
  · intro pos aim r promises
    cases promises <;> simp_all

end Stands

/-! ## Within a structure -/

namespace Generator

variable {g g' : Generator} {mod : Module} {height : Nat} {i : Instr}

theorem Serves.done (h : g.Serves mod height i g') (records : g.Records l) :
    g'.Records (l.add ((g.setting height).entry mod i)) ∧
      g'.scopes = Scope.awaitAll (g.size + labelOffset i 0) g.scopes i.labels ∧ g'.plan = g.plan ∧
      ∀ pos t, g.Settled l pos t → g'.Settled (l.add ((g.setting height).entry mod i)) pos t := by
  rcases h with ⟨rfl, entry, labels⟩ | ⟨op, done, asks⟩
  · rw [entry, Ledger.add_nil, labels]
    exact ⟨records, rfl, rfl, fun _ _ settled => settled⟩
  · have record : g.record op l = l.add ((g.setting height).entry mod i) := by
      rw [record, asks.settles, Ledger.assign_nil, asks.cells]
    have did := records.did done
    rw [← record]
    exact ⟨records.apply done, did.scopes.trans asks.scopes, did.plan.trans asks.plan,
      fun _ _ settled => records.keeps done settled⟩

end Generator

namespace Scope

/-- Words that wait for the scope with number `m` when branches to the given labels are written from
`pos` on. -/
def arriving : Nat → List UInt32 → Nat → List UInt32
  | _, [], _ => []
  | pos, d :: rest, m =>
    (if d.toNat = m then [UInt32.ofNat pos] else []) ++ arriving (pos + 16) rest m

theorem awaitAll_eq (pos : Nat) (scopes : List Scope) (ds : List UInt32) :
    awaitAll pos scopes ds =
      scopes.mapIdx fun m s => { s with awaiting := s.awaiting ++ arriving pos ds m } := by
  induction ds generalizing pos scopes with
  | nil =>
    refine List.ext_getElem? fun m => ?_
    simp [awaitAll, arriving, List.getElem?_mapIdx]
  | cons d rest ih =>
    rw [awaitAll, ih]
    refine List.ext_getElem? fun m => ?_
    rw [List.getElem?_mapIdx, List.getElem?_mapIdx, List.getElem?_modify]
    cases scopes[m]? with
    | none => rfl
    | some s => by_cases h : d.toNat = m <;> simp [arriving, await, h]

theorem mem_arriving {pos n : Nat} {ds : List UInt32} {d : UInt32} (h : ds[n]? = some d) :
    UInt32.ofNat (pos + 16 * n) ∈ arriving pos ds d.toNat := by
  induction ds generalizing pos n with
  | nil => simp at h
  | cons e rest ih =>
    cases n with
    | zero =>
      obtain rfl : e = d := by simpa using h
      simp [arriving]
    | succ n =>
      have later : UInt32.ofNat (pos + 16 + 16 * n) ∈ arriving (pos + 16) rest d.toNat :=
        ih (by simpa using h)
      rw [show pos + 16 + 16 * n = pos + 16 * (n + 1) by omega] at later
      exact List.mem_append_right _ later

end Scope

namespace Level

def grow (offs : List UInt32) (L : Level) : Level :=
  { L with scope := { L.scope with awaiting := L.scope.awaiting ++ offs } }

variable {L : Level} {offs : List UInt32}

theorem waits_grow (aim : Aim) : L.waits aim ⊆ (L.grow offs).waits aim := by
  cases aim with
  | exit =>
    by_cases cond : L.kind = .cond false
    · simp [waits, grow, cond]
    · simp only [waits, grow, cond, if_false, Scope.waiting, ← List.append_assoc]
      exact List.subset_append_left _ _
  | edge => exact fun _ h => h

theorem mem_waits_grow {off : UInt32} (h : off ∈ offs) : off ∈ (L.grow offs).waits .exit := by
  by_cases cond : L.kind = .cond false <;> simp [waits, grow, cond, Scope.waiting, h]

theorem map_mapIdx_grow {β : Type} {φ : Level → β} (same : ∀ offs L, φ (grow offs L) = φ L)
    (levels : List Level)
    (more : Nat → List UInt32) : (levels.mapIdx fun m => grow (more m)).map φ = levels.map φ := by
  refine List.ext_getElem? fun m => ?_
  simp [List.getElem?_mapIdx, Function.comp_def, same]

theorem Good.grow (h : L.Good j) : (L.grow offs).Good j :=
  ⟨h.kind, h.opcode, h.sig, h.outermost, h.entry⟩

end Level

theorem labelOffset_add (i : Instr) (n : Nat) : labelOffset i n = labelOffset i 0 + 16 * n := by
  simp [labelOffset]

theorem labelOffset_lt (mod : Module) (r : Registers) {i : Instr} {n : Nat} {d : UInt32}
    (h : i.labels[n]? = some d) : labelOffset i n + 16 ≤ entrySize mod r i := by
  obtain ⟨op, sub, imm⟩ := i
  simp only [Instr.labels] at h
  split at h
  · rename_i branching
    have inside : n < imm.labelList.length := (List.getElem?_eq_some_iff.mp h).1
    simp only [Bool.or_eq_true, decide_eq_true_eq] at branching
    rcases branching with (rfl | rfl) | rfl <;> simp [labelOffset, entrySize] <;> omega
  · simp at h

namespace Stands

theorem within (st : Stands j k levels l) (here : j.At k i) (live : (j.walk k).dead = none)
    (inner : i.structural = false) (shapes : (j.walk (k + 1)).shapes = (j.walk k).shapes)
    (serves : ((j.walk k).moveTo i).gen.Serves (j.walk k).mod ((j.walk k).height i.toInstr)
      i.toInstr
      (j.walk (k + 1)).gen)
    (dead : (j.walk (k + 1)).dead.getD 0 = 0) :
    ∃ levels' l', Stands j (k + 1) levels' l' ∧ Passes j k levels l levels' l' := by
  obtain ⟨opens, shuts, divides⟩ := Instr.of_not_structural inner
  have zero : (j.walk k).dead.getD 0 = 0 := by rw [live]; rfl
  have reached := Job.skips_of_live live
  obtain ⟨records, scopes, plan, keeps⟩ := serves.done (st.records.moveTo _)
  rw [st.setting_eq here zero, st.mod] at records keeps
  have regions := st.regions
  rw [zero, List.drop_zero] at regions
  have undivided := here.undivided (by rintro eq; simp [Instr.divides, eq] at divides)
  have size : ((j.walk k).moveTo i).gen.size = j.mc k := rfl
  rw [size] at scopes
  generalize hmore : Scope.arriving (j.mc k + labelOffset i.toInstr 0) i.labels = more
  have from_old {L' : Level} (mem : L' ∈ levels.mapIdx fun m => Level.grow (more m)) :
      ∃ offs, ∃ L ∈ levels, L' = L.grow offs := by
    obtain ⟨m, inside, rfl⟩ := List.mem_mapIdx.mp mem
    exact ⟨more m, levels[m], List.getElem_mem inside, rfl⟩
  have to_new {m : Nat} {L : Level} (hm : levels[m]? = some L) :
      L.grow (more m) ∈ levels.mapIdx fun m => Level.grow (more m) := by
    refine List.mem_of_getElem? (i := m) ?_
    rw [List.getElem?_mapIdx, hm]
    rfl
  have sameRegions := Level.map_mapIdx_grow (φ := Level.region) (fun _ _ => rfl) levels more
  refine ⟨levels.mapIdx fun m => Level.grow (more m), _,
    st.succ here reached dead ?_ ?_ ?_ ?_ ?_ ?_ records rfl plan, ?_, ?_, ?_⟩
  · rw [sameRegions, regions, enclosing_of_inner here.found opens shuts]
  · rw [Level.map_mapIdx_grow (fun _ _ => rfl), st.shapes, shapes]
  · rw [scopes, Scope.awaitAll_eq]
    refine List.ext_getElem? fun m => ?_
    have old : ((j.walk k).moveTo i).gen.scopes = levels.map Level.scope := st.scopes.symm
    simp only [List.getElem?_map, List.getElem?_mapIdx, Option.map_map, old, hmore]
    rfl
  · rintro L' mem
    obtain ⟨offs, L, old, rfl⟩ := from_old mem
    exact (st.good L old).grow
  · rintro L' mem
    obtain ⟨offs, L, old, rfl⟩ := from_old mem
    exact (st.divided L old).succ (undivided _) rfl fun _ h => h
  · rw [sameRegions]
    exact st.bottom
  · exact fun pos t settled => keeps pos t (settled.moveTo _)
  · intro L mem aim off waits
    obtain ⟨m, hm⟩ := List.mem_iff_getElem?.mp mem
    exact .inl ⟨_, to_new hm, rfl, Level.waits_grow aim waits⟩
  · intro pos aim r promises
    cases promises with
    | @branch n _ d _ found _ label names =>
      obtain rfl : i = _ := Option.some.inj (here.found.symm.trans found)
      rw [← regions, List.getElem?_map] at names
      obtain ⟨L, hL, rfl⟩ := Option.map_eq_some_iff.mp names
      refine ⟨_, to_new hL, rfl, UInt32.ofNat (j.mc k + labelOffset i.toInstr n), ?_, ?_⟩
      · refine Level.mem_waits_grow ?_
        rw [← hmore, labelOffset_add _ n, ← Nat.add_assoc]
        exact Scope.mem_arriving label
      · have fits := records.holds.bound
        have inside := labelOffset_lt j.mod (j.setting k i).registers label
        rw [Ledger.size_add, Setting.sizes_entry] at fits
        · have := st.mc_eq
          refine Nat.mod_eq_of_lt ?_
          simp only [Buffer.maxSize] at fits
          omega
        · intro opcode
          simp [Instr.shuts, opcode] at shuts
    | otherwise h _ => exact absurd h (undivided _ _)
    | cond found _ opcode =>
      obtain rfl : i = _ := Option.some.inj (here.found.symm.trans found)
      simp [Instr.opens, opcode] at opens

end Stands

/-! ## Opening a structure -/

namespace Generator

theorem scopesAfter_opener (g : Generator) (o : Opener) (sig : FuncType) :
    ∃ s : Scope, g.scopesAfter (o.op sig) = s :: g.scopes ∧ s.kind = o.frameKind.scope ∧
      s.sig = sig ∧ (o = .loop → s.entry = some { pc := g.pc, mc := UInt32.ofNat (g.size + 8) }) ∧
      (o = .cond → s.pending = some g.mc) := by
  cases o <;> exact ⟨_, rfl, rfl, rfl, by simp, by simp⟩

theorem cells_opener (g : Generator) (mod : Module) (height : Nat) {o : Opener} {i : Instr}
    (sig : FuncType)
    (opcode : i.opcode = o.opcode) : g.cells (o.op sig) = (g.setting height).entry mod i := by
  cases o <;>
    simp [Opener.op, cells, Setting.entry, opcode, Opener.opcode, setting, Opcode.isLoad,
    Opcode.isStore, Opcode.within]

end Generator

namespace Stands

theorem enter (st : Stands j k levels l) (here : j.At k i) {o : Opener} {type : Int32}
    {sig : FuncType}
    (live : (j.walk k).dead = none) (opcode : i.opcode = o.opcode) (imm : i.imm = .block type)
    (found : (j.walk k).mod.blockType type = some sig)
    (done : ((j.walk k).moveTo i).gen.apply (o.op sig) = .done (j.walk (k + 1)).gen)
    (shapes : (j.walk (k + 1)).shapes = (o.frameKind, sig) :: (j.walk k).shapes)
    (dead : (j.walk (k + 1)).dead = none) :
    ∃ levels' l', Stands j (k + 1) levels' l' ∧ Passes j k levels l levels' l' := by
  have reached := Job.skips_of_live live
  have regions := st.regions_live (by rw [live]; rfl)
  have records := st.records_here (i := i)
  have did := records.did done
  have records' := records.apply done
  obtain ⟨s, scopes, kind, sigEq, entry, pending⟩ :=
    Generator.scopesAfter_opener ((j.walk k).moveTo i).gen o sig
  have opens : i.opens := by cases o <;> simp [Instr.opens, opcode, Opener.opcode]
  have setting :
      ((j.walk k).moveTo i).gen.cells (o.op sig) = (j.setting k i).entry j.mod i.toInstr := by
    rw [← st.setting_eq here (by rw [live]; rfl)]
    exact Generator.cells_opener _ _ _ _ opcode
  have undivided := here.undivided (by rw [opcode]; cases o <;> decide)
  obtain ⟨size, bound⟩ := st.mc_succ done
  let L : Level := { region := .opened k, kind := o.frameKind, scope := s }
  have good : L.Good j := by
    refine ⟨kind, ?_, ?_, ?_, ?_⟩
    · cases o <;>
        simp [L, Job.openedBy, here.found, opcode, Opener.opcode, Opener.frameKind,
        FrameKind.opcode]
    · rw [st.mod] at found
      simp [L, sigEq, Job.signature, here.found, imm, Module.typeOf, found]
    · cases o <;> simp [L, Opener.frameKind]
    · intro loop
      obtain rfl : o = .loop := by cases o <;> simp [L, Opener.frameKind] at loop ⊢
      have grown : j.mc (k + 1) = j.mc k + 8 := size
      have spot :
          Target.spot { pc := ((j.walk k).moveTo i).gen.pc, mc := UInt32.ofNat (j.mc k + 8) } =
          (i.stop - j.base, j.mc k + 8) := by
        rw [Target.spot, st.toNat_pc here]
        exact congrArg _ (Nat.mod_eq_of_lt (by omega))
      refine ⟨_, entry rfl, ?_, ?_⟩
      · rw [show ((j.walk k).moveTo i).gen.size = j.mc k from rfl, spot, ← grown]
        exact .loop rfl here.found opcode
      · rw [show ((j.walk k).moveTo i).gen.size = j.mc k from rfl, spot, ← grown]
        exact here.reached_next (by simp [shapes]) dead
  have divided : L.Divided j (k + 1) := by
    intro b hb
    have : b = false := by cases o <;> simp_all [L, Opener.frameKind]
    subst this
    simp only [Bool.false_eq_true, false_iff]
    rintro ⟨e, before, i', h⟩
    have := lt_of_mem_enclosing (List.mem_of_mem_head? h.innermost)
    omega
  refine ⟨L :: levels, _, st.succ here reached (by rw [dead]; rfl) ?_ ?_ ?_ ?_ ?_ ?_ records' ?_ ?_,
    ?_, ?_, ?_⟩
  · rw [List.map_cons, regions, enclosing_of_opens here.found opens]
  · rw [List.map_cons, st.shapes, shapes, sigEq]
  · rw [did.scopes, scopes, List.map_cons, st.scopes]
    rfl
  · exact List.forall_mem_cons.mpr ⟨good, st.good⟩
  · exact List.forall_mem_cons.mpr
      ⟨divided, fun M mem => (st.divided M mem).succ (undivided _) rfl fun _ h => h⟩
  · rw [List.map_cons]
    intro r last
    refine st.bottom r ?_
    have some : levels ≠ [] := by
      rintro rfl
      exact here.inside st.shapes.symm
    rwa [List.getLast?_cons_of_ne_nil (by simpa using some)] at last
  · rw [← setting]
    rfl
  · rw [did.plan]
    cases o <;> rfl
  · exact fun pos t settled => records.keeps done (settled.moveTo _)
  · exact fun M mem aim off waits => .inl ⟨M, List.mem_cons_of_mem _ mem, rfl, waits⟩
  · intro pos aim r promises
    rcases here.promises_inv (by simp [Instr.structural, opens]) promises with
      ⟨-, -, h⟩ | ⟨rfl, rfl, rfl, cond⟩
    · exact absurd h (undivided _ _)
    · obtain rfl : o = .cond := by cases o <;> simp [opcode, Opener.opcode] at cond ⊢
      refine ⟨L, List.mem_cons_self, rfl, ((j.walk k).moveTo i).gen.mc, ?_, st.toNat_mc⟩
      simp [Level.waits, L, Opener.frameKind, pending]

end Stands

/-! ## Dividing a structure -/

namespace Stands

/-- Whatever divides the innermost structure leaves the others as they are. -/
theorem divide {L : Level} {inner : List Level} (st : Stands j k (L :: inner) l) (here : j.At k i)
    (after : Level) (divides : i.divides) (live : (j.walk k).dead.getD 0 = 0)
    (dead : (j.walk (k + 1)).dead = none) (region : after.region = L.region)
    (shapes : (j.walk (k + 1)).shapes = (after :: inner).map fun L => (L.kind, L.scope.sig))
    (scopes : (j.walk (k + 1)).gen.scopes = (after :: inner).map Level.scope) (good : after.Good j)
    (divided : after.Divided j (k + 1)) (records : (j.walk (k + 1)).gen.Records l')
    (cells : l'.cells = l.cells ++ (j.setting k i).entry j.mod i.toInstr)
    (plan : (j.walk (k + 1)).gen.plan = ((j.walk k).moveTo i).gen.plan)
    (keeps : ∀ pos t, (j.walk k).gen.Settled l pos t → (j.walk (k + 1)).gen.Settled l' pos t)
    (waits : ∀ aim, ∀ off ∈ L.waits aim, off ∈ after.waits aim ∨
      ∃ t, j.Meets L.region aim t.spot ∧ j.Reached t.spot ∧
        (j.walk (k + 1)).gen.Settled l' off.toNat t)
    (fresh : ElseOf j.code L.region k i → ∃ off ∈ after.waits .exit, off.toNat = j.mc k) :
    ∃ levels' l', Stands j (k + 1) levels' l' ∧ Passes j k (L :: inner) l levels' l' := by
  obtain ⟨opens, shuts⟩ := Instr.of_divides divides
  have regions := st.regions_live live
  have only {r : Region} {i' : Instr.Located} (h : ElseOf j.code r k i') : r = L.region := by
    have innermost := h.innermost
    rw [← regions] at innermost
    exact (Option.some.inj innermost).symm
  have undivided (M : Level) (mem : M ∈ inner) (i' : Instr.Located) :
      ¬ ElseOf j.code M.region k i' := by
    intro h
    exact (List.nodup_cons.mp st.regions_nodup).1 (only h ▸ List.mem_map_of_mem mem)
  have same : (after :: inner).map Level.region = (L :: inner).map Level.region := by
    rw [List.map_cons, List.map_cons, region]
  refine ⟨after :: inner, l',
    st.succ here (here.not_skipped live (.inr divides)) (by rw [dead]; rfl) ?_ shapes.symm
    scopes.symm ?_ ?_ ?_ records cells plan, keeps, ?_, ?_⟩
  · rw [enclosing_of_inner here.found opens shuts, same, regions]
  · exact List.forall_mem_cons.mpr ⟨good, fun M mem => st.good M (List.mem_cons_of_mem _ mem)⟩
  · exact List.forall_mem_cons.mpr ⟨divided, fun M mem =>
      (st.divided M (List.mem_cons_of_mem _ mem)).succ (undivided M mem) rfl fun _ h => h⟩
  · rw [same]
    exact st.bottom
  · intro M mem aim off waiting
    rcases List.mem_cons.mp mem with rfl | mem
    · rcases waits aim off waiting with still | settled
      · exact .inl ⟨after, List.mem_cons_self, region, still⟩
      · exact .inr settled
    · exact .inl ⟨M, List.mem_cons_of_mem _ mem, rfl, waiting⟩
  · intro pos aim r promises
    rcases here.promises_inv (by simp [Instr.structural, divides]) promises with
      ⟨rfl, rfl, h⟩ | ⟨-, -, -, cond⟩
    · obtain rfl := only h
      exact ⟨after, List.mem_cons_self, region, fresh h⟩
    · simp [Instr.opens, cond] at opens

theorem otherwise (st : Stands j k levels l) (here : j.At k i) {sig : FuncType}
    {rest : List (FrameKind × FuncType)}
    (opcode : i.opcode = 0x05) (live : (j.walk k).dead.getD 0 = 0)
    (shapes : (j.walk k).shapes = (.cond false, sig) :: rest)
    (done : ((j.walk k).moveTo i).gen.apply .otherwise = .done (j.walk (k + 1)).gen)
    (shapes' : (j.walk (k + 1)).shapes = (.cond true, sig) :: rest)
    (dead : (j.walk (k + 1)).dead = none) :
    ∃ levels' l', Stands j (k + 1) levels' l' ∧ Passes j k levels l levels' l' := by
  have records := st.records_here (i := i)
  have did := records.did done
  obtain ⟨size, bound⟩ := st.mc_succ done
  obtain ⟨L, inner, rfl, kind, rfl, scopes, rfl⟩ := st.top shapes
  obtain ⟨s, others, p, split, -, pending⟩ := Generator.otherwise_inv done
  obtain ⟨rfl, rfl⟩ : L.scope = s ∧ inner.map Level.scope = others := by
    simpa using scopes.symm.trans split
  have explicit : ((j.walk k).moveTo i).gen.site.opcode ≠ Generator.endOpcode := by
    change i.opcode ≠ _
    rw [opcode]
    decide
  have divides : ElseOf j.code L.region k i :=
    ⟨here.found, opcode, by rw [← st.regions_live live]; rfl⟩
  have grown : j.mc (k + 1) = j.mc k + 8 := by
    simpa [Generator.cells, explicit, Cell.size] using size
  have goal :
      (((j.walk k).moveTo i).gen.goal .otherwise).spot = (i.stop - j.base, j.mc (k + 1)) := by
    simp only [Generator.goal, explicit, if_false, Target.spot, st.toNat_pc here, Prod.mk.injEq,
      true_and]
    rw [UInt32.toNat_add, st.toNat_mc, grown]
    exact Nat.mod_eq_of_lt (show j.mc k + 8 < 2 ^ 32 by omega)
  have good := st.good L List.mem_cons_self
  refine st.divide here { L with
      kind := .cond true
      scope := { L.scope.convert .block .none with pending := some ((j.walk k).moveTo i).gen.mc } }
    (by simp [Instr.divides, opcode]) live dead rfl shapes' ?_ ⟨rfl, ?_, good.sig, ?_, by simp⟩ ?_
    (records.apply done) ?_ did.plan ?_ ?_ ?_
  · simp [did.scopes, Generator.scopesAfter, split, explicit]
  · rw [good.opcode, kind]
    rfl
  · rw [good.outermost, kind]
    simp
  · intro b hb
    obtain rfl : true = b := by simpa using hb
    exact ⟨fun _ => ⟨k, Nat.lt_succ_self k, i, divides⟩, fun _ => rfl⟩
  · rw [Generator.cells_record, ← st.setting_eq here live]
    simp [Generator.cells, explicit, Setting.entry, opcode]
  · exact fun pos t settled => records.keeps done (settled.moveTo _)
  · intro aim off waits
    cases aim with
    | exit =>
      left
      simp only [Level.waits, kind, if_true] at waits
      simp [Level.waits, Scope.waiting, Scope.convert, waits]
    | edge =>
      right
      obtain rfl : off = p := by simpa [Level.waits, kind, pending] using waits
      refine ⟨_, ?_, ?_, records.settled done (by simp [Generator.settles, split, pending])⟩
      · rw [goal]
        exact .explicit divides
      · rw [goal]
        exact here.reached_next (by simp [shapes']) dead
  · intro _
    refine ⟨((j.walk k).moveTo i).gen.mc, ?_, st.toNat_mc⟩
    simp [Level.waits, Scope.waiting]

theorem handle (st : Stands j k levels l) (here : j.At k i) {kind : FrameKind} {last : Bool}
    {handler : Handler} {sig : FuncType} {rest : List (FrameKind × FuncType)}
    (opcode : i.opcode = 0x07 ∨ i.opcode = 0x19)
    (live : (j.walk k).dead.getD 0 = 0) (takes : kind = .attempt ∨ kind = .handler false)
    (shapes : (j.walk k).shapes = (kind, sig) :: rest)
    (done : ((j.walk k).moveTo i).gen.apply (.handle handler) = .done (j.walk (k + 1)).gen)
    (shapes' : (j.walk (k + 1)).shapes = (.handler last, sig) :: rest)
    (dead : (j.walk (k + 1)).dead = none) :
    ∃ levels' l', Stands j (k + 1) levels' l' ∧ Passes j k levels l levels' l' := by
  have divides : i.divides := by rcases opcode with eq | eq <;> simp [Instr.divides, eq]
  have records := st.records_here (i := i)
  have did := records.did done
  obtain ⟨L, inner, rfl, rfl, rfl, scopes, rfl⟩ := st.top shapes
  obtain ⟨s, others, split, kind⟩ := Generator.handle_inv done
  obtain ⟨rfl, rfl⟩ : L.scope = s ∧ inner.map Level.scope = others := by
    simpa using scopes.symm.trans split
  have pending : L.scope.pending = none := records.pending_none (by simp [split]) kind
  have good := st.good L List.mem_cons_self
  have uncond : L.kind ≠ .cond false := by rcases takes with eq | eq <;> simp [eq]
  refine st.divide here { L with kind := .handler last, scope := L.scope.convert .handler handler }
    divides live dead rfl shapes' ?_ ⟨rfl, ?_, good.sig, ?_, by simp⟩ (fun b hb => by simp at hb)
    (records.apply done) ?_ did.plan ?_ ?_ ?_
  · simp [did.scopes, Generator.scopesAfter, split]
  · rw [good.opcode]
    rcases takes with eq | eq <;> simp [eq, FrameKind.opcode]
  · rw [good.outermost]
    rcases takes with eq | eq <;> simp [eq]
  · rw [Generator.cells_record, ← st.setting_eq here live]
    rcases opcode with eq | eq <;>
      simp [Generator.cells, Setting.entry, eq, Opcode.isLoad, Opcode.isStore, Opcode.within]
  · exact fun pos t settled => records.keeps done (settled.moveTo _)
  · intro aim off waits
    left
    cases aim with
    | exit => simpa [Level.waits, uncond, Scope.waiting, Scope.convert, pending] using waits
    | edge => simp [Level.waits, uncond] at waits
  · intro h
    exact absurd h (here.undivided (by rcases opcode with eq | eq <;> simp [eq]) _ _)

end Stands

/-! ## Closing a structure -/

namespace Stands

/-- Whatever closes the innermost structure leaves the others as they are. -/
theorem shut {L : Level} {inner : List Level} (st : Stands j k (L :: inner) l) (here : j.At k i)
    (shuts : i.shuts) (live : (j.walk k).dead.getD 0 = 0) (dead : (j.walk (k + 1)).dead = none)
    (shapes : (j.walk (k + 1)).shapes = inner.map fun L => (L.kind, L.scope.sig))
    (scopes : (j.walk (k + 1)).gen.scopes = inner.map Level.scope)
    (records : (j.walk (k + 1)).gen.Records l')
    (cells : l'.cells = l.cells ++ (j.setting k i).entry j.mod i.toInstr)
    (plan : (j.walk (k + 1)).gen.plan = ((j.walk k).moveTo i).gen.plan)
    (keeps : ∀ pos t, (j.walk k).gen.Settled l pos t → (j.walk (k + 1)).gen.Settled l' pos t)
    (settled : ∀ aim, ∀ off ∈ L.waits aim, ∃ t, j.Meets L.region aim t.spot ∧ j.Reached t.spot ∧
      (j.walk (k + 1)).gen.Settled l' off.toNat t) :
    ∃ levels' l', Stands j (k + 1) levels' l' ∧ Passes j k (L :: inner) l levels' l' := by
  have regions := st.regions_live live
  have undivided := here.undivided (by rintro eq; simp [Instr.shuts, eq] at shuts)
  refine ⟨inner, l',
    st.succ here (here.not_skipped live (.inl shuts)) (by rw [dead]; rfl) ?_ shapes.symm scopes.symm
    (fun M mem => st.good M (List.mem_cons_of_mem _ mem)) ?_ ?_ records cells plan, keeps, ?_, ?_⟩
  · rw [enclosing_of_shuts here.found shuts, ← regions]
    rfl
  · exact fun M mem => (st.divided M (List.mem_cons_of_mem _ mem)).succ (undivided _) rfl fun _ h =>
      h
  · intro r last
    refine st.bottom r ?_
    cases inner with
    | nil => simp at last
    | cons M others => simpa using last
  · intro M mem aim off waits
    rcases List.mem_cons.mp mem with rfl | mem
    · exact .inr (settled aim off waits)
    · exact .inl ⟨M, mem, rfl, waits⟩
  · intro pos aim r promises
    rcases here.promises_inv (by simp [Instr.structural, shuts]) promises with
      ⟨-, -, h⟩ | ⟨-, -, -, cond⟩
    · exact absurd h (undivided _ _)
    · simp [Instr.shuts, cond] at shuts

theorem innermost {L : Level} {inner : List Level} (st : Stands j k (L :: inner) l)
    (live : (j.walk k).dead.getD 0 = 0) : (enclosing j.code k).head? = some L.region := by
  rw [← st.regions_live live]
  rfl

theorem inner_ne_nil {L : Level} {inner : List Level} (st : Stands j k (L :: inner) l)
    (region : L.region ≠ .function) : inner ≠ [] := by
  rintro rfl
  exact region (st.bottom L.region rfl)

theorem delegate (st : Stands j k levels l) (here : j.At k i) {depth : UInt32} {sig : FuncType}
    {rest : List (FrameKind × FuncType)} (opcode : i.opcode = 0x18)
    (live : (j.walk k).dead.getD 0 = 0)
    (shapes : (j.walk k).shapes = (.attempt, sig) :: rest) (some_rest : rest ≠ [])
    (done : ((j.walk k).moveTo i).gen.apply (.delegate depth) = .done (j.walk (k + 1)).gen)
    (shapes' : (j.walk (k + 1)).shapes = rest) (dead : (j.walk (k + 1)).dead = none) :
    ∃ levels' l', Stands j (k + 1) levels' l' ∧ Passes j k levels l levels' l' := by
  have shuts : i.shuts := by simp [Instr.shuts, opcode]
  have records := st.records_here (i := i)
  have did := records.did done
  have size : j.mc (k + 1) = j.mc k := (st.mc_succ done).1
  obtain ⟨L, inner, rfl, kind, rfl, scopes, -⟩ := st.top shapes
  have scopes' : ((j.walk k).moveTo i).gen.scopes = L.scope :: inner.map Level.scope := scopes
  have spot :
      Target.spot { pc := ((j.walk k).moveTo i).gen.pc, mc := ((j.walk k).moveTo i).gen.mc } =
      (i.stop - j.base, j.mc k) := by
    rw [Target.spot, st.toNat_pc here, st.toNat_mc]
  refine st.shut here shuts live dead shapes' ?_ (records.apply done) ?_ did.plan ?_
    fun aim off waits => ?_
  · rw [did.scopes]
    simp [Generator.scopesAfter, scopes']
  · rw [Generator.cells_record, ← st.setting_eq here live]
    simp [Generator.cells, Setting.entry, opcode, Opcode.isLoad, Opcode.isStore, Opcode.within]
  · exact fun pos t settled => records.keeps done (settled.moveTo _)
  · cases aim with
    | exit =>
      have waiting : off ∈ ((j.walk k).moveTo i).gen.settles (.delegate depth) := by
        simpa [Level.waits, kind, Generator.settles, scopes'] using waits
      refine ⟨_, ?_, ?_, records.settled done waiting⟩
      · rw [Generator.goal, spot]
        refine .delegated ?_ ⟨here.found, shuts, st.innermost live⟩ opcode
        rw [(st.good L List.mem_cons_self).opcode, kind]
        rfl
      · rw [Generator.goal, spot, ← size]
        exact here.reached_next (by rwa [shapes']) dead
    | edge => simp [Level.waits, kind] at waits

theorem exit_spot (st : Stands j k levels l) (here : j.At k i) (opcode : i.opcode = 0x0b) :
    Target.spot { pc := ((j.walk k).moveTo i).gen.pc - 1, mc := ((j.walk k).moveTo i).gen.mc } =
      (i.start - j.base, j.mc k) := by
  have pc := st.toNat_pc here
  have one := here.bare opcode
  have above := here.base_le
  have le : 1 ≤ ((j.walk k).moveTo i).gen.pc := by
    rw [UInt32.le_iff_toNat_le, pc]
    change 1 ≤ _
    omega
  rw [Target.spot, st.toNat_mc, UInt32.toNat_sub_of_le _ _ le, pc]
  congr 1
  change i.stop - j.base - 1 = _
  omega

theorem lands_exit {L : Level} {inner : List Level} (st : Stands j k (L :: inner) l)
    (here : j.At k i)
    (opcode : i.opcode = 0x0b) (live : (j.walk k).dead.getD 0 = 0) (once : L.kind ≠ .loop) :
    j.Lands L.region (i.start - j.base, j.mc k) ∧ j.Reached (i.start - j.base, j.mc k) := by
  have shuts : i.shuts := by simp [Instr.shuts, opcode]
  refine ⟨.exit ?_ ⟨here.found, shuts, st.innermost live⟩ opcode,
    ⟨k, i, here.found, here.not_skipped live (.inl shuts), rfl⟩⟩
  rw [(st.good L List.mem_cons_self).opcode]
  cases h : L.kind <;> simp_all [FrameKind.opcode]

/-- An `end` of a structure other than a conditional without `else`. -/
theorem close {L : Level} {inner : List Level} (st : Stands j k (L :: inner) l) (here : j.At k i)
    (opcode : i.opcode = 0x0b) (live : (j.walk k).dead.getD 0 = 0) (kind : L.kind ≠ .cond false)
    (done : ((j.walk k).moveTo i).gen.apply .close = .done (j.walk (k + 1)).gen)
    (shapes : (j.walk (k + 1)).shapes = inner.map fun L => (L.kind, L.scope.sig))
    (dead : (j.walk (k + 1)).dead = none) :
    ∃ levels' l', Stands j (k + 1) levels' l' ∧ Passes j k (L :: inner) l levels' l' := by
  have shuts : i.shuts := by simp [Instr.shuts, opcode]
  have records := st.records_here (i := i)
  have did := records.did done
  have good := st.good L List.mem_cons_self
  have scopes : ((j.walk k).moveTo i).gen.scopes = L.scope :: inner.map Level.scope :=
    st.scopes.symm
  refine st.shut here shuts live dead shapes ?_ (records.apply done) ?_ did.plan ?_
    fun aim off waits => ?_
  · rw [did.scopes]
    simp [Generator.scopesAfter, scopes]
  · rw [Generator.cells_record, ← st.setting_eq here live]
    simp [Generator.cells, Setting.entry, opcode]
    rfl
  · exact fun pos t settled => records.keeps done (settled.moveTo _)
  · cases aim with
    | exit =>
      have waiting : off ∈ ((j.walk k).moveTo i).gen.settles .close := by
        simpa [Level.waits, kind, Generator.settles, scopes] using waits
      have settled := records.settled done waiting
      by_cases loop : L.kind = .loop
      · obtain ⟨t, entry, lands, reached⟩ := good.entry loop
        have goal : ((j.walk k).moveTo i).gen.goal .close = t := by
          have : L.scope.kind = .loop := by rw [good.kind, loop]; rfl
          simp [Generator.goal, scopes, this, entry]
        exact ⟨t, lands, reached, goal ▸ settled⟩
      · have goal : (((j.walk k).moveTo i).gen.goal .close).spot = (i.start - j.base, j.mc k) := by
          have : L.scope.kind ≠ .loop := by
            rw [good.kind]
            cases h : L.kind with
            | cond b => cases b <;> simp [FrameKind.scope]
            | _ => simp_all [FrameKind.scope]
          rw [← st.exit_spot here opcode]
          simp [Generator.goal, scopes, this]
        obtain ⟨lands, reached⟩ := st.lands_exit here opcode live loop
        rw [← goal] at lands reached
        exact ⟨_, lands, reached, settled⟩
    | edge => simp [Level.waits, kind] at waits

theorem complete {L : Level} {inner : List Level} (st : Stands j k (L :: inner) l) (here : j.At k i)
    (opcode : i.opcode = 0x0b) (live : (j.walk k).dead.getD 0 = 0) (kind : L.kind = .cond false)
    {mid : Generator} (completed : ((j.walk k).moveTo i).gen.apply .otherwise = .done mid)
    (done : mid.apply .close = .done (j.walk (k + 1)).gen)
    (shapes : (j.walk (k + 1)).shapes = inner.map fun L => (L.kind, L.scope.sig))
    (dead : (j.walk (k + 1)).dead = none) :
    ∃ levels' l', Stands j (k + 1) levels' l' ∧ Passes j k (L :: inner) l levels' l' := by
  have shuts : i.shuts := by simp [Instr.shuts, opcode]
  have closes : Closes j.code L.region k i := ⟨here.found, shuts, st.innermost live⟩
  have good := st.good L List.mem_cons_self
  have inside : L.region ≠ .function := by
    rw [Ne, good.outermost, kind]
    simp
  have scopes : ((j.walk k).moveTo i).gen.scopes = L.scope :: inner.map Level.scope :=
    st.scopes.symm
  have implied : ((j.walk k).moveTo i).gen.site.opcode = Generator.endOpcode := opcode
  have records := st.records_here (i := i)
  have did := records.did completed
  have records₁ := records.apply completed
  obtain ⟨s, others, p, split, -, pending⟩ := Generator.otherwise_inv completed
  obtain ⟨rfl, rfl⟩ : L.scope = s ∧ inner.map Level.scope = others := by
    simpa using scopes.symm.trans split
  have scopes₁ : mid.scopes =
      { L.scope.convert .block .none with pending := none } :: inner.map Level.scope := by
    rw [did.scopes]
    simp [Generator.scopesAfter, split, implied]
  have empty₁ : ((j.walk k).moveTo i).gen.cells .otherwise = [] := by
    simp [Generator.cells, implied]
  have pc₁ : mid.pc = ((j.walk k).moveTo i).gen.pc :=
    (congrArg Generator.pc did.plan : mid.plan.pc = _)
  have mc₁ : mid.mc = ((j.walk k).moveTo i).gen.mc := by
    have size : mid.size = _ := records₁.holds.size
    rw [Generator.size_record, empty₁, Cell.sizes_nil, Nat.add_zero, ← records.holds.size] at size
    rw [Generator.mc, size]
    rfl
  have did₁ := records₁.did done
  have empty₂ : mid.cells .close = [] := by
    simp [Generator.cells, Generator.setting, scopes₁, Scope.convert]
  have nothing : (j.setting k i).entry j.mod i.toInstr = [] := by
    simp [Setting.entry, opcode, Job.setting, st.innermost live, inside]
  have size : j.mc (k + 1) = j.mc k := by
    have : j.mc (k + 1) = _ := (records₁.apply done).holds.size
    rw [this, Generator.size_record, Generator.size_record, empty₁, empty₂, st.mc_eq]
    rfl
  refine st.shut here shuts live dead shapes ?_ (records₁.apply done) ?_ (did₁.plan.trans did.plan)
    ?_
    fun aim off waits => ?_
  · rw [did₁.scopes]
    simp [Generator.scopesAfter, scopes₁]
  · simp [empty₁, empty₂, nothing]
  · exact fun pos t settled => records₁.keeps done (records.keeps completed (settled.moveTo _))
  · cases aim with
    | exit =>
      have waiting : off ∈ mid.settles .close := by
        simpa [Level.waits, kind, Generator.settles, scopes₁, Scope.waiting,
          Scope.convert] using waits
      have goal : (mid.goal .close).spot = (i.start - j.base, j.mc k) := by
        rw [← st.exit_spot here opcode, ← pc₁, ← mc₁]
        simp [Generator.goal, scopes₁, Scope.convert]
      obtain ⟨lands, reached⟩ := st.lands_exit here opcode live (by simp [kind])
      rw [← goal] at lands reached
      exact ⟨_, lands, reached, records₁.settled done waiting⟩
    | edge =>
      obtain rfl : off = p := by simpa [Level.waits, kind, pending] using waits
      have settled :=
        records.settled completed (by simp [Generator.settles, split, pending] : off ∈ _)
      have goal : (((j.walk k).moveTo i).gen.goal .otherwise).spot = (i.stop - j.base, j.mc k) := by
        simp [Generator.goal, implied, Target.spot, st.toNat_pc here, st.toNat_mc]
      refine ⟨_, ?_, ?_, records₁.keeps done settled⟩
      · rw [goal]
        refine .implied (fun e i' h => ?_) closes opcode
        rcases Nat.lt_trichotomy e k with before | rfl | after
        · have := (st.divided L List.mem_cons_self false kind).mpr ⟨e, before, i', h⟩
          simp at this
        · exact here.undivided (by simp [opcode]) _ _ h
        · exact closes.not_mem after (List.mem_of_mem_head? h.innermost)
      · rw [goal, ← size]
        refine here.reached_next ?_ dead
        rw [shapes]
        simpa using st.inner_ne_nil inside

theorem step (st : Stands j k levels l) (here : j.At k i) :
    ∃ levels' l', Stands j (k + 1) levels' l' ∧ Passes j k levels l levels' l' := by
  cases here.turn with
  | skip d d' skipped gen shapes before after depth =>
    exact ⟨levels, l, st.skip here (by rwa [Job.skips_eq here.found]) gen shapes before after depth⟩
  | within live inner _ shapes serves dead =>
    refine st.within here live inner shapes serves ?_
    rw [dead]
    split <;> rfl
  | enter o type sig live opcode imm found done shapes dead =>
    exact st.enter here live opcode imm found done shapes dead
  | otherwise sig rest opcode live shapes done shapes' dead =>
    exact st.otherwise here opcode live shapes done shapes' dead
  | handle kind last handler sig rest opcode live takes shapes done shapes' dead =>
    exact st.handle here opcode live takes shapes done shapes' dead
  | close kind sig rest mid opcode live shapes completed done shapes' dead =>
    obtain ⟨L, inner, rfl, rfl, rfl, -, -⟩ := st.top shapes
    split at completed
    · rename_i cond
      exact st.complete here opcode live cond completed done shapes' dead
    · rename_i cond
      subst completed
      exact st.close here opcode live cond done shapes' dead
  | delegate depth sig rest opcode live shapes inner done shapes' dead =>
    exact st.delegate here opcode live shapes inner done shapes' dead

end Stands

/-! ## From the start to the end -/

namespace Stands

theorem start_gen (j : Job) : j.start.gen.buffer = { limit := j.cfg.maxSize } ∧
    j.start.gen.scopes = [{ kind := .toplevel, sig := j.sig }] := by
  rw [j.gen_start]
  exact ⟨rfl, rfl⟩

/-- In front of the first instruction the function is open and nothing is recorded. -/
theorem start (j : Job) : Stands j 0
    [{ region := .function, kind := .function, scope := { kind := .toplevel, sig := j.sig } }]
    { cells := [], word := fun _ => .unset } where
  regions := rfl
  shapes := rfl
  scopes := (start_gen j).2.symm
  good := by
    intro L mem
    rw [List.mem_singleton.mp mem]
    exact ⟨rfl, rfl, rfl, by simp, by simp⟩
  divided := by
    intro L mem b hb
    rw [List.mem_singleton.mp mem] at hb
    cases hb
  bottom := by simp
  buried := by simp [Job.walk_zero, Job.start, Walk.start]
  records := by
    have outstanding : Scope.outstanding (j.walk 0).gen.scopes = [] := by
      rw [Job.walk_zero, (start_gen j).2]
      rfl
    refine ⟨?_, ?_, ?_, ?_⟩
    · rw [Job.walk_zero, (start_gen j).1]
      exact ⟨rfl, Nat.zero_le _, fun _ _ => rfl⟩
    · rw [outstanding]
      exact fun _ h => absurd h List.not_mem_nil
    · rw [outstanding]
      exact List.nodup_nil
    · rw [Job.walk_zero, (start_gen j).2]
      simp [Scope.Pends]
  cells := rfl
  mod := rfl
  constants := rfl

end Stands

theorem Job.Accepted.stands {md : Metadata} (h : j.Accepted md)
    (short : j.body.bytes.length < 2 ^ 31)
    (le : k ≤ j.code.length) : ∃ levels l, Stands j k levels l := by
  induction k with
  | zero => exact ⟨_, _, .start j⟩
  | succ k ih =>
    obtain ⟨levels, l, st⟩ := ih (Nat.le_of_succ_le le)
    have here := at_of_accepted h short (List.getElem?_eq_getElem (Nat.lt_of_succ_le le))
    obtain ⟨levels', l', st', -⟩ := st.step here
    exact ⟨levels', l', st'⟩

end Sidetable
