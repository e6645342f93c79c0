import Sidetable.Proofs.Acceptance
import Sidetable.Proofs.Twins

/-!
# Jobs side by side

Two bodies of a function may have the same instructions at other offsets, and one of them more
instructions where code is not reached. Their walks are twins at every instruction that both have,
so that both bodies are accepted or neither is.
-/
namespace Sidetable

theorem Buffer.admits_zero (b : Buffer) : b.admits 0 := by
  simp only [admits, Bool.and_eq_true, Bool.or_eq_true, decide_eq_true_eq, Int64.le_iff_toInt_le]
  exact ⟨Nat.zero_le _, Int.le_total _ _⟩

namespace Instr

/-- How many structures are open behind the instructions if `d` are open in front of them. There is
no answer if an instruction divides or closes a structure and none is open. -/
def nesting : Nat → List Instr → Option Nat
  | d, [] => some d
  | d, i :: rest =>
    if i.opens then nesting (d + 1) rest
    else if d = 0 && (i.shuts || i.divides) then none
    else nesting (if i.shuts then d - 1 else d) rest

/-- The instructions close every structure that they open, and neither divide nor close any
other. -/
def Balanced (is : List Instr) : Prop :=
  nesting 0 is = some 0

instance (is : List Instr) : Decidable (Balanced is) :=
  inferInstanceAs (Decidable (_ = _))

theorem not_structural_of_leaving {i : Instr} (leaves : i.falls = false) :
    i.structural = false := by
  rw [Instr.not_structural_iff]
  simp only [falls, List.mem_cons, List.not_mem_nil, or_false, decide_not, Bool.not_eq_false',
    decide_eq_true_eq] at leaves
  rcases leaves with eq | eq | eq | eq | eq | eq | eq | eq <;> simp [eq]

end Instr

namespace Walk

variable {w : Walk} {d e : Nat} {i : Instr.Located} {is more : List Instr.Located}

/-- An instruction in code that is not reached changes the number of structures that are open
there. -/
theorem passes_one (dead : w.dead = some d) (fits : i.Fits)
    (nest : Instr.nesting d (i.toInstr :: is.map Instr.Located.toInstr) = some e) :
    ∃ d', (w.moveTo i).step i.toInstr = .done { w.moveTo i with dead := some d' } ∧
      Instr.nesting d' (is.map Instr.Located.toInstr) = some e := by
  have step : (w.moveTo i).step i.toInstr = (w.moveTo i).stepDead d i.toInstr := by
    have dead' : (w.moveTo i).dead = some d := dead
    rw [Walk.step, dead']
  have same : { w.moveTo i with dead := some d } = w.moveTo i := by
    rw [← dead]
    rfl
  rw [Instr.nesting] at nest
  rw [step]
  by_cases opens : i.opens
  · rw [if_pos opens] at nest
    exact ⟨d + 1, stepDead_opens fits opens, nest⟩
  · rw [if_neg opens] at nest
    split at nest
    · cases nest
    · rename_i within
      by_cases shuts : i.shuts
      · rw [if_pos shuts] at nest
        cases d with
        | zero => simp [shuts] at within
        | succ d => exact ⟨d, stepDead_shuts fits shuts, nest⟩
      · rw [if_neg shuts] at nest
        refine ⟨d, ?_, nest⟩
        rw [same]
        by_cases divides : i.divides
        · cases d with
          | zero => simp [divides] at within
          | succ d => exact stepDead_divides fits divides
        · exact stepDead_inner fits (by simp [Instr.structural, opens, shuts, divides])

/-- Instructions in code that is not reached leave nothing behind but where the generator stands. -/
theorem passes (inside : w.frames ≠ []) (dead : w.dead = some d) (fits : ∀ i ∈ is, i.Fits)
    (nest : Instr.nesting d (is.map Instr.Located.toInstr) = some e) :
    w.Succeeds is ∧ ∃ site,
      is.foldl Walk.next w = { w with gen := w.gen.moveTo site, dead := some e } := by
  induction is generalizing w d with
  | nil =>
    obtain rfl := Option.some.inj nest
    refine ⟨trivial, w.gen.site, ?_⟩
    rw [← dead]
    rfl
  | cons i rest ih =>
    obtain ⟨d', done, nest'⟩ := passes_one dead (fits i List.mem_cons_self) nest
    have next : w.next i = { w.moveTo i with dead := some d' } := by rw [Walk.next, done]
    obtain ⟨succeeds, site, after⟩ := ih (w := w.next i) (by rw [next]; exact inside) (by rw [next])
      (fun i mem => fits i (List.mem_cons_of_mem _ mem)) nest'
    refine ⟨⟨inside, by rw [next, done], succeeds⟩, site, ?_⟩
    rw [List.foldl_cons, after, next]
    rfl

/-- An instruction that is left for good stays within its frame. -/
theorem Turn.of_leaving {w' : Walk} {i : Instr} (turn : w.Turn i w') (live : w.dead = none)
    (leaves : i.falls = false) : w'.dead = some 0 ∧ w'.shapes = w.shapes := by
  cases turn with
  | skip d d' _ _ _ before _ _ => simp [live] at before
  | within _ _ _ shapes _ dead => exact ⟨by simpa [leaves] using dead, shapes⟩
  | enter o _ _ _ opcode _ _ _ _ _ =>
    cases o <;> simp [Instr.falls, opcode, Opener.opcode] at leaves
  | otherwise _ _ opcode _ _ _ _ _ => simp [Instr.falls, opcode] at leaves
  | handle _ _ _ _ _ opcode _ _ _ _ _ _ =>
    rcases opcode with opcode | opcode <;> simp [Instr.falls, opcode] at leaves
  | close _ _ _ _ opcode _ _ _ _ _ _ => simp [Instr.falls, opcode] at leaves
  | delegate _ _ _ opcode _ _ _ _ _ _ => simp [Instr.falls, opcode] at leaves

theorem succeeds_append :
    w.Succeeds (is ++ more) ↔ w.Succeeds is ∧ (is.foldl Walk.next w).Succeeds more := by
  induction is generalizing w with
  | nil => simp [Succeeds]
  | cons i rest ih => simp [Succeeds, ih, and_assoc]

theorem Twin.stay {ρ : UInt32 → UInt32 → Prop} {w w' : Walk} {l l' : Ledger}
    (twin : w.Twin ρ l w' l') (site : Site) :
    w.Twin ρ l { w' with gen := w'.gen.moveTo site } l' := by
  obtain ⟨code, eq⟩ := twin.swaps
  obtain ⟨m, records⟩ := twin.paired'.recorded
  refine ⟨⟨code, ?_⟩, twin.gens.moveTo w.gen.site site, twin.paired,
    ⟨⟨m, records.moveTo site⟩, twin.paired'.scopes, twin.paired'.root, twin.paired'.ended⟩⟩
  rw [eq]
  rfl

end Walk

def FuncBody.decode (b : FuncBody) : Except Fault (List Instr.Located) :=
  Instr.readAll b.bytes.length b.cursor.rest.length b.cursor

namespace Job

variable {ρ : UInt32 → UInt32 → Prop} {j j' : Job} {place : Nat → Nat} {k : Nat} {i : Instr.Located}
    {l l' : Ledger}
  {md md' : Metadata}

structure Siblings (j j' : Job) : Prop where
  mod : ∃ code, j'.mod = { j.mod with code }
  cfg : j'.cfg = j.cfg
  func : j'.func = j.func
  found : (j'.mod.bodyOf j'.func).isSome = (j.mod.bodyOf j.func).isSome
  locals : j'.body.numLocals = j.body.numLocals

namespace Siblings

variable (siblings : j.Siblings j')
include siblings

theorem funcType : j'.mod.funcType j'.func = j.mod.funcType j.func := by
  obtain ⟨code, mod⟩ := siblings.mod
  rw [mod, siblings.func]
  rfl

theorem sig : j'.sig = j.sig := by
  rw [Job.sig, siblings.funcType, Job.sig]

theorem start : j.start.Twin ρ {} j'.start {} := by
  obtain ⟨code, mod⟩ := siblings.mod
  obtain ⟨buffer, scopes⟩ := Stands.start_gen j
  obtain ⟨buffer', scopes'⟩ := Stands.start_gen j'
  have constants := Stands.start_constants j
  have constants' := Stands.start_constants j'
  have globals : j'.mod.globalInfos = j.mod.globalInfos := by
    rw [mod]
    rfl
  refine ⟨⟨code, ?_⟩,
    ⟨(Stands.start j).records, (Stands.start j').records, ?_, ?_, ?_, ?_, ?_, ?_, rfl, ?_⟩,
    .start j, .start j'⟩
  · simp only [Job.start, Walk.start, Walk.swap, siblings.sig, siblings.locals, mod]
  · exact (congrArg (·.1) constants').trans (globals.trans (congrArg (·.1) constants).symm)
  · refine (congrArg (·.2.1) constants').trans (Eq.trans ?_ (congrArg (·.2.1) constants).symm)
    rw [siblings.cfg]
  · refine (congrArg (·.2.2.1) constants').trans (Eq.trans ?_ (congrArg (·.2.2.1) constants).symm)
    rw [siblings.cfg, siblings.sig]
  · rw [buffer, buffer', siblings.cfg]
  · rw [Generator.size, buffer]
    exact Buffer.admits_zero _
  · rw [scopes, scopes', siblings.sig]
    exact .cons (.refl (by simp)) .nil
  · exact fun p word => absurd word List.not_mem_nil

end Siblings

def after (j : Job) (i : Instr.Located) : UInt32 :=
  UInt32.ofNat i.stop - j.body.codeOffset

def between (j : Job) (a b : Nat) : List Instr.Located :=
  (j.code.take b).drop a

/-- Instruction `k` of the first job is instruction `place k` of the second. What the second has in
between is balanced and stands where code is not reached. Offsets that a target may hold are
related. -/
structure Carries (ρ : UInt32 → UInt32 → Prop) (j j' : Job) (place : Nat → Nat) : Prop where
  siblings : j.Siblings j'
  reads : j.body.decode = .ok j.code
  reads' : j'.body.decode = .ok j'.code
  first : place 0 = 0
  last : place j.code.length = j'.code.length
  same : ∀ k i, j.code[k]? = some i → ∃ i', j'.code[place k]? = some i' ∧ i'.toInstr = i.toInstr ∧
    (i.structural → k + 1 < j.code.length → ρ (j.after i) (j'.after i')) ∧
    (i.opcode = 0x0b → ρ (j.after i - 1) (j'.after i' - 1))
  gap : ∀ k i, j.code[k]? = some i → place k < place (k + 1) ∧ (place (k + 1) = place k + 1 ∨
    (j.walk k).dead = none ∧ i.falls = false ∧
      Instr.Balanced ((j'.between (place k + 1) (place (k + 1))).map Instr.Located.toInstr))

def written (j : Job) (k : Nat) : List Cell :=
  match j.code[k]? with
  | some i => ((j.walk k).moveTo i).entry i.toInstr
  | none => []

/-- The walks are twins in front of instruction `k` of the first job and instruction `n` of the
second, with `l` and `l'` for the cells that were appended. -/
structure Abreast (ρ : UInt32 → UInt32 → Prop) (j j' : Job) (place : Nat → Nat) (k n : Nat)
    (l l' : Ledger) : Prop where
  twin : (j.walk k).Twin ρ l (j'.walk n) l'
  offset : (j.walk k).gen.bytecodeOffset = j.body.codeOffset
  offset' : (j'.walk n).gen.bytecodeOffset = j'.body.codeOffset
  succeeds : j.start.Succeeds (j.code.take k)
  succeeds' : j'.start.Succeeds (j'.code.take n)
  cells : l.cells = (List.range k).flatMap j.written
  cells' : l'.cells = (List.range k).flatMap fun k => j'.written (place k)

theorem abreast_zero (carries : Carries ρ j j' place) : Abreast ρ j j' place 0 (place 0) {} {} := by
  rw [carries.first]
  exact ⟨carries.siblings.start, congrArg (·.2.2.2) (Stands.start_constants j),
    congrArg (·.2.2.2) (Stands.start_constants j'), trivial, trivial, rfl, rfl⟩

def Goes (j : Job) (k : Nat) (i : Instr.Located) : Prop :=
  (j.walk k).frames ≠ [] ∧ ((j.walk k).moveTo i).step i.toInstr = .done (j.walk (k + 1))

theorem Goes.next (goes : j.Goes k i) (found : j.code[k]? = some i) :
    j.start.Succeeds (j.code.take k) → j.start.Succeeds (j.code.take (k + 1)) := by
  intro before
  obtain ⟨inside, rfl⟩ := List.getElem?_eq_some_iff.mp found
  rw [List.take_succ_eq_append_getElem inside, Walk.succeeds_append]
  refine ⟨before, goes.1, ?_, trivial⟩
  rw [← walk, ← walk_succ found]
  exact goes.2

theorem twin_step {n : Nat} {i' : Instr.Located} (twin : (j.walk k).Twin ρ l (j'.walk n) l')
    (found : j.code[k]? = some i) (found' : j'.code[n]? = some i') (same : i'.toInstr = i.toInstr)
    (fits : i.Fits) (offset : (j.walk k).gen.bytecodeOffset = j.body.codeOffset)
    (offset' : (j'.walk n).gen.bytecodeOffset = j'.body.codeOffset)
    (place : i.structural → (j.walk (k + 1)).frames ≠ [] → ρ (j.after i) (j'.after i'))
    (exit : i.opcode = 0x0b → ρ (j.after i - 1) (j'.after i' - 1)) (goes : j.Goes k i) :
    j'.Goes n i' ∧ ∃ m m', (j.walk (k + 1)).Twin ρ m (j'.walk (n + 1)) m' ∧
    m.cells = l.cells ++ j.written k ∧ m'.cells = l'.cells ++ j'.written n := by
  obtain ⟨inside, done⟩ := goes
  have pc : ((j.walk k).moveTo i).gen.pc = j.after i := by
    rw [Job.after, ← offset]
    rfl
  have pc' : ((j'.walk n).moveTo i').gen.pc = j'.after i' := by
    rw [Job.after, ← offset']
    rfl
  obtain ⟨v', m, m', done', twin', left, right⟩ := (twin.moveTo i i').step fits inside rfl
    (congrArg Instr.opcode same) (by rwa [pc, pc']) (by rwa [pc, pc']) done
  rw [← same] at done' right
  have next : j'.walk (n + 1) = v' := by
    rw [walk_succ found', Walk.next, done']
  refine ⟨⟨?_, by rw [next]; exact done'⟩, m, m', by rwa [next], ?_, ?_⟩
  · rw [twin.frames]
    exact inside
  · rw [left, written, found]
  · rw [right, written, found']

namespace Abreast

variable {n : Nat} (carries : Carries ρ j j' place)
include carries

/-- The walks stay abreast over an instruction that both have. -/
theorem step (abreast : Abreast ρ j j' place k (place k) l l') (found : j.code[k]? = some i)
    (accepted : (∃ md, j.Accepted md) ∨ ∃ md', j'.Accepted md') :
    j.Goes k i ∧ ∃ m m', Abreast ρ j j' place (k + 1) (place k + 1) m m' := by
  obtain ⟨i', found', same, aims, exits⟩ := carries.same k i found
  have fits : i.Fits := ((Instr.readAll_ok carries.reads).2 i (List.mem_of_getElem? found)).2.1
  have inside : k < j.code.length := (List.getElem?_eq_some_iff.mp found).1
  obtain ⟨goes, goes', m, m', twin, left, right⟩ : j.Goes k i ∧ j'.Goes (place k) i' ∧ ∃ m m',
      (j.walk (k + 1)).Twin ρ m (j'.walk (place k + 1)) m' ∧ m.cells = l.cells ++ j.written k ∧
        m'.cells = l'.cells ++ j'.written (place k) := by
    rcases accepted with ⟨md, accepted⟩ | ⟨md', accepted⟩
    · have goes : j.Goes k i := step_done accepted found
      refine ⟨goes,
        twin_step abreast.twin found found' same fits abreast.offset abreast.offset' ?_ exits goes⟩
      intro structural opened
      refine aims structural (Nat.lt_of_le_of_ne inside fun last => opened ?_)
      rw [last]
      exact (accepted_walk accepted).2.2.1
    · have goes' : j'.Goes (place k) i' := step_done accepted found'
      have place' : i'.structural → (j'.walk (place k + 1)).frames ≠ [] →
          ρ (j.after i) (j'.after i') := by
        intro structural opened
        rw [same] at structural
        refine aims structural (Nat.lt_of_le_of_ne inside fun last => opened ?_)
        rcases (carries.gap k i found).2 with next | ⟨-, leaves, -⟩
        · rw [← next, last, carries.last]
          exact (accepted_walk accepted).2.2.1
        · simp [Instr.not_structural_of_leaving leaves] at structural
      obtain ⟨goes, m', m, twin, right, left⟩ :=
        twin_step abreast.twin.symm found' found same.symm (same ▸ fits)
        abreast.offset' abreast.offset place' (fun opcode => exits (same ▸ opcode)) goes'
      exact ⟨goes, goes', m, m', twin.symm, left, right⟩
  have constants := Walk.step_constants (abreast.twin.paired.moveTo i) fits goes.2
  have constants' := Walk.step_constants (abreast.twin.paired'.moveTo i') (same ▸ fits) goes'.2
  refine ⟨goes, m, m', twin, ?_, ?_, goes.next found abreast.succeeds,
    goes'.next found' abreast.succeeds', ?_, ?_⟩
  · exact (congrArg (·.2.2.2) constants).trans abreast.offset
  · exact (congrArg (·.2.2.2) constants').trans abreast.offset'
  · rw [left, abreast.cells, List.range_succ, List.flatMap_append, List.flatMap_singleton]
  · rw [right, abreast.cells', List.range_succ, List.flatMap_append, List.flatMap_singleton]

theorem cross (abreast : Abreast ρ j j' place (k + 1) (place k + 1) l l')
    (found : j.code[k]? = some i)
    (goes : j.Goes k i) : Abreast ρ j j' place (k + 1) (place (k + 1)) l l' := by
  obtain ⟨before, next | ⟨live, leaves, balanced⟩⟩ := carries.gap k i found
  · rwa [next]
  · have fits : i.Fits := ((Instr.readAll_ok carries.reads).2 i (List.mem_of_getElem? found)).2.1
    obtain ⟨dead, shapes⟩ := (Walk.step_turn fits goes.2).2.of_leaving live leaves
    have inside : (j'.walk (place k + 1)).frames ≠ [] := by
      rw [abreast.twin.frames]
      intro none
      have some : (j.walk k).frames ≠ [] := goes.1
      simp [Walk.shapes, none, Walk.moveTo, some] at shapes
    have split : j'.code.take (place (k + 1)) =
        j'.code.take (place k + 1) ++ j'.between (place k + 1) (place (k + 1)) := by
      have parts := List.take_append_drop (place k + 1) (j'.code.take (place (k + 1)))
      rw [List.take_take, Nat.min_eq_left before] at parts
      exact parts.symm
    have fits' : ∀ i ∈ j'.between (place k + 1) (place (k + 1)), i.Fits := fun i mem =>
      ((Instr.readAll_ok carries.reads').2 i (List.mem_of_mem_take (List.mem_of_mem_drop mem))).2.1
    obtain ⟨succeeds, site, moved⟩ :=
      Walk.passes inside (abreast.twin.dead.trans dead) fits' balanced
    have walk : j'.walk (place (k + 1)) =
        { j'.walk (place k + 1) with gen := (j'.walk (place k + 1)).gen.moveTo site } := by
      rw [Job.walk, split, List.foldl_append, ← Job.walk, moved, ← dead, ← abreast.twin.dead]
    refine ⟨?_, abreast.offset, ?_, abreast.succeeds, ?_, abreast.cells, abreast.cells'⟩
    · rw [walk]
      exact abreast.twin.stay site
    · rw [walk]
      exact abreast.offset'
    · rw [split, Walk.succeeds_append]
      exact ⟨abreast.succeeds', succeeds⟩

/-- If either job is accepted, the walks are abreast to the end. -/
theorem of_accepted (accepted : (∃ md, j.Accepted md) ∨ ∃ md', j'.Accepted md')
    (le : k ≤ j.code.length) : ∃ l l', Abreast ρ j j' place k (place k) l l' := by
  induction k with
  | zero => exact ⟨{}, {}, abreast_zero carries⟩
  | succ k ih =>
    obtain ⟨l, l', abreast⟩ := ih (Nat.le_of_succ_le le)
    have found : j.code[k]? = some j.code[k] := List.getElem?_eq_getElem (Nat.lt_of_succ_le le)
    obtain ⟨goes, m, m', next⟩ := abreast.step carries found accepted
    exact ⟨m, m', next.cross carries found goes⟩

end Abreast

theorem accepted_of_closed (found : (j.mod.bodyOf j.func).isSome)
    (typed : (j.mod.funcType j.func).isSome)
    (reads : j.body.decode = .ok j.code) (succeeds : j.start.Succeeds j.code)
    (closed : (j.walk j.code.length).frames = []) (paired : (j.walk j.code.length).Paired) :
    ∃ md, j.Accepted md := by
  have finished : (j.walk j.code.length).gen.finished :=
    paired.ended (by rw [Walk.shapes, closed]; rfl)
  obtain ⟨md, final⟩ : ∃ md, (j.walk j.code.length).gen.finalize = .ok md := by
    rw [Generator.finalize, if_pos finished]
    exact ⟨_, rfl⟩
  rw [walk, List.take_length] at closed final
  refine ⟨md, ?_⟩
  rw [Accepted, compile_eq_run found typed]
  exact Walk.accepted_of_succeeds reads succeeds closed final

theorem Carries.accepted_iff (carries : Carries ρ j j' place) :
    (∃ md, j.Accepted md) ↔ ∃ md', j'.Accepted md' := by
  constructor
  · rintro ⟨md, accepted⟩
    obtain ⟨found, typed⟩ := accepted_found accepted
    obtain ⟨l, l', abreast⟩ := Abreast.of_accepted carries (.inl ⟨md, accepted⟩) (Nat.le_refl _)
    rw [carries.last] at abreast
    refine accepted_of_closed ?_ ?_ carries.reads' ?_ ?_ abreast.twin.paired'
    · rw [carries.siblings.found, found]
    · rw [carries.siblings.funcType, typed]
    · simpa using abreast.succeeds'
    · rw [abreast.twin.frames]
      exact (accepted_walk accepted).2.2.1
  · rintro ⟨md', accepted⟩
    obtain ⟨found, typed⟩ := accepted_found accepted
    obtain ⟨l, l', abreast⟩ := Abreast.of_accepted carries (.inr ⟨md', accepted⟩) (Nat.le_refl _)
    rw [carries.last] at abreast
    refine accepted_of_closed ?_ ?_ carries.reads ?_ ?_ abreast.twin.paired
    · rw [← carries.siblings.found, found]
    · rw [← carries.siblings.funcType, typed]
    · simpa using abreast.succeeds
    · rw [← abreast.twin.frames]
      exact (accepted_walk accepted).2.2.1

end Job
end Sidetable
