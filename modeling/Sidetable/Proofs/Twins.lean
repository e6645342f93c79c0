import Sidetable.Proofs.Adjustment
import Sidetable.Proofs.Replay
import Sidetable.Proofs.Tracking

/-!
# Twin walks

Two walks that meet the same instructions at other offsets of their bodies go side by side: one step
succeeds exactly if the other does. They have the same frames and scopes, their tables have the same
shape, and every target word holds the same place of the table and a related offset into the code.
-/
namespace Sidetable

namespace Cell

def hollow : Cell → Cell
  | num width _ => num width 0
  | target => target

theorem sizes_hollow (cells : List Cell) : sizes (cells.map hollow) = sizes cells := by
  induction cells with
  | nil => rfl
  | cons c rest ih => cases c <;> simp [hollow, size, ih]

theorem words_hollow (pos : Nat) (cells : List Cell) :
    words pos (cells.map hollow) = words pos cells := by
  induction cells generalizing pos with
  | nil => rfl
  | cons c rest ih => cases c <;> simp [hollow, words, ih]

end Cell

variable {ρ : UInt32 → UInt32 → Prop}

structure Target.Twin (ρ : UInt32 → UInt32 → Prop) (t t' : Target) : Prop where
  pc : ρ t.pc t'.pc
  mc : t'.mc = t.mc

namespace Scope

variable {s s' : Scope}

structure Twin (ρ : UInt32 → UInt32 → Prop) (s s' : Scope) : Prop where
  same : s' = { s with entry := s'.entry }
  entry : s.kind = .loop → ∃ t t', s.entry = some t ∧ s'.entry = some t' ∧ t.Twin ρ t'

namespace Twin

theorem refl (kind : s.kind ≠ .loop) : s.Twin ρ s :=
  ⟨rfl, fun loop => absurd loop kind⟩

theorem symm (twin : s.Twin ρ s') : s'.Twin (flip ρ) s := by
  refine ⟨?_, fun loop => ?_⟩
  · rw [twin.same]
  · rw [twin.same] at loop
    obtain ⟨t, t', entry, entry', pair⟩ := twin.entry loop
    exact ⟨t', t, entry', entry, pair.pc, pair.mc.symm⟩

theorem kind (twin : s.Twin ρ s') : s'.kind = s.kind := by rw [twin.same]

theorem pending (twin : s.Twin ρ s') : s'.pending = s.pending := by rw [twin.same]

theorem waiting (twin : s.Twin ρ s') : s'.waiting = s.waiting := by
  rw [twin.same]
  rfl

theorem branchTypes (twin : s.Twin ρ s') : s'.branchTypes = s.branchTypes := by
  rw [twin.same]
  rfl

theorem branchArity (twin : s.Twin ρ s') : s'.branchArity = s.branchArity := by
  rw [Scope.branchArity, Scope.branchArity, twin.branchTypes]

theorem await (twin : s.Twin ρ s') (off : UInt32) : (s.await off).Twin ρ (s'.await off) := by
  refine ⟨?_, twin.entry⟩
  rw [twin.same]
  rfl

theorem convert (twin : s.Twin ρ s') {kind : ScopeKind} (other : kind ≠ .loop) (handler : Handler)
    (pending : Option UInt32) :
    Scope.Twin ρ { s.convert kind handler with pending } { s'.convert kind handler with
      pending } := by
  refine ⟨?_, fun loop => absurd loop other⟩
  rw [twin.same]
  rfl

end Twin

theorem twin_await {scopes scopes' : List Scope} (h : List.Forall₂ (Twin ρ) scopes scopes')
    (n : Nat) (off : UInt32) :
    List.Forall₂ (Twin ρ) (scopes.modify n (·.await off)) (scopes'.modify n (·.await off)) := by
  induction h generalizing n with
  | nil => simp
  | cons first later ih =>
    cases n with
    | zero => exact .cons (first.await off) later
    | succ n => exact .cons first (ih n)

theorem twin_awaitAll {scopes scopes' : List Scope} {ds : List UInt32} {pos : Nat}
    (h : List.Forall₂ (Twin ρ) scopes scopes') :
    List.Forall₂ (Twin ρ) (awaitAll pos scopes ds) (awaitAll pos scopes' ds) := by
  induction ds generalizing pos scopes scopes' with
  | nil => exact h
  | cons d rest ih => exact ih (twin_await h d.toNat _)

theorem twin_get {scopes scopes' : List Scope} (h : List.Forall₂ (Twin ρ) scopes scopes') {n : Nat}
    (found : scopes[n]? = some s) : ∃ s', scopes'[n]? = some s' ∧ s.Twin ρ s' := by
  induction h generalizing n with
  | nil => simp at found
  | cons first later ih =>
    cases n with
    | zero =>
      obtain rfl := Option.some.inj found
      exact ⟨_, rfl, first⟩
    | succ n => exact ih found

theorem outstanding_twin {scopes scopes' : List Scope} (h : List.Forall₂ (Twin ρ) scopes scopes') :
    outstanding scopes' = outstanding scopes := by
  induction h with
  | nil => rfl
  | cons first later ih =>
    rw [outstanding, outstanding, List.flatMap_cons, List.flatMap_cons, first.waiting]
    exact congrArg _ ih

end Scope

namespace Generator

variable {g g' h : Generator} {l l' m : Ledger} {op : Op}

/-! ## What succeeds was allowed -/

theorem needsScope_inv (done : g.apply op = .done h) (needs : op.needsScope) : g.scopes ≠ [] := by
  intro none
  cases op with
  | otherwise =>
    obtain ⟨s, rest, p, scopes, -⟩ := otherwise_inv done
    simp [none] at scopes
  | close => simp [apply, close, none] at done
  | handle handler =>
    obtain ⟨s, rest, scopes, -⟩ := handle_inv done
    simp [none] at scopes
  | delegate d => simp [apply, delegate, none] at done
  | _ => cases needs

theorem delegate_inv {d : UInt32} {s : Scope} {rest : List Scope}
    (done : g.apply (.delegate d) = .done h)
    (scopes : g.scopes = s :: rest) : s.kind = .attempt := by
  by_contra other
  simp [apply, delegate, scopes, other] at done

theorem label_inv {d : UInt32} (done : g.apply op = .done h) (label : d ∈ op.labels) :
    ∃ s, g.scopes[d.toNat]? = some s ∧ s.branchArity ≤ op.height := by
  cases op with
  | branch e height =>
    rw [List.mem_singleton.mp label]
    exact (branch_appends done).1
  | branchTable ds e height =>
    obtain ⟨m, first, rest⟩ := Outcome.andThen_done.mp done
    obtain ⟨admitted, rfl⟩ := emit_eq_done.mp first
    refine (branches_append rest ?_).1 d label
    simpa [Generator.size, Buffer.size] using Buffer.le_of_admits admitted
  | _ => simp [Op.labels] at label

theorem global_inv {index : UInt32} (done : g.apply op = .done h)
    (names : op.global? = some index) : index.toNat < g.globals.length := by
  by_contra outside
  have none : g.globals[index.toNat]? = none :=
    List.getElem?_eq_none_iff.mpr (Nat.not_lt.mp outside)
  cases op with
  | globalGet index' =>
    obtain rfl := Option.some.inj names
    simp [apply, globalGet, none] at done
  | globalSet index' =>
    obtain rfl := Option.some.inj names
    simp [apply, globalSet, none] at done
  | _ => cases names

theorem allows_of_done (done : g.apply op = .done h) : g.Allows op := by
  intro b misuse
  cases misuse with
  | noScope needs none => exact needsScope_inv done needs none
  | elseIn top wrong =>
    obtain ⟨s, rest, p, scopes, kind, pending⟩ := otherwise_inv done
    obtain ⟨rfl, rfl⟩ := List.cons.inj (top.symm.trans scopes)
    simp [kind, pending] at wrong
  | catchIn handler top wrong =>
    obtain ⟨s, rest, scopes, kind⟩ := handle_inv done
    obtain ⟨rfl, rfl⟩ := List.cons.inj (top.symm.trans scopes)
    exact kind.elim wrong.1 wrong.2
  | delegateIn depth top wrong => exact wrong (delegate_inv done top)
  | label label bad =>
    obtain ⟨s, found, enough⟩ := label_inv done label
    cases bad with
    | depth outside => simp [List.getElem?_eq_none_iff.mpr outside] at found
    | operands s' found' few =>
      obtain rfl := Option.some.inj (found.symm.trans found')
      omega
  | globalIndex names outside => exact absurd (global_inv done names) (Nat.not_lt.mpr outside)

theorem room_of_done (records : g.Records l) (fits : g.buffer.admits g.size)
    (done : g.apply op = .done h) : h.buffer.admits h.size ∧ g.room (Cell.sizes (g.cells op)) := by
  have admits : h.buffer.admits h.size := by
    obtain ⟨mid, grew, rfl | ⟨-, rfl⟩⟩ := apply_grew (by rw [done]; rfl)
    · exact grew.fits fits
    · exact grew.fits fits
  refine ⟨admits, ?_⟩
  rw [room, ← records.size_apply done]
  simpa only [Buffer.admits, apply_limit done] using admits

theorem Records.kept (records : g.Records l) (plan : g.planAfter op = g.plan)
    (done : g.apply op = .done h) : h.constants = g.constants ∧ h.site = g.site := by
  have same : h.plan = g.plan := (records.did done).plan.trans plan
  exact ⟨constants_of_plan same, (congrArg Generator.site same : h.plan.site = g.plan.site)⟩

theorem Performs.plan {ops : List Op} {cells : List Cell} (performs : g.Performs ops cells h)
    (records : g.Records l) (keeps : ∀ op ∈ ops, ∀ g : Generator, g.planAfter op = g.plan) :
    h.plan = g.plan := by
  induction performs generalizing l with
  | nil g => rfl
  | cons done more ih =>
    have first := (records.did done).plan.trans (keeps _ List.mem_cons_self _)
    exact (ih (records.apply done) fun op mem => keeps op (List.mem_cons_of_mem _ mem)).trans first

/-! ## Twin generators -/

/-- Two generators with the same scopes, whose tables have the same shape. Every target word waits
in both of them or holds related targets. -/
structure Twin (ρ : UInt32 → UInt32 → Prop) (g : Generator) (l : Ledger) (g' : Generator)
    (l' : Ledger) : Prop where
  records : g.Records l
  records' : g'.Records l'
  globals : g'.globals = g.globals
  registers : g'.registers = g.registers
  layout : g'.layout = g.layout
  limit : g'.buffer.limit = g.buffer.limit
  fits : g.buffer.admits g.size
  scopes : List.Forall₂ (Scope.Twin ρ) g.scopes g'.scopes
  cells : l'.cells.map Cell.hollow = l.cells.map Cell.hollow
  settled : ∀ p ∈ l.words, (∃ off ∈ Scope.outstanding g.scopes, off.toNat = p) ∨
    (l.word p).Twin ρ (l'.word p)

namespace Twin

variable (twin : g.Twin ρ l g' l')
include twin

theorem ledger_size : l'.size = l.size := by
  rw [Ledger.size, ← Cell.sizes_hollow, twin.cells, Cell.sizes_hollow, Ledger.size]

theorem words : l'.words = l.words := by
  rw [Ledger.words, ← Cell.words_hollow, twin.cells, Cell.words_hollow, Ledger.words]

theorem size : g'.size = g.size := by
  rw [Generator.size, twin.records'.holds.size, twin.ledger_size, ← twin.records.holds.size,
    Generator.size]

theorem mc : g'.mc = g.mc := by
  rw [Generator.mc, twin.size, Generator.mc]

theorem outstanding : Scope.outstanding g'.scopes = Scope.outstanding g.scopes :=
  Scope.outstanding_twin twin.scopes

theorem fits' : g'.buffer.admits g'.size := by
  rw [twin.size]
  simpa only [Buffer.admits, twin.limit] using twin.fits

theorem symm : g'.Twin (flip ρ) l' g l where
  records := twin.records'
  records' := twin.records
  globals := twin.globals.symm
  registers := twin.registers.symm
  layout := twin.layout.symm
  limit := twin.limit.symm
  fits := twin.fits'
  scopes := (twin.scopes.imp fun _ _ pair => pair.symm).flip
  cells := twin.cells.symm
  settled := by
    rw [twin.words, twin.outstanding]
    exact fun p word => (twin.settled p word).imp_right fun pair => ⟨pair.pc, pair.mc.symm⟩

theorem moveTo (site site' : Site) : (g.moveTo site).Twin ρ l (g'.moveTo site') l' :=
  { twin with records := twin.records.moveTo site, records' := twin.records'.moveTo site' }

theorem arity (d : UInt32) :
    g'.scopes[d.toNat]?.map Scope.branchArity = g.scopes[d.toNat]?.map Scope.branchArity := by
  cases found : g.scopes[d.toNat]? with
  | none =>
    have outside : g'.scopes[d.toNat]? = none := by
      rw [List.getElem?_eq_none_iff, ← twin.scopes.length_eq]
      exact List.getElem?_eq_none_iff.mp found
    rw [outside]
  | some s =>
    obtain ⟨s', found', pair⟩ := Scope.twin_get twin.scopes found
    rw [found', Option.map_some, Option.map_some, pair.branchArity]

theorem top : (g.scopes = [] ∧ g'.scopes = []) ∨ ∃ s rest s' rest', g.scopes = s :: rest ∧
    g'.scopes = s' :: rest' ∧ s.Twin ρ s' ∧ List.Forall₂ (Scope.Twin ρ) rest rest' := by
  have both := twin.scopes
  generalize g.scopes = scopes, g'.scopes = scopes' at both
  cases both with
  | nil => exact .inl ⟨rfl, rfl⟩
  | cons first later => exact .inr ⟨_, _, _, _, rfl, rfl, first, later⟩

theorem setting (height : Nat) :
    g'.setting height = { g.setting height with pc := g'.pc.toNat, length := g'.length.toNat } := by
  have final : (g'.setting height).final = (g.setting height).final := by
    rcases twin.top with ⟨none, none'⟩ | ⟨s, rest, s', rest', scopes, scopes', pair, -⟩
    · simp [Generator.setting, none, none']
    · simp [Generator.setting, scopes, scopes', pair.kind, pair.branchTypes]
  simp only [Generator.setting, Setting.mk.injEq, true_and]
  exact ⟨twin.globals, twin.registers, twin.layout, funext fun d => by rw [twin.arity d], final⟩

theorem settles (op : Op) : g'.settles op = g.settles op := by
  rcases twin.top with ⟨none, none'⟩ | ⟨s, rest, s', rest', scopes, scopes', pair, -⟩
  · cases op <;> simp [Generator.settles, none, none']
  · cases op <;> simp [Generator.settles, scopes, scopes', pair.pending, pair.waiting]

theorem cells_hollow (op : Op) (site : g'.site.opcode = g.site.opcode) :
    (g'.cells op).map Cell.hollow = (g.cells op).map Cell.hollow := by
  have branch (height : Nat) (ds : List UInt32) :
      (ds.flatMap (g'.setting height).branch).map Cell.hollow =
      (ds.flatMap (g.setting height).branch).map Cell.hollow := by
    rw [List.map_flatMap, List.map_flatMap, twin.setting]
    rfl
  cases op with
  | close => simp [Generator.cells, twin.setting]
  | otherwise => simp [Generator.cells, site]
  | branch d height => simpa [Generator.cells] using branch height.toNat [d]
  | branchTable ds d height =>
    simp only [Generator.cells, List.map_cons]
    rw [branch]
  | call func callee | callIndirect table type callee =>
    simp [Generator.cells, Cell.hollow, twin.registers]
  | localSlot index | localTee index | globalGet index | globalSet index | value v =>
    simp [Generator.cells, twin.setting, Setting.localSlot, Setting.globalGet, Setting.globalSet,
      Setting.value, Cell.hollow]
  | _ => simp [Generator.cells, Cell.hollow]

theorem goal (site : g'.site.opcode = g.site.opcode) (aims : op.aims → ρ g.pc g'.pc)
    (exits : op = .close → ρ (g.pc - 1) (g'.pc - 1)) {off : UInt32} (settles : off ∈ g.settles op) :
    (g.goal op).Twin ρ (g'.goal op) := by
  rcases twin.top with ⟨none, -⟩ | ⟨s, rest, s', rest', scopes, scopes', pair, -⟩
  · cases op <;> simp [Generator.settles, none] at settles
  · cases op with
    | otherwise => exact ⟨aims rfl, by simp [Generator.goal, site, twin.mc]⟩
    | close =>
      simp only [Generator.goal, scopes, scopes', List.head?_cons, pair.kind]
      split
      · rename_i loop
        obtain ⟨t, t', entry, entry', targets⟩ := pair.entry loop
        rwa [entry, entry']
      · exact ⟨exits rfl, twin.mc⟩
    | delegate d => exact ⟨aims rfl, twin.mc⟩
    | _ => simp [Generator.settles] at settles

theorem scopesAfter (site : g'.site.opcode = g.site.opcode) (aims : op.aims → ρ g.pc g'.pc) :
    List.Forall₂ (Scope.Twin ρ) (g.scopesAfter op) (g'.scopesAfter op) := by
  cases op with
  | block sig | attempt sig => exact .cons (.refl (by simp)) twin.scopes
  | cond sig =>
    simp only [Generator.scopesAfter, twin.mc]
    exact .cons (.refl (by simp)) twin.scopes
  | loop sig =>
    refine .cons ⟨rfl, fun _ => ⟨_, _, rfl, rfl, aims rfl, ?_⟩⟩ twin.scopes
    rw [twin.size]
  | branch d height =>
    simp only [Generator.scopesAfter, twin.size]
    exact Scope.twin_awaitAll twin.scopes
  | branchTable ds d height =>
    simp only [Generator.scopesAfter, twin.size]
    exact Scope.twin_awaitAll twin.scopes
  | otherwise | handle handler | close | delegate d =>
    rcases twin.top with ⟨none, none'⟩ | ⟨s, rest, s', rest', scopes, scopes', pair, later⟩
    · simp [Generator.scopesAfter, none, none']
    · simp only [Generator.scopesAfter, scopes, scopes', site, twin.mc, List.tail_cons]
      first
        | exact later
        | exact .cons (pair.convert (by simp) _ _) later
  | _ => exact twin.scopes

theorem top_of {s' : Scope} {rest' : List Scope} (scopes' : g'.scopes = s' :: rest') :
    ∃ s rest, g.scopes = s :: rest ∧ s.Twin ρ s' := by
  rcases twin.top with ⟨-, none'⟩ | ⟨s, rest, s'', rest'', scopes, other, pair, -⟩
  · simp [none'] at scopes'
  · obtain ⟨rfl, -⟩ := List.cons.inj (scopes'.symm.trans other)
    exact ⟨s, rest, scopes, pair⟩

/-- What one generator may be asked for may be asked of its twin. -/
theorem allows (allows : g.Allows op) : g'.Allows op := by
  intro b misuse
  cases misuse with
  | noScope needs none' =>
    refine allows _ (.noScope needs (List.eq_nil_of_length_eq_zero ?_))
    rw [twin.scopes.length_eq, none', List.length_nil]
  | elseIn top wrong =>
    obtain ⟨s, rest, scopes, pair⟩ := twin.top_of top
    rw [pair.kind, pair.pending] at wrong
    exact allows _ (.elseIn scopes wrong)
  | catchIn handler top wrong =>
    obtain ⟨s, rest, scopes, pair⟩ := twin.top_of top
    rw [pair.kind] at wrong
    exact allows _ (.catchIn handler scopes wrong)
  | delegateIn depth top wrong =>
    obtain ⟨s, rest, scopes, pair⟩ := twin.top_of top
    rw [pair.kind] at wrong
    exact allows _ (.delegateIn depth scopes wrong)
  | label label bad =>
    cases bad with
    | depth outside =>
      rw [← twin.scopes.length_eq] at outside
      exact allows _ (.label label (.depth outside))
    | operands s' found' few =>
      obtain ⟨s, found, pair⟩ := Scope.twin_get twin.symm.scopes found'
      rw [← pair.branchArity] at few
      exact allows _ (.label label (.operands s found few))
  | globalIndex names outside =>
    rw [twin.globals] at outside
    exact allows _ (.globalIndex names outside)

/-- Words that the operation settles hold related targets, and all others of the twins wait or are
as they were. -/
theorem settled_record (site : g'.site.opcode = g.site.opcode) (aims : op.aims → ρ g.pc g'.pc)
    (exits : op = .close → ρ (g.pc - 1) (g'.pc - 1)) (done : g.apply op = .done h) {p : Nat}
    (word : p ∈ (g.record op l).words) : (∃ off ∈ Scope.outstanding h.scopes, off.toNat = p) ∨
      ((g.record op l).word p).Twin ρ ((g'.record op l').word p) := by
  have leaves := twin.records.leaves done
  by_cases written : ∃ off ∈ g.settles op, off.toNat = p
  · obtain ⟨off, settles, rfl⟩ := written
    have settles' : off ∈ g'.settles op := by rwa [twin.settles]
    right
    rw [record, record, Ledger.word_add, Ledger.word_add, Ledger.word_assign_of_mem settles,
      Ledger.word_assign_of_mem settles']
    exact twin.goal site aims exits settles
  · have spared : ∀ off ∈ g.settles op, off.toNat ≠ p :=
      fun off settles eq => written ⟨off, settles, eq⟩
    have waits {off : UInt32} (eq : off.toNat = p)
        (mem : off ∈ Scope.outstanding g.scopes ++
          (Cell.words g.size (g.cells op)).map UInt32.ofNat) :
        ∃ off ∈ Scope.outstanding h.scopes, off.toNat = p := by
      rcases List.mem_append.mp (leaves.conserves.symm.subset mem) with settles | waits
      · exact absurd eq (spared off settles)
      · exact ⟨off, waits, eq⟩
    have words : (g.record op l).words = l.words ++ Cell.words g.size (g.cells op) := by
      rw [record, Ledger.words_add, Ledger.size_assign, Generator.size, twin.records.holds.size]
      rfl
    rw [words] at word
    rcases List.mem_append.mp word with old | new
    · rcases twin.settled p old with ⟨off, waiting, eq⟩ | pair
      · exact .inl (waits eq (List.mem_append_left _ waiting))
      · right
        rw [record, record, Ledger.word_add, Ledger.word_add, Ledger.word_assign_of_not_mem spared,
          Ledger.word_assign_of_not_mem (by rwa [twin.settles])]
        exact pair
    · obtain ⟨-, eq, -⟩ := leaves.new_word twin.records new
      exact .inl (waits eq (List.mem_append_right _ (List.mem_map_of_mem new)))

/-- An operation that succeeds succeeds for the twin, and leaves twins. -/
theorem apply (plan : ∀ g : Generator, g.planAfter op = g.plan)
    (site : g'.site.opcode = g.site.opcode)
    (aims : op.aims → ρ g.pc g'.pc) (exits : op = .close → ρ (g.pc - 1) (g'.pc - 1))
    (done : g.apply op = .done h) :
    ∃ h', g'.apply op = .done h' ∧ h.Twin ρ (g.record op l) h' (g'.record op l') := by
  have hollow := twin.cells_hollow op site
  have sizes : Cell.sizes (g'.cells op) = Cell.sizes (g.cells op) := by
    rw [← Cell.sizes_hollow, hollow, Cell.sizes_hollow]
  obtain ⟨fits, room⟩ := room_of_done twin.records twin.fits done
  obtain ⟨h', done'⟩ : ∃ h', g'.apply op = .done h' := by
    refine twin.records'.succeeds (twin.records'.safe (twin.allows (allows_of_done done))) ?_
    rw [sizes]
    simpa only [Generator.room, Buffer.admits, twin.limit, twin.size] using room
  have constants := (twin.records.kept (plan g) done).1
  have constants' := (twin.records'.kept (plan g') done').1
  refine ⟨h', done', twin.records.apply done, twin.records'.apply done', ?_, ?_, ?_, ?_, fits, ?_,
    ?_, ?_⟩
  · exact (congrArg (·.1) constants').trans (twin.globals.trans (congrArg (·.1) constants).symm)
  · exact (congrArg (·.2.1) constants').trans
      (twin.registers.trans (congrArg (·.2.1) constants).symm)
  · exact (congrArg (·.2.2.1) constants').trans
      (twin.layout.trans (congrArg (·.2.2.1) constants).symm)
  · rw [apply_limit done, apply_limit done', twin.limit]
  · rw [(twin.records.did done).scopes, (twin.records'.did done').scopes]
    exact twin.scopesAfter site aims
  · rw [cells_record, cells_record, List.map_append, List.map_append, twin.cells, hollow]
  · exact fun p word => twin.settled_record site aims exits done word

theorem performs {ops : List Op} {cells : List Cell}
    (plan : ∀ op ∈ ops, ∀ g : Generator, g.planAfter op = g.plan)
    (site : g'.site.opcode = g.site.opcode) (aims : ∀ op ∈ ops, op.aims → ρ g.pc g'.pc)
    (exits : Op.close ∈ ops → ρ (g.pc - 1) (g'.pc - 1)) (performs : g.Performs ops cells h) :
    ∃ cells' h' m m', g'.Performs ops cells' h' ∧ h.Twin ρ m h' m' ∧ m.cells = l.cells ++ cells ∧
      m'.cells = l'.cells ++ cells' := by
  induction performs generalizing g' l l' with
  | nil g => exact ⟨[], g', l, l', .nil g', twin, by simp, by simp⟩
  | @cons g next h op ops cells done more ih =>
    have keeps := plan op List.mem_cons_self
    obtain ⟨next', done', later⟩ := twin.apply keeps site (aims op List.mem_cons_self)
      (fun close => exits (close ▸ List.mem_cons_self)) done
    obtain ⟨constants, same⟩ := twin.records.kept (keeps g) done
    obtain ⟨constants', same'⟩ := twin.records'.kept (keeps g') done'
    have pc : next.pc = g.pc := by
      rw [Generator.pc, Generator.pc, same]
      exact congrArg _ (congrArg (·.2.2.2) constants)
    have pc' : next'.pc = g'.pc := by
      rw [Generator.pc, Generator.pc, same']
      exact congrArg _ (congrArg (·.2.2.2) constants')
    obtain ⟨cells', h', m, m', all, last, left, right⟩ :=
      ih later (fun op mem => plan op (List.mem_cons_of_mem _ mem)) (by rw [same, same', site])
        (fun op mem => by rw [pc, pc']; exact aims op (List.mem_cons_of_mem _ mem))
        (fun mem => by rw [pc, pc']; exact exits (List.mem_cons_of_mem _ mem))
    exact ⟨_, h', m, m', .cons done' all, last, by rw [left, cells_record, List.append_assoc],
      by rw [right, cells_record, List.append_assoc]⟩

end Twin
end Generator

/-! ## Twin walks -/

namespace Walk

variable {w w' v : Walk} {l l' : Ledger} {i : Instr}

def entry (w : Walk) (i : Instr) : List Cell :=
  if w.skips i then [] else (w.gen.setting (w.height i)).entry w.mod i

theorem step_plan (paired : w.Paired) (fits : i.Fits) (done : w.step i = .done v) :
    v.gen.plan = w.gen.plan := by
  obtain ⟨ops, plays⟩ := step_plays paired fits done
  obtain ⟨cells, performs⟩ := plays.replays.performs
  obtain ⟨l, records⟩ := paired.recorded
  exact performs.plan records plays.plan

theorem step_constants (paired : w.Paired) (fits : i.Fits) (done : w.step i = .done v) :
    v.gen.constants = w.gen.constants :=
  Generator.constants_of_plan (step_plan paired fits done)

structure Twin (ρ : UInt32 → UInt32 → Prop) (w : Walk) (l : Ledger) (w' : Walk)
    (l' : Ledger) : Prop where
  swaps : ∃ code, w' = w.swap code w'.gen
  gens : w.gen.Twin ρ l w'.gen l'
  paired : w.Paired
  paired' : w'.Paired

namespace Twin

variable (twin : w.Twin ρ l w' l')
include twin

theorem symm : w'.Twin (flip ρ) l' w l := by
  obtain ⟨code, eq⟩ := twin.swaps
  refine ⟨⟨w.mod.code, ?_⟩, twin.gens.symm, twin.paired', twin.paired⟩
  rw [eq]
  rfl

theorem frames : w'.frames = w.frames := by
  obtain ⟨code, eq⟩ := twin.swaps
  rw [eq]
  rfl

theorem dead : w'.dead = w.dead := by
  obtain ⟨code, eq⟩ := twin.swaps
  rw [eq]
  rfl

theorem skips (i : Instr) : w'.skips i = w.skips i := by
  rw [Walk.skips, Walk.skips, twin.dead]

theorem height (i : Instr) : w'.height i = w.height i := by
  rw [Walk.height, Walk.height, twin.frames]

theorem moveTo (i i' : Instr.Located) : (w.moveTo i).Twin ρ l (w'.moveTo i') l' := by
  obtain ⟨code, eq⟩ := twin.swaps
  refine ⟨⟨code, ?_⟩, twin.gens.moveTo _ _, twin.paired.moveTo i, twin.paired'.moveTo i'⟩
  rw [eq]
  rfl

/-- A step that succeeds succeeds for the twin, and leaves twins. Each appends its own entry of the
instruction. -/
theorem step (fits : i.Fits) (inside : w.frames ≠ []) (opcode : w.gen.site.opcode = i.opcode)
    (opcode' : w'.gen.site.opcode = i.opcode)
    (place : i.structural → v.frames ≠ [] → ρ w.gen.pc w'.gen.pc)
    (exit : i.opcode = 0x0b → ρ (w.gen.pc - 1) (w'.gen.pc - 1)) (done : w.step i = .done v) :
    ∃ v' m m', w'.step i = .done v' ∧ v.Twin ρ m v' m' ∧ m.cells = l.cells ++ w.entry i ∧
      m'.cells = l'.cells ++ w'.entry i := by
  obtain ⟨ops, plays⟩ := step_plays twin.paired fits done
  obtain ⟨cells, performs⟩ := plays.replays.performs
  obtain ⟨cells', h', m, m', performs', gens, left, right⟩ :=
    twin.gens.performs plays.plan (opcode'.trans opcode.symm)
    (fun op mem aims => (plays.aims op mem aims).elim place) (fun mem => exit (plays.exits mem))
      performs
  obtain ⟨code, eq⟩ := twin.swaps
  have globals : w'.gen.globals.length = w.gen.globals.length := by rw [twin.gens.globals]
  have done' : w'.step i = .done (v.swap code h') := by
    rw [eq]
    exact plays.replays.again code w'.gen cells' h' globals performs'
  have shapes {u : Walk} (inside : u.frames ≠ []) : u.shapes ≠ [] := by
    simpa [Walk.shapes] using inside
  refine ⟨v.swap code h', m, m', done', ⟨⟨code, rfl⟩, gens, ?_, ?_⟩, ?_, ?_⟩
  · exact twin.paired.turn (shapes inside) (step_turn fits done).2
  · exact twin.paired'.turn (shapes (by rwa [twin.frames])) (step_turn fits done').2
  · rw [left, plays.cells _ _ _ _ twin.gens.records opcode performs]
    rfl
  · rw [right, plays.cells _ _ _ _ twin.gens.records' opcode' performs', entry, twin.skips,
      twin.height, eq]
    rfl

end Twin
end Walk
end Sidetable
