import Sidetable.Proofs.Stream
import Sidetable.Proofs.Tracking

/-!
# Bodies that count as valid are accepted

Every instruction that the count allows leads the walk on, in code that is reached and in code that
is not. So a body that passes the count has a side table, unless the table grows too large for its
format, and at every branch the walk finds as many operands as the count does.
-/
namespace Sidetable

open OperandCount (Ctrl Env State)

namespace Immediate

variable {imm : Immediate}

theorem of_block (h : imm.kind = .block) : ∃ type, imm = .block type := by
  cases imm <;> first | exact ⟨_, rfl⟩ | cases h

theorem of_label (h : imm.kind = .label) : ∃ d, imm = .label d := by
  cases imm <;> first | exact ⟨_, rfl⟩ | cases h

theorem of_tag (h : imm.kind = .tag) : ∃ tag, imm = .tag tag := by
  cases imm <;> first | exact ⟨_, rfl⟩ | cases h

end Immediate

theorem Instr.Fits.imm_kind {i : Instr} (fits : i.Fits)
    (other : Immediate.Kind.ofOpcode i.opcode ≠ .misc) : i.imm.kind = .ofOpcode i.opcode := by
  rcases fits with kind | ⟨kind, -, -⟩
  · exact kind.symm
  · exact absurd kind other

theorem Instr.forall_of_readAll {P : Located → Prop} {size fuel : Nat} {c : Cursor}
    {is : List Located}
    (each : ∀ {c next i}, read size c = .ok i next → P i) (h : readAll size fuel c = .ok is) :
    ∀ i ∈ is, P i := by
  induction fuel generalizing c is with
  | zero =>
    obtain rfl := Except.ok.inj h
    simp
  | succ fuel ih =>
    rcases readAll_succ h with ⟨-, rfl⟩ | ⟨-, i, next, rest, first, others, rfl⟩
    · simp
    · exact List.forall_mem_cons.mpr ⟨each first, ih others⟩

namespace Walk

variable {w w' : Walk} {e : Env} {r : Registers} {s s' t : State} {i : Instr} {n d : Nat}
  {c : Ctrl} {cs : List Ctrl} {f : Frame} {fs : List Frame}

/-! ## Code that is not reached -/

theorem stepDead_inner (fits : i.Fits) (inner : i.structural = false) :
    w.stepDead d i = .done w := by
  have describes := i.action_describes
  have malformed := fits.action_ne
  rw [Instr.not_structural_iff] at inner
  unfold stepDead
  generalize i.action = action at describes malformed
  cases action with
  | enter o type => cases o <;> simp [describes.1, Opener.opcode] at inner
  | malformed => exact absurd rfl malformed
  | otherwise | close | catchTag tag | catchAll | delegate label => simp_all [Action.Describes]
  | _ => rfl

theorem stepDead_opens (fits : i.Fits) (opens : i.opens) :
    w.stepDead d i = .done { w with dead := some (d + 1) } := by
  obtain ⟨op, sub, imm⟩ := i
  simp only [Instr.opens, Bool.or_eq_true, decide_eq_true_eq] at opens
  have block : imm.kind = .block := by
    rcases opens with ((rfl | rfl) | rfl) | rfl <;> exact fits.imm_kind (by rintro ⟨⟩)
  obtain ⟨type, rfl⟩ := Immediate.of_block block
  rcases opens with ((rfl | rfl) | rfl) | rfl <;> rfl

theorem stepDead_divides (fits : i.Fits) (divides : i.divides) :
    w.stepDead (d + 1) i = .done w := by
  obtain ⟨op, sub, imm⟩ := i
  simp only [Instr.divides, Bool.or_eq_true, decide_eq_true_eq] at divides
  rcases divides with (rfl | rfl) | rfl
  · rfl
  · obtain ⟨tag, rfl⟩ := Immediate.of_tag (fits.imm_kind (by rintro ⟨⟩))
    rfl
  · rfl

theorem stepDead_shuts (fits : i.Fits) (shuts : i.shuts) :
    w.stepDead (d + 1) i = .done { w with dead := some d } := by
  obtain ⟨op, sub, imm⟩ := i
  simp only [Instr.shuts, Bool.or_eq_true, decide_eq_true_eq] at shuts
  rcases shuts with rfl | rfl
  · rfl
  · obtain ⟨label, rfl⟩ := Immediate.of_label (fits.imm_kind (by rintro ⟨⟩))
    rfl

/-- Code that is not reached is passed over, and structures that are opened in it are counted. -/
theorem lands_passed (fits : i.Fits) (shares : w.Shares e r) (dead : w.dead = some d)
    (follows : Follows s (some d) w.frames) (h : s.step e i = some s')
    (inside : d = 0 → i.shuts = false ∧ i.divides = false) : w.Lands e r 0 s' (w.stepDead d i) := by
  obtain ⟨inner, c, cs, f, fs, ctrls, rfl, unreachable, rest⟩ := follows
  have moves := State.step_moves h
  generalize before : s.ctrls = all at moves
  generalize after : s'.ctrls = all' at moves
  rw [ctrls] at before
  have passed (follows : Follows s' (some inner.length) w.frames) : w.Lands e r 0 s' (.done w) :=
    shares.lands (dead ▸ follows)
  -- whatever moves lies among the structures that were opened since, `inner`
  cases moves with
  | stays plain =>
    rw [stepDead_inner fits plain]
    exact passed ⟨inner, c, cs, f, fs, after.trans before.symm, rfl, unreachable, rest⟩
  | kills plain =>
    rw [stepDead_inner fits plain]
    cases inner with
    | nil =>
      obtain ⟨rfl, rfl⟩ := List.cons.inj before
      exact passed ⟨[], _, cs, f, fs, after, rfl, rfl, rest⟩
    | cons top inner =>
      obtain ⟨rfl, rfl⟩ := List.cons.inj before
      exact passed ⟨_ :: inner, c, cs, f, fs, after, rfl, unreachable, rest⟩
  | opens opens =>
    rw [stepDead_opens fits opens]
    rw [← before] at after
    exact shares.lands ⟨_ :: inner, c, cs, f, fs, after, rfl, unreachable, rest⟩
  | divides divides =>
    cases inner with
    | nil => simp [inside rfl] at divides
    | cons top inner =>
      obtain ⟨rfl, rfl⟩ := List.cons.inj before
      rw [List.length_cons, stepDead_divides fits divides]
      exact passed ⟨_ :: inner, c, cs, f, fs, after, rfl, unreachable, rest⟩
  | shuts shuts =>
    cases inner with
    | nil => simp [inside rfl] at shuts
    | cons top inner =>
      obtain ⟨rfl, rfl⟩ := List.cons.inj before
      rw [List.length_cons, stepDead_shuts fits shuts]
      exact shares.lands ⟨inner, c, cs, f, fs, after, rfl, unreachable, rest⟩

/-- In unreachable code only the end or the next part of its structure is reached. -/
theorem Follows.reaches_dead (follows : Follows s (some d) fs) :
    s.reaches i = (decide (d = 0) && (i.shuts || i.divides)) := by
  have dead : s.live = false := by
    rw [Bool.eq_false_iff]
    exact fun live => absurd (follows.live_iff.mpr live) (by simp)
  obtain ⟨inner, c, cs, f, fs, ctrls, rfl, unreachable, -, -, -, below⟩ := follows
  cases inner with
  | nil => simp [State.reaches, dead, ctrls, below.live]
  | cons top inner => simp [State.reaches, dead, ctrls, unreachable]

theorem lands_dead (fits : i.Fits) (paired : w.Paired) (shares : w.Shares e r)
    (dead : w.dead = some d)
    (site : w.gen.site.opcode = i.opcode) (follows : Follows s (some d) w.frames)
    (h : s.step e i = some s') (room : w.gen.size + s.charge e r i ≤ Buffer.maxSize) :
    w.Lands e r (s.charge e r i) s' (w.stepDead d i) := by
  rw [State.charge, follows.reaches_dead] at room ⊢
  by_cases ends : d = 0 ∧ (i.shuts ∨ i.divides)
  · obtain ⟨rfl, ends⟩ := ends
    obtain ⟨inner, c, cs, f, fs, ctrls, length, unreachable, frames, kind, sig, below⟩ := follows
    rw [List.length_eq_zero_iff.mp length, List.nil_append] at ctrls
    have here : Innermost e r s w c cs f fs := ⟨ctrls, frames, kind, sig, below, paired, shares⟩
    have reached : (decide (0 = 0) && (i.shuts || i.divides)) = true := by simpa using ends
    rw [if_pos reached] at room ⊢
    obtain ⟨op, sub, imm⟩ := i
    rw [State.step, if_neg (by simp [ctrls])] at h
    simp only [Instr.shuts, Instr.divides, Bool.or_eq_true, decide_eq_true_eq] at ends
    rcases ends with (rfl | rfl) | (rfl | rfl) | rfl
    · have charge : entrySize e.mod r ⟨0x0b, sub, imm⟩ + s.footer ⟨0x0b, sub, imm⟩ =
          if c.kind = .function then Entry.roundUp (c.sig.results.length + 2) else 0 := by
        simp [State.footer, ctrls, entrySize]
      exact here.close site h charge room
    · rw [State.footer_of_ne (by decide)] at room ⊢
      obtain ⟨label, rfl⟩ := Immediate.of_label (fits.imm_kind (by rintro ⟨⟩))
      exact here.delegate h room
    · rw [State.footer_of_ne (by decide)] at room ⊢
      exact here.otherwise site h room
    · rw [State.footer_of_ne (by decide)] at room ⊢
      obtain ⟨tag, rfl⟩ := Immediate.of_tag (fits.imm_kind (by rintro ⟨⟩))
      exact here.catchTag h room
    · rw [State.footer_of_ne (by decide)] at room ⊢
      exact here.catchAll h room
  · have passed : (decide (d = 0) && (i.shuts || i.divides)) = false := by
      rw [Bool.eq_false_iff]
      simpa using ends
    rw [passed]
    refine lands_passed fits shares dead follows h fun zero => ?_
    simpa [zero] using ends

/-! ## One instruction -/

namespace Live

variable (live : Live e r s w)
include live

theorem innermost : ∃ c cs f fs, Innermost e r s w c cs f fs ∧ c.unreachable = false ∧
    s.height = c.base + f.height := by
  obtain ⟨c, cs, f, fs, ctrls, frames, kind, sig, reached, above, below⟩ := live.top
  exact ⟨c, cs, f, fs, ⟨ctrls, frames, kind, sig, below, live.paired, live.shares⟩, reached, above⟩

/-- The walk asks for no more than the results, and the count for exactly the results. -/
theorem close (opcode : w.gen.site.opcode = 0x0b) (h : s.close = some s')
    (room : w.gen.size + s.footer ⟨0x0b, 0, .none⟩ ≤ Buffer.maxSize) :
    w.Lands e r (s.footer ⟨0x0b, 0, .none⟩) s' (w.withTop fun f =>
      if f.height < f.sig.results.length then .failed w (.scopeEnds f.height f.sig.results.length)
      else w.close) := by
  obtain ⟨c, cs, f, fs, here, reached, above⟩ := live.innermost
  have enough : ¬ f.height < f.sig.results.length := by
    obtain ⟨c', t, left, -⟩ := State.close_some h
    obtain ⟨rfl, -⟩ := here.left left
    obtain ⟨-, -, u, taken, -⟩ := State.leave_some left
    have count := ((State.pops_reached here.ctrls reached).mp taken).1
    rw [here.sig] at count
    omega
  have charge : s.footer ⟨0x0b, 0, .none⟩ =
      if c.kind = .function then Entry.roundUp (c.sig.results.length + 2) else 0 := by
    simp [State.footer, here.ctrls]
  simp only [withTop, here.frames]
  rw [if_neg enough]
  exact here.close opcode h charge room

theorem call {tail : Bool} {func : UInt32} {sig : FuncType} (found : e.mod.funcType func = some sig)
    (h : s.call tail 0 sig = some s')
    (room : w.gen.size + (8 + callSize r (e.mod.funcType func)) ≤ Buffer.maxSize) :
    w.Lands e r (8 + callSize r (e.mod.funcType func)) s' (w.call tail func) := by
  rw [found] at room ⊢
  have size : Cell.sizes (w.gen.cells (.call func sig)) = 8 + callSize r (some sig) := by
    rw [Generator.cells, Cell.sizes_append, Cell.sizes_callData, live.shares.registers]
    rfl
  simp only [Walk.call, live.shares.mod, found]
  exact live.afterCall h (Generator.allows_of_free rfl rfl rfl) size room

theorem callIndirect {tail : Bool} {type table : UInt32} {sig : FuncType}
    (found : e.mod.typeAt type = some sig) (h : s.call tail 1 sig = some s')
    (room : w.gen.size + (16 + callSize r (e.mod.typeAt type)) ≤ Buffer.maxSize) :
    w.Lands e r (16 + callSize r (e.mod.typeAt type)) s' (w.callIndirect tail type table) := by
  rw [found] at room ⊢
  have size :
      Cell.sizes (w.gen.cells (.callIndirect table type sig)) = 16 + callSize r (some sig) := by
    rw [Generator.cells, Cell.sizes_append, Cell.sizes_callData, live.shares.registers]
    rfl
  simp only [Walk.callIndirect, live.shares.mod, found]
  exact live.afterCall h (Generator.allows_of_free rfl rfl rfl) size room

theorem lands (site : w.gen.site.opcode = i.opcode) (fits : i.Fits) (complete : i.Complete)
    (supported : State.supports i) (h : s.step e i = some s')
    (room : w.gen.size + s.charge e r i ≤ Buffer.maxSize) :
    w.Lands e r (s.charge e r i) s' (w.stepLive i) := by
  obtain ⟨c, cs, f, fs, here, -, -⟩ := live.innermost
  have reached : s.reaches i := by
    rw [State.reaches, State.live, live.tracks.live]
    rfl
  rw [State.charge, if_pos reached] at room ⊢
  rw [State.step, if_neg (by simp [here.ctrls])] at h
  obtain ⟨op, sub, imm⟩ := i
  dsimp only at h
  split at h
  case h_7 =>
    have charge : entrySize e.mod r ⟨0x0b, sub, imm⟩ + s.footer ⟨0x0b, sub, imm⟩ =
        s.footer ⟨0x0b, 0, .none⟩ := by
      simp [State.footer, entrySize]
    rw [charge] at room ⊢
    exact live.close site h room
  case h_25 =>
    obtain ⟨m, n, t, counted, -⟩ := State.plain_some h
    have action : Instr.action ⟨op, sub, imm⟩ = .plain := State.action_of_counts counted
    have bare : op ≠ 0x0b := by
      rintro rfl
      cases counted
    rw [State.footer_of_ne bare] at room ⊢
    simp only [stepLive, action]
    exact live.plain fits complete h room
  case h_21 | h_22 | h_23 | h_24 => cases supported
  all_goals rw [State.footer_of_ne (by decide)] at room ⊢
  · exact live.shares.lands (live.tracks.kill rfl h)
  · exact live.enter h (fun _ => rfl) room
  · exact live.enter h (fun _ => rfl) room
  · exact live.enter h (fun _ => rfl) room
  · exact live.enter h (fun _ => rfl) room
  · exact here.otherwise site h room
  · exact here.catchTag h room
  · exact here.catchAll h room
  · exact here.delegate h room
  · exact live.raise h
  · exact live.rethrow h
  · exact live.branch h room
  · exact live.branchIf h room
  · exact live.branchTable h room
  · obtain ⟨n, t, taken, killed⟩ := State.exit_some h
    exact live.shares.lands (live.tracks.kill (State.pops_ctrls taken) killed)
  · obtain ⟨sig, found, h⟩ := Option.bind_eq_some_iff.mp h
    exact live.call found h room
  · obtain ⟨sig, found, h⟩ := Option.bind_eq_some_iff.mp h
    exact live.call found h room
  · obtain ⟨sig, found, h⟩ := Option.bind_eq_some_iff.mp h
    exact live.callIndirect found h room
  · obtain ⟨sig, found, h⟩ := Option.bind_eq_some_iff.mp h
    exact live.callIndirect found h room

end Live

/-- The walk and the count are about the same function and stand at the same place. -/
structure Agrees (e : Env) (r : Registers) (s : State) (w : Walk) : Prop where
  paired : w.Paired
  shares : w.Shares e r
  follows : Follows s w.dead w.frames

theorem Follows.closed_iff {dead : Option Nat} (follows : Follows s dead fs) :
    fs = [] ↔ s.ctrls = [] := by
  cases dead with
  | none => rw [← List.length_eq_zero_iff, ← List.length_eq_zero_iff, Tracks.length_eq follows]
  | some d =>
    obtain ⟨inner, c, cs, f, fs, ctrls, -, -, rfl, -⟩ := follows
    simp [ctrls]

namespace Agrees

variable (agrees : Agrees e r s w)
include agrees

theorem moveTo (i : Instr.Located) : Agrees e r s (w.moveTo i) where
  paired := agrees.paired.moveTo i
  shares :=
    ⟨agrees.shares.mod, agrees.shares.locals, agrees.shares.globals, agrees.shares.registers,
    agrees.shares.unlimited⟩
  follows := agrees.follows

theorem inside (h : s.step e i = some s') : w.frames ≠ [] :=
  fun none => State.step_inside h (agrees.follows.closed_iff.mp none)

theorem live (inside : w.frames ≠ []) (reached : s.live) : Live e r s w := by
  have dead : w.dead = none := agrees.follows.live_iff.mpr reached
  have follows := agrees.follows
  rw [dead] at follows
  exact ⟨dead, inside, follows, agrees.paired, agrees.shares⟩

theorem lands (site : w.gen.site.opcode = i.opcode) (fits : i.Fits) (complete : i.Complete)
    (supported : s.live → State.supports i) (h : s.step e i = some s')
    (room : w.gen.size + s.charge e r i ≤ Buffer.maxSize) :
    w.Lands e r (s.charge e r i) s' (w.step i) := by
  cases dead : w.dead with
  | none =>
    have reached : s.live := agrees.follows.live_iff.mp dead
    have live := agrees.live (agrees.inside h) reached
    simp only [Walk.step, dead]
    exact live.lands site fits complete (supported reached) h room
  | some d =>
    have follows := agrees.follows
    rw [dead] at follows
    simp only [Walk.step, dead]
    exact lands_dead fits agrees.paired agrees.shares dead site follows h room

theorem branch (h : s.step e i = some s') (branch : i.opcode ∈ [0x0c, 0x0d, 0x0e])
    (reached : s.live) :
    w.dead = none ∧ ∃ t w' c f, s.pops i.selectors = some t ∧ w.pop i.selectors = .done w' ∧
      t.ctrls.head? = some c ∧ w'.frames.head? = some f ∧ t.height = c.base + f.height := by
  have live := agrees.live (agrees.inside h) reached
  obtain ⟨t, taken⟩ := State.step_selects h branch
  obtain ⟨w', popped, live', -⟩ := live.pop taken
  obtain ⟨c, cs, f, fs, ctrls, frames, -, -, -, above, -⟩ := live'.top
  exact ⟨live.dead, t, w', c, f, taken, popped, by rw [ctrls]; rfl, by rw [frames]; rfl, above⟩

theorem next {i : Instr.Located} (fits : i.Fits) (complete : i.Complete)
    (supported : s.live → State.supports i.toInstr) (h : s.step e i.toInstr = some s')
    (room : w.gen.size + s.charge e r i.toInstr ≤ Buffer.maxSize) :
    (w.moveTo i).step i.toInstr = .done (w.next i) ∧ Agrees e r s' (w.next i) ∧
      (w.next i).gen.size = w.gen.size + s.charge e r i.toInstr := by
  obtain ⟨w', done, follows, shares, size⟩ :=
    (agrees.moveTo i).lands rfl fits complete supported h room
  have moved : w.next i = w' := by rw [Walk.next, done]
  have open_ : (w.moveTo i).shapes ≠ [] := by simpa [shapes] using (agrees.moveTo i).inside h
  have paired := (agrees.moveTo i).paired.turn open_ (step_turn fits done).2
  rw [moved]
  exact ⟨done, ⟨paired, shares, follows⟩, size⟩

/-- What a run preserves, in front of every instruction and at its end. -/
theorem run {is : List Instr.Located} (each : ∀ i ∈ is, i.Fits ∧ i.Complete)
    (h : s.run e is = some s')
    (supported : ∀ k i t, is[k]? = some i → s.run e (is.take k) = some t → t.live →
      State.supports i.toInstr)
    (room : w.gen.size + s.cost e r is ≤ Buffer.maxSize) :
    w.Succeeds is ∧ (is.foldl Walk.next w).gen.size = w.gen.size + s.cost e r is ∧
      ∀ k ≤ is.length, ∃ t, s.run e (is.take k) = some t ∧
      Agrees e r t ((is.take k).foldl Walk.next w) := by
  induction is generalizing s w with
  | nil =>
    refine ⟨trivial, rfl, fun k _ => ?_⟩
    rw [List.take_nil]
    exact ⟨s, rfl, agrees⟩
  | cons i rest ih =>
    obtain ⟨t, step, more⟩ := Option.bind_eq_some_iff.mp h
    obtain ⟨⟨fits, complete⟩, others⟩ := List.forall_mem_cons.mp each
    have cost : s.cost e r (i :: rest) = s.charge e r i.toInstr + t.cost e r rest := by
      rw [State.cost, step]
    rw [cost] at room ⊢
    obtain ⟨done, agrees', size⟩ :=
      agrees.next fits complete (supported 0 i s rfl rfl) step (by omega)
    have later (k : Nat) : s.run e ((i :: rest).take (k + 1)) = t.run e (rest.take k) := by
      rw [List.take_succ_cons, State.run, step]
      rfl
    obtain ⟨succeeds, grown, stands⟩ := ih agrees' others more
      (fun k i u found ran => supported (k + 1) i u found ((later k).trans ran)) (by omega)
    refine ⟨⟨agrees.inside step, done, succeeds⟩, ?_, fun k le => ?_⟩
    · rw [List.foldl_cons, grown, size]
      omega
    · cases k with
      | zero => exact ⟨s, rfl, agrees⟩
      | succ k =>
        rw [later, List.take_succ_cons, List.foldl_cons]
        exact stands k (Nat.le_of_succ_le_succ le)

end Agrees

end Walk

namespace Job

variable (j : Job)

def env : Env where
  mod := j.mod
  locals := j.sig.params.length + j.body.numLocals

def count (k : Nat) : Option State :=
  (State.start j.sig).run j.env (j.code.take k)

def cost : Nat :=
  (State.start j.sig).cost j.env j.cfg.registers j.code

end Job

/-- The first instruction of a body is met in the function itself, with no operands. -/
theorem Walk.Agrees.start (j : Job) (unlimited : j.cfg.maxSize ≤ 0) :
    Agrees j.env j.cfg.registers (State.start j.sig) j.start where
  paired := .start j
  shares := by
    have constants := Stands.start_constants j
    have globals : j.start.gen.globals = j.mod.globalInfos := congrArg (·.1) constants
    have registers : j.start.gen.registers = j.cfg.registers := congrArg (·.2.1) constants
    refine ⟨rfl, rfl, ?_, registers, ?_⟩
    · rw [globals]
      exact j.mod.length_globalInfos
    · rw [(Stands.start_gen j).1]
      exact unlimited
  follows := .cons rfl rfl rfl rfl (.nil 0)

namespace Job

variable {j : Job} {k : Nat} {i : Instr.Located} {s t : State}

theorem count_succ (found : j.code[k]? = some i) :
    j.count (k + 1) = (j.count k).bind (·.step j.env i.toInstr) := by
  obtain ⟨inside, rfl⟩ := List.getElem?_eq_some_iff.mp found
  rw [count, count, List.take_succ_eq_append_getElem inside, State.run_append]
  congr 1
  funext s
  exact Option.bind_fun_some _

/-- The function has a body that decodes and passes the count. -/
structure CountValid (j : Job) : Prop where
  found : (j.mod.bodyOf j.func).isSome
  typed : (j.mod.funcType j.func).isSome
  decodes : (Instr.readAll j.body.bytes.length j.body.cursor.rest.length j.body.cursor).isOk
  /-- every instruction passes the count, and the last one ends the function -/
  passes : (j.count j.code.length).map State.ctrls = some []
  /-- code that is reached holds only what a walk takes -/
  supported : ∀ k i s, j.code[k]? = some i → j.count k = some s → s.live → State.supports i.toInstr

structure Tracked (j : Job) : Prop where
  stands : ∀ k ≤ j.code.length, ∃ s, j.count k = some s ∧
    Walk.Follows s (j.walk k).dead (j.walk k).frames
  /-- a branch that is reached finds as many operands, once its condition or index is taken -/
  branches : ∀ k i s, j.code[k]? = some i → i.opcode ∈ [0x0c, 0x0d, 0x0e] → j.count k = some s →
    s.live → (j.walk k).dead = none ∧ ∃ t w c f, s.pops i.selectors = some t ∧
    (j.walk k).pop i.selectors = .done w ∧ t.ctrls.head? = some c ∧ w.frames.head? = some f ∧
    t.height = c.base + f.height

section Valid

variable (valid : j.CountValid)
include valid

theorem CountValid.read :
    Instr.readAll j.body.bytes.length j.body.cursor.rest.length j.body.cursor = .ok j.code := by
  have decodes := valid.decodes
  unfold code
  generalize Instr.readAll _ _ _ = all at decodes ⊢
  cases all with
  | error f => cases decodes
  | ok is => rfl

theorem CountValid.walks (unlimited : j.cfg.maxSize ≤ 0) (room : j.cost ≤ Buffer.maxSize) :
    j.start.Succeeds j.code ∧ j.mc j.code.length = j.cost ∧
      ∀ k ≤ j.code.length, ∃ s, j.count k = some s ∧
        Walk.Agrees j.env j.cfg.registers s (j.walk k) := by
  have each : ∀ i ∈ j.code, i.Fits ∧ i.Complete :=
    Instr.forall_of_readAll (fun h => ⟨(Instr.read_ok h).2.2.2.2.1, Instr.complete_of_read h⟩)
      valid.read
  obtain ⟨last, passed, -⟩ := Option.map_eq_some_iff.mp valid.passes
  rw [count, List.take_length] at passed
  have empty : j.start.gen.size = 0 := by
    rw [Generator.size, (Stands.start_gen j).1]
    rfl
  obtain ⟨succeeds, grown, stands⟩ :=
    (Walk.Agrees.start j unlimited).run each passed valid.supported
    (by rw [empty, Nat.zero_add]; exact room)
  refine ⟨succeeds, ?_, stands⟩
  rw [mc, walk, List.take_length, grown, empty, Nat.zero_add, cost]

end Valid

/-- A body that passes the count has a side table, of the size that the count gives, and the walk
that makes it stands where the count stands. -/
theorem count_valid_accepted (valid : j.CountValid) (unlimited : j.cfg.maxSize ≤ 0)
    (room : j.cost ≤ Buffer.maxSize) : ∃ md, j.Accepted md ∧ md.size = j.cost ∧ j.Tracked := by
  obtain ⟨succeeds, size, stands⟩ := valid.walks unlimited room
  obtain ⟨md, accepted⟩ : ∃ md, j.Accepted md := by
    obtain ⟨last, passed, closed⟩ := Option.map_eq_some_iff.mp valid.passes
    obtain ⟨s, same, agrees⟩ := stands _ (Nat.le_refl _)
    obtain rfl := Option.some.inj (passed.symm.trans same)
    have frames : (j.walk j.code.length).frames = [] := agrees.follows.closed_iff.mpr closed
    have finished := agrees.paired.ended (by simp [Walk.shapes, frames])
    obtain ⟨md, final⟩ : ∃ md, (j.walk j.code.length).gen.finalize = .ok md := ⟨_, if_pos finished⟩
    rw [walk, List.take_length] at frames final
    refine ⟨md, ?_⟩
    rw [Accepted, compile_eq_run valid.found valid.typed]
    exact Walk.accepted_of_succeeds valid.read succeeds frames final
  refine ⟨md, accepted, ?_, ?_, ?_⟩
  · rw [← size, Metadata.size, finalize_bytes accepted]
    rfl
  · intro k le
    obtain ⟨s, here, agrees⟩ := stands k le
    exact ⟨s, here, agrees.follows⟩
  · intro k i s found branch here reached
    have inside : k < j.code.length := (List.getElem?_eq_some_iff.mp found).1
    obtain ⟨s, same, agrees⟩ := stands k (Nat.le_of_lt inside)
    obtain rfl := Option.some.inj (here.symm.trans same)
    obtain ⟨s', next, -⟩ := stands (k + 1) inside
    rw [count_succ found, here] at next
    exact agrees.branch (next :) branch reached

/-- A function with a block that takes and leaves operands, all three branches, a conditional
without an `else`, a try with a handler, and a call of a reference in code that is not reached. -/
def counted : Job where
  mod := {
    types := [{ params := [.i32], results := [.i32] },
    { params := [.i32, .i32], results := [.i32] }, { params := [.i32] }]
    funcs := [0]
    tags := [{ attr := 0, typeIndex := 2 }]
    code := [{
      body := some [
        0x00,                                              -- no locals
        0x20, 0x00, 0x20, 0x00, 0x02, 0x01,
        -- local.get 0, local.get 0, block of the second type
        0x20, 0x00, 0x0d, 0x00, 0x1a,                      -- local.get 0, br_if 0, drop
        0x20, 0x00, 0x0e, 0x01, 0x00, 0x01,                -- local.get 0, br_table 0 1
        0x1a, 0x02, 0x40, 0x00, 0x14, 0x00, 0x1a, 0x0b,
        -- drop, block, unreachable, call_ref, drop, end
        0x41, 0x07, 0x0b,                                  -- i32.const 7, end
        0x20, 0x00, 0x04, 0x00, 0x0b,                      -- local.get 0, if of the first type, end
        0x06, 0x00, 0x10, 0x00, 0x07, 0x00, 0x0b,
        -- try of the first type, call 0, catch 0, end
        0x0c, 0x00, 0x0b]                                  -- br 0, end
      codeOffset := 1 }] }
  cfg := { convention := ⟨6, 8⟩ }
  func := 0

theorem counted_valid : counted.CountValid where
  found := by decide
  typed := by decide
  decodes := by decide +kernel
  passes := by decide +kernel
  supported := by
    intro k i s found here reached
    have all : ∀ k < counted.code.length, (counted.code[k]?.all fun i => State.supports i.toInstr) ∨
        (counted.count k).all (!·.live) := by decide +kernel
    rcases all k (List.getElem?_eq_some_iff.mp found).1 with supported | dead
    · simpa [found] using supported
    · simp [here, reached] at dead

theorem count_valid_accepted_counted : counted.CountValid ∧ counted.cfg.maxSize ≤ 0 ∧
    counted.cost ≤ Buffer.maxSize ∧ ∃ md, counted.Accepted md ∧ md.size = counted.cost ∧
    counted.Tracked := by
  have room : counted.cost ≤ Buffer.maxSize := by decide +kernel
  exact ⟨counted_valid, by decide, room, count_valid_accepted counted_valid (by decide) room⟩

end Job
end Sidetable
