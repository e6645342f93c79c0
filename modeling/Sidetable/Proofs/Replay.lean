import Sidetable.Proofs.Pairing

/-!
# Replaying an instruction

What an instruction does to the frames of a walk does not depend on what the generator has written.
A step that succeeds asks the generator for some operations, which append the entry of the
instruction, and the step succeeds in the same way with any other generator that performs them.
-/
namespace Sidetable

namespace Generator

variable {g h : Generator} {op : Op} {cells : List Cell}

inductive Performs : Generator → List Op → List Cell → Generator → Prop where
  | nil (g : Generator) : Performs g [] [] g
  | cons {g m h : Generator} {op : Op} {ops : List Op} {cells : List Cell}
      (done : g.apply op = .done m)
      (more : Performs m ops cells h) : Performs g (op :: ops) (g.cells op ++ cells) h

theorem performs_nil : g.Performs [] cells h ↔ h = g ∧ cells = [] := by
  constructor
  · rintro ⟨⟩
    exact ⟨rfl, rfl⟩
  · rintro ⟨rfl, rfl⟩
    exact .nil h

theorem performs_cons {ops : List Op} : g.Performs (op :: ops) cells h ↔
    ∃ m more, g.apply op = .done m ∧ m.Performs ops more h ∧ cells = g.cells op ++ more := by
  constructor
  · rintro (_ | ⟨done, more⟩)
    exact ⟨_, _, done, more, rfl⟩
  · rintro ⟨m, more, done, performs, rfl⟩
    exact .cons done performs

theorem performs_one : g.Performs [op] cells h ↔ g.apply op = .done h ∧ cells = g.cells op := by
  simp only [performs_cons, performs_nil]
  constructor
  · rintro ⟨m, more, done, ⟨rfl, rfl⟩, rfl⟩
    exact ⟨done, List.append_nil _⟩
  · rintro ⟨done, rfl⟩
    exact ⟨h, [], done, ⟨rfl, rfl⟩, (List.append_nil _).symm⟩

def Op.aims : Op → Bool
  | .loop _ | .otherwise | .delegate _ => true
  | _ => false

/-- An operation that settles no word, whatever waits, and opens nothing. -/
theorem Asks.inner {mod : Module} {height : Nat} {i : Instr}
    (asks : ∀ g : Generator, g.Asks mod height i op)
    (labels : i.labels = []) (g : Generator) : op.aims = false ∧ Op.close ≠ op := by
  have pending := asks { g with scopes := [{ kind := .cond, sig := {}, pending := some 0 }] }
  have settles := pending.settles
  have scopes := pending.scopes
  rw [labels] at scopes
  cases op <;>
    simp [Generator.settles, scopesAfter, Scope.awaitAll, Scope.waiting,
    Op.aims] at settles scopes ⊢

end Generator

namespace Walk

open Generator (Op)

variable {w u v : Walk} {f : Walk → Walking} {ops : List Op} {ok : Generator → Prop} {i : Instr}

def swap (w : Walk) (code : List FuncBody) (gen : Generator) : Walk :=
  { w with mod := { w.mod with code }, gen }

abbrev Hosts (w : Walk) (g : Generator) : Prop :=
  g.globals.length = w.gen.globals.length

structure Blind (f : Walk → Walking) (w v : Walk) : Prop where
  gen : v.gen = w.gen
  again : ∀ code g, f (w.swap code g) = .done (v.swap code g)

/-- The computation asks the generator for operations, and it ends in the same way with any other
generator that performs them. -/
structure Replays (ok : Generator → Prop) (f : Walk → Walking) (w : Walk) (ops : List Op)
    (v : Walk) : Prop where
  performs : ∃ cells, w.gen.Performs ops cells v.gen
  again : ∀ code g cells h, ok g → g.Performs ops cells h →
    f (w.swap code g) = .done (v.swap code h)

theorem Blind.replays (blind : Blind f w v) : Replays ok f w [] v := by
  refine ⟨⟨[], Generator.performs_nil.mpr ⟨blind.gen, rfl⟩⟩, fun code g cells h _ performs => ?_⟩
  obtain ⟨rfl, -⟩ := Generator.performs_nil.mp performs
  exact blind.again code h

theorem Blind.andThen {k : Walk → Walking} (blind : Blind f w u) (rest : Replays ok k u ops v) :
    Replays ok (fun w => (f w).andThen k) w ops v := by
  refine ⟨blind.gen ▸ rest.performs, fun code g cells h accepted performs => ?_⟩
  rw [blind.again]
  exact rest.again code g cells h accepted performs

theorem Replays.andThen {k : Walk → Walking} {op : Op} (first : Replays ok f w [op] u)
    (rest : Replays (fun _ => True) k u ops v) :
    Replays ok (fun w => (f w).andThen k) w (op :: ops) v := by
  obtain ⟨cells, performs⟩ := first.performs
  obtain ⟨more, performs'⟩ := rest.performs
  obtain ⟨done, -⟩ := Generator.performs_one.mp performs
  refine ⟨⟨_, .cons done performs'⟩, fun code g cells h accepted both => ?_⟩
  obtain ⟨m, more, done, later, -⟩ := Generator.performs_cons.mp both
  have here := first.again code g (g.cells op) m accepted (Generator.performs_one.mpr ⟨done, rfl⟩)
  rw [here]
  exact rest.again code m more h trivial later

theorem Replays.congr {f' : Walk → Walking} (replays : Replays ok f w ops v)
    (same : ∀ code g, f' (w.swap code g) = f (w.swap code g)) : Replays ok f' w ops v :=
  ⟨replays.performs, fun code g cells h accepted performs =>
    (same code g).trans (replays.again code g cells h accepted performs)⟩

theorem Replays.weaken (replays : Replays (fun _ => True) f w ops v) : Replays ok f w ops v :=
  ⟨replays.performs, fun code g cells h _ performs => replays.again code g cells h trivial performs⟩

theorem blind_done {k : Walk → Walk} (gen : (k w).gen = w.gen)
    (same : ∀ code g, k (w.swap code g) = (k w).swap code g) :
    Blind (fun w => .done (k w)) w (k w) :=
  ⟨gen, fun code g => congrArg Outcome.done (same code g)⟩

theorem generate_replays {op : Op} (h : w.generate op = .done v) :
    Replays ok (·.generate op) w [op] v := by
  obtain ⟨gen, done, rfl⟩ := generate_done.mp h
  refine ⟨⟨_, Generator.performs_one.mpr ⟨done, rfl⟩⟩, fun code g cells h _ performs => ?_⟩
  obtain ⟨done', -⟩ := Generator.performs_one.mp performs
  exact generate_done.mpr ⟨h, done', rfl⟩

theorem pop_blind {n : Nat} (h : w.pop n = .done v) : Blind (·.pop n) w v := by
  obtain ⟨f, rest, frames, h⟩ := withTop_done.mp h
  split at h
  · cases h
  · rename_i enough
    obtain rfl := Outcome.done.inj h
    exact ⟨rfl, fun code g => withTop_done.mpr ⟨f, rest, frames, if_neg enough⟩⟩

theorem checkLabel_blind {d : UInt32} {n : Nat} (h : w.checkLabel d n = .done v) :
    Blind (·.checkLabel d n) w v := by
  obtain ⟨rfl, reaches⟩ := checkLabel_eq.mp h
  exact ⟨rfl, fun code g => checkLabel_eq.mpr ⟨rfl, reaches⟩⟩

theorem checkLabels_blind {ds : List UInt32} {n : Nat} (h : w.checkLabels n ds = .done v) :
    Blind (·.checkLabels n ds) w v := by
  obtain ⟨rfl, reaches⟩ := checkLabels_eq.mp h
  exact ⟨rfl, fun code g => checkLabels_eq.mpr ⟨rfl, reaches⟩⟩

theorem push_swap (w : Walk) (n : Nat) (code : List FuncBody) (g : Generator) :
    (w.swap code g).push n = (w.push n).swap code g := by
  cases frames : w.frames <;> simp [push, swap, frames]

theorem blind_push (w : Walk) (n : Nat) : Blind (fun w => .done (w.push n)) w (w.push n) :=
  blind_done (push_gen w n) (push_swap w n)

theorem blind_closeFrame (w : Walk) : Blind (fun w => .done w.closeFrame) w w.closeFrame := by
  refine blind_done ?_ fun code g => ?_ <;> cases frames : w.frames
  · simp [closeFrame, frames]
  · simp [closeFrame, frames]
  · simp [closeFrame, swap, frames]
  · simp only [closeFrame, swap, frames]
    exact push_swap { w with frames := _, dead := none } _ code g

theorem blind_afterCall (w : Walk) (tail : Bool) (n : Nat) :
    Blind (fun w => .done (w.afterCall tail n)) w (w.afterCall tail n) := by
  cases tail
  · exact blind_push w n
  · exact ⟨rfl, fun _ _ => rfl⟩

theorem blind_setTop (w : Walk) (top : Frame) :
    Blind (fun w => .done (w.setTop top).revive) w (w.setTop top).revive :=
  ⟨rfl, fun _ _ => rfl⟩

theorem blind_kill (w : Walk) : Blind (fun w => .done w.kill) w w.kill :=
  ⟨rfl, fun _ _ => rfl⟩

/-- What is decided by the innermost frame is decided in the same way. -/
theorem Replays.withTop {next : Walk → Frame → Walking} {top : Frame} {rest : List Frame}
    (frames : w.frames = top :: rest) (replays : Replays ok (next · top) w ops v) :
    Replays ok (fun w => w.withTop (next w)) w ops v := by
  refine replays.congr fun code g => ?_
  have same : (w.swap code g).frames = top :: rest := frames
  simp only [Walk.withTop, same]

theorem Replays.withTag {next : Walk → List ValType → Walking} {tag : UInt32} {t : TagType}
    {sig : FuncType}
    (found : w.mod.tagAt tag = some t) (typed : w.mod.typeAt t.typeIndex = some sig)
    (replays : Replays ok (next · sig.params) w ops v) :
    Replays ok (fun w => w.withTag tag (next w)) w ops v := by
  refine replays.congr fun code g => ?_
  have found' : (w.swap code g).mod.tagAt tag = some t := found
  have typed' : (w.swap code g).mod.typeAt t.typeIndex = some sig := typed
  simp only [Walk.withTag, found', typed']

/-! ## Instructions -/

/-- The instruction asks for `ops`: they append its entry, and those that write a target belong to
it. -/
structure Plays (w : Walk) (i : Instr) (ops : List Op) (v : Walk) : Prop where
  replays : Replays w.Hosts (·.step i) w ops v
  cells : ∀ (g : Generator) l cells h, g.Records l → g.site.opcode = i.opcode →
    g.Performs ops cells h →
      cells = if w.skips i then [] else (g.setting (w.height i)).entry w.mod i
  aims : ∀ op ∈ ops, op.aims → i.structural ∧ v.frames ≠ []
  exits : Op.close ∈ ops → i.opcode = 0x0b
  plan : ∀ op ∈ ops, ∀ g : Generator, g.planAfter op = g.plan

theorem Plays.nothing (replays : Replays w.Hosts (·.step i) w [] v)
    (empty : w.skips i ∨ ∀ g : Generator, (g.setting (w.height i)).entry w.mod i = []) :
    w.Plays i [] v where
  replays := replays
  cells g l cells h _ _ performs := by
    obtain ⟨-, rfl⟩ := Generator.performs_nil.mp performs
    rcases empty with skipped | empty
    · rw [if_pos skipped]
    · rw [empty, ite_self]
  aims := by simp
  exits := by simp
  plan := by simp

theorem Plays.one {op : Op} (reached : w.skips i = false)
    (replays : Replays w.Hosts (·.step i) w [op] v)
    (cells : ∀ g : Generator, g.site.opcode = i.opcode →
      g.cells op = (g.setting (w.height i)).entry w.mod i)
    (aims : op.aims → i.structural ∧ v.frames ≠ []) (exits : Op.close = op → i.opcode = 0x0b)
    (plan : ∀ g : Generator, g.planAfter op = g.plan) : w.Plays i [op] v where
  replays := replays
  cells g l _ h _ site performs := by
    obtain ⟨-, rfl⟩ := Generator.performs_one.mp performs
    rw [reached]
    exact cells g site
  aims := by simpa using aims
  exits := by simpa using exits
  plan := by simpa using plan

theorem enter_replays {o : Opener} {type : Int32} (h : w.enter o type = .done v) :
    ∃ sig, w.mod.blockType type = some sig ∧ v.frames ≠ [] ∧
      Replays ok (·.enter o type) w [o.op sig] v := by
  unfold enter at h
  split at h
  · cases h
  · rename_i sig found
    obtain ⟨w₁, h₁, h₂⟩ := Outcome.andThen_done.mp h
    obtain ⟨w₂, h₃, h₄⟩ := Outcome.andThen_done.mp h₂
    have last :
        Blind
          (fun w => .done { w with frames := ⟨o.frameKind, sig, sig.params.length⟩ :: w.frames }) w₂
          { w₂ with frames := ⟨o.frameKind, sig, sig.params.length⟩ :: w₂.frames } :=
      ⟨rfl, fun _ _ => rfl⟩
    obtain rfl := Outcome.done.inj h₄
    refine ⟨sig, found, List.cons_ne_nil _ _,
      ((pop_blind h₁).andThen ((generate_replays h₃).andThen last.replays)).congr fun code g => ?_⟩
    have found' : (w.swap code g).mod.blockType type = some sig := found
    simp only [enter, found']

theorem otherwise_replays (h : w.otherwise = .done v) :
    v.frames ≠ [] ∧ Replays ok (·.otherwise) w [.otherwise] v := by
  obtain ⟨top, rest, frames, h⟩ := withTop_done.mp h
  split at h
  · rename_i kind
    obtain ⟨w₁, h₁, h₂⟩ := Outcome.andThen_done.mp h
    obtain rfl := Outcome.done.inj h₂
    refine ⟨List.cons_ne_nil _ _, Replays.withTop frames ?_⟩
    simp only [if_pos kind]
    exact (generate_replays h₁).andThen (blind_setTop w₁ _).replays
  · cases h

def endOps (top : Frame) : List Op :=
  if top.kind = .cond false then [.otherwise, .close] else [.close]

theorem close_replays {top : Frame} {rest : List Frame} (frames : w.frames = top :: rest)
    (h : w.close = .done v) :
    v.shapes = rest.map (fun f => (f.kind, f.sig)) ∧ Replays ok (·.close) w (endOps top) v := by
  obtain ⟨top', rest', frames', h⟩ := withTop_done.mp h
  obtain ⟨rfl, rfl⟩ := List.cons.inj (frames.symm.trans frames')
  obtain ⟨w₁, h₁, h₂⟩ := Outcome.andThen_done.mp h
  obtain ⟨w₂, h₃, h₄⟩ := Outcome.andThen_done.mp h₂
  obtain rfl := Outcome.done.inj h₄
  have closes :
      Replays (fun _ => True) (fun w => (w.generate .close).andThen fun w => .done w.closeFrame) w₁
      [.close]
      w₂.closeFrame :=
    (generate_replays h₃).andThen (blind_closeFrame w₂).replays
  obtain ⟨gen₂, -, rfl⟩ := generate_done.mp h₃
  by_cases kind : top.kind = .cond false
  · rw [if_pos kind] at h₁
    have frames₂ : ({ w₁ with gen := gen₂ } : Walk).frames = top :: rest := by
      obtain ⟨gen₁, -, rfl⟩ := generate_done.mp h₁
      exact frames
    refine ⟨(closeFrame_eq frames₂).2.2.2, Replays.withTop frames ?_⟩
    simp only [if_pos kind, endOps]
    exact (generate_replays h₁).andThen closes
  · rw [if_neg kind] at h₁
    obtain rfl := Outcome.done.inj h₁
    refine ⟨(closeFrame_eq (w := { w with gen := gen₂ }) frames).2.2.2, Replays.withTop frames ?_⟩
    simp only [if_neg kind, endOps, Outcome.done_andThen]
    exact closes.weaken

theorem handle_replays {top : Frame} {handler : Handler} {height : Nat} {last : Bool}
    (h : ((w.generate (.handle handler)).andThen fun w =>
      .done (w.setTop { top with kind := .handler last, height }).revive) = .done v) :
    Replays ok (fun w => (w.generate (.handle handler)).andThen fun w =>
      .done (w.setTop { top with kind := .handler last, height }).revive) w [.handle handler]
        v := by
  obtain ⟨w₁, h₁, h₂⟩ := Outcome.andThen_done.mp h
  obtain rfl := Outcome.done.inj h₂
  exact (generate_replays h₁).andThen (blind_setTop w₁ _).replays

theorem catchTag_replays {name : String} {tag : UInt32} (h : w.catchTag name tag = .done v) :
    Replays ok (·.catchTag name tag) w [.handle .tagged] v := by
  obtain ⟨top, rest, frames, h⟩ := withTop_done.mp h
  split at h
  · rename_i takes
    obtain ⟨t, sig, found, typed, h⟩ := withTag_done h
    refine Replays.withTop frames ?_
    simp only [if_pos takes]
    exact Replays.withTag found typed (handle_replays h)
  · cases h

theorem catchAll_replays {name : String} (h : w.catchAll name = .done v) :
    Replays ok (·.catchAll name) w [.handle .all] v := by
  obtain ⟨top, rest, frames, h⟩ := withTop_done.mp h
  split at h
  · rename_i takes
    refine Replays.withTop frames ?_
    simp only [if_pos takes]
    exact handle_replays h
  · cases h

theorem delegate_replays {d : UInt32} (h : w.delegate d = .done v) :
    v.frames ≠ [] ∧ Replays ok (·.delegate d) w [.delegate d] v := by
  obtain ⟨top, rest, frames, h⟩ := withTop_done.mp h
  split at h
  · cases h
  · rename_i kind
    split at h
    · cases h
    · rename_i label
      obtain ⟨w₁, h₁, h₂⟩ := Outcome.andThen_done.mp h
      obtain rfl := Outcome.done.inj h₂
      have frames₁ : w₁.frames = top :: rest := by
        obtain ⟨gen, -, rfl⟩ := generate_done.mp h₁
        exact frames
      refine ⟨?_, Replays.withTop frames ?_⟩
      · cases rest with
        | nil => simp [frames] at label
        | cons next others => simp [closeFrame, frames₁, push]
      · refine ((generate_replays h₁).andThen (blind_closeFrame w₁).replays).congr fun code g => ?_
        have label' : ¬ (w.swap code g).frames.length - 1 ≤ d.toNat := label
        simp only [if_neg kind, if_neg label']

theorem call_replays {tail : Bool} {func : UInt32} (h : w.call tail func = .done v) :
    ∃ sig, w.mod.funcType func = some sig ∧ Replays ok (·.call tail func) w [.call func sig] v := by
  unfold call at h
  split at h
  · cases h
  · rename_i sig found
    obtain ⟨w₁, h₁, h₂⟩ := Outcome.andThen_done.mp h
    obtain ⟨w₂, h₃, h₄⟩ := Outcome.andThen_done.mp h₂
    obtain rfl := Outcome.done.inj h₄
    refine ⟨sig, found, ((pop_blind h₁).andThen
      ((generate_replays h₃).andThen (blind_afterCall w₂ tail _).replays)).congr fun code g => ?_⟩
    have found' : (w.swap code g).mod.funcType func = some sig := found
    simp only [call, found']

theorem callIndirect_replays {tail : Bool} {type table : UInt32}
    (h : w.callIndirect tail type table = .done v) :
    ∃ sig, w.mod.typeAt type = some sig ∧
      Replays ok (·.callIndirect tail type table) w [.callIndirect table type sig] v := by
  unfold callIndirect at h
  split at h
  · cases h
  · rename_i sig found
    obtain ⟨w₁, h₁, h₂⟩ := Outcome.andThen_done.mp h
    obtain ⟨w₂, h₃, h₄⟩ := Outcome.andThen_done.mp h₂
    obtain rfl := Outcome.done.inj h₄
    refine ⟨sig, found, ((pop_blind h₁).andThen
      ((generate_replays h₃).andThen (blind_afterCall w₂ tail _).replays)).congr fun code g => ?_⟩
    have found' : (w.swap code g).mod.typeAt type = some sig := found
    simp only [callIndirect, found']

theorem branch_replays {d : UInt32} {top : Frame} {rest : List Frame}
    (frames : w.frames = top :: rest)
    (h : w.branch d = .done v) : Replays ok (·.branch d) w [.branch d top.height] v := by
  obtain ⟨top', rest', frames', h⟩ := withTop_done.mp h
  obtain ⟨rfl, rfl⟩ := List.cons.inj (frames.symm.trans frames')
  obtain ⟨w₁, h₁, h₂⟩ := Outcome.andThen_done.mp h
  exact Replays.withTop frames ((checkLabel_blind h₁).andThen (generate_replays h₂))

theorem branchTable_replays {ds : List UInt32} {d : UInt32} {top : Frame} {rest : List Frame}
    (frames : w.frames = top :: rest) (h : w.branchTable ds d = .done v) :
    Replays ok (·.branchTable ds d) w [.branchTable ds d top.height] v := by
  obtain ⟨top', rest', frames', h⟩ := withTop_done.mp h
  obtain ⟨rfl, rfl⟩ := List.cons.inj (frames.symm.trans frames')
  obtain ⟨w₁, h₁, h₂⟩ := Outcome.andThen_done.mp h
  exact Replays.withTop frames ((checkLabels_blind h₁).andThen (generate_replays h₂))

theorem rethrow_blind {d : UInt32} (h : w.rethrow d = .done v) : Blind (·.rethrow d) w v := by
  unfold rethrow at h
  split at h
  · rename_i last kind
    obtain rfl := Outcome.done.inj h
    refine ⟨rfl, fun code g => ?_⟩
    have kind' : ((w.swap code g).frames[d.toNat]?).map Frame.kind = some (.handler last) := kind
    simp only [rethrow, kind']
    rfl
  · cases h

theorem Replays.live (live : w.dead = none) (same : ∀ u : Walk, u.stepLive i = f u)
    (replays : Replays ok f w ops v) : Replays ok (·.step i) w ops v := by
  refine replays.congr fun code g => ?_
  have live' : (w.swap code g).dead = none := live
  simp only [step, live', same]

theorem Replays.dead {d : Nat} (dead : w.dead = some d) (same : ∀ u : Walk, u.stepDead d i = f u)
    (replays : Replays ok f w ops v) : Replays ok (·.step i) w ops v := by
  refine replays.congr fun code g => ?_
  have dead' : (w.swap code g).dead = some d := dead
  simp only [step, dead', same]

theorem skips_of_live (live : w.dead = none) : w.skips i = false := by
  rw [skips, live]

theorem plain_plays (fits : i.Fits) (action : i.action = .plain) (live : w.dead = none)
    (h : w.plain i = .done v) : ∃ ops, w.Plays i ops v := by
  have unfolds (u : Walk) : u.stepLive i = u.plain i := by rw [stepLive, action]
  unfold plain at h
  split at h
  · cases h
  · rename_i e effect
    obtain ⟨w₁, h₁, h₂⟩ := Outcome.andThen_done.mp h
    obtain ⟨w₂, h₃, h₄⟩ := Outcome.andThen_done.mp h₂
    obtain rfl := Outcome.done.inj h₄
    obtain ⟨top, rest, -, same⟩ := pop_done h₁
    have entries (u : Walk) : u.plain i = (u.pop e.pops).andThen fun u =>
        (u.operands i).andThen fun u =>
        .done (u.push e.pushes) := by rw [plain, effect]
    have request := operands_request fits action (w.height i) (w := w₁)
    rw [h₃] at request
    generalize eq : (Outcome.done w₂ : Walking) = o at request
    cases request with
    | nothing entry alike =>
      obtain rfl := Outcome.done.inj eq
      have operands : Blind (·.operands i) w₂ w₂ := ⟨rfl, fun code g => alike _⟩
      refine ⟨[], .nothing ?_ (.inr fun g => ?_)⟩
      · exact .live live (fun u => (unfolds u).trans (entries u))
          ((pop_blind h₁).andThen (operands.andThen (blind_push w₂ _).replays))
      · have none := entry g
        subst same
        exact none
    | asks op asks alike named =>
      have operands : Replays w.Hosts (·.operands i) w₁ [op] w₂ := by
        have generated : Replays (fun _ => True) (·.generate op) w₁ [op] w₂ :=
          generate_replays eq.symm
        refine ⟨generated.performs, fun code g cells h accepted performs => ?_⟩
        have names : (w₁.swap code g).Names i := by
          refine ⟨named.locals, fun index imm => ?_⟩
          have inside := named.globals index imm
          subst same
          exact Nat.lt_of_lt_of_eq inside accepted.symm
        rw [alike _ names]
        exact generated.again code g cells h trivial performs
      have asked : ∀ g : Generator, g.Asks w.mod (w.height i) i op := by
        subst same
        exact asks
      have ⟨inner, stays⟩ := Generator.Asks.inner asked (Instr.labels_of_plain action) w.gen
      refine ⟨[op], .one (skips_of_live live) ?_ (fun g _ => (asked g).cells) ?_ ?_ fun g =>
        (asked g).plan⟩
      · exact .live live (fun u => (unfolds u).trans (entries u))
          ((pop_blind h₁).andThen (operands.andThen (blind_push w₂ _).replays))
      · simp [inner]
      · exact fun close => absurd close stays
    | outside e _ => cases eq
    | short => cases eq

theorem close_plays (paired : w.Paired) (opcode : i.opcode = 0x0b) (reached : w.skips i = false)
    (h : w.close = .done v)
    (step : ∀ ops, Replays w.Hosts (·.close) w ops v → Replays w.Hosts (·.step i) w ops v) :
    ∃ ops, w.Plays i ops v := by
  obtain ⟨top, rest, frames, -⟩ := withTop_done.mp h
  obtain ⟨shapes, replays⟩ := close_replays frames h
  have entry (g : Generator) :
      (g.setting (w.height i)).entry w.mod i =
        ((g.setting 0).final.map Cell.returnData).getD [] := by
    rw [Setting.entry, opcode]
    rfl
  refine ⟨endOps top, step _ replays, fun g l cells h records site performs => ?_,
    fun op mem aims => ?_, fun _ => opcode, fun op mem g => ?_⟩
  · rw [reached, entry]
    unfold endOps at performs
    split at performs
    · obtain ⟨m, more, first, last, rfl⟩ := Generator.performs_cons.mp performs
      obtain ⟨-, rfl⟩ := Generator.performs_one.mp last
      obtain ⟨s, others, p, scopes, kind, -⟩ := Generator.otherwise_inv first
      have after := (records.did first).scopes
      rw [Generator.scopesAfter, scopes] at after
      have implied : g.site.opcode = Generator.endOpcode := site.trans opcode
      simp [Generator.cells, Generator.setting, implied, scopes, after, kind, Scope.convert]
    · obtain ⟨-, rfl⟩ := Generator.performs_one.mp performs
      rfl
  · refine ⟨by simp [Instr.structural_iff, opcode], fun none => ?_⟩
    unfold endOps at mem
    split at mem
    · rename_i kind
      have inner : w.shapes = (.cond false, top.sig) :: rest.map fun f => (f.kind, f.sig) := by
        simp [Walk.shapes, frames, kind]
      refine paired.rest_ne_nil inner (by simp) ?_
      rw [← shapes, Walk.shapes, none]
      rfl
    · rw [List.mem_singleton.mp mem] at aims
      cases aims
  · unfold endOps at mem
    split at mem
    · rcases List.mem_pair.mp mem with rfl | rfl <;> rfl
    · rw [List.mem_singleton.mp mem]
      rfl

theorem otherwise_plays (opcode : i.opcode = 0x05) (reached : w.skips i = false)
    (h : w.otherwise = .done v)
    (step : ∀ ops, Replays w.Hosts (·.otherwise) w ops v → Replays w.Hosts (·.step i) w ops v) :
    ∃ ops, w.Plays i ops v := by
  obtain ⟨frames, replays⟩ := otherwise_replays h
  refine ⟨[.otherwise],
    .one reached (step _ replays) (fun g site => ?_) (fun _ => ⟨?_, frames⟩) (by simp) fun _ => rfl⟩
  · simp [Generator.cells, Setting.entry, site, opcode, Generator.endOpcode]
  · simp [Instr.structural_iff, opcode]

theorem handle_plays {handler : Handler} (opcode : i.opcode = 0x07 ∨ i.opcode = 0x19)
    (reached : w.skips i = false) (replays : Replays w.Hosts (·.step i) w [.handle handler] v) :
    ∃ ops, w.Plays i ops v := by
  refine ⟨[.handle handler],
    .one reached replays (fun g _ => ?_) (by simp [Op.aims]) (by simp) fun _ => rfl⟩
  obtain ⟨op, sub, imm⟩ := i
  rcases opcode with eq | eq <;> cases eq <;> rfl

theorem delegate_plays {d : UInt32} (opcode : i.opcode = 0x18) (reached : w.skips i = false)
    (h : w.delegate d = .done v)
    (step : ∀ ops, Replays w.Hosts (·.delegate d) w ops v → Replays w.Hosts (·.step i) w ops v) :
    ∃ ops, w.Plays i ops v := by
  obtain ⟨frames, replays⟩ := delegate_replays h
  refine ⟨[.delegate d],
    .one reached (step _ replays) (fun g _ => ?_) (fun _ => ⟨?_, frames⟩) (by simp)
    fun _ => rfl⟩
  · obtain ⟨op, sub, imm⟩ := i
    cases opcode
    rfl
  · simp [Instr.structural_iff, opcode]

theorem enter_plays {o : Opener} {type : Int32}
    (describes : i.opcode = o.opcode ∧ i.imm = .block type)
    (action : i.action = .enter o type) (live : w.dead = none) (h : w.enter o type = .done v) :
    ∃ ops, w.Plays i ops v := by
  obtain ⟨sig, -, frames, replays⟩ := enter_replays h
  refine ⟨[o.op sig],
    .one (skips_of_live live) (.live live (fun u => by rw [stepLive, action]) replays)
      (fun g _ => ?_) (fun _ => ⟨?_, frames⟩) (fun close => by cases o <;> cases close)
      fun _ => by cases o <;> rfl⟩
  · exact Generator.cells_opener g w.mod (w.height i) sig describes.1
  · cases o <;> simp [Instr.structural_iff, describes.1, Opener.opcode]

theorem branch_cells {d : UInt32} {n : Nat} (opcode : i.opcode = 0x0c ∨ i.opcode = 0x0d)
    (imm : i.imm = .label d) (height : w.height i = n) (g : Generator) :
    g.cells (.branch d n) = (g.setting (w.height i)).entry w.mod i :=
  (branch_asks (w := { w with gen := g }) opcode imm height).cells

/-- Instructions that stay within the innermost frame ask for one operation, which is their own. -/
theorem inner_plays {op : Op} (live : w.dead = none) (aims : op.aims = false)
    (stays : Op.close ≠ op) (plan : ∀ g : Generator, g.planAfter op = g.plan)
    (replays : Replays w.Hosts f w [op] v) (same : ∀ u : Walk, u.stepLive i = f u)
    (cells : ∀ g : Generator, g.cells op = (g.setting (w.height i)).entry w.mod i) :
    ∃ ops, w.Plays i ops v :=
  ⟨[op], .one (skips_of_live live) (.live live same replays) (fun g _ => cells g) (by simp [aims])
    (fun close => absurd close stays) plan⟩

theorem leave_plays (opcode : i.opcode ∈ [0x00, 0x08, 0x09, 0x0f]) (live : w.dead = none)
    (replays : Replays w.Hosts f w [] v) (same : ∀ u : Walk, u.stepLive i = f u) :
    ∃ ops, w.Plays i ops v := by
  refine ⟨[], .nothing (.live live same replays) (.inr fun g => ?_)⟩
  obtain ⟨op, sub, imm⟩ := i
  simp only [List.mem_cons, List.not_mem_nil, or_false] at opcode
  rcases opcode with eq | eq | eq | eq <;> cases eq <;> rfl

theorem stepLive_plays (paired : w.Paired) (fits : i.Fits) (live : w.dead = none)
    (h : w.stepLive i = .done v) : ∃ ops, w.Plays i ops v := by
  have describes := i.action_describes
  have reached : w.skips i = false := skips_of_live live
  have unfolds (u : Walk) := stepLive.eq_1 u i
  generalize action : i.action = a at describes unfolds
  rw [unfolds] at h
  cases a with
  | leave =>
    obtain rfl := Outcome.done.inj h
    refine leave_plays ?_ live (blind_kill w).replays unfolds
    rcases describes with eq | eq <;> simp [eq]
  | enter o type => exact enter_plays describes action live h
  | otherwise =>
    exact otherwise_plays describes reached h fun ops replays => .live live unfolds replays
  | close =>
    obtain ⟨top, rest, frames, h⟩ := withTop_done.mp h
    split at h
    · cases h
    · rename_i enough
      refine close_plays paired describes reached h fun ops replays =>
        .live live unfolds (Replays.withTop frames ?_)
      simpa only [if_neg enough] using replays
  | branch d =>
    obtain ⟨w₁, h₁, h₂⟩ := Outcome.andThen_done.mp h
    obtain rfl := Outcome.done.inj h₂
    obtain ⟨top, rest, frames, -⟩ := withTop_done.mp h₁
    refine inner_plays live rfl (by simp) (fun _ => rfl)
      ((branch_replays frames h₁).andThen (blind_kill w₁).replays)
      unfolds (branch_cells (.inl describes.1) describes.2 ?_)
    simp [height, frames, describes.1]
  | branchIf d =>
    obtain ⟨w₁, h₁, h₂⟩ := Outcome.andThen_done.mp h
    obtain ⟨top, rest, frames, rfl⟩ := pop_done h₁
    refine inner_plays live rfl (by simp) (fun _ => rfl)
      ((pop_blind h₁).andThen (branch_replays rfl h₂)) unfolds
      (branch_cells (.inr describes.1) describes.2 ?_)
    simp [height, frames, describes.1]
  | branchTable ds d =>
    obtain ⟨w₁, h₁, h₂⟩ := Outcome.andThen_done.mp h
    obtain ⟨top, rest, frames, rfl⟩ := pop_done h₁
    obtain ⟨w₂, h₃, h₄⟩ := Outcome.andThen_done.mp h₂
    obtain rfl := Outcome.done.inj h₄
    refine inner_plays live rfl (by simp) (fun _ => rfl)
      ((pop_blind h₁).andThen ((branchTable_replays rfl h₃).andThen (blind_kill w₂).replays))
        unfolds fun g => ?_
    have height : w.height i = top.height - 1 := by simp [Walk.height, frames, describes.1]
    simp [height, Generator.cells, Setting.entry, describes.1, describes.2, Immediate.labelList]
  | call tail func =>
    obtain ⟨sig, found, replays⟩ := call_replays h
    obtain ⟨opcode, imm⟩ := describes
    refine inner_plays live rfl (by simp) (fun _ => rfl) replays unfolds fun g => ?_
    cases tail <;>
      simp [opcode, imm, found, Generator.cells, Setting.entry, Setting.call, Immediate.number,
      Generator.setting]
  | callIndirect tail type table =>
    obtain ⟨sig, found, replays⟩ := callIndirect_replays h
    obtain ⟨opcode, imm⟩ := describes
    refine inner_plays live rfl (by simp) (fun _ => rfl) replays unfolds fun g => ?_
    cases tail <;>
      simp [opcode, imm, found, Generator.cells, Setting.entry, Setting.call, Immediate.calleeTable,
      Immediate.calleeType, Generator.setting]
  | throwTag tag =>
    obtain ⟨t, sig, found, typed, h⟩ := withTag_done h
    obtain ⟨w₁, h₁, h₂⟩ := Outcome.andThen_done.mp h
    obtain rfl := Outcome.done.inj h₂
    exact leave_plays (by simp [show i.opcode = 0x08 from describes]) live
      (Replays.withTag found typed ((pop_blind h₁).andThen (blind_kill w₁).replays)) unfolds
  | rethrow d =>
    exact leave_plays (by simp [show i.opcode = 0x09 from describes]) live (rethrow_blind h).replays
      unfolds
  | catchTag tag =>
    exact handle_plays (.inl describes) reached (.live live unfolds (catchTag_replays h))
  | catchAll =>
    exact handle_plays (.inr describes) reached (.live live unfolds (catchAll_replays h))
  | delegate d =>
    exact delegate_plays describes reached h fun ops replays => .live live unfolds replays
  | plain => exact plain_plays fits action live h
  | unsupported => cases h
  | malformed => cases h

theorem skip_plays {d d' : Nat} (dead : w.dead = some d) (skipped : w.skips i)
    (after : v = { w with dead := some d' })
    (same : ∀ u : Walk, u.dead = some d → u.stepDead d i = .done { u with dead := some d' }) :
    ∃ ops, w.Plays i ops v := by
  have passed : Blind (·.step i) w v := by
    subst after
    refine ⟨rfl, fun code g => ?_⟩
    have dead' : (w.swap code g).dead = some d := dead
    simp only [step, dead', same _ dead']
    rfl
  exact ⟨[], .nothing passed.replays (.inl skipped)⟩

theorem stepDead_plays {d : Nat} (paired : w.Paired) (dead : w.dead = some d)
    (h : w.stepDead d i = .done v) : ∃ ops, w.Plays i ops v := by
  have describes := i.action_describes
  have reached (zero : d = 0) (ends : i.shuts || i.divides) : w.skips i = false := by
    subst zero
    simp only [skips, dead, ends]
    rfl
  have inside (deep : d ≠ 0) : w.skips i := by
    obtain ⟨n, rfl⟩ := Nat.exists_eq_succ_of_ne_zero deep
    rw [skips, dead]
  have apart (inner : (i.shuts || i.divides) = false) : w.skips i := by
    cases d with
    | zero => simp only [skips, dead, inner, Bool.not_false]
    | succ d => exact inside (Nat.succ_ne_zero d)
  have passed (skipped : w.skips i) (same : ∀ u : Walk, u.stepDead d i = .done u) :
      ∃ ops, w.Plays i ops v := by
    have after : v = { w with dead := some d } := by
      rw [same] at h
      rw [← dead, ← Outcome.done.inj h]
    refine skip_plays dead skipped after fun u dead' => ?_
    rw [same, ← dead']
  have unfolds (u : Walk) := stepDead.eq_def u d i
  generalize i.action = a at describes unfolds
  cases a with
  | enter o type =>
    rw [unfolds] at h
    have opens : (i.shuts || i.divides) = false := by
      cases o <;> simp [Instr.shuts, Instr.divides, describes.1, Opener.opcode]
    exact skip_plays dead (apart opens) (Outcome.done.inj h).symm fun u _ => unfolds u
  | close =>
    have opcode : i.opcode = 0x0b := describes
    rw [unfolds] at h
    cases d with
    | zero =>
      exact close_plays paired opcode (reached rfl (by simp [Instr.shuts, opcode])) h
        fun ops replays => .dead dead unfolds replays
    | succ d =>
      exact skip_plays dead (inside (Nat.succ_ne_zero d)) (Outcome.done.inj h).symm fun u _ =>
        unfolds u
  | delegate label =>
    have opcode : i.opcode = 0x18 := describes
    rw [unfolds] at h
    cases d with
    | zero =>
      exact delegate_plays opcode (reached rfl (by simp [Instr.shuts, opcode])) h
        fun ops replays => .dead dead unfolds replays
    | succ d =>
      exact skip_plays dead (inside (Nat.succ_ne_zero d)) (Outcome.done.inj h).symm fun u _ =>
        unfolds u
  | otherwise =>
    have opcode : i.opcode = 0x05 := describes
    cases d with
    | zero =>
      rw [unfolds] at h
      exact otherwise_plays opcode (reached rfl (by simp [Instr.divides, opcode])) h
        fun ops replays => .dead dead unfolds replays
    | succ d => exact passed (inside (Nat.succ_ne_zero d)) unfolds
  | catchTag tag =>
    have opcode : i.opcode = 0x07 := describes
    cases d with
    | zero =>
      rw [unfolds] at h
      exact handle_plays (.inl opcode) (reached rfl (by simp [Instr.divides, opcode]))
        (.dead dead unfolds (catchTag_replays h))
    | succ d => exact passed (inside (Nat.succ_ne_zero d)) unfolds
  | catchAll =>
    have opcode : i.opcode = 0x19 := describes
    cases d with
    | zero =>
      rw [unfolds] at h
      exact handle_plays (.inr opcode) (reached rfl (by simp [Instr.divides, opcode]))
        (.dead dead unfolds (catchAll_replays h))
    | succ d => exact passed (inside (Nat.succ_ne_zero d)) unfolds
  | malformed =>
    rw [unfolds] at h
    cases h
  | _ =>
    have inner := Instr.of_not_structural (Instr.not_structural describes trivial)
    exact passed (apart (by simp [inner])) unfolds

/-- A step that succeeds asks for operations that append the entry of the instruction. -/
theorem step_plays (paired : w.Paired) (fits : i.Fits) (h : w.step i = .done v) :
    ∃ ops, w.Plays i ops v := by
  unfold step at h
  split at h
  · exact stepDead_plays paired ‹_› h
  · exact stepLive_plays paired fits ‹_› h

end Walk
end Sidetable
