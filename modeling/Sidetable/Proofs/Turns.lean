import Sidetable.Proofs.Nesting
import Sidetable.Proofs.Plain

/-!
# What an instruction does to a walk

Every step that succeeds is one of seven turns. A turn says which operations the generator is asked
for and what becomes of the open frames, whose operands do not matter here, and of the code that
follows.
-/
namespace Sidetable

namespace Instr

def falls (i : Instr) : Bool :=
  ¬ i.opcode ∈ [0x00, 0x08, 0x09, 0x0c, 0x0e, 0x0f, 0x12, 0x13]

def divides (i : Instr) : Bool :=
  i.opcode = 0x05 || i.opcode = 0x07 || i.opcode = 0x19

def structural (i : Instr) : Bool :=
  i.opens || i.divides || i.shuts

variable {i : Instr}

theorem structural_iff :
    i.structural ↔ i.opcode ∈ [0x02, 0x03, 0x04, 0x05, 0x06, 0x07, 0x0b, 0x18, 0x19] := by
  simp only [structural, opens, divides, shuts, Bool.or_eq_true, decide_eq_true_eq, List.mem_cons,
    List.not_mem_nil]
  tauto

theorem not_structural_iff : i.structural = false ↔
    i.opcode ∉ [0x02, 0x03, 0x04, 0x05, 0x06, 0x07, 0x0b, 0x18, 0x19] := by
  rw [← structural_iff, Bool.not_eq_true]

theorem of_divides (h : i.divides) : i.opens = false ∧ i.shuts = false := by
  simp only [divides, Bool.or_eq_true, decide_eq_true_eq] at h
  rcases h with (eq | eq) | eq <;> simp [opens, shuts, eq]

theorem of_not_structural (h : i.structural = false) :
    i.opens = false ∧ i.shuts = false ∧ i.divides = false := by
  simp_all [structural]

theorem labels_of_structural (h : i.structural) : i.labels = [] := by
  simp only [structural_iff, List.mem_cons, List.not_mem_nil, or_false] at h
  rcases h with eq | eq | eq | eq | eq | eq | eq | eq | eq <;> simp [labels, eq]

theorem not_structural {a : Action} (describes : a.Describes i) (inner : match a with
    | .leave | .branch _ | .branchIf _ | .branchTable _ _ | .call _ _ | .callIndirect _ _ _
    | .throwTag _
    | .rethrow _ | .plain | .unsupported => True
    | _ => False) : i.structural = false := by
  cases a <;>
    simp only [Action.Describes, List.mem_cons, List.not_mem_nil, or_false] at describes inner
  case leave => rcases describes with eq | eq <;> simp [not_structural_iff, eq]
  case unsupported => rcases describes with eq | eq | eq | eq <;> simp [not_structural_iff, eq]
  case call tail func | callIndirect tail type table =>
    cases tail <;> simp [not_structural_iff, describes]
  all_goals simp_all [not_structural_iff]

end Instr

namespace Walk

variable {w w' : Walk} {i : Instr}

def shapes (w : Walk) : List (FrameKind × FuncType) :=
  w.frames.map fun f => (f.kind, f.sig)

def skips (w : Walk) (i : Instr) : Bool :=
  match w.dead with
  | none => false
  | some 0 => !(i.shuts || i.divides)
  | some (_ + 1) => true

def height (w : Walk) (i : Instr) : Nat :=
  (w.frames.head?.map Frame.height).getD 0 - if i.opcode = 0x0d || i.opcode = 0x0e then 1 else 0

inductive Turn (w : Walk) (i : Instr) (w' : Walk) : Prop where
  /-- passes over the instruction, `d` structures deep in unreachable code -/
  | skip (d d' : Nat) (skipped : w.skips i) (gen : w'.gen = w.gen) (shapes : w'.shapes = w.shapes)
      (before : w.dead = some d) (after : w'.dead = some d')
      (depth : if i.opens then d' = d + 1 else if i.shuts then d = d' + 1 else d' = d)
  /-- stays within the innermost frame -/
  | within (live : w.dead = none) (inner : i.structural = false)
      (labels : ∀ d ∈ i.labels, d.toNat < w.shapes.length) (shapes : w'.shapes = w.shapes)
      (serves : w.gen.Serves w.mod (w.height i) i w'.gen)
      (dead : w'.dead = if i.falls then none else some 0)
  | enter (o : Opener) (type : Int32) (sig : FuncType) (live : w.dead = none)
      (opcode : i.opcode = o.opcode)
      (imm : i.imm = .block type) (found : w.mod.blockType type = some sig)
      (done : w.gen.apply (o.op sig) = .done w'.gen)
      (shapes : w'.shapes = (o.frameKind, sig) :: w.shapes) (dead : w'.dead = none)
  | otherwise (sig : FuncType) (rest : List (FrameKind × FuncType)) (opcode : i.opcode = 0x05)
      (live : w.dead.getD 0 = 0) (shapes : w.shapes = (.cond false, sig) :: rest)
      (done : w.gen.apply .otherwise = .done w'.gen)
      (shapes' : w'.shapes = (.cond true, sig) :: rest) (dead : w'.dead = none)
  | handle (kind : FrameKind) (last : Bool) (handler : Handler) (sig : FuncType)
      (rest : List (FrameKind × FuncType)) (opcode : i.opcode = 0x07 ∨ i.opcode = 0x19)
      (live : w.dead.getD 0 = 0) (takes : kind = .attempt ∨ kind = .handler false)
      (shapes : w.shapes = (kind, sig) :: rest)
      (done : w.gen.apply (.handle handler) = .done w'.gen)
      (shapes' : w'.shapes = (.handler last, sig) :: rest) (dead : w'.dead = none)
  /-- closes the innermost frame; the `else` of a conditional that has none comes first -/
  | close (kind : FrameKind) (sig : FuncType) (rest : List (FrameKind × FuncType)) (mid : Generator)
      (opcode : i.opcode = 0x0b) (live : w.dead.getD 0 = 0)
      (shapes : w.shapes = (kind, sig) :: rest)
      (completed : if kind = .cond false then w.gen.apply .otherwise = .done mid else mid = w.gen)
      (done : mid.apply .close = .done w'.gen) (shapes' : w'.shapes = rest) (dead : w'.dead = none)
  | delegate (depth : UInt32) (sig : FuncType) (rest : List (FrameKind × FuncType))
      (opcode : i.opcode = 0x18)
      (live : w.dead.getD 0 = 0) (shapes : w.shapes = (.attempt, sig) :: rest) (inner : rest ≠ [])
      (done : w.gen.apply (.delegate depth) = .done w'.gen) (shapes' : w'.shapes = rest)
      (dead : w'.dead = none)

theorem withTop_done {next : Frame → Walking} :
    w.withTop next = .done w' ↔ ∃ f rest, w.frames = f :: rest ∧ next f = .done w' := by
  unfold withTop
  cases w.frames <;> simp

theorem pop_done {n : Nat} (h : w.pop n = .done w') :
    ∃ f rest, w.frames = f :: rest ∧
      w' = { w with frames := { f with height := f.height - n } :: rest } := by
  obtain ⟨f, rest, frames, h⟩ := withTop_done.mp h
  split at h
  · cases h
  · obtain rfl := Outcome.done.inj h
    exact ⟨f, rest, frames, by simp [setTop, frames]⟩

@[simp] theorem push_gen (w : Walk) (n : Nat) : (w.push n).gen = w.gen := by
  unfold push
  split <;> rfl

@[simp] theorem push_mod (w : Walk) (n : Nat) : (w.push n).mod = w.mod := by
  unfold push
  split <;> rfl

@[simp] theorem push_dead (w : Walk) (n : Nat) : (w.push n).dead = w.dead := by
  unfold push
  split <;> rfl

@[simp] theorem shapes_push (w : Walk) (n : Nat) : (w.push n).shapes = w.shapes := by
  unfold push shapes
  split
  · simp_all
  · rfl

theorem checkLabel_done {d : UInt32} {n : Nat} (h : w.checkLabel d n = .done w') :
    w' = w ∧ d.toNat < w.shapes.length := by
  unfold checkLabel at h
  split at h
  · cases h
  · rename_i f found
    split at h
    · cases h
    · refine ⟨(Outcome.done.inj h).symm, ?_⟩
      simpa [shapes] using (List.getElem?_eq_some_iff.mp found).1

theorem checkLabels_done {ds : List UInt32} {n : Nat} (h : w.checkLabels n ds = .done w') :
    w' = w ∧ ∀ d ∈ ds, d.toNat < w.shapes.length := by
  induction ds generalizing w with
  | nil => exact ⟨(Outcome.done.inj h).symm, by simp⟩
  | cons d rest ih =>
    obtain ⟨w₁, h₁, h₂⟩ := Outcome.andThen_done.mp h
    obtain ⟨rfl, first⟩ := checkLabel_done h₁
    obtain ⟨same, others⟩ := ih h₂
    exact ⟨same, List.forall_mem_cons.mpr ⟨first, others⟩⟩

theorem closeFrame_eq {f : Frame} {rest : List Frame} (h : w.frames = f :: rest) :
    w.closeFrame.gen = w.gen ∧ w.closeFrame.mod = w.mod ∧ w.closeFrame.dead = none ∧
      w.closeFrame.shapes = rest.map fun f => (f.kind, f.sig) := by
  simp only [closeFrame, h, push_gen, push_mod, push_dead, shapes_push, true_and]
  rfl

theorem withTag_done {tag : UInt32} {next : List ValType → Walking}
    (h : w.withTag tag next = .done w') :
    ∃ t sig, w.mod.tagAt tag = some t ∧ w.mod.typeAt t.typeIndex = some sig ∧
      next sig.params = .done w' := by
  unfold withTag at h
  split at h
  · cases h
  · rename_i t found
    split at h
    · cases h
    · rename_i sig typed
      exact ⟨t, sig, found, typed, h⟩

theorem otherwise_turn (opcode : i.opcode = 0x05) (live : w.dead.getD 0 = 0)
    (h : w.otherwise = .done w') : w'.mod = w.mod ∧ w.Turn i w' := by
  obtain ⟨f, rest, frames, h⟩ := withTop_done.mp h
  split at h
  · rename_i kind
    obtain ⟨w₁, h₁, h₂⟩ := Outcome.andThen_done.mp h
    obtain ⟨gen, done, rfl⟩ := generate_done.mp h₁
    obtain rfl := Outcome.done.inj h₂
    refine ⟨rfl, .otherwise f.sig (rest.map fun f => (f.kind, f.sig)) opcode live ?_ done ?_ rfl⟩
    · simp [shapes, frames, kind]
    · simp [shapes, revive, setTop, frames]
  · cases h

theorem close_turn (opcode : i.opcode = 0x0b) (live : w.dead.getD 0 = 0) (h : w.close = .done w') :
    w'.mod = w.mod ∧ w.Turn i w' := by
  obtain ⟨f, rest, frames, h⟩ := withTop_done.mp h
  obtain ⟨w₁, h₁, h₂⟩ := Outcome.andThen_done.mp h
  have ⟨mid, completed, same⟩ :
      ∃ mid, (if f.kind = .cond false then w.gen.apply .otherwise = .done mid
      else mid = w.gen) ∧ w₁ = { w with gen := mid } := by
    by_cases kind : f.kind = .cond false
    · rw [if_pos kind] at h₁
      obtain ⟨mid, done, rfl⟩ := generate_done.mp h₁
      exact ⟨mid, by rwa [if_pos kind], rfl⟩
    · rw [if_neg kind] at h₁
      obtain rfl := Outcome.done.inj h₁
      exact ⟨w.gen, by rw [if_neg kind], rfl⟩
  subst same
  obtain ⟨w₂, h₃, h₄⟩ := Outcome.andThen_done.mp h₂
  obtain ⟨gen, done, rfl⟩ := generate_done.mp h₃
  obtain rfl := Outcome.done.inj h₄
  have frames' : ({ w with gen } : Walk).frames = f :: rest := frames
  obtain ⟨genEq, modEq, deadEq, shapesEq⟩ := closeFrame_eq frames'
  refine ⟨modEq, .close f.kind f.sig _ mid opcode live ?_ completed ?_ shapesEq deadEq⟩
  · simp [shapes, frames]
  · rwa [genEq]

theorem delegate_turn {d : UInt32} (opcode : i.opcode = 0x18) (live : w.dead.getD 0 = 0)
    (h : w.delegate d = .done w') : w'.mod = w.mod ∧ w.Turn i w' := by
  obtain ⟨f, rest, frames, h⟩ := withTop_done.mp h
  split at h
  · cases h
  · rename_i kind
    split at h
    · cases h
    · rename_i label
      obtain ⟨w₁, h₁, h₂⟩ := Outcome.andThen_done.mp h
      obtain ⟨gen, done, rfl⟩ := generate_done.mp h₁
      obtain rfl := Outcome.done.inj h₂
      have frames' : ({ w with gen } : Walk).frames = f :: rest := frames
      obtain ⟨genEq, modEq, deadEq, shapesEq⟩ := closeFrame_eq frames'
      refine ⟨modEq, .delegate d f.sig _ opcode live ?_ ?_ ?_ shapesEq deadEq⟩
      · simp [shapes, frames, not_not.mp kind]
      · rintro none
        simp [frames, List.map_eq_nil_iff.mp none] at label
      · rwa [genEq]

theorem takesHandler_iff {f : Frame} :
    takesHandler f ↔ f.kind = .attempt ∨ f.kind = .handler false := by
  simp [takesHandler]

theorem handle_turn {last : Bool} {handler : Handler} {height : Nat} {f : Frame} {rest : List Frame}
    (opcode : i.opcode = 0x07 ∨ i.opcode = 0x19) (live : w.dead.getD 0 = 0)
    (frames : w.frames = f :: rest)
    (takes : takesHandler f) (h : ((w.generate (.handle handler)).andThen fun w =>
      .done (w.setTop { f with kind := .handler last, height }).revive) = .done w') :
    w'.mod = w.mod ∧ w.Turn i w' := by
  obtain ⟨w₁, h₁, h₂⟩ := Outcome.andThen_done.mp h
  obtain ⟨gen, done, rfl⟩ := generate_done.mp h₁
  obtain rfl := Outcome.done.inj h₂
  refine ⟨rfl, .handle f.kind last handler f.sig (rest.map fun f => (f.kind, f.sig)) opcode live
    (takesHandler_iff.mp takes) ?_ done ?_ rfl⟩
  · simp [shapes, frames]
  · simp [shapes, revive, setTop, frames]

theorem catchTag_turn {name : String} {tag : UInt32} (opcode : i.opcode = 0x07)
    (live : w.dead.getD 0 = 0)
    (h : w.catchTag name tag = .done w') : w'.mod = w.mod ∧ w.Turn i w' := by
  obtain ⟨f, rest, frames, h⟩ := withTop_done.mp h
  split at h
  · rename_i takes
    obtain ⟨_, _, -, -, h⟩ := withTag_done h
    exact handle_turn (.inl opcode) live frames takes h
  · cases h

theorem catchAll_turn {name : String} (opcode : i.opcode = 0x19) (live : w.dead.getD 0 = 0)
    (h : w.catchAll name = .done w') : w'.mod = w.mod ∧ w.Turn i w' := by
  obtain ⟨f, rest, frames, h⟩ := withTop_done.mp h
  split at h
  · exact handle_turn (.inr opcode) live frames ‹_› h
  · cases h

theorem enter_turn {o : Opener} {type : Int32} (opcode : i.opcode = o.opcode)
    (imm : i.imm = .block type)
    (live : w.dead = none) (h : w.enter o type = .done w') : w'.mod = w.mod ∧ w.Turn i w' := by
  unfold enter at h
  split at h
  · cases h
  · rename_i sig found
    obtain ⟨w₁, h₁, h₂⟩ := Outcome.andThen_done.mp h
    obtain ⟨f, rest, frames, rfl⟩ := pop_done h₁
    obtain ⟨w₂, h₃, h₄⟩ := Outcome.andThen_done.mp h₂
    obtain ⟨gen, done, rfl⟩ := generate_done.mp h₃
    obtain rfl := Outcome.done.inj h₄
    exact ⟨rfl, .enter o type sig live opcode imm found done (by simp [shapes, frames]) live⟩

theorem leave_turn (opcode : i.opcode ∈ [0x00, 0x08, 0x09, 0x0f]) (live : w.dead = none)
    (gen : w'.gen = w.gen)
    (shapes : w'.shapes = w.shapes) (dead : w'.dead = some 0) : w.Turn i w' := by
  obtain ⟨op, sub, imm⟩ := i
  simp only [List.mem_cons, List.not_mem_nil, or_false] at opcode
  rcases opcode with eq | eq | eq | eq <;> cases eq <;>
    exact .within live rfl (fun _ h => absurd h List.not_mem_nil) shapes (.inl ⟨gen, rfl, rfl⟩) dead

theorem branch_done {d : UInt32} (h : w.branch d = .done w') : d.toNat < w.shapes.length ∧
    ∃ f rest gen, w.frames = f :: rest ∧ w.gen.apply (.branch d f.height) = .done gen ∧
      w' = { w with gen } := by
  obtain ⟨f, rest, frames, h⟩ := withTop_done.mp h
  obtain ⟨w₁, h₁, h₂⟩ := Outcome.andThen_done.mp h
  obtain ⟨rfl, inside⟩ := checkLabel_done h₁
  obtain ⟨gen, done, rfl⟩ := generate_done.mp h₂
  exact ⟨inside, f, rest, gen, frames, done, rfl⟩

theorem branch_asks {d : UInt32} {n : Nat} (opcode : i.opcode = 0x0c ∨ i.opcode = 0x0d)
    (imm : i.imm = .label d)
    (height : w.height i = n) : w.gen.Asks w.mod (w.height i) i (.branch d n) := by
  subst height
  generalize w.height i = n
  obtain ⟨op, sub, imm⟩ := i
  cases imm
  rcases opcode with eq | eq <;> cases eq <;> exact ⟨rfl, rfl, rfl, rfl⟩

theorem branch_turn {d : UInt32} (opcode : i.opcode = 0x0c) (imm : i.imm = .label d)
    (live : w.dead = none)
    (h : w.branch d = .done w') : w'.kill.mod = w.mod ∧ w.Turn i w'.kill := by
  obtain ⟨inside, f, rest, gen, frames, done, rfl⟩ := branch_done h
  have asks :=
    branch_asks (.inl opcode) imm (by simp [height, frames, opcode] : w.height i = f.height)
  refine ⟨rfl, .within live ?_ ?_ rfl (.inr ⟨_, done, asks⟩) ?_⟩
  · simp [Instr.not_structural_iff, opcode]
  · simpa [Instr.labels, opcode, imm, Immediate.labelList] using inside
  · simp [Instr.falls, opcode, kill]

theorem branchIf_turn {d : UInt32} (opcode : i.opcode = 0x0d) (imm : i.imm = .label d)
    (live : w.dead = none)
    {f : Frame} {rest : List Frame} (frames : w.frames = f :: rest)
    (h : Walk.branch { w with frames := { f with height := f.height - 1 } :: rest } d = .done w') :
    w'.mod = w.mod ∧ w.Turn i w' := by
  obtain ⟨inside, f', rest', gen, frames', done, rfl⟩ := branch_done h
  cases frames'
  have asks :=
    branch_asks (.inr opcode) imm (by simp [height, frames, opcode] : w.height i = f.height - 1)
  refine ⟨rfl, .within live ?_ ?_ ?_ (.inr ⟨_, done, asks⟩) ?_⟩
  · simp [Instr.not_structural_iff, opcode]
  · simpa [Instr.labels, opcode, imm, Immediate.labelList, shapes, frames] using inside
  · simp [shapes, frames]
  · simp [Instr.falls, opcode, live]

theorem branchTable_turn {ds : List UInt32} {d : UInt32} (opcode : i.opcode = 0x0e)
    (imm : i.imm = .labels ds d)
    (live : w.dead = none) {f : Frame} {rest : List Frame} (frames : w.frames = f :: rest)
    (h : Walk.branchTable { w with frames := { f with height := f.height - 1 } :: rest } ds d =
      .done w') : w'.kill.mod = w.mod ∧ w.Turn i w'.kill := by
  obtain ⟨f', rest', frames', h⟩ := withTop_done.mp h
  cases frames'
  obtain ⟨w₁, h₁, h₂⟩ := Outcome.andThen_done.mp h
  obtain ⟨rfl, inside⟩ := checkLabels_done h₁
  obtain ⟨gen, done, rfl⟩ := generate_done.mp h₂
  have height : w.height i = f.height - 1 := by simp [Walk.height, frames, opcode]
  have labels : i.labels = ds ++ [d] := by simp [Instr.labels, opcode, imm, Immediate.labelList]
  refine ⟨rfl, .within live ?_ ?_ ?_ (.inr ⟨_, done, ?_, rfl, ?_, rfl⟩) ?_⟩
  · simp [Instr.not_structural_iff, opcode]
  · rw [labels]
    simpa [shapes, frames] using inside
  · simp [shapes, frames, kill]
  · simp [height, Generator.cells, Setting.entry, opcode, imm, Immediate.labelList]
  · simp [Generator.scopesAfter, labelOffset, labels, opcode]
  · simp [Instr.falls, opcode, kill]

theorem afterCall_turn {tail : Bool} {n results : Nat} {op : Generator.Op} {w₁ : Walk} {f : Frame}
    {rest : List Frame} (inner : i.structural = false) (falls : i.falls = !tail)
    (labels : i.labels = []) (live : w.dead = none) (frames : w.frames = f :: rest)
    (h : Walk.generate { w with frames := { f with height := n } :: rest } op = .done w₁)
    (asks : w.gen.Asks w.mod (w.height i) i op) :
    (w₁.afterCall tail results).mod = w.mod ∧ w.Turn i (w₁.afterCall tail results) := by
  obtain ⟨gen, done, rfl⟩ := generate_done.mp h
  have none : ∀ d ∈ i.labels, d.toNat < w.shapes.length := by simp [labels]
  cases tail with
  | true =>
    refine ⟨rfl, .within live inner none ?_ (.inr ⟨op, done, asks⟩) ?_⟩
    · simp [shapes, afterCall, kill, frames]
    · simp [falls, afterCall, kill]
  | false =>
    refine ⟨by simp [afterCall], .within live inner none ?_ (.inr ⟨op, ?_, asks⟩) ?_⟩
    · simp [afterCall, shapes, push, frames]
    · simpa [afterCall] using done
    · simp [afterCall, falls, live]

theorem call_turn {tail : Bool} {func : UInt32} (opcode : i.opcode = if tail then 0x12 else 0x10)
    (imm : i.imm = .func func) (live : w.dead = none) (h : w.call tail func = .done w') :
    w'.mod = w.mod ∧ w.Turn i w' := by
  unfold call at h
  split at h
  · cases h
  · rename_i sig found
    obtain ⟨w₁, h₁, h₂⟩ := Outcome.andThen_done.mp h
    obtain ⟨f, rest, frames, rfl⟩ := pop_done h₁
    obtain ⟨w₂, h₃, h₄⟩ := Outcome.andThen_done.mp h₂
    obtain rfl := Outcome.done.inj h₄
    have labels : i.labels = [] := by cases tail <;> simp_all [Instr.labels]
    refine afterCall_turn ?_ ?_ labels live frames h₃ (.of_cells ?_ labels rfl rfl rfl) <;>
      cases tail
    all_goals
      simp_all [Instr.not_structural_iff, Instr.falls,
        Generator.cells, Setting.entry, Setting.call, Immediate.number, Generator.setting]

theorem callIndirect_turn {tail : Bool} {type table : UInt32}
    (opcode : i.opcode = if tail then 0x13 else 0x11)
    (imm : i.imm = .indirect type table) (live : w.dead = none)
    (h : w.callIndirect tail type table = .done w') : w'.mod = w.mod ∧ w.Turn i w' := by
  unfold callIndirect at h
  split at h
  · cases h
  · rename_i sig found
    obtain ⟨w₁, h₁, h₂⟩ := Outcome.andThen_done.mp h
    obtain ⟨f, rest, frames, rfl⟩ := pop_done h₁
    obtain ⟨w₂, h₃, h₄⟩ := Outcome.andThen_done.mp h₂
    obtain rfl := Outcome.done.inj h₄
    have labels : i.labels = [] := by cases tail <;> simp_all [Instr.labels]
    refine afterCall_turn ?_ ?_ labels live frames h₃ (.of_cells ?_ labels rfl rfl rfl) <;>
      cases tail
    all_goals
      simp_all [Instr.not_structural_iff, Instr.falls,
        Generator.cells, Setting.entry, Setting.call, Immediate.calleeTable, Immediate.calleeType,
        Generator.setting]

theorem plain_turn (fits : i.Fits) (plain : i.action = .plain) (live : w.dead = none)
    (h : w.plain i = .done w') : w'.mod = w.mod ∧ w.Turn i w' := by
  have describes := i.action_describes
  rw [plain] at describes
  simp only [Action.Describes, List.mem_cons, not_or] at describes
  unfold Walk.plain at h
  split at h
  · cases h
  · obtain ⟨w₁, h₁, h₂⟩ := Outcome.andThen_done.mp h
    obtain ⟨f, rest, frames, rfl⟩ := pop_done h₁
    obtain ⟨w₂, h₃, h₄⟩ := Outcome.andThen_done.mp h₂
    obtain ⟨gen, rfl, serves⟩ := operands_done fits plain h₃ (w.height i)
    obtain rfl := Outcome.done.inj h₄
    refine ⟨by simp, .within live ?_ ?_ ?_ (by simpa using serves) ?_⟩
    · simp [Instr.not_structural_iff, describes]
    · simp [Instr.labels_of_plain plain]
    · simp [shapes, push, frames]
    · simp [Instr.falls, describes, live]

theorem stepLive_turn (fits : i.Fits) (live : w.dead = none) (h : w.stepLive i = .done w') :
    w'.mod = w.mod ∧ w.Turn i w' := by
  have describes := i.action_describes
  have reached : w.dead.getD 0 = 0 := by rw [live]; rfl
  unfold stepLive at h
  generalize action : i.action = a at describes h
  cases a with
  | leave =>
    obtain rfl := Outcome.done.inj h
    refine ⟨rfl, leave_turn ?_ live rfl rfl rfl⟩
    rcases describes with eq | eq <;> simp [eq]
  | enter o type => exact enter_turn describes.1 describes.2 live h
  | otherwise => exact otherwise_turn describes reached h
  | close =>
    obtain ⟨f, rest, frames, h⟩ := withTop_done.mp h
    split at h
    · cases h
    · exact close_turn describes reached h
  | branch d =>
    obtain ⟨w₁, h₁, h₂⟩ := Outcome.andThen_done.mp h
    obtain rfl := Outcome.done.inj h₂
    exact branch_turn describes.1 describes.2 live h₁
  | branchIf d =>
    obtain ⟨w₁, h₁, h₂⟩ := Outcome.andThen_done.mp h
    obtain ⟨f, rest, frames, rfl⟩ := pop_done h₁
    exact branchIf_turn describes.1 describes.2 live frames h₂
  | branchTable ds d =>
    obtain ⟨w₁, h₁, h₂⟩ := Outcome.andThen_done.mp h
    obtain ⟨f, rest, frames, rfl⟩ := pop_done h₁
    obtain ⟨w₂, h₃, h₄⟩ := Outcome.andThen_done.mp h₂
    obtain rfl := Outcome.done.inj h₄
    exact branchTable_turn describes.1 describes.2 live frames h₃
  | call tail func => exact call_turn describes.1 describes.2 live h
  | callIndirect tail type table => exact callIndirect_turn describes.1 describes.2 live h
  | throwTag tag =>
    obtain ⟨_, _, -, -, h⟩ := withTag_done h
    obtain ⟨w₁, h₁, h₂⟩ := Outcome.andThen_done.mp h
    obtain ⟨f, rest, frames, rfl⟩ := pop_done h₁
    obtain rfl := Outcome.done.inj h₂
    exact ⟨rfl, leave_turn (by simp [show i.opcode = 0x08 from describes]) live rfl
      (by simp [shapes, kill, frames]) rfl⟩
  | rethrow d =>
    simp only [rethrow] at h
    split at h
    · obtain rfl := Outcome.done.inj h
      exact ⟨rfl, leave_turn (by simp [show i.opcode = 0x09 from describes]) live rfl rfl rfl⟩
    · cases h
  | catchTag tag => exact catchTag_turn describes reached h
  | catchAll => exact catchAll_turn describes reached h
  | delegate d => exact delegate_turn describes reached h
  | plain => exact plain_turn fits action live h
  | unsupported => cases h
  | malformed => cases h

theorem skip_turn {d : Nat} (dead : w.dead = some d)
    (h : i.structural = false ∨ i.divides ∧ d ≠ 0) : w.Turn i w := by
  have ⟨opens, shuts⟩ : i.opens = false ∧ i.shuts = false := by
    rcases h with inner | ⟨divides, -⟩
    · exact ⟨(Instr.of_not_structural inner).1, (Instr.of_not_structural inner).2.1⟩
    · exact Instr.of_divides divides
  refine .skip d d ?_ rfl rfl dead dead (by simp [opens, shuts])
  cases d with
  | zero =>
    have inner : i.structural = false := by simpa using h
    simp [skips, dead, Instr.of_not_structural inner]
  | succ d => simp [skips, dead]

/-- An instruction that ends a structure which was opened in unreachable code. -/
theorem skip_shuts {d : Nat} (dead : w.dead = some (d + 1)) (shuts : i.shuts) :
    w.Turn i { w with dead := some d } := by
  exact .skip (d + 1) d (by simp [skips, dead]) rfl rfl dead rfl
    (by simp [Instr.not_opens_of_shuts shuts, shuts])

theorem skip_opens {d : Nat} (dead : w.dead = some d) (opens : i.opens) :
    w.Turn i { w with dead := some (d + 1) } := by
  refine .skip d (d + 1) ?_ rfl rfl dead rfl (by simp [opens])
  cases d with
  | zero =>
    simp only [Instr.opens, Bool.or_eq_true, decide_eq_true_eq] at opens
    rcases opens with ((eq | eq) | eq) | eq <;> simp [skips, dead, Instr.shuts, Instr.divides, eq]
  | succ d => simp [skips, dead]

theorem stepDead_turn {d : Nat} (dead : w.dead = some d) (h : w.stepDead d i = .done w') :
    w'.mod = w.mod ∧ w.Turn i w' := by
  have describes := i.action_describes
  have reached (zero : d = 0) : w.dead.getD 0 = 0 := by rw [dead, zero]; rfl
  have passed (inner : i.structural = false ∨ i.divides ∧ d ≠ 0)
      (h : .done w = (.done w' : Walking)) :
      w'.mod = w.mod ∧ w.Turn i w' := by
    obtain rfl := Outcome.done.inj h
    exact ⟨rfl, skip_turn dead inner⟩
  unfold stepDead at h
  generalize i.action = action at describes h
  cases action with
  | enter o type =>
    obtain rfl := Outcome.done.inj h
    exact ⟨rfl, skip_opens dead (by cases o <;> simp [Instr.opens, describes.1, Opener.opcode])⟩
  | close =>
    cases d with
    | zero => exact close_turn describes (reached rfl) h
    | succ d =>
      obtain rfl := Outcome.done.inj h
      exact ⟨rfl, skip_shuts dead (by simp [Instr.shuts, show i.opcode = 0x0b from describes])⟩
  | delegate label =>
    cases d with
    | zero => exact delegate_turn describes (reached rfl) h
    | succ d =>
      obtain rfl := Outcome.done.inj h
      exact ⟨rfl, skip_shuts dead (by simp [Instr.shuts, show i.opcode = 0x18 from describes])⟩
  | otherwise =>
    cases d with
    | zero => exact otherwise_turn describes (reached rfl) h
    | succ d => exact passed (.inr (by simp [Instr.divides, show i.opcode = 0x05 from describes])) h
  | catchTag tag =>
    cases d with
    | zero => exact catchTag_turn describes (reached rfl) h
    | succ d => exact passed (.inr (by simp [Instr.divides, show i.opcode = 0x07 from describes])) h
  | catchAll =>
    cases d with
    | zero => exact catchAll_turn describes (reached rfl) h
    | succ d => exact passed (.inr (by simp [Instr.divides, show i.opcode = 0x19 from describes])) h
  | malformed => cases h
  | _ => exact passed (.inl (Instr.not_structural describes trivial)) h

theorem step_turn (fits : i.Fits) (h : w.step i = .done w') : w'.mod = w.mod ∧ w.Turn i w' := by
  unfold step at h
  split at h
  · exact stepDead_turn ‹_› h
  · exact stepLive_turn fits ‹_› h

namespace Turn

variable (turn : w.Turn i w') (reached : w.skips i = false)
include turn reached

/-- An instruction with labels is reached and names open frames. -/
theorem of_label {d : UInt32} (label : d ∈ i.labels) :
    w.dead = none ∧ d.toNat < w.shapes.length := by
  have plain (structural : i.structural) : False := by
    simp [Instr.labels_of_structural structural] at label
  cases turn with
  | skip _ _ skipped _ _ _ _ _ => simp [skipped] at reached
  | within live _ labels _ _ _ => exact ⟨live, labels d label⟩
  | enter o _ _ _ opcode _ _ _ _ _ =>
    exact (plain (by cases o <;> simp [Instr.structural_iff, opcode, Opener.opcode])).elim
  | otherwise _ _ opcode _ _ _ _ _ => exact (plain (by simp [Instr.structural_iff, opcode])).elim
  | handle _ _ _ _ _ opcode _ _ _ _ _ _ =>
    exact (plain (by rcases opcode with eq | eq <;> simp [Instr.structural_iff, eq])).elim
  | close _ _ _ _ opcode _ _ _ _ _ _ => exact (plain (by simp [Instr.structural_iff, opcode])).elim
  | delegate _ _ _ opcode _ _ _ _ _ _ => exact (plain (by simp [Instr.structural_iff, opcode])).elim

theorem of_else (opcode : i.opcode = 0x05) :
    w.dead.getD 0 = 0 ∧ ∃ sig rest, w.shapes = (.cond false, sig) :: rest := by
  cases turn with
  | skip _ _ skipped _ _ _ _ _ => simp [skipped] at reached
  | within _ inner _ _ _ _ => simp [Instr.not_structural_iff, opcode] at inner
  | enter o _ _ _ other _ _ _ _ _ => cases o <;> simp [opcode, Opener.opcode] at other
  | otherwise sig rest _ live shapes _ _ _ => exact ⟨live, sig, rest, shapes⟩
  | handle _ _ _ _ _ other _ _ _ _ _ _ => rcases other with eq | eq <;> simp [opcode] at eq
  | close _ _ _ _ other _ _ _ _ _ _ => simp [opcode] at other
  | delegate _ _ _ other _ _ _ _ _ _ => simp [opcode] at other

end Turn

end Walk
end Sidetable
