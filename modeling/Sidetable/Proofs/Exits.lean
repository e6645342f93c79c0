import Sidetable.Proofs.Job
import Sidetable.Proofs.Turns

/-!
# Operands at the exits of a structure

Control leaves a structure, or a part of it, at `end`, `else`, `catch`, `catch_all`, `delegate` and
`return`. Where the code is reached, only `end` asks whether the results are there. At the others a
walk with any number of operands in the innermost frame goes on in the same way and ends with the
same side table.
-/
namespace Sidetable

def Instr.departs (i : Instr) : Bool :=
  i.opcode ∈ [0x05, 0x07, 0x0f, 0x18, 0x19]

namespace Walk

variable {w v : Walk} {i : Instr} {is : List Instr.Located} {md : Metadata}

def atHeight (w : Walk) (n : Nat) : Walk :=
  { w with frames := w.frames.modifyHead fun f => { f with height := n } }

theorem frames_atHeight {f : Frame} {rest : List Frame} (frames : w.frames = f :: rest) (n : Nat) :
    (w.atHeight n).frames = { f with height := n } :: rest := by
  simp [atHeight, frames]

theorem atHeight_of_nil (frames : w.frames = []) (n : Nat) : w.atHeight n = w := by
  obtain ⟨mod, gen, _, numLocals, dead⟩ := w
  obtain rfl := frames
  rfl

theorem atHeight_self {f : Frame} {rest : List Frame} (frames : w.frames = f :: rest) :
    w.atHeight f.height = w := by
  obtain ⟨mod, gen, _, numLocals, dead⟩ := w
  obtain rfl := frames
  rfl

theorem setTop_atHeight (w : Walk) (n : Nat) (f : Frame) :
    (w.atHeight n).setTop f = w.setTop f := by
  simp only [setTop, atHeight]
  cases w.frames <;> rfl

theorem closeFrame_atHeight (w : Walk) (n : Nat) : (w.atHeight n).closeFrame = w.closeFrame := by
  cases frames : w.frames with
  | nil => rw [atHeight_of_nil frames]
  | cons f rest => simp [closeFrame, atHeight, frames]

theorem generate_atHeight {op : Generator.Op} (h : w.generate op = .done v) (n : Nat) :
    (w.atHeight n).generate op = .done (v.atHeight n) := by
  obtain ⟨gen, done, rfl⟩ := generate_done.mp h
  exact generate_done.mpr ⟨gen, done, rfl⟩

/-- Another part of the innermost structure starts with operands of its own. -/
theorem divide_atHeight {op : Generator.Op} {f : Frame}
    (h : ((w.generate op).andThen fun w => .done (w.setTop f).revive) = .done v) (n : Nat) :
    (((w.atHeight n).generate op).andThen fun w => .done (w.setTop f).revive) = .done v := by
  obtain ⟨w₁, made, last⟩ := Outcome.andThen_done.mp h
  refine Outcome.andThen_done.mpr ⟨w₁.atHeight n, generate_atHeight made n, ?_⟩
  rwa [setTop_atHeight]

/-- A frame that is closed leaves as many operands as it has results, whatever it holds. -/
theorem leave_atHeight {op : Generator.Op}
    (h : ((w.generate op).andThen fun w => .done w.closeFrame) = .done v)
    (n : Nat) : (((w.atHeight n).generate op).andThen fun w => .done w.closeFrame) = .done v := by
  obtain ⟨w₁, made, last⟩ := Outcome.andThen_done.mp h
  refine Outcome.andThen_done.mpr ⟨w₁.atHeight n, generate_atHeight made n, ?_⟩
  rwa [closeFrame_atHeight]

theorem withTag_atHeight {tag : UInt32} {next next' : List ValType → Walking} {n : Nat}
    (h : w.withTag tag next = .done v)
    (same : ∀ params, next params = .done v → next' params = .done v) :
    (w.atHeight n).withTag tag next' = .done v := by
  have mod : (w.atHeight n).mod = w.mod := rfl
  unfold withTag at h ⊢
  rw [mod]
  cases tagged : w.mod.tagAt tag with
  | none =>
    rw [tagged] at h
    cases h
  | some t =>
    cases typed : w.mod.typeAt t.typeIndex with
    | none =>
      simp only [tagged, typed] at h
      cases h
    | some sig =>
      simp only [tagged, typed] at h ⊢
      exact same _ h

theorem otherwise_atHeight (h : w.otherwise = .done v) (n : Nat) :
    (w.atHeight n).otherwise = .done v := by
  obtain ⟨f, rest, frames, h⟩ := withTop_done.mp h
  refine withTop_done.mpr ⟨_, rest, frames_atHeight frames n, ?_⟩
  by_cases kind : f.kind = .cond false
  · rw [if_pos kind] at h ⊢
    exact divide_atHeight h n
  · rw [if_neg kind] at h
    cases h

theorem close_atHeight (h : w.close = .done v) (n : Nat) : (w.atHeight n).close = .done v := by
  obtain ⟨f, rest, frames, h⟩ := withTop_done.mp h
  refine withTop_done.mpr ⟨_, rest, frames_atHeight frames n, ?_⟩
  obtain ⟨w₁, completed, h⟩ := Outcome.andThen_done.mp h
  refine Outcome.andThen_done.mpr ⟨w₁.atHeight n, ?_, leave_atHeight h n⟩
  by_cases kind : f.kind = .cond false
  · rw [if_pos kind] at completed ⊢
    exact generate_atHeight completed n
  · rw [if_neg kind] at completed ⊢
    obtain rfl := Outcome.done.inj completed
    rfl

theorem catchTag_atHeight {name : String} {tag : UInt32} (h : w.catchTag name tag = .done v)
    (n : Nat) : (w.atHeight n).catchTag name tag = .done v := by
  obtain ⟨f, rest, frames, h⟩ := withTop_done.mp h
  refine withTop_done.mpr ⟨_, rest, frames_atHeight frames n, ?_⟩
  by_cases takes : takesHandler f
  · rw [if_pos takes] at h
    rw [if_pos (show takesHandler { f with height := n } from takes)]
    exact withTag_atHeight h fun params h => divide_atHeight h n
  · rw [if_neg takes] at h
    cases h

theorem catchAll_atHeight {name : String} (h : w.catchAll name = .done v) (n : Nat) :
    (w.atHeight n).catchAll name = .done v := by
  obtain ⟨f, rest, frames, h⟩ := withTop_done.mp h
  refine withTop_done.mpr ⟨_, rest, frames_atHeight frames n, ?_⟩
  by_cases takes : takesHandler f
  · rw [if_pos takes] at h
    rw [if_pos (show takesHandler { f with height := n } from takes)]
    exact divide_atHeight h n
  · rw [if_neg takes] at h
    cases h

theorem delegate_atHeight {depth : UInt32} (h : w.delegate depth = .done v) (n : Nat) :
    (w.atHeight n).delegate depth = .done v := by
  obtain ⟨f, rest, frames, h⟩ := withTop_done.mp h
  refine withTop_done.mpr ⟨_, rest, frames_atHeight frames n, ?_⟩
  have length : (w.atHeight n).frames.length = w.frames.length := by simp [atHeight]
  by_cases kind : f.kind = .attempt
  · rw [if_neg (not_not.mpr kind)] at h ⊢
    rw [length]
    by_cases outside : w.frames.length - 1 ≤ depth.toNat
    · rw [if_pos outside] at h
      cases h
    · rw [if_neg outside] at h ⊢
      exact leave_atHeight h n
  · rw [if_pos kind] at h
    cases h

/-- The innermost frame may hold any number of operands: the walk after the instruction is the same,
or it is not reached and differs in that number only. -/
def Overlooks (w : Walk) (i : Instr) (n : Nat) (v : Walk) : Prop :=
  (w.atHeight n).step i = .done v ∨ v.dead ≠ none ∧ (w.atHeight n).step i = .done (v.atHeight n)

theorem overlooks_dead {d : Nat} (dead : w.dead = some d) (h : w.step i = .done v) (n : Nat) :
    w.Overlooks i n v := by
  have dead' : (w.atHeight n).dead = some d := dead
  simp only [Overlooks, step, dead, dead'] at h ⊢
  have passed (h : .done w = (.done v : Walking)) :
      v.dead ≠ none ∧ .done (w.atHeight n) = (.done (v.atHeight n) : Walking) := by
    obtain rfl := Outcome.done.inj h
    exact ⟨by simp [dead], rfl⟩
  have counted (e : Nat) (h : .done { w with dead := some e } = (.done v : Walking)) :
      v.dead ≠ none ∧ .done { w.atHeight n with dead := some e } =
        (.done (v.atHeight n) : Walking) := by
    obtain rfl := Outcome.done.inj h
    exact ⟨by simp, rfl⟩
  unfold stepDead at h ⊢
  generalize i.action = action at h ⊢
  cases action with
  | enter o type => exact .inr (counted (d + 1) h)
  | close =>
    cases d with
    | zero => exact .inl (close_atHeight h n)
    | succ d => exact .inr (counted d h)
  | delegate label =>
    cases d with
    | zero => exact .inl (delegate_atHeight h n)
    | succ d => exact .inr (counted d h)
  | otherwise =>
    cases d with
    | zero => exact .inl (otherwise_atHeight h n)
    | succ d => exact .inr (passed h)
  | catchTag tag =>
    cases d with
    | zero => exact .inl (catchTag_atHeight h n)
    | succ d => exact .inr (passed h)
  | catchAll =>
    cases d with
    | zero => exact .inl (catchAll_atHeight h n)
    | succ d => exact .inr (passed h)
  | malformed => cases h
  | _ => exact .inr (passed h)

theorem overlooks_departs (departs : i.departs) (live : w.dead = none) (h : w.step i = .done v)
    (n : Nat) : w.Overlooks i n v := by
  have live' : (w.atHeight n).dead = none := live
  simp only [Overlooks, step, live, live'] at h ⊢
  unfold stepLive at h ⊢
  simp only [Instr.departs, List.mem_cons, List.not_mem_nil, or_false, decide_eq_true_eq] at departs
  rcases departs with opcode | opcode | opcode | opcode | opcode
  · have action : i.action = .otherwise := by simp [Instr.action, opcode]
    rw [action] at h ⊢
    exact .inl (otherwise_atHeight h n)
  · have action : i.action = i.imm.onTag .catchTag := by simp [Instr.action, opcode]
    rw [action] at h ⊢
    cases imm : i.imm with
    | tag tag =>
      rw [imm] at h
      exact .inl (catchTag_atHeight h n)
    | _ =>
      rw [imm] at h
      cases h
  · have action : i.action = .leave := by simp [Instr.action, opcode]
    rw [action] at h ⊢
    obtain rfl := Outcome.done.inj h
    exact .inr ⟨by simp [kill], rfl⟩
  · have action : i.action = i.imm.onLabel .delegate := by simp [Instr.action, opcode]
    rw [action] at h ⊢
    cases imm : i.imm with
    | label depth =>
      rw [imm] at h
      exact .inl (delegate_atHeight h n)
    | _ =>
      rw [imm] at h
      cases h
  · have action : i.action = .catchAll := by simp [Instr.action, opcode]
    rw [action] at h ⊢
    exact .inl (catchAll_atHeight h n)

/-- An `end` that is reached succeeds with as many operands as there are results, or more. -/
theorem end_atHeight {f : Frame} {rest : List Frame} (opcode : i.opcode = 0x0b)
    (live : w.dead = none) (frames : w.frames = f :: rest) (h : w.step i = .done v) (n : Nat) :
    (f.sig.results.length ≤ n → (w.atHeight n).step i = .done v) ∧
      ∀ v', (w.atHeight n).step i = .done v' → f.sig.results.length ≤ n := by
  have live' : (w.atHeight n).dead = none := live
  have action : i.action = .close := by simp [Instr.action, opcode]
  simp only [step, live, live', stepLive, action] at h ⊢
  obtain ⟨f', rest', frames', h⟩ := withTop_done.mp h
  constructor
  · intro enough
    refine withTop_done.mpr ⟨_, rest, frames_atHeight frames n, ?_⟩
    rw [if_neg (Nat.not_lt.mpr enough)]
    split at h
    · cases h
    · exact close_atHeight h n
  · intro v' done
    obtain ⟨g, others, same, done⟩ := withTop_done.mp done
    rw [frames_atHeight frames n] at same
    obtain ⟨rfl, -⟩ := List.cons.inj same
    by_contra few
    rw [if_pos (Nat.not_le.mp few)] at done
    cases done

/-- The walk goes through the instructions and ends with the side table. -/
structure Ends (w : Walk) (is : List Instr.Located) (md : Metadata) : Prop where
  succeeds : w.Succeeds is
  closed : (is.foldl Walk.next w).frames = []
  final : (is.foldl Walk.next w).gen.finalize = .ok md

theorem ends_cons {i : Instr.Located} : w.Ends (i :: is) md ↔
    w.frames ≠ [] ∧ ∃ v, (w.moveTo i).step i.toInstr = .done v ∧ v.Ends is md := by
  constructor
  · rintro ⟨⟨inside, done, others⟩, closed, final⟩
    exact ⟨inside, w.next i, done, others, closed, final⟩
  · rintro ⟨inside, v, done, others, closed, final⟩
    have next : w.next i = v := by rw [Walk.next, done]
    refine ⟨⟨inside, ?_, ?_⟩, ?_, ?_⟩
    · rw [next, done]
    · rwa [next]
    · rwa [List.foldl_cons, next]
    · rwa [List.foldl_cons, next]

theorem atHeight_ne_nil (h : w.frames ≠ []) (n : Nat) : (w.atHeight n).frames ≠ [] := by
  simpa [atHeight] using h

/-- In code that is not reached the operands of the innermost frame do not matter. -/
theorem Ends.atHeight_dead (h : w.Ends is md) (dead : w.dead ≠ none) (n : Nat) :
    (w.atHeight n).Ends is md := by
  induction is generalizing w with
  | nil => rwa [atHeight_of_nil (w := w) h.closed]
  | cons i is ih =>
    obtain ⟨inside, v, done, more⟩ := ends_cons.mp h
    obtain ⟨d, some⟩ := Option.ne_none_iff_exists'.mp dead
    refine ends_cons.mpr ⟨atHeight_ne_nil inside n, ?_⟩
    rcases overlooks_dead (w := w.moveTo i) some done n with same | ⟨still, changed⟩
    · exact ⟨v, same, more⟩
    · exact ⟨v.atHeight n, changed, ih more still⟩

theorem Ends.atHeight_departs {i : Instr.Located} (h : w.Ends (i :: is) md) (departs : i.departs)
    (live : w.dead = none) (n : Nat) : (w.atHeight n).Ends (i :: is) md := by
  obtain ⟨inside, v, done, more⟩ := ends_cons.mp h
  refine ends_cons.mpr ⟨atHeight_ne_nil inside n, ?_⟩
  rcases overlooks_departs (w := w.moveTo i) departs live done n with same | ⟨dead, changed⟩
  · exact ⟨v, same, more⟩
  · exact ⟨v.atHeight n, changed, more.atHeight_dead dead n⟩

theorem Ends.atHeight_end {i : Instr.Located} {f : Frame} {rest : List Frame}
    (h : w.Ends (i :: is) md)
    (opcode : i.opcode = 0x0b) (live : w.dead = none) (frames : w.frames = f :: rest) (n : Nat) :
    (w.atHeight n).Ends (i :: is) md ↔ f.sig.results.length ≤ n := by
  obtain ⟨inside, v, done, more⟩ := ends_cons.mp h
  obtain ⟨passes, needs⟩ := end_atHeight (w := w.moveTo i) opcode live frames done n
  constructor
  · intro ends
    obtain ⟨-, v', done', -⟩ := ends_cons.mp ends
    exact needs v' done'
  · intro enough
    exact ends_cons.mpr ⟨atHeight_ne_nil inside n, v, passes enough, more⟩

end Walk

namespace Job

variable {j : Job} {md : Metadata} {k : Nat} {i : Instr.Located}

/-- From every instruction on an accepted job ends with its side table. -/
theorem Accepted.ends (h : j.Accepted md) (le : k ≤ j.code.length) :
    (j.walk k).Ends (j.code.drop k) md := by
  induction k with
  | zero =>
    obtain ⟨-, succeeds, closed, final⟩ := accepted_walk h
    rw [walk, List.take_length] at closed final
    exact ⟨succeeds, closed, final⟩
  | succ k ih =>
    have ends := ih (Nat.le_of_succ_le le)
    rw [List.drop_eq_getElem_cons (Nat.lt_of_succ_le le)] at ends
    obtain ⟨-, v, done, more⟩ := Walk.ends_cons.mp ends
    obtain ⟨-, done'⟩ := step_done h (List.getElem?_eq_getElem (Nat.lt_of_succ_le le))
    rwa [Outcome.done.inj (done'.symm.trans done)]

/-- Of the exits that are reached, `end` alone finds the results of its structure there: with fewer
operands the function would not be accepted. At the others any number of operands leads to the same
side table. -/
theorem only_end_checks_results (accepted : j.Accepted md) (found : j.code[k]? = some i)
    (live : (j.walk k).dead = none) : ∃ f rest, (j.walk k).frames = f :: rest ∧
      (i.opcode = 0x0b → f.sig.results.length ≤ f.height ∧
        ∀ n, ((j.walk k).atHeight n).Ends (j.code.drop k) md ↔ f.sig.results.length ≤ n) ∧
      (i.departs → ∀ n, ((j.walk k).atHeight n).Ends (j.code.drop k) md) := by
  obtain ⟨inside, rfl⟩ := List.getElem?_eq_some_iff.mp found
  have ends := accepted.ends (Nat.le_of_lt inside)
  rw [List.drop_eq_getElem_cons inside] at ends ⊢
  obtain ⟨f, rest, frames⟩ := List.exists_cons_of_ne_nil (Walk.ends_cons.mp ends).1
  refine ⟨f, rest, frames, ?_, ?_⟩
  · intro opcode
    have counts := ends.atHeight_end opcode live frames
    refine ⟨(counts f.height).mp ?_, counts⟩
    rwa [Walk.atHeight_self frames]
  · intro departs n
    exact ends.atHeight_departs departs live n

def slack : Job where
  mod := {
    types := [{ results := [.i32] }, {}]
    funcs := [0]
    tags := [{ attr := 0, typeIndex := 1 }]
    code := [{
      body := some [
        0x00,                                              -- no locals
        0x41, 0x00, 0x04, 0x7f,                            -- i32.const 0, if of one result
        0x05, 0x41, 0x00, 0x0b, 0x1a,                      -- else, i32.const 0, end, drop
        0x06, 0x7f,                                        -- try of one result
        0x07, 0x00, 0x19, 0x41, 0x00, 0x0b, 0x1a,
        -- catch 0, catch_all, i32.const 0, end, drop
        0x06, 0x7f, 0x18, 0x00, 0x1a,                      -- try of one result, delegate 0, drop
        0x0f, 0x0b]                                        -- return, end
      codeOffset := 1 }] }
  cfg := { convention := ⟨6, 8⟩ }
  func := 0

def slackTable : Metadata where
  bytes := [
    0, 0, 0, 0, 2, 0, 0, 0,  5, 0, 0, 0, 32, 0, 0, 0,  4, 0, 0, 0, 0, 0, 0, 0,
    7, 0, 0, 0, 40, 0, 0, 0,
    0, 0, 0, 0, 2, 0, 0, 0,  0, 0, 0, 0, 2, 0, 0, 0,  8, 0, 127, 0, 0, 0, 0, 0]
  locations := []
  returns := [.i32]
  func := 0
  numLocals := 0
  numArgs := 0
  numArgsOnStack := 0
  localBase := 16
  bytecodeOffset := 1
  bytecodeLength := 26

/-- The `end` of its first structure. -/
theorem only_end_checks_results_slack :
    let i : Instr.Located := { opcode := 0x0b, start := 8, stop := 9 }
    slack.Accepted slackTable ∧ slack.code[4]? = some i ∧ (slack.walk 4).dead = none ∧
      ∃ f rest, (slack.walk 4).frames = f :: rest ∧ f.sig.results.length ≤ f.height ∧
        ∀ n, ((slack.walk 4).atHeight n).Ends (slack.code.drop 4) slackTable ↔
          f.sig.results.length ≤ n := by
  intro i
  have accepted : slack.Accepted slackTable := by decide +kernel
  have found : slack.code[4]? = some i := by decide +kernel
  have live : (slack.walk 4).dead = none := by decide +kernel
  obtain ⟨f, rest, frames, checked, -⟩ := only_end_checks_results accepted found live
  exact ⟨accepted, found, live, f, rest, frames, checked rfl⟩

/-- The function is accepted, and comes to each of the five exits without the result that should be
there. At `return` the innermost frame is that of the function. -/
theorem slack_exits_accepted : slack.Accepted slackTable ∧ (slack.walk 15).frames.length = 1 ∧
    ∀ p ∈ [(2, 0x05), (7, 0x07), (8, 0x19), (13, 0x18), (15, 0x0f)],
      (slack.code[p.1]?.map fun i => i.opcode) = some p.2 ∧ (slack.walk p.1).dead = none ∧
        (slack.walk p.1).frames.head?.any fun f => f.height < f.sig.results.length := by
  decide +kernel

end Job
end Sidetable
