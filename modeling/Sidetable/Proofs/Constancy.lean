import Sidetable.Proofs.Growth
import Sidetable.Walk

/-!
# What no instruction changes

An instruction may fail after it has changed something. Whether it succeeds or fails, the walk is in
the same function and counts the same locals.
-/
namespace Sidetable.Walk

variable {w m : Walk} {o : Walking}

structure Same (w w' : Walk) : Prop where
  func : w'.gen.func = w.gen.func
  numLocals : w'.numLocals = w.numLocals

def Keeps (w : Walk) (o : Walking) : Prop :=
  ∀ w', o.state? = some w' → w.Same w'

theorem Same.trans {w' : Walk} (h : w.Same m) (h' : m.Same w') : w.Same w' :=
  ⟨h'.func.trans h.func, h'.numLocals.trans h.numLocals⟩

theorem keeps_done (same : w.Same m) : w.Keeps (.done m) := by
  rintro w' ⟨⟩
  exact same

theorem keeps_failed (w : Walk) (why : Rejection) : w.Keeps (.failed w why) := by
  rintro w' ⟨⟩
  exact ⟨rfl, rfl⟩

theorem keeps_breach (b : Breach) : w.Keeps (.breach b) := by
  rintro w' ⟨⟩

theorem Keeps.andThen {next : Walk → Walking} (h : w.Keeps o)
    (more : ∀ m : Walk, m.Keeps (next m)) : w.Keeps (o.andThen next) := by
  intro w' ends
  rcases Outcome.andThen_state.mp ends with ⟨e, failed⟩ | ⟨m, done, rest⟩
  · exact h w' (by rw [failed]; rfl)
  · exact (h m (by rw [done]; rfl)).trans (more m w' rest)

theorem keeps_generate (w : Walk) (op : Generator.Op) : w.Keeps (w.generate op) := by
  intro w' ends
  have kept {gen : Generator} (h : (w.gen.apply op).state? = some gen) : gen.func = w.gen.func := by
    obtain ⟨mid, grew, rfl | ⟨-, rfl⟩⟩ := Generator.apply_grew h <;> exact grew.func
  unfold generate at ends
  cases applied : w.gen.apply op with
  | breach b =>
    rw [applied] at ends
    cases ends
  | done gen | failed gen e =>
    rw [applied] at ends
    cases ends
    exact ⟨kept (by rw [applied]; rfl), rfl⟩

theorem keeps_withTop {next : Frame → Walking} (h : ∀ f, w.Keeps (next f)) :
    w.Keeps (w.withTop next) := by
  unfold withTop
  split
  · exact h _
  · exact keeps_breach _

theorem keeps_pop (w : Walk) (n : Nat) : w.Keeps (w.pop n) := by
  refine keeps_withTop fun f => ?_
  split
  · exact keeps_failed _ _
  · exact keeps_done ⟨rfl, rfl⟩

theorem same_push (w : Walk) (n : Nat) : w.Same (w.push n) := by
  unfold push
  split <;> exact ⟨rfl, rfl⟩

theorem same_closeFrame (w : Walk) : w.Same w.closeFrame := by
  unfold closeFrame
  split
  · rename_i f rest _
    exact ⟨(same_push { w with frames := rest, dead := none } _).func, (same_push _ _).numLocals⟩
  · exact ⟨rfl, rfl⟩

theorem same_afterCall (w : Walk) (tail : Bool) (results : Nat) :
    w.Same (w.afterCall tail results) := by
  cases tail with
  | true => exact ⟨rfl, rfl⟩
  | false => exact same_push w results

theorem keeps_checkLabel (w : Walk) (d : UInt32) (n : Nat) : w.Keeps (w.checkLabel d n) := by
  unfold checkLabel
  split
  · exact keeps_failed _ _
  · split
    · exact keeps_failed _ _
    · exact keeps_done ⟨rfl, rfl⟩

theorem keeps_checkLabels (w : Walk) (n : Nat) (ds : List UInt32) :
    w.Keeps (w.checkLabels n ds) := by
  induction ds generalizing w with
  | nil => exact keeps_done ⟨rfl, rfl⟩
  | cons d rest ih => exact (keeps_checkLabel w d n).andThen ih

theorem keeps_withTag {tag : UInt32} {next : List ValType → Walking}
    (h : ∀ params, w.Keeps (next params)) : w.Keeps (w.withTag tag next) := by
  unfold withTag
  split
  · exact keeps_failed _ _
  · split
    · exact keeps_failed _ _
    · exact h _

theorem keeps_enter (w : Walk) (o : Opener) (type : Int32) : w.Keeps (w.enter o type) := by
  unfold enter
  split
  · exact keeps_failed _ _
  · exact (keeps_pop w _).andThen fun m => (keeps_generate m _).andThen fun _ =>
      keeps_done ⟨rfl, rfl⟩

theorem keeps_otherwise (w : Walk) : w.Keeps w.otherwise := by
  refine keeps_withTop fun f => ?_
  split
  · exact (keeps_generate w _).andThen fun _ => keeps_done ⟨rfl, rfl⟩
  · exact keeps_failed _ _

theorem keeps_close (w : Walk) : w.Keeps w.close := by
  have closed (w : Walk) : w.Keeps ((w.generate .close).andThen fun w => .done w.closeFrame) :=
    (keeps_generate w _).andThen fun m => keeps_done (same_closeFrame m)
  refine keeps_withTop fun f => ?_
  dsimp only
  split
  · exact (keeps_generate w _).andThen closed
  · exact closed w

theorem keeps_catchTag (w : Walk) (name : String) (tag : UInt32) :
    w.Keeps (w.catchTag name tag) := by
  refine keeps_withTop fun f => ?_
  split
  · exact keeps_withTag fun params => (keeps_generate w _).andThen fun _ => keeps_done ⟨rfl, rfl⟩
  · exact keeps_failed _ _

theorem keeps_catchAll (w : Walk) (name : String) : w.Keeps (w.catchAll name) := by
  refine keeps_withTop fun f => ?_
  split
  · exact (keeps_generate w _).andThen fun _ => keeps_done ⟨rfl, rfl⟩
  · exact keeps_failed _ _

theorem keeps_delegate (w : Walk) (depth : UInt32) : w.Keeps (w.delegate depth) := by
  refine keeps_withTop fun f => ?_
  split
  · exact keeps_failed _ _
  · split
    · exact keeps_failed _ _
    · exact (keeps_generate w _).andThen fun m => keeps_done (same_closeFrame m)

theorem keeps_call (w : Walk) (tail : Bool) (func : UInt32) : w.Keeps (w.call tail func) := by
  unfold call
  split
  · exact keeps_failed _ _
  · exact (keeps_pop w _).andThen fun m => (keeps_generate m _).andThen fun m =>
      keeps_done (same_afterCall m _ _)

theorem keeps_callIndirect (w : Walk) (tail : Bool) (type table : UInt32) :
    w.Keeps (w.callIndirect tail type table) := by
  unfold callIndirect
  split
  · exact keeps_failed _ _
  · exact (keeps_pop w _).andThen fun m => (keeps_generate m _).andThen fun m =>
      keeps_done (same_afterCall m _ _)

theorem keeps_branch (w : Walk) (depth : UInt32) : w.Keeps (w.branch depth) :=
  keeps_withTop fun _ => (keeps_checkLabel w _ _).andThen fun m => keeps_generate m _

theorem keeps_branchTable (w : Walk) (ds : List UInt32) (d : UInt32) :
    w.Keeps (w.branchTable ds d) :=
  keeps_withTop fun _ => (keeps_checkLabels w _ _).andThen fun m => keeps_generate m _

theorem keeps_miscOperands (w : Walk) (sub : UInt32) (list : List UInt32) :
    w.Keeps (w.miscOperands sub list) := by
  unfold miscOperands
  split
  case h_9 => exact keeps_done ⟨rfl, rfl⟩
  all_goals
    split
    · exact keeps_generate w _
    · exact keeps_breach _

theorem keeps_operands (w : Walk) (i : Instr) : w.Keeps (w.operands i) := by
  unfold operands
  split
  case h_1 | h_2 =>
    split
    · exact keeps_failed _ _
    · exact keeps_generate w _
  case h_8 => exact keeps_miscOperands w _ _
  case h_9 =>
    split
    · exact keeps_generate w _
    · exact keeps_done ⟨rfl, rfl⟩
  all_goals exact keeps_generate w _

theorem keeps_plain (w : Walk) (i : Instr) : w.Keeps (w.plain i) := by
  unfold plain
  split
  · exact keeps_failed _ _
  · exact (keeps_pop w _).andThen fun m => (keeps_operands m i).andThen fun m =>
      keeps_done (same_push m _)

theorem keeps_stepLive (w : Walk) (i : Instr) : w.Keeps (w.stepLive i) := by
  have killed (w : Walk) : w.Keeps (.done w.kill) := keeps_done ⟨rfl, rfl⟩
  unfold stepLive
  cases i.action with
  | leave => exact killed w
  | enter o type => exact keeps_enter w o type
  | otherwise => exact keeps_otherwise w
  | close =>
    refine keeps_withTop fun f => ?_
    split
    · exact keeps_failed _ _
    · exact keeps_close w
  | branch depth => exact (keeps_branch w depth).andThen killed
  | branchIf depth => exact (keeps_pop w 1).andThen fun m => keeps_branch m depth
  | branchTable ds d =>
    exact (keeps_pop w 1).andThen fun m => (keeps_branchTable m ds d).andThen killed
  | call tail func => exact keeps_call w tail func
  | callIndirect tail type table => exact keeps_callIndirect w tail type table
  | throwTag tag => exact keeps_withTag fun params => (keeps_pop w _).andThen killed
  | rethrow depth =>
    dsimp only [rethrow]
    split
    · exact killed w
    · exact keeps_failed _ _
  | catchTag tag => exact keeps_catchTag w _ tag
  | catchAll => exact keeps_catchAll w _
  | delegate depth => exact keeps_delegate w depth
  | plain => exact keeps_plain w i
  | unsupported => exact keeps_failed _ _
  | malformed => exact keeps_breach _

theorem keeps_stepDead (w : Walk) (depth : Nat) (i : Instr) : w.Keeps (w.stepDead depth i) := by
  unfold stepDead
  cases i.action with
  | close =>
    cases depth with
    | zero => exact keeps_close w
    | succ depth => exact keeps_done ⟨rfl, rfl⟩
  | delegate d =>
    cases depth with
    | zero => exact keeps_delegate w d
    | succ depth => exact keeps_done ⟨rfl, rfl⟩
  | otherwise =>
    cases depth with
    | zero => exact keeps_otherwise w
    | succ depth => exact keeps_done ⟨rfl, rfl⟩
  | catchTag tag =>
    cases depth with
    | zero => exact keeps_catchTag w _ tag
    | succ depth => exact keeps_done ⟨rfl, rfl⟩
  | catchAll =>
    cases depth with
    | zero => exact keeps_catchAll w _
    | succ depth => exact keeps_done ⟨rfl, rfl⟩
  | malformed => exact keeps_breach _
  | _ => exact keeps_done ⟨rfl, rfl⟩

theorem keeps_step (w : Walk) (i : Instr) : w.Keeps (w.step i) := by
  unfold step
  split
  · exact keeps_stepDead w _ i
  · exact keeps_stepLive w i

end Sidetable.Walk
