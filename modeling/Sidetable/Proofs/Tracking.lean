import Sidetable.Proofs.Breakage
import Sidetable.Proofs.Count
import Sidetable.Proofs.Safety

/-!
# A walk tracks the count of operands

The walk keeps the operands of each structure by themselves, and passes over code that is not
reached. `Follows` ties it to the count over the whole function, whose base heights are the sums of
the heights below. An instruction that counts as valid takes the walk to where the count goes on,
and the side table grows by what the instruction is charged.
-/
namespace Sidetable

open OperandCount (Ctrl Env State)

namespace Generator

variable {g g' : Generator} {l : Ledger} {op : Op}

theorem Records.size_apply (records : g.Records l) (done : g.apply op = .done g') :
    g'.size = g.size + Cell.sizes (g.cells op) := by
  rw [size, (records.did done).holds.size, size_record, ← records.holds.size]
  rfl

/-- Nothing but the size of the table can keep an operation that is in order from its end. -/
theorem Records.succeeds_within (records : g.Records l) (unlimited : g.buffer.limit ≤ 0)
    (safe : (g.apply op).Safe)
    (room : g.size + Cell.sizes (g.cells op) ≤ Buffer.maxSize) : ∃ g', g.apply op = .done g' := by
  refine records.succeeds safe ?_
  simp only [Generator.room, Buffer.admits, Bool.and_eq_true, Bool.or_eq_true, decide_eq_true_eq]
  exact ⟨room, .inl unlimited⟩

theorem apply_limit (done : g.apply op = .done g') : g'.buffer.limit = g.buffer.limit := by
  obtain ⟨mid, grew, rfl | ⟨-, rfl⟩⟩ := apply_grew (by rw [done]; rfl)
  · exact grew.limit
  · exact grew.limit

theorem Did.globals (did : g.Did op g' l) : g'.globals = g.globals := by
  have same : g'.plan.globals = (g.planAfter op).globals := by rw [did.plan]
  cases op <;> exact same

theorem Did.registers (did : g.Did op g' l) : g'.registers = g.registers := by
  have same : g'.plan.registers = (g.planAfter op).registers := by rw [did.plan]
  cases op <;> exact same

end Generator

namespace Walk

variable {w w' : Walk} {e : Env} {r : Registers} {s s' t : State} {i : Instr} {n : Nat}
  {c : Ctrl} {cs : List Ctrl} {f : Frame} {fs : List Frame}

/-- The walk is about the module that the count is about, and its table has no limit of its own. -/
structure Shares (w : Walk) (e : Env) (r : Registers) : Prop where
  mod : w.mod = e.mod
  locals : w.numLocals = e.locals
  globals : w.gen.globals.length = e.mod.globalSpace.length
  registers : w.gen.registers = r
  unlimited : w.gen.buffer.limit ≤ 0

theorem Shares.apply {op : Generator.Op} {gen : Generator} {l : Ledger} (shares : w.Shares e r)
    (records : w.gen.Records l) (done : w.gen.apply op = .done gen) (frames : List Frame)
    (dead : Option Nat) : Walk.Shares { w with gen, frames, dead } e r where
  mod := shares.mod
  locals := shares.locals
  globals := by
    change gen.globals.length = _
    rw [(records.did done).globals, shares.globals]
  registers := by
    change gen.registers = _
    rw [(records.did done).registers, shares.registers]
  unlimited := by
    change gen.buffer.limit ≤ 0
    rw [Generator.apply_limit done]
    exact shares.unlimited

/-- Frames of code that is reached. The height of each is what lies above the base of its
structure. -/
inductive Tracks : Nat → List Ctrl → List Frame → Prop where
  | nil (height : Nat) : Tracks height [] []
  | cons {height : Nat} {c : Ctrl} {cs : List Ctrl} {f : Frame} {fs : List Frame}
      (kind : c.kind = f.kind)
      (sig : c.sig = f.sig) (reached : c.unreachable = false) (above : height = c.base + f.height)
      (below : Tracks c.base cs fs) : Tracks height (c :: cs) (f :: fs)

namespace Tracks

variable {height : Nat}

theorem live (tracks : Tracks height cs fs) : cs.all (!·.unreachable) := by
  induction tracks with
  | nil height => rfl
  | cons kind sig reached above below ih => simp [reached, ih]

theorem length_eq (tracks : Tracks height cs fs) : cs.length = fs.length := by
  induction tracks with
  | nil height => rfl
  | cons kind sig reached above below ih => simp [ih]

theorem getElem? (tracks : Tracks height cs fs) {d : Nat} (found : cs[d]? = some c) :
    ∃ f, fs[d]? = some f ∧ c.kind = f.kind ∧ c.sig = f.sig := by
  induction tracks generalizing d with
  | nil height => simp at found
  | cons kind sig reached above below ih =>
    cases d with
    | zero =>
      obtain rfl := Option.some.inj found
      exact ⟨_, rfl, kind, sig⟩
    | succ d => exact ih found

theorem push (tracks : Tracks height cs w.frames) (n : Nat) :
    Tracks (height + n) cs (w.push n).frames := by
  cases frames : w.frames with
  | nil =>
    rw [frames] at tracks
    cases tracks
    simp only [Walk.push, frames]
    exact .nil _
  | cons f fs =>
    rw [frames] at tracks
    cases tracks with
    | cons kind sig reached above below =>
      simp only [Walk.push, frames]
      exact .cons kind sig reached (by rw [above, Nat.add_assoc]) below

theorem pops (tracks : Tracks s.height s.ctrls (f :: fs)) (h : s.pops n = some t) :
    n ≤ f.height ∧ Tracks t.height t.ctrls ({ f with height := f.height - n } :: fs) := by
  generalize ctrls : s.ctrls = all at tracks
  cases tracks with
  | cons kind sig reached above below =>
    obtain ⟨enough, rfl⟩ := (State.pops_reached ctrls reached).mp h
    have le : n ≤ f.height := by omega
    refine ⟨le, ?_⟩
    rw [ctrls]
    exact .cons kind sig reached (by change s.height - n = _ + (f.height - n); omega) below

/-- The label of a branch reaches the same structure on both sides. -/
theorem reaches {d : UInt32} {m : Nat} (tracks : Tracks s.height s.ctrls w.frames)
    (label : s.label? d = some m) (enough : m ≤ n) : w.Reaches d n := by
  obtain ⟨c, found, rfl⟩ := Option.map_eq_some_iff.mp label
  obtain ⟨f, there, kind, sig⟩ := tracks.getElem? found
  refine ⟨f, there, Nat.le_trans (Nat.le_of_eq ?_) enough⟩
  rw [Frame.arity, Ctrl.arity, ← kind, ← sig]
  cases c.kind <;> simp

end Tracks

/-- The walk stands where the count stands. In unreachable code that is the innermost structure
which was entered from code that is reached, and those that were opened since are counted only. -/
def Follows (s : State) (dead : Option Nat) (frames : List Frame) : Prop :=
  match dead with
  | none => Tracks s.height s.ctrls frames
  | some d =>
    ∃ inner c cs f fs, s.ctrls = inner ++ c :: cs ∧ inner.length = d ∧ c.unreachable = true ∧
      frames = f :: fs ∧ c.kind = f.kind ∧ c.sig = f.sig ∧ Tracks c.base cs fs

theorem Follows.live_iff {dead : Option Nat} (follows : Follows s dead fs) :
    dead = none ↔ s.live := by
  cases dead with
  | none => exact iff_of_true rfl (Tracks.live follows)
  | some d =>
    obtain ⟨inner, c, cs, f, fs, ctrls, -, unreachable, -⟩ := follows
    simp [State.live, ctrls, unreachable]

theorem Tracks.kill {height : Nat} (tracks : Tracks height s.ctrls fs) (same : t.ctrls = s.ctrls)
    (killed : t.kill = some s') : Follows s' (some 0) fs := by
  obtain ⟨c, rest, ctrls, rfl⟩ := State.kill_some killed
  rw [← same, ctrls] at tracks
  cases tracks with
  | cons kind sig reached above below =>
    exact ⟨[], _, _, _, _, rfl, rfl, rfl, rfl, kind, sig, below⟩

/-- A step leads on, and the table grows by `n` bytes. -/
def Lands (w : Walk) (e : Env) (r : Registers) (n : Nat) (s' : State) (o : Walking) : Prop :=
  ∃ w', o = .done w' ∧ Follows s' w'.dead w'.frames ∧ w'.Shares e r ∧ w'.gen.size = w.gen.size + n

theorem Shares.lands (shares : w.Shares e r) {frames : List Frame} {dead : Option Nat}
    (follows : Follows s' dead frames) : w.Lands e r 0 s' (.done { w with frames, dead }) :=
  ⟨_, rfl, follows, ⟨shares.mod, shares.locals, shares.globals, shares.registers, shares.unlimited⟩,
    rfl⟩

/-- The generator is asked for an operation, and then the frames change. -/
theorem Shares.lands_generate (shares : w.Shares e r) {op : Generator.Op} {l : Ledger}
    {next : Walk → Walk} {frames : List Frame} {dead : Option Nat} (records : w.gen.Records l)
    (safe : (w.gen.apply op).Safe)
    (size : Cell.sizes (w.gen.cells op) = n) (room : w.gen.size + n ≤ Buffer.maxSize)
    (same : ∀ gen, next { w with gen } = { w with gen, frames, dead })
    (follows : Follows s' dead frames) :
    w.Lands e r n s' ((w.generate op).andThen fun w => .done (next w)) := by
  obtain ⟨gen, done⟩ := records.succeeds_within shares.unlimited safe (by rw [size]; exact room)
  have generated : w.generate op = .done { w with gen } := generate_done.mpr ⟨gen, done, rfl⟩
  refine ⟨{ w with gen, frames, dead }, ?_, follows, shares.apply records done frames dead, ?_⟩
  · rw [generated, Outcome.done_andThen, same]
  · rw [← size]
    exact records.size_apply done

theorem Lands.after {w₁ : Walk} {o : Walking} {next : Walk → Walking} (first : o = .done w₁)
    (size : w₁.gen.size = w.gen.size) (lands : w₁.Lands e r n s' (next w₁)) :
    w.Lands e r n s' (o.andThen next) := by
  obtain ⟨w', done, follows, shares, grown⟩ := lands
  exact ⟨w', by rw [first, Outcome.done_andThen, done], follows, shares, by rw [grown, size]⟩

theorem push_eq (w : Walk) (n : Nat) (gen : Generator) :
    Walk.push { w with gen } n = { w with gen, frames := (w.push n).frames } := by
  unfold Walk.push
  cases frames : w.frames <;> simp [frames]

/-! ## Code that is reached -/

structure Live (e : Env) (r : Registers) (s : State) (w : Walk) : Prop where
  dead : w.dead = none
  inside : w.frames ≠ []
  tracks : Tracks s.height s.ctrls w.frames
  paired : w.Paired
  shares : w.Shares e r

namespace Live

variable (live : Live e r s w)
include live

theorem pop (h : s.pops n = some t) :
    ∃ w₁, w.pop n = .done w₁ ∧ Live e r t w₁ ∧ w₁.gen = w.gen := by
  obtain ⟨f, fs, frames⟩ := List.exists_cons_of_ne_nil live.inside
  have tracks := live.tracks
  rw [frames] at tracks
  obtain ⟨enough, taken⟩ := tracks.pops h
  have popped : w.pop n = .done { w with frames := { f with height := f.height - n } :: fs } := by
    simp [Walk.pop, withTop, frames, Nat.not_lt.mpr enough, setTop]
  have shares : Walk.Shares { w with frames := { f with height := f.height - n } :: fs } e r :=
    ⟨live.shares.mod, live.shares.locals, live.shares.globals, live.shares.registers,
      live.shares.unlimited⟩
  exact ⟨_, popped, ⟨live.dead, by simp, taken, (live.paired.pop popped).1, shares⟩, rfl⟩

theorem top : ∃ c cs f fs, s.ctrls = c :: cs ∧ w.frames = f :: fs ∧ c.kind = f.kind ∧
    c.sig = f.sig ∧ c.unreachable = false ∧ s.height = c.base + f.height ∧ Tracks c.base cs fs := by
  obtain ⟨f, fs, frames⟩ := List.exists_cons_of_ne_nil live.inside
  have tracks := live.tracks
  rw [frames] at tracks
  generalize ctrls : s.ctrls = all at tracks
  cases tracks with
  | cons kind sig reached above below =>
    exact ⟨_, _, f, fs, rfl, frames, kind, sig, reached, above, below⟩

theorem enter {o : Opener} {type : Int32} (h : s.block e o.frameKind o.condition type = some s')
    (size : ∀ sig, Cell.sizes (w.gen.cells (o.op sig)) = n)
    (room : w.gen.size + n ≤ Buffer.maxSize) : w.Lands e r n s' (w.enter o type) := by
  obtain ⟨sig, t, found, taken, rfl⟩ := State.block_some h
  obtain ⟨w₁, popped, live₁, gen⟩ := live.pop taken
  obtain ⟨l, records⟩ := live₁.paired.recorded
  have allows : w₁.gen.Allows (o.op sig) := by
    cases o <;> exact Generator.allows_of_free rfl rfl rfl
  have inner : Follows (t.enter o.frameKind sig sig.params.length) w₁.dead
      ({ kind := o.frameKind, sig, height := sig.params.length } :: w₁.frames) := by
    rw [live₁.dead]
    exact .cons rfl rfl rfl rfl live₁.tracks
  rw [← gen] at size room
  simp only [Walk.enter, live.shares.mod, found]
  exact .after popped (congrArg _ gen)
    (live₁.shares.lands_generate records (records.safe allows) (size sig) room (fun _ => rfl) inner)

theorem branch {d : UInt32} (h : s.branch d = some s') (room : w.gen.size + 16 ≤ Buffer.maxSize) :
    w.Lands e r 16 s' ((w.branch d).andThen fun w => .done w.kill) := by
  obtain ⟨m, t, label, taken, killed⟩ := State.branch_some h
  obtain ⟨c, cs, f, fs, ctrls, frames, -, -, reached, above, -⟩ := live.top
  have enough := ((State.pops_reached ctrls reached).mp taken).1
  have reaches : w.Reaches d f.height := live.tracks.reaches label (by omega)
  obtain ⟨l, records⟩ := live.paired.recorded
  have lands :
      w.Lands e r 16 s' ((w.generate (.branch d f.height)).andThen fun w => .done w.kill) :=
    live.shares.lands_generate records (records.safe (live.paired.allows_branch reaches)) rfl room
      (fun _ => rfl) (live.tracks.kill (State.pops_ctrls taken) killed)
  simpa only [Walk.branch, withTop, frames, checkLabel_eq.mpr ⟨rfl, reaches⟩,
    Outcome.done_andThen] using lands

theorem branchIf {d : UInt32} (h : (s.pop.bind fun s => s.pass d) = some s')
    (room : w.gen.size + 16 ≤ Buffer.maxSize) :
    w.Lands e r 16 s' ((w.pop 1).andThen fun w => w.branch d) := by
  obtain ⟨t, one, passed⟩ := Option.bind_eq_some_iff.mp h
  rw [← State.pops_one] at one
  obtain ⟨w₁, popped, live₁, gen⟩ := live.pop one
  obtain ⟨c, cs, f, fs, ctrls, frames, -, -, reached, above, -⟩ := live₁.top
  obtain ⟨rfl, m, label, enough⟩ := State.pass_reached ctrls reached passed
  have reaches : w₁.Reaches d f.height := live₁.tracks.reaches label (by omega)
  obtain ⟨l, records⟩ := live₁.paired.recorded
  rw [← gen] at room
  have follows : Follows s' w₁.dead w₁.frames := by
    rw [live₁.dead]
    exact live₁.tracks
  have lands : w₁.Lands e r 16 s' ((w₁.generate (.branch d f.height)).andThen fun w => .done w) :=
    live₁.shares.lands_generate records (records.safe (live₁.paired.allows_branch reaches)) rfl room
      (fun _ => rfl) follows
  refine .after popped (congrArg _ gen) ?_
  simpa only [Walk.branch, withTop, frames, checkLabel_eq.mpr ⟨rfl, reaches⟩, Outcome.done_andThen,
    Outcome.andThen_id] using lands

theorem branchTable {ds : List UInt32} {d : UInt32} (h : s.branchTable ds d = some s')
    (room : w.gen.size + (8 + 16 * (ds ++ [d]).length) ≤ Buffer.maxSize) :
    w.Lands e r (8 + 16 * (ds ++ [d]).length) s'
      ((w.pop 1).andThen fun w => (w.branchTable ds d).andThen fun w => .done w.kill) := by
  obtain ⟨t, u, one, passed, last⟩ := State.branchTable_some h
  obtain ⟨w₁, popped, live₁, gen⟩ := live.pop one
  obtain ⟨c, cs, f, fs, ctrls, frames, -, -, reached, above, -⟩ := live₁.top
  obtain ⟨rfl, named⟩ := State.passes_reached ctrls reached passed
  obtain ⟨m, v, label, taken, killed⟩ := State.branch_some last
  have enough := ((State.pops_reached ctrls reached).mp taken).1
  have reaches : ∀ d' ∈ ds ++ [d], w₁.Reaches d' f.height := by
    intro d' mem
    rcases List.mem_append.mp mem with inner | last
    · obtain ⟨m', label', enough'⟩ := named d' inner
      exact live₁.tracks.reaches label' (by omega)
    · rw [List.mem_singleton.mp last]
      exact live₁.tracks.reaches label (by omega)
  obtain ⟨l, records⟩ := live₁.paired.recorded
  rw [← gen] at room
  have size :
      Cell.sizes (w₁.gen.cells (.branchTable ds d f.height)) = 8 + 16 * (ds ++ [d]).length := by
    rw [Generator.cells, Cell.sizes_cons, Setting.sizes_branches]
    rfl
  have lands : w₁.Lands e r (8 + 16 * (ds ++ [d]).length) s'
      ((w₁.generate (.branchTable ds d f.height)).andThen fun w => .done w.kill) :=
    live₁.shares.lands_generate records (records.safe (live₁.paired.allows_branchTable reaches))
      size room
      (fun _ => rfl) (live₁.tracks.kill (State.pops_ctrls taken) killed)
  refine .after popped (congrArg _ gen) ?_
  simpa only [Walk.branchTable, withTop, frames, checkLabels_eq.mpr ⟨rfl, reaches⟩,
    Outcome.done_andThen] using lands

theorem afterCall {op : Generator.Op} {tail : Bool} {extra : Nat} {sig : FuncType}
    (h : s.call tail extra sig = some s') (allows : w.gen.Allows op)
    (size : Cell.sizes (w.gen.cells op) = n) (room : w.gen.size + n ≤ Buffer.maxSize) :
    w.Lands e r n s' ((w.pop (sig.params.length + extra)).andThen fun w =>
      (w.generate op).andThen fun w => .done (w.afterCall tail sig.results.length)) := by
  obtain ⟨u, taken, h⟩ := State.call_some h
  obtain ⟨w₁, popped, live₁, gen⟩ := live.pop taken
  obtain ⟨l, records⟩ := live₁.paired.recorded
  rw [← gen] at size room allows
  refine .after popped (congrArg _ gen) ?_
  cases tail with
  | true =>
    have same (gen : Generator) : Walk.afterCall { w₁ with gen } true sig.results.length =
        { w₁ with gen, dead := some 0 } := rfl
    exact live₁.shares.lands_generate records (records.safe allows) size room same
      (live₁.tracks.kill rfl h)
  | false =>
    obtain rfl := h
    have follows :
        Follows (u.push sig.results.length) w₁.dead (w₁.push sig.results.length).frames := by
      rw [live₁.dead]
      exact live₁.tracks.push _
    exact live₁.shares.lands_generate records (records.safe allows) size room (push_eq w₁ _) follows

theorem raise {tag : UInt32} (h : s.raise e tag = some s') :
    w.Lands e r 0 s'
      (w.withTag tag fun params => (w.pop params.length).andThen fun w => .done w.kill) := by
  obtain ⟨t, sig, u, found, typed, taken, killed⟩ := State.raise_some h
  obtain ⟨w₁, popped, live₁, gen⟩ := live.pop taken
  simp only [withTag, live.shares.mod, found, typed]
  exact .after popped (congrArg _ gen) (live₁.shares.lands (live₁.tracks.kill rfl killed))

theorem rethrow {d : UInt32} (h : s.rethrow d = some s') : w.Lands e r 0 s' (w.rethrow d) := by
  obtain ⟨⟨c, last, found, kind⟩, killed⟩ := State.rethrow_some h
  obtain ⟨f, there, same, -⟩ := live.tracks.getElem? found
  simp only [Walk.rethrow, there, Option.map_some, ← same, kind]
  exact live.shares.lands (live.tracks.kill rfl killed)

theorem plain (fits : i.Fits) (complete : i.Complete) (h : s.plain e i = some s')
    (room : w.gen.size + entrySize e.mod r i ≤ Buffer.maxSize) :
    w.Lands e r (entrySize e.mod r i) s' (w.plain i) := by
  obtain ⟨m, n, t, counted, inside, taken, rfl⟩ := State.plain_some h
  have action : i.action = .plain := State.action_of_counts counted
  have effect : Effect.ofOpcode i.opcode i.sub = some ⟨m, n⟩ := by
    rw [State.counts_eq] at counted
    obtain ⟨⟨pops, pushes⟩, effect, eq⟩ := Option.map_eq_some_iff.mp counted
    obtain ⟨rfl, rfl⟩ := Prod.mk.inj eq
    exact effect
  obtain ⟨w₁, popped, live₁, gen⟩ := live.pop taken
  simp only [Walk.plain, effect]
  refine .after popped (congrArg _ gen) ?_
  rw [← gen] at room
  have follows : Follows (t.push n) w₁.dead (w₁.push n).frames := by
    rw [live₁.dead]
    exact live₁.tracks.push _
  have names : w₁.Names i := by
    refine ⟨fun l imm => ?_, fun g imm => ?_⟩
    · simpa [State.inRange, imm, live₁.shares.locals] using inside
    · simpa [State.inRange, imm, live₁.shares.globals] using inside
  have size : Cell.sizes ((w₁.gen.setting 0).entry w₁.mod i) = entrySize e.mod r i := by
    have describes := i.action_describes
    rw [action] at describes
    simp only [Action.Describes, List.mem_cons, not_or] at describes
    rw [Setting.sizes_entry _ _ _ fun bare => absurd bare (by simp [describes]), live₁.shares.mod]
    exact congrArg (entrySize e.mod · i) live₁.shares.registers
  have safe := live₁.paired.safe_operands complete
  have request := operands_request fits action 0 (w := w₁)
  generalize w₁.operands i = o at safe request
  cases request with
  | nothing entry _ =>
    rw [entry] at size
    rw [← size, Outcome.done_andThen]
    have same := push_eq w₁ n w₁.gen
    exact same ▸ live₁.shares.lands follows
  | asks op asks _ _ =>
    obtain ⟨l, records⟩ := live₁.paired.recorded
    have safe : (w₁.gen.apply op).Safe := fun b breach => safe b (Outcome.map_breach.mpr breach)
    rw [← (asks _).cells] at size
    exact live₁.shares.lands_generate records safe size room (push_eq w₁ n) follows
  | outside e unknown => exact absurd names unknown
  | short => exact absurd rfl (safe _)

end Live

/-! ## Ends and divisions of structures -/

structure Innermost (e : Env) (r : Registers) (s : State) (w : Walk) (c : Ctrl) (cs : List Ctrl)
    (f : Frame) (fs : List Frame) : Prop where
  ctrls : s.ctrls = c :: cs
  frames : w.frames = f :: fs
  kind : c.kind = f.kind
  sig : c.sig = f.sig
  below : Tracks c.base cs fs
  paired : w.Paired
  shares : w.Shares e r

theorem closeFrame_with (frames : w.frames = f :: fs) (gen : Generator) :
    Walk.closeFrame { w with gen } =
    { w with
      gen, frames := (Walk.push { w with frames := fs } f.sig.results.length).frames
      dead := none } := by
  unfold closeFrame
  simp only [frames]
  unfold Walk.push
  cases fs <;> rfl

/-- The structure is closed and leaves its results on the one around it. -/
theorem Shares.lands_close (shares : w.Shares e r) {op : Generator.Op} {l : Ledger}
    (records : w.gen.Records l)
    (frames : w.frames = f :: fs) (sig : c.sig = f.sig) (below : Tracks c.base cs fs)
    (allows : w.gen.Allows op)
    (size : Cell.sizes (w.gen.cells op) = n) (room : w.gen.size + n ≤ Buffer.maxSize) :
    w.Lands e r n (State.push { height := c.base, ctrls := cs } c.sig.results.length)
      ((w.generate op).andThen fun w => .done w.closeFrame) := by
  have below : Tracks c.base cs (Walk.frames { w with frames := fs }) := below
  refine shares.lands_generate records (records.safe allows) size room (closeFrame_with frames) ?_
  rw [sig]
  exact below.push _

namespace Innermost

variable (here : Innermost e r s w c cs f fs)
include here

/-- What is left when the structure is, on the side of the count. -/
theorem left {c' : Ctrl} (h : s.leave = some (c', t)) :
    c' = c ∧ t = { height := c.base, ctrls := cs } := by
  obtain ⟨height, ctrls⟩ := t
  obtain ⟨all, base, -⟩ := State.leave_some h
  rw [here.ctrls] at all
  obtain ⟨rfl, rfl⟩ := List.cons.inj all
  exact ⟨rfl, by rw [← base]⟩

/-- Another part of the structure starts with its own operands. -/
theorem divide {op : Generator.Op} {kind : FrameKind} {m : Nat} (allows : w.gen.Allows op)
    (size : Cell.sizes (w.gen.cells op) = n) (room : w.gen.size + n ≤ Buffer.maxSize) :
    w.Lands e r n (State.enter { height := c.base, ctrls := cs } kind c.sig m)
      ((w.generate op).andThen fun w =>
      .done (w.setTop { f with kind, height := m }).revive) := by
  obtain ⟨l, records⟩ := here.paired.recorded
  have same (gen : Generator) : (Walk.setTop { w with gen } { f with kind, height := m }).revive =
      { w with gen, frames := { f with kind, height := m } :: fs, dead := none } := by
    simp [setTop, revive, here.frames]
  exact here.shares.lands_generate records (records.safe allows) size room same
    (.cons rfl here.sig rfl rfl here.below)

theorem otherwise (opcode : w.gen.site.opcode = 0x05) (h : s.otherwise = some s')
    (room : w.gen.size + 8 ≤ Buffer.maxSize) : w.Lands e r 8 s' w.otherwise := by
  obtain ⟨c', t, left, kind, rfl⟩ := State.otherwise_some h
  obtain ⟨rfl, rfl⟩ := here.left left
  have same : f.kind = .cond false := by rw [← here.kind, kind]
  have size : Cell.sizes (w.gen.cells .otherwise) = 8 := by
    simp [Generator.cells, opcode, Generator.endOpcode, Cell.size]
  have params : c'.sig.params.length = f.sig.params.length := by rw [here.sig]
  simp only [Walk.otherwise, withTop, here.frames, same, if_true]
  rw [params]
  exact here.divide (here.paired.allows_otherwise here.frames same) size room

theorem handle {last : Bool} {handler : Handler} {m : Nat} (h : s.handle last m = some s')
    (room : w.gen.size ≤ Buffer.maxSize) : takesHandler f ∧
      w.Lands e r 0 s' ((w.generate (.handle handler)).andThen fun w =>
        .done (w.setTop { f with kind := .handler last, height := m }).revive) := by
  obtain ⟨c', t, left, kind, rfl⟩ := State.handle_some h
  obtain ⟨rfl, rfl⟩ := here.left left
  have takes : takesHandler f := takesHandler_iff.mpr (by rwa [← here.kind])
  exact ⟨takes, here.divide (here.paired.allows_handle here.frames takes handler) rfl room⟩

theorem catchTag {name : String} {tag : UInt32}
    (h : ((State.tagParams e tag).bind fun n => s.handle false n) = some s')
    (room : w.gen.size ≤ Buffer.maxSize) : w.Lands e r 0 s' (w.catchTag name tag) := by
  obtain ⟨m, params, h⟩ := Option.bind_eq_some_iff.mp h
  obtain ⟨t, sig, found, typed, rfl⟩ := State.tagParams_some params
  obtain ⟨takes, lands⟩ := here.handle h room
  simpa only [Walk.catchTag, withTop, here.frames, takes, if_true, withTag, here.shares.mod, found,
    typed] using lands

theorem catchAll {name : String} (h : s.handle true 0 = some s')
    (room : w.gen.size ≤ Buffer.maxSize) : w.Lands e r 0 s' (w.catchAll name) := by
  obtain ⟨takes, lands⟩ := here.handle h room
  simpa only [Walk.catchAll, withTop, here.frames, takes, if_true] using lands

theorem delegate {d : UInt32} (h : s.delegate d = some s') (room : w.gen.size ≤ Buffer.maxSize) :
    w.Lands e r 0 s' (w.delegate d) := by
  obtain ⟨c', t, left, ⟨kind, inside⟩, rfl⟩ := State.delegate_some h
  obtain ⟨rfl, rfl⟩ := here.left left
  have same : f.kind = .attempt := by rw [← here.kind, kind]
  have label : ¬ fs.length ≤ d.toNat := by
    rw [← here.below.length_eq]
    exact Nat.not_le.mpr inside
  simp only [Walk.delegate, withTop, here.frames, List.length_cons, Nat.add_sub_cancel]
  rw [if_neg (by simp [same]), if_neg label]
  obtain ⟨l, records⟩ := here.paired.recorded
  exact here.shares.lands_close records here.frames here.sig here.below
    (here.paired.allows_delegate here.frames same d) rfl room

/-- The end of the function is followed by a description of its results. -/
theorem sizes_close : Cell.sizes (w.gen.cells .close) =
    if c.kind = .function then Entry.roundUp (c.sig.results.length + 2) else 0 := by
  obtain ⟨scope, scopes, top, pairs⟩ := here.paired.top here.frames
  have toplevel : scope.kind = .toplevel ↔ c.kind = .function := by
    rw [pairs.kind, here.kind]
    cases f.kind with
    | cond sawElse => cases sawElse <;> simp [FrameKind.scope]
    | _ => simp [FrameKind.scope]
  by_cases kind : c.kind = .function
  · have types : scope.branchTypes = c.sig.results := by
      rw [Scope.branchTypes, if_neg (by simp [toplevel.mpr kind]), pairs.sig, here.sig]
    simp [Generator.cells, Generator.setting, top, toplevel, kind, types, Cell.sizes_returnData]
  · simp [Generator.cells, Generator.setting, top, toplevel, kind]

theorem close (opcode : w.gen.site.opcode = 0x0b) (h : s.close = some s')
    (charge : n = if c.kind = .function then Entry.roundUp (c.sig.results.length + 2) else 0)
    (room : w.gen.size + n ≤ Buffer.maxSize) : w.Lands e r n s' w.close := by
  obtain ⟨c', t, left, rfl⟩ := State.close_some h
  obtain ⟨rfl, rfl⟩ := here.left left
  obtain ⟨l, records⟩ := here.paired.recorded
  simp only [Walk.close, withTop, here.frames]
  by_cases kind : f.kind = .cond false
  · have bare : w.gen.cells .otherwise = [] := by
      simp [Generator.cells, opcode, Generator.endOpcode]
    have safe := records.safe (here.paired.allows_otherwise here.frames kind)
    have fits : w.gen.size + Cell.sizes (w.gen.cells .otherwise) ≤ Buffer.maxSize := by
      rw [bare]
      exact Nat.le_trans (Nat.le_add_right _ n) room
    obtain ⟨gen, done⟩ := records.succeeds_within here.shares.unlimited safe fits
    have size : gen.size = w.gen.size := by
      rw [records.size_apply done, bare]
      rfl
    obtain ⟨scope, scopes, top, -⟩ := here.paired.top here.frames
    have after := (records.did done).scopes
    rw [Generator.scopesAfter, top] at after
    have zero : n = 0 := by
      rw [charge, here.kind, kind]
      rfl
    have nothing : Cell.sizes (gen.cells .close) = n := by
      rw [zero]
      simp [Generator.cells, Generator.setting, after, Scope.convert]
    rw [if_pos kind]
    refine .after (generate_done.mpr ⟨gen, done, rfl⟩) size ?_
    exact (here.shares.apply records done w.frames w.dead).lands_close (records.apply done)
      here.frames here.sig
      here.below (Generator.allows_close after) nothing (by rw [size]; exact room)
  · rw [if_neg kind, Outcome.done_andThen]
    exact here.shares.lands_close records here.frames here.sig here.below
      (here.paired.allows_end here.frames) (by rw [here.sizes_close, charge]) room

end Innermost

end Walk
end Sidetable
