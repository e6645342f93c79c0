import Sidetable.Action
import Sidetable.Effect
import Sidetable.Generator

/-!
# Walking a function body

A walk tracks how many operands each open control structure holds, checks labels and indices, and
drives the generator. Code that cannot be reached is skipped: only the instructions that end it
count.
-/
namespace Sidetable

inductive Rejection where
  | underflow (need have_ : Nat)
  | scopeEnds (height want : Nat)
  | elseWithoutIf
  | handlerWithoutTry (name : String)
  | delegateWithoutTry
  | delegateLabel (depth : UInt32) (enclosing : Nat)
  | rethrowLabel (depth : UInt32)
  | labelDepth (depth : UInt32) (scopes : Nat)
  | branchOperands (carried : Nat) (depth : UInt32) (expected : Nat)
  | blockType (type : Int32)
  | noFunction (func : UInt32)
  | noType (type : UInt32)
  | noTag (tag : UInt32)
  | noTagType (tag type : UInt32)
  | localRange (index : UInt32) (count : Nat)
  | globalRange (index : UInt32) (count : Nat)
  | unsupported (name : String)
  | allocation (e : AllocationError)
  deriving DecidableEq, Repr

namespace Rejection

def kind : Rejection → Kind
  | noFunction _ | noType _ | noTag _ | noTagType _ _ | blockType _ => .notFound
  | localRange _ _ | globalRange _ _ => .outOfBounds
  | unsupported _ => .unsupported
  | allocation e => e.diagnostic.kind
  | _ => .invalidData

def detail : Rejection → String
  | underflow need have_ => s!"operand stack underflow: need {need}, have {have_}"
  | scopeEnds height want => s!"scope ends with {height} operands, want {want}"
  | elseWithoutIf => "else without matching if"
  | handlerWithoutTry name => s!"{name} without matching try"
  | delegateWithoutTry => "delegate without matching try"
  | delegateLabel depth enclosing => s!"delegate label {depth} exceeds {enclosing} enclosing scopes"
  | rethrowLabel depth => s!"rethrow label {depth} is not a catch"
  | labelDepth depth scopes => s!"label {depth} exceeds {scopes} open scopes"
  | branchOperands carried depth expected =>
    s!"branch carries {carried} operands, label {depth} expects {expected}"
  | blockType type => s!"block type {type} not found"
  | noFunction func => s!"function {func} not found"
  | noType type => s!"type {type} not found"
  | noTag tag => s!"tag {tag} not found"
  | noTagType tag type => s!"tag {tag} type {type} not found"
  | localRange index count => s!"local {index} out of range ({count} locals)"
  | globalRange index count => s!"global {index} out of range ({count} globals)"
  | unsupported name => s!"{name} is not supported by the in-place interpreter"
  | allocation e => e.diagnostic.detail

def value : Rejection → Option String
  | allocation e => e.diagnostic.value
  | _ => none

end Rejection

inductive FrameKind where
  | function
  | block
  | loop
  | cond (sawElse : Bool)
  | attempt
  /-- a handler of a try; after the last one no other may follow -/
  | handler (last : Bool)
  deriving DecidableEq, Repr

/-- An open control structure and the operands pushed since it was opened. -/
structure Frame where
  kind : FrameKind
  sig : FuncType
  height : Nat := 0
  deriving DecidableEq, Repr

def Frame.arity (f : Frame) : Nat :=
  if f.kind = .loop then f.sig.params.length else f.sig.results.length

namespace Opener

def frameKind : Opener → FrameKind
  | block => .block
  | loop => .loop
  | cond => .cond false
  | attempt => .attempt

/-- Operands that the opening instruction takes besides its parameters. -/
def condition : Opener → Nat
  | cond => 1
  | _ => 0

def op (o : Opener) (sig : FuncType) : Generator.Op :=
  match o with
  | block => .block sig
  | loop => .loop sig
  | cond => .cond sig
  | attempt => .attempt sig

end Opener

structure Walk where
  mod : Module
  gen : Generator
  /-- open control structures, innermost first -/
  frames : List Frame
  numLocals : Nat
  /-- in unreachable code, the number of control structures that were opened in it -/
  dead : Option Nat := none
  deriving DecidableEq

abbrev Walking := Outcome Walk Rejection

namespace Walk

def generate (w : Walk) (op : Generator.Op) : Walking :=
  (w.gen.apply op).map (fun gen => { w with gen }) .allocation

def withTop (w : Walk) (next : Frame → Walking) : Walking :=
  match w.frames with
  | f :: _ => next f
  | [] => .breach .outOfRange

def setTop (w : Walk) (f : Frame) : Walk :=
  { w with frames := f :: w.frames.tail }

def pop (w : Walk) (n : Nat) : Walking :=
  w.withTop fun f =>
    if f.height < n then .failed w (.underflow n f.height)
    else .done (w.setTop { f with height := f.height - n })

def push (w : Walk) (n : Nat) : Walk :=
  match w.frames with
  | f :: rest => { w with frames := { f with height := f.height + n } :: rest }
  | [] => w

def kill (w : Walk) : Walk :=
  { w with dead := some 0 }

def revive (w : Walk) : Walk :=
  { w with dead := none }

def closeFrame (w : Walk) : Walk :=
  match w.frames with
  | f :: rest => { w with frames := rest, dead := none }.push f.sig.results.length
  | [] => w

def checkLabel (w : Walk) (depth : UInt32) (height : Nat) : Walking :=
  match w.frames[depth.toNat]? with
  | none => .failed w (.labelDepth depth w.frames.length)
  | some f =>
    if height < f.arity then .failed w (.branchOperands height depth f.arity) else .done w

def checkLabels (w : Walk) (height : Nat) : List UInt32 → Walking
  | [] => .done w
  | d :: rest => (w.checkLabel d height).andThen fun w => w.checkLabels height rest

def withTag (w : Walk) (tag : UInt32) (next : List ValType → Walking) : Walking :=
  match w.mod.tagAt tag with
  | none => .failed w (.noTag tag)
  | some t =>
    match w.mod.typeAt t.typeIndex with
    | none => .failed w (.noTagType tag t.typeIndex)
    | some sig => next sig.params

def enter (w : Walk) (o : Opener) (type : Int32) : Walking :=
  match w.mod.blockType type with
  | none => .failed w (.blockType type)
  | some sig =>
    (w.pop (sig.params.length + o.condition)).andThen fun w =>
      (w.generate (o.op sig)).andThen fun w =>
        .done { w with
          frames := { kind := o.frameKind, sig, height := sig.params.length } :: w.frames }

def otherwise (w : Walk) : Walking :=
  w.withTop fun f =>
    if f.kind = .cond false then
      (w.generate .otherwise).andThen fun w =>
        .done (w.setTop { f with kind := .cond true, height := f.sig.params.length }).revive
    else .failed w .elseWithoutIf

/-- Closes the innermost frame. A conditional without an `else` is given one first. -/
def close (w : Walk) : Walking :=
  w.withTop fun f =>
    let completed := if f.kind = .cond false then w.generate .otherwise else .done w
    completed.andThen fun w => (w.generate .close).andThen fun w => .done w.closeFrame

def takesHandler (f : Frame) : Bool :=
  f.kind = .attempt || f.kind = .handler false

def catchTag (w : Walk) (name : String) (tag : UInt32) : Walking :=
  w.withTop fun f =>
    if takesHandler f then
      w.withTag tag fun params =>
        (w.generate (.handle .tagged)).andThen fun w =>
          .done (w.setTop { f with kind := .handler false, height := params.length }).revive
    else .failed w (.handlerWithoutTry name)

def catchAll (w : Walk) (name : String) : Walking :=
  w.withTop fun f =>
    if takesHandler f then
      (w.generate (.handle .all)).andThen fun w =>
        .done (w.setTop { f with kind := .handler true, height := 0 }).revive
    else .failed w (.handlerWithoutTry name)

/-- Closes a try without handlers. The label is counted from the scope around the try. -/
def delegate (w : Walk) (depth : UInt32) : Walking :=
  w.withTop fun f =>
    if f.kind ≠ .attempt then .failed w .delegateWithoutTry
    else if w.frames.length - 1 ≤ depth.toNat then
      .failed w (.delegateLabel depth (w.frames.length - 1))
    else (w.generate (.delegate depth)).andThen fun w => .done w.closeFrame

/-- After a call its results are there; after a tail call nothing is reached. -/
def afterCall (w : Walk) (tail : Bool) (results : Nat) : Walk :=
  if tail then w.kill else w.push results

def call (w : Walk) (tail : Bool) (func : UInt32) : Walking :=
  match w.mod.funcType func with
  | none => .failed w (.noFunction func)
  | some sig =>
    (w.pop sig.params.length).andThen fun w =>
      (w.generate (.call func sig)).andThen fun w => .done (w.afterCall tail sig.results.length)

def callIndirect (w : Walk) (tail : Bool) (type table : UInt32) : Walking :=
  match w.mod.typeAt type with
  | none => .failed w (.noType type)
  | some sig =>
    (w.pop (sig.params.length + 1)).andThen fun w =>
      (w.generate (.callIndirect table type sig)).andThen fun w =>
        .done (w.afterCall tail sig.results.length)

def branch (w : Walk) (depth : UInt32) : Walking :=
  w.withTop fun f =>
    (w.checkLabel depth f.height).andThen fun w => w.generate (.branch depth f.height)

def branchTable (w : Walk) (depths : List UInt32) (default : UInt32) : Walking :=
  w.withTop fun f =>
    (w.checkLabels f.height (depths ++ [default])).andThen fun w =>
      w.generate (.branchTable depths default f.height)

def rethrow (w : Walk) (depth : UInt32) : Walking :=
  match (w.frames[depth.toNat]?).map Frame.kind with
  | some (.handler _) => .done w.kill
  | _ => .failed w (.rethrowLabel depth)

def miscOperands (w : Walk) (sub : UInt32) (operands : List UInt32) : Walking :=
  match sub with
  | 8 | 9 | 13 | 15 | 16 | 17 =>
    match operands with
    | a :: _ => w.generate (.value a)
    | [] => .breach .outOfRange
  | 12 | 14 =>
    match operands with
    | a :: b :: _ => w.generate (.pair a b)
    | _ => .breach .outOfRange
  | _ => .done w

def operands (w : Walk) (i : Instr) : Walking :=
  match i.imm with
  | .localIndex l =>
    if w.numLocals ≤ l.toNat then .failed w (.localRange l w.numLocals)
    else w.generate (if i.opcode = 0x22 then .localTee l else .localSlot l)
  | .globalIndex g =>
    if w.gen.globals.length ≤ g.toNat then .failed w (.globalRange g w.gen.globals.length)
    else w.generate (if i.opcode = 0x23 then .globalGet g else .globalSet g)
  | .tableIndex t => w.generate (.value t)
  | .memory offset _ _ => w.generate (.value offset.toUInt32)
  | .i32 v => w.generate (.value v.toUInt32)
  | .i64 v => w.generate (.i64Const v)
  | .funcRef f => w.generate (.value f)
  | .operands list => w.miscOperands i.sub list
  | _ => if i.opcode = 0x1b || i.opcode = 0x1c then w.generate .select else .done w

def plain (w : Walk) (i : Instr) : Walking :=
  match Effect.ofOpcode i.opcode i.sub with
  | none => .failed w (.unsupported i.name)
  | some e =>
    (w.pop e.pops).andThen fun w => (w.operands i).andThen fun w => .done (w.push e.pushes)

def stepLive (w : Walk) (i : Instr) : Walking :=
  match i.action with
  | .leave => .done w.kill
  | .enter o type => w.enter o type
  | .otherwise => w.otherwise
  | .close =>
    w.withTop fun f =>
      if f.height < f.sig.results.length then .failed w (.scopeEnds f.height f.sig.results.length)
      else w.close
  | .branch depth => (w.branch depth).andThen fun w => .done w.kill
  | .branchIf depth => (w.pop 1).andThen fun w => w.branch depth
  | .branchTable depths default =>
    (w.pop 1).andThen fun w => (w.branchTable depths default).andThen fun w => .done w.kill
  | .call tail func => w.call tail func
  | .callIndirect tail type table => w.callIndirect tail type table
  | .throwTag tag =>
    w.withTag tag fun params => (w.pop params.length).andThen fun w => .done w.kill
  | .rethrow depth => w.rethrow depth
  | .catchTag tag => w.catchTag i.name tag
  | .catchAll => w.catchAll i.name
  | .delegate depth => w.delegate depth
  | .plain => w.plain i
  | .unsupported => .failed w (.unsupported i.name)
  | .malformed => .breach .immediate

/-- An instruction that is not reached, `depth` control structures deep in unreachable code. -/
def stepDead (w : Walk) (depth : Nat) (i : Instr) : Walking :=
  match i.action, depth with
  | .enter _ _, depth => .done { w with dead := some (depth + 1) }
  | .close, 0 => w.close
  | .close, depth + 1 => .done { w with dead := some depth }
  | .delegate d, 0 => w.delegate d
  | .delegate _, depth + 1 => .done { w with dead := some depth }
  | .otherwise, 0 => w.otherwise
  | .catchTag tag, 0 => w.catchTag i.name tag
  | .catchAll, 0 => w.catchAll i.name
  | .malformed, _ => .breach .immediate
  | _, _ => .done w

def step (w : Walk) (i : Instr) : Walking :=
  match w.dead with
  | some depth => w.stepDead depth i
  | none => w.stepLive i

end Walk
end Sidetable
