import Sidetable.Buffer
import Sidetable.Entry
import Sidetable.Event
import Sidetable.Metadata

/-!
# The side table generator

Builds the side table of one function body in a single forward pass. Its caller places the generator
at each instruction and asks for the operation that the instruction needs, in program order. Targets
that are not known yet are left as words of zeros and written when the scope that they wait for
closes.
-/
namespace Sidetable

/-- The instruction that the generator stands at, in offsets from the start of the body. -/
structure Site where
  start : UInt32 := 0
  stop : UInt32 := 0
  opcode : UInt8 := 0
  deriving DecidableEq, Repr

structure Generator where
  site : Site
  globals : List GlobalInfo
  buffer : Buffer
  scopes : List Scope
  sig : FuncType
  layout : Layout
  registers : Registers
  func : UInt32
  numLocals : UInt32
  bytecodeOffset : UInt32 := 0
  bytecodeLength : UInt32 := 0
  /-- the function scope has been closed -/
  finished : Bool := false
  log : Array Event := #[]
  deriving DecidableEq

structure Config where
  convention : Convention := ⟨0, 0⟩
  /-- caps the side table of one function when it is positive -/
  maxSize : Int64 := 0
  host : String := "amd64"
  deriving DecidableEq, Repr

def Config.registers (cfg : Config) : Registers :=
  cfg.convention.registers cfg.host

abbrev Emission := Outcome Generator AllocationError

namespace Generator

def start (cfg : Config) (globals : List GlobalInfo) (func : UInt32) (sig : FuncType)
    (site : Site) : Generator :=
  { site, globals, func, sig
    buffer := { limit := cfg.maxSize }
    scopes := [{ kind := .toplevel, sig }]
    registers := cfg.registers
    layout := .ofParams sig.params cfg.registers
    numLocals := UInt32.ofNat sig.params.length }

def moveTo (g : Generator) (site : Site) : Generator :=
  { g with site }

def addLocals (g : Generator) (count : UInt32) : Generator :=
  { g with numLocals := g.numLocals + count }

/-- Marks the start of the instructions, from which bytecode offsets are counted. -/
def startCode (g : Generator) : Generator :=
  { g with bytecodeOffset := g.site.stop }

def size (g : Generator) : Nat :=
  g.buffer.size

def pc (g : Generator) : UInt32 :=
  g.site.stop - g.bytecodeOffset

def mc (g : Generator) : UInt32 :=
  UInt32.ofNat g.size

def length (g : Generator) : UInt32 :=
  g.site.stop - g.site.start

def scopeAt (g : Generator) (depth : UInt32) : Except Breach Scope :=
  match g.scopes[depth.toNat]? with
  | some s => .ok s
  | none => .error (.labelDepth depth g.scopes.length)

def push (g : Generator) (s : Scope) : Generator :=
  { g with scopes := s :: g.scopes }

def emit (g : Generator) (entry : List UInt8) : Emission :=
  match g.buffer.append entry with
  | .ok buffer => .done { g with buffer }
  | .error e => .failed g e

def patch (g : Generator) (off : UInt32) (t : Target) : Emission :=
  match g.buffer.putTarget off t with
  | (buffer, none) => .done { g with buffer }
  | (_, some b) => .breach b

/-! ## Control -/

def block (g : Generator) (sig : FuncType) : Emission :=
  (g.push { kind := .block, sig }).emit (Entry.raw g.pc.toNat)

/-- Opens a loop. Branches to it go on after its header and entry, so their target is known. -/
def loop (g : Generator) (sig : FuncType) : Emission :=
  (g.emit (Entry.raw g.pc.toNat)).andThen fun next =>
    .done (next.push { kind := .loop, sig, entry := some { pc := g.pc, mc := next.mc } })

/-- Opens a conditional. The first word is the target of the false edge, the second holds the offset
after the header. -/
def cond (g : Generator) (sig : FuncType) : Emission :=
  (g.emit Entry.placeholder).andThen fun next =>
    (next.push { kind := .cond, sig, pending := some g.mc }).emit (Entry.raw g.pc.toNat)

def endOpcode : UInt8 := 0x0b

def setTop (g : Generator) (s : Scope) : Generator :=
  { g with scopes := s :: g.scopes.tail }

/-- Resolves the false edge of the innermost conditional, which goes on as a block. At an `end` the
`else` is implied: it has no entry, and the false edge leads to where the table stands. Otherwise
the false edge skips the word that is left for the end of the first branch. -/
def otherwise (g : Generator) : Emission :=
  match g.scopes.head? with
  | none => .breach .outOfRange
  | some s =>
    match s.kind, s.pending with
    | .cond, some pending =>
      let converted := s.convert .block .none
      if g.site.opcode = endOpcode then
        (g.patch pending { pc := g.pc, mc := g.mc }).andThen fun g => .done (g.setTop converted)
      else
        (g.patch pending { pc := g.pc, mc := g.mc + 8 }).andThen fun g =>
          ((g.setTop converted).emit Entry.placeholder).andThen fun next =>
            .done (next.setTop { converted with pending := some g.mc })
    | _, _ => .breach (.elseIn s.kind)

/-- Records a branch that leaves `height` operands of the innermost scope behind it. -/
def branch (g : Generator) (depth : UInt32) (height : Int) : Emission :=
  match g.scopeAt depth with
  | .error b => .breach b
  | .ok s =>
    let arity := s.branchArity
    if height < arity then .breach (.branchOperands height s.kind arity)
    else
      (g.emit (Entry.branch (height - arity).toNat arity g.pc)).andThen fun next =>
        .done { next with scopes := next.scopes.modify depth.toNat (·.await g.mc) }

def branches (height : Int) : Generator → List UInt32 → Emission
  | g, [] => .done g
  | g, d :: rest => (g.branch d height).andThen fun g => branches height g rest

/-- Records a branch table: the number of branches and an entry for each, the default last. -/
def branchTable (g : Generator) (depths : List UInt32) (default : UInt32) (height : Int) :
    Emission :=
  (g.emit (Entry.raw (depths.length + 1))).andThen fun g => branches height g (depths ++ [default])

def patchAll (t : Target) : Generator → List UInt32 → Emission
  | g, [] => .done g
  | g, off :: rest => (g.patch off t).andThen fun g => patchAll t g rest

def resolve (g : Generator) (s : Scope) (t : Target) : Emission :=
  (patchAll t g s.waiting).andThen fun g =>
    .done { g with log := g.log.push (.scopeClosed g.func s.kind s.awaiting.length t) }

/-- Closes the innermost scope. Branches to it land on the `end` itself, except those to a loop. The
function scope is followed by a description of the results. -/
def close (g : Generator) : Emission :=
  match g.scopes with
  | [] => .breach .outOfRange
  | s :: rest =>
    let outer := { g with scopes := rest }
    let exit : Target := { pc := g.pc - 1, mc := g.mc }
    match s.kind with
    | .loop => outer.resolve s (s.entry.getD { pc := 0, mc := 0 })
    | .toplevel =>
      (outer.resolve s exit).andThen fun g =>
        ({ g with bytecodeLength := g.site.stop }.emit (Entry.returnData s.branchTypes)).andThen
          fun g => .done { g with finished := true }
    | _ => outer.resolve s exit

def attempt (g : Generator) (sig : FuncType) : Emission :=
  .done (g.push { kind := .attempt, sig })

def handle (g : Generator) (handler : Handler) : Emission :=
  match g.scopes.head? with
  | none => .breach .outOfRange
  | some s =>
    match s.kind with
    | .attempt | .handler => .done (g.setTop (s.convert .handler handler))
    | kind => .breach (.catchIn kind)

/-- Closes the innermost try and hands its exceptions on. Branches to it land after the
instruction. -/
def delegate (g : Generator) (depth : UInt32) : Emission :=
  match g.scopes with
  | [] => .breach .outOfRange
  | s :: rest =>
    if s.kind = .attempt then
      { g with
        scopes := rest,
        log := g.log.push (.delegate g.func depth s.awaiting.length) }.resolve s
          { pc := g.pc, mc := g.mc }
    else .breach (.delegateIn s.kind)

/-! ## Operands -/

def value (g : Generator) (v : UInt32) : Emission :=
  g.emit (Entry.value v g.length)

def pair (g : Generator) (a b : UInt32) : Emission :=
  g.emit (Entry.pair a b g.length)

def localSlot (g : Generator) (index : UInt32) : Emission :=
  g.value (g.layout.slot index)

def localTee (g : Generator) (index : UInt32) : Emission :=
  (g.localSlot index).andThen fun g => g.localSlot index

def globalGet (g : Generator) (index : UInt32) : Emission :=
  match g.globals[index.toNat]? with
  | some info => g.emit (Entry.globalGet index g.length info.binding.code)
  | none => .breach (.globalIndex index g.globals.length)

def globalSet (g : Generator) (index : UInt32) : Emission :=
  match g.globals[index.toNat]? with
  | some info => g.emit (Entry.globalSet index g.length info.binding.code info.type.isRef)
  | none => .breach (.globalIndex index g.globals.length)

def i64Const (g : Generator) (v : Int64) : Emission :=
  g.emit (Entry.wide v.toUInt64 g.length)

def select (g : Generator) : Emission :=
  g.emit (Entry.raw g.length.toNat)

/-! ## Calls -/

def callData (g : Generator) (callee : FuncType) : Emission :=
  let m := Entry.Marshal.ofParams callee.params g.registers
  (g.emit m.region).andThen fun g =>
    (g.emit (m.tail callee.params.length)).andThen fun g =>
      g.emit (Entry.returnData callee.results)

def call (g : Generator) (func : UInt32) (callee : FuncType) : Emission :=
  (g.emit (Entry.call func g.pc)).andThen fun g => g.callData callee

def callIndirect (g : Generator) (table type : UInt32) (callee : FuncType) : Emission :=
  (g.emit (Entry.callIndirect table type g.pc)).andThen fun g => g.callData callee

/-! ## Driving the generator -/

inductive Op where
  | addLocals (count : UInt32)
  | startCode
  | block (sig : FuncType)
  | loop (sig : FuncType)
  | cond (sig : FuncType)
  | attempt (sig : FuncType)
  | otherwise
  | close
  | handle (handler : Handler)
  | delegate (depth : UInt32)
  | branch (depth : UInt32) (height : Int)
  | branchTable (depths : List UInt32) (default : UInt32) (height : Int)
  | call (func : UInt32) (callee : FuncType)
  | callIndirect (table type : UInt32) (callee : FuncType)
  | localSlot (index : UInt32)
  | localTee (index : UInt32)
  | globalGet (index : UInt32)
  | globalSet (index : UInt32)
  | value (v : UInt32)
  | pair (a b : UInt32)
  | i64Const (v : Int64)
  | select
  deriving DecidableEq, Repr

def apply (g : Generator) : Op → Emission
  | .addLocals count => .done (g.addLocals count)
  | .startCode => .done g.startCode
  | .block sig => g.block sig
  | .loop sig => g.loop sig
  | .cond sig => g.cond sig
  | .attempt sig => g.attempt sig
  | .otherwise => g.otherwise
  | .close => g.close
  | .handle handler => g.handle handler
  | .delegate depth => g.delegate depth
  | .branch depth height => g.branch depth height
  | .branchTable depths default height => g.branchTable depths default height
  | .call func callee => g.call func callee
  | .callIndirect table type callee => g.callIndirect table type callee
  | .localSlot index => g.localSlot index
  | .localTee index => g.localTee index
  | .globalGet index => g.globalGet index
  | .globalSet index => g.globalSet index
  | .value v => g.value v
  | .pair a b => g.pair a b
  | .i64Const v => g.i64Const v
  | .select => g.select

structure Unterminated where
  func : UInt32
  scopes : Nat
  deriving DecidableEq, Repr

def Unterminated.diagnostic (u : Unterminated) : Diagnostic :=
  { phase := .compile, kind := .invalidInput, path := [Diagnostic.funcPath u.func],
    detail := s!"function body not terminated: {u.scopes} scopes open" }

def finalize (g : Generator) : Except Unterminated Metadata :=
  if g.finished then
    .ok {
      bytes := g.buffer.bytes
      locations := g.layout.locations
      returns := g.sig.results
      func := g.func
      numLocals := g.numLocals
      numArgs := UInt32.ofNat g.sig.params.length
      numArgsOnStack := UInt32.ofNat g.layout.onStack
      localBase := g.layout.localBase
      bytecodeOffset := g.bytecodeOffset
      bytecodeLength := g.bytecodeLength }
  else .error { func := g.func, scopes := g.scopes.length }

end Generator
end Sidetable
