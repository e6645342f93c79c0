import Sidetable.Module

/-!
# Control scopes

One open control structure of a function body, with the target words that wait for it to close.
-/
namespace Sidetable

structure Target where
  /-- bytecode offset, counted from the first instruction -/
  pc : UInt32
  mc : UInt32
  deriving DecidableEq, Repr

inductive ScopeKind where
  | toplevel
  | block
  | loop
  | cond
  /-- a try before its first handler -/
  | attempt
  /-- a try after a handler has started -/
  | handler
  deriving DecidableEq, Repr

def ScopeKind.name : ScopeKind → String
  | toplevel => "toplevel"
  | block => "block"
  | loop => "loop"
  | cond => "if"
  | attempt => "try"
  | handler => "catch"

inductive Handler where
  | none
  | tagged
  | all
  deriving DecidableEq, Repr

structure Scope where
  kind : ScopeKind
  sig : FuncType
  handler : Handler := .none
  /-- branch entries that wait for the scope to close -/
  awaiting : List UInt32 := []
  /-- the target word of the scope header, for a conditional and for the block that its `else`
  makes -/
  pending : Option UInt32 := none
  entry : Option Target := none
  deriving DecidableEq, Repr

namespace Scope

/-- Types of the values that a branch carries: a loop starts again, all else ends. -/
def branchTypes (s : Scope) : List ValType :=
  if s.kind = .loop then s.sig.params else s.sig.results

def branchArity (s : Scope) : Nat :=
  s.branchTypes.length

/-- Changes the kind in place. The pending word is dropped and waiting branches are kept. -/
def convert (s : Scope) (kind : ScopeKind) (handler : Handler) : Scope :=
  { s with kind, handler, pending := Option.none }

def await (s : Scope) (off : UInt32) : Scope :=
  { s with awaiting := s.awaiting ++ [off] }

def waiting (s : Scope) : List UInt32 :=
  s.pending.toList ++ s.awaiting

end Scope
end Sidetable
