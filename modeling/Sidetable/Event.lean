import Sidetable.Scope

/-!
# Log events

What the program reports while it works, as a message and named fields.
-/
namespace Sidetable

inductive Event where
  | delegate (func depth : UInt32) (branches : Nat)
  | scopeClosed (func : UInt32) (kind : ScopeKind) (branches : Nat) (target : Target)
  | functionCompiled (func : UInt32) (instructions metadata : Nat) (locals : UInt32)
  | moduleCompiled (functions imported metadata : Nat)
  deriving DecidableEq, Repr

namespace Event

inductive Value where
  | number (n : Nat)
  | text (s : String)
  deriving DecidableEq, Repr

def message : Event → String
  | delegate .. => "delegate"
  | scopeClosed .. => "scope closed"
  | functionCompiled .. => "function compiled"
  | moduleCompiled .. => "module compiled"

def fields : Event → List (String × Value)
  | delegate func depth branches =>
    [("func", .number func.toNat), ("depth", .number depth.toNat), ("branches", .number branches)]
  | scopeClosed func kind branches target =>
    [("func", .number func.toNat), ("kind", .text kind.name), ("branches", .number branches),
      ("pc", .number target.pc.toNat), ("mc", .number target.mc.toNat)]
  | functionCompiled func instructions metadata locals =>
    [("func", .number func.toNat), ("instructions", .number instructions),
      ("metadata", .number metadata), ("locals", .number locals.toNat)]
  | moduleCompiled functions imported metadata =>
    [("functions", .number functions), ("imported", .number imported),
      ("metadata", .number metadata)]

end Event
end Sidetable
