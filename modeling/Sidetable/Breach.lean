import Sidetable.Scope

/-!
# Broken contracts

A breach is a mistake of the caller and not a problem of the input: there is no result to go on
with.
-/
namespace Sidetable

inductive Breach where
  /-- a list or byte string was indexed outside its range -/
  | outOfRange
  /-- an immediate does not suit its opcode -/
  | immediate
  | access (width : Nat) (pos : Int64) (size : Nat)
  | labelDepth (depth : UInt32) (scopes : Nat)
  | branchOperands (height : Int) (kind : ScopeKind) (arity : Nat)
  | elseIn (kind : ScopeKind)
  | catchIn (kind : ScopeKind)
  | delegateIn (kind : ScopeKind)
  | globalIndex (index : UInt32) (count : Nat)
  deriving DecidableEq, Repr

/-- What the caller is told; an index out of range has no text of its own. -/
def Breach.message? : Breach → Option String
  | outOfRange => none
  | immediate => none
  | access width pos size =>
    some s!"ipint: access of {width} bytes at {pos} beyond metadata length {size}"
  | labelDepth depth scopes => some s!"ipint: label depth {depth} with {scopes} open scopes"
  | branchOperands height kind arity =>
    some (s!"ipint: branch with {height} operands to " ++ kind.name ++ s!" expecting {arity}")
  | elseIn kind => some ("ipint: else in " ++ kind.name ++ " scope")
  | catchIn kind => some ("ipint: catch in " ++ kind.name ++ " scope")
  | delegateIn kind => some ("ipint: delegate in " ++ kind.name ++ " scope")
  | globalIndex index count => some s!"ipint: global {index} with {count} globals"

/-- How a step ends: with a new state, with an error and the state it was met in, or with a
breach. -/
inductive Outcome (σ ε : Type) where
  | done (s : σ)
  | failed (s : σ) (e : ε)
  | breach (b : Breach)

namespace Outcome

def andThen {σ ε : Type} (o : Outcome σ ε) (next : σ → Outcome σ ε) : Outcome σ ε :=
  match o with
  | done s => next s
  | failed s e => failed s e
  | breach b => breach b

def map {σ τ ε δ : Type} (state : σ → τ) (error : ε → δ) : Outcome σ ε → Outcome τ δ
  | done s => done (state s)
  | failed s e => failed (state s) (error e)
  | breach b => breach b

end Outcome
end Sidetable
