/-!
# Integers as written by users

A sign may come first. `0x`, `0o` and `0b` mark hexadecimal, octal and binary digits, and a leading
zero marks octal ones. Underscores may stand between digits and after the mark.
-/
namespace Sidetable
namespace Numeral

inductive Error where
  | malformed
  /-- the number does not fit into 64 bits -/
  | outOfRange
  deriving DecidableEq, Repr

def Error.message : Error → String
  | malformed => "parse error"
  | outOfRange => "value out of range"

structure Body where
  base : Nat
  marked : Bool
  digits : List Char
  deriving DecidableEq, Repr

def Body.ofChars : List Char → Body
  | '0' :: m :: d :: rest =>
    if m = 'x' || m = 'X' then ⟨16, true, d :: rest⟩
    else if m = 'o' || m = 'O' then ⟨8, true, d :: rest⟩
    else if m = 'b' || m = 'B' then ⟨2, true, d :: rest⟩
    else ⟨8, true, m :: d :: rest⟩
  | '0' :: rest => ⟨8, true, rest⟩
  | cs => ⟨10, false, cs⟩

def digit? (base : Nat) (c : Char) : Option Nat :=
  let value :=
    if '0' ≤ c && c ≤ '9' then some (c.toNat - '0'.toNat)
    else if 'a' ≤ c && c ≤ 'f' then some (c.toNat - 'a'.toNat + 10)
    else if 'A' ≤ c && c ≤ 'F' then some (c.toNat - 'A'.toNat + 10)
    else none
  value.filter (· < base)

/-- Reads digits on top of `n`. `after` says that a digit or mark stands before: only then may an
underscore follow, and the text may not end after one. -/
def value? (base : Nat) : Bool → Nat → List Char → Option Nat
  | after, n, [] => if after then some n else none
  | after, n, '_' :: cs => if after then value? base false n cs else none
  | _, n, c :: cs =>
    match digit? base c with
    | some d => value? base true (n * base + d) cs
    | none => none

def parse (text : String) : Except Error Int :=
  let (negative, cs) := match text.toList with
    | '-' :: cs => (true, cs)
    | '+' :: cs => (false, cs)
    | cs => (false, cs)
  let body := Body.ofChars cs
  match value? body.base body.marked 0 body.digits with
  | none => .error .malformed
  | some n =>
    let i : Int := if negative then -(n : Int) else n
    if i < -0x8000000000000000 || 0x8000000000000000 ≤ i then .error .outOfRange else .ok i

end Numeral
end Sidetable
