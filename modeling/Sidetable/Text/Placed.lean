import Sidetable.Text.Quoted

/-!
# Values in the places of a template

A place has a letter that says how its value is written, and a style: signs, filling, width,
precision.
-/
namespace Sidetable
namespace Template

inductive Arg where
  | number (n : Int)
  | text (s : String)
  deriving DecidableEq, Repr

structure Style where
  /-- the other form: a mark for the base, backquotes -/
  sharp : Bool := false
  /-- a sign before every number, escapes in quoted text -/
  plus : Bool := false
  minus : Bool := false
  /-- a blank for the sign, blanks between bytes -/
  space : Bool := false
  zero : Bool := false
  /-- as the value would stand in a program -/
  literal : Bool := false
  width : Option Nat := none
  precision : Option Nat := none
  deriving DecidableEq, Repr

namespace Style

def filling (s : Style) (n : Nat) : String :=
  String.ofList (List.replicate n (if s.zero && !s.minus then '0' else ' '))

def padTo (s : Style) (length : Nat) (text : String) : String :=
  let filling := s.filling (s.width.getD 0 - length)
  if s.minus then text ++ filling else filling ++ text

def pad (s : Style) (text : String) : String :=
  s.padTo text.length text

def cut (s : Style) (text : String) : String :=
  match s.precision with
  | some n => String.ofList (text.toList.take n)
  | none => text

def quote (s : Style) (text : String) : String :=
  let text := s.cut text
  s.pad <|
    if s.sharp && Quoted.isRaw text then "\x60" ++ text ++ "\x60"
    else if s.plus then plainQuoted text
    else quoted text

/-- The bytes of text in hexadecimal. The precision bounds their number. -/
def bytes (s : Style) (capital : Bool) (text : String) : String :=
  let all := text.toUTF8.toList
  let kept := all.take (s.precision.getD all.length)
  let mark := if s.sharp then "0x" else ""
  let written :=
    if kept.isEmpty then ""
    else if s.space then " ".intercalate (kept.map fun b => mark ++ Hex.padded 2 b.toNat)
    else mark ++ Hex.ofBytes kept
  s.pad (if capital then written.toUpper else written)

def positive (s : Style) : String :=
  if s.plus then "+" else if s.space then " " else ""

/-- The least number of digits: the precision, or the width where zeros fill it. -/
def leastDigits (s : Style) (n : Int) : Nat :=
  match s.precision with
  | some p => p
  | none =>
    if s.zero && !s.minus then s.width.getD 0 - (if n < 0 || s.plus || s.space then 1 else 0) else 0

/-- A number in a base, with `lead` before its digits. Zero with precision zero is blank. -/
def integer (s : Style) (base : Nat) (n : Int) (lead : String := "") : String :=
  let s' := { s with zero := false }
  if s.precision = some 0 && n = 0 then s'.pad ""
  else
    let digits := (Nat.toDigits base n.natAbs).leftpad (s.leastDigits n) '0'
    let mark :=
      if !s.sharp then ""
      else if base = 2 then "0b"
      else if base = 8 then if digits.head? = some '0' then "" else "0"
      else if base = 16 then "0x"
      else ""
    s'.pad ((if n < 0 then "-" else s.positive) ++ lead ++ mark ++ String.ofList digits)

def charOf (n : Int) : Char :=
  if 0 ≤ n && n.toNat.isValidChar then Char.ofNat n.toNat else Char.ofNat 0xfffd

def quoteChar (s : Style) (n : Int) : String :=
  let plain := if s.plus then Quoted.isPlain else isPrintable
  s.pad ("\x27" ++ Quoted.escapeWith (Char.ofNat 0x27) plain (charOf n) ++ "\x27")

/-- A code point as `U+` and at least four digits. Numbers below zero count from two to the 64th. -/
def codePoint (s : Style) (n : Int) : String :=
  let u := (n % 0x10000000000000000).toNat
  let digits := (Nat.toDigits 16 u).leftpad (max 4 (s.precision.getD 0)) '0'
  let shown :=
    if s.sharp && u.isValidChar && isPrintable (Char.ofNat u) then
      " \x27" ++ (Char.ofNat u).toString ++ "\x27"
    else ""
  { s with zero := false }.pad ("U+" ++ (String.ofList digits).toUpper ++ shown)

end Style

namespace Arg

def type : Arg → String
  | number _ => "int"
  | text _ => "string"

def shown (s : Style) : Arg → String
  | number n => s.integer 10 n
  | text t => if s.literal then s.quote t else s.pad (s.cut t)

def misplaced (s : Style) (verb : Char) (a : Arg) : String :=
  "%!" ++ verb.toString ++ "(" ++ a.type ++ "=" ++ a.shown s ++ ")"

def placed (s : Style) (verb : Char) (a : Arg) : String :=
  match verb, a with
  | 'v', _ => a.shown s
  | 'T', _ => s.pad (s.cut a.type)
  | 'd', number n => s.integer 10 n
  | 'b', number n => s.integer 2 n
  | 'o', number n => s.integer 8 n
  | 'O', number n => s.integer 8 n "0o"
  | 'x', number n => s.integer 16 n
  | 'X', number n => (s.integer 16 n).toUpper
  | 'c', number n => s.pad (Style.charOf n).toString
  | 'q', number n => s.quoteChar n
  | 'U', number n => s.codePoint n
  | 's', text t => s.pad (s.cut t)
  | 'x', text t => s.bytes false t
  | 'X', text t => s.bytes true t
  | 'q', text t => s.quote t
  | _, _ => a.misplaced s verb

end Arg
end Template
end Sidetable
