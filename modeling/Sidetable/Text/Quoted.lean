import Sidetable.Hex
import Sidetable.Text.Printable

/-!
# Quoted text

Text between quotes. The quote, backslashes and characters that cannot be printed are escaped.
-/
namespace Sidetable
namespace Quoted

/-- The letter of a control character that has an escape of its own. -/
def letter? (c : Char) : Option Char :=
  match c.toNat with
  | 7 => some 'a'
  | 8 => some 'b'
  | 9 => some 't'
  | 10 => some 'n'
  | 11 => some 'v'
  | 12 => some 'f'
  | 13 => some 'r'
  | _ => none

/-- A character between two `quote`s, where `plain` characters stand for themselves. -/
def escapeWith (quote : Char) (plain : Char → Bool) (c : Char) : String :=
  let n := c.toNat
  if c = quote || c = '\\' then "\\" ++ c.toString
  else if plain c then c.toString
  else match letter? c with
    | some l => "\\" ++ l.toString
    | none =>
      if n < 0x80 then "\\x" ++ Hex.padded 2 n
      else if n < 0x10000 then "\\u" ++ Hex.padded 4 n
      else "\\U" ++ Hex.padded 8 n

def escape (c : Char) : String :=
  escapeWith '"' isPrintable c

def isPlain (c : Char) : Bool :=
  c.toNat < 0x80 && isPrintable c

/-- The text can stand between two backquotes as it is: it has no backquote, no control character
but tabs, and no mark for the order of bytes. -/
def isRaw (s : String) : Bool :=
  s.all fun c =>
    (0x20 ≤ c.toNat || c = '\t') && c.toNat ≠ 0x60 && c.toNat ≠ 0x7f && c.toNat ≠ 0xfeff

end Quoted

def quoted (s : String) : String :=
  "\"" ++ String.join (s.toList.map Quoted.escape) ++ "\""

def plainQuoted (s : String) : String :=
  "\"" ++ String.join (s.toList.map (Quoted.escapeWith '"' Quoted.isPlain)) ++ "\""

end Sidetable
