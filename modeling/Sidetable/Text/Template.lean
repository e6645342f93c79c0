import Sidetable.Text.Placed

/-!
# Message templates

A template is text with places for values. A place is a percent sign, signs that set its style, an
index, a width, a precision and a letter, all but the letter optional: `%d` takes the next number,
`%s` the next text, `%v` the next value whatever it is, `%[2]x` the second value, `%*d` a width and
then a number. Two percent signs are one. Filling never fails. A place or a value that does not fit
is shown in the text.
-/
namespace Sidetable
namespace Template

/-- The largest width that a value may give; in the template itself it also bounds all digits of a
number but the last. -/
def widest : Nat := 1000000

/-- The number that begins with `n` and the digits at the head, and the text after it. A number that
is far too large takes all of the text with it. -/
def numeral (n : Option Nat) : List Char → Option Nat × List Char
  | [] => (n, [])
  | c :: cs =>
    if !c.isDigit then (n, c :: cs)
    else if n.getD 0 > widest then (none, [])
    else numeral (some (n.getD 0 * 10 + (c.toNat - '0'.toNat))) cs

structure Filling where
  args : List Arg
  rest : List Char
  next : Nat := 0
  /-- some place has named its value by an index -/
  reordered : Bool := false
  /-- the index just read holds for what comes next -/
  indexed : Bool := false
  /-- the indexes of this place are good -/
  sound : Bool := true
  deriving DecidableEq, Repr

namespace Filling

/-- The number in brackets at the head of `cs`, unless it is not one, and the text after the
brackets. Without a closing bracket, or at the very end, only the opening one is read. -/
def bracketed (cs : List Char) : Option Nat × List Char :=
  let inside := cs.takeWhile (· ≠ ']')
  match cs.dropWhile (· ≠ ']') with
  | [] => (none, cs)
  | _ :: after =>
    if inside.isEmpty && after.isEmpty then (none, cs)
    else match numeral none inside with
      | (n, []) => (n, after)
      | _ => (none, after)

def index (f : Filling) : Filling :=
  match f.rest with
  | '[' :: cs =>
    let (n, rest) := bracketed cs
    match n with
    | some (k + 1) =>
      if k < f.args.length then { f with rest, next := k, reordered := true, indexed := true }
      else { f with rest, reordered := true, indexed := true, sound := false }
    | some 0 => { f with rest, reordered := true, indexed := true, sound := false }
    | none => { f with rest, reordered := true, indexed := false, sound := false }
  | _ => { f with indexed := false }

def measure (f : Filling) : Option Int × Filling :=
  let after := { f with next := f.next + 1, indexed := false }
  match f.args[f.next]? with
  | some (.number n) => (if n.natAbs ≤ widest then some n else none, after)
  | some (.text _) => (none, after)
  | none => (none, { f with indexed := false })

def signs (s : Style) : List Char → Style × List Char
  | '#' :: cs => signs { s with sharp := true } cs
  | '0' :: cs => signs { s with zero := true } cs
  | '+' :: cs => signs { s with plus := true } cs
  | '-' :: cs => signs { s with minus := true } cs
  | ' ' :: cs => signs { s with space := true } cs
  | cs => (s, cs)

/-- Reads the width. Below zero it fills on the right. The text reports a value that is no width. -/
def width (f : Filling) (s : Style) : Style × String × Filling :=
  match f.rest with
  | '*' :: rest =>
    match { f with rest }.measure with
    | (some n, f) =>
      if n < 0 then ({ s with width := some n.natAbs, minus := true, zero := false }, "", f)
      else ({ s with width := some n.natAbs }, "", f)
    | (none, f) => (s, "%!(BADWIDTH)", f)
  | _ =>
    let (width, rest) := numeral none f.rest
    ({ s with width }, "", { f with rest, sound := f.sound && !(f.indexed && width.isSome) })

/-- Reads the precision after a point. A point that ends the text is the letter of its place. The
text reports a value that is no precision. -/
def precision (f : Filling) (s : Style) : Style × String × Filling :=
  match f.rest with
  | '.' :: c :: cs =>
    let f := { f with rest := c :: cs, sound := f.sound && !f.indexed }.index
    match f.rest with
    | '*' :: rest =>
      match { f with rest }.measure with
      | (some n, f) =>
        if n < 0 then (s, "%!(BADPREC)", f) else ({ s with precision := some n.natAbs }, "", f)
      | (none, f) => (s, "%!(BADPREC)", f)
    | _ =>
      let (n, rest) := numeral none f.rest
      ({ s with precision := some (n.getD 0) }, "", { f with rest })
  | _ => (s, "", f)

/-- The letters for any value turn the sharp sign into the form of a program, and drop the plus
sign. -/
def styleFor (verb : Char) (s : Style) : Style :=
  if verb = 'v' || verb = 'w' then { s with literal := s.sharp, sharp := false, plus := false }
  else s

def letter (f : Filling) (s : Style) (verb : Char) : String × Filling :=
  if verb = '%' then ("%", f)
  else if !f.sound then ("%!" ++ verb.toString ++ "(BADINDEX)", f)
  else match f.args[f.next]? with
    | none => ("%!" ++ verb.toString ++ "(MISSING)", f)
    | some a => (a.placed (styleFor verb s) verb, { f with next := f.next + 1 })

def place (f : Filling) : String × Filling :=
  let (s, rest) := signs {} f.rest
  let (s, width, f) := { f with rest, sound := true }.index.width s
  let (s, precision, f) := f.precision s
  let f := if f.indexed then f else f.index
  match f.rest with
  | [] => (width ++ precision ++ "%!(NOVERB)", f)
  | verb :: rest =>
    let (text, f) := { f with rest }.letter s verb
    (width ++ precision ++ text, f)

def extra (f : Filling) : String :=
  let left := f.args.drop f.next
  if f.reordered || left.isEmpty then ""
  else "%!(EXTRA " ++ ", ".intercalate (left.map fun a => a.type ++ "=" ++ a.shown {}) ++ ")"

/-- Fills all places. Every step takes a character, so `fuel` is the length of the text. -/
def run : Nat → Filling → String
  | 0, f => f.extra
  | fuel + 1, f =>
    match f.rest with
    | [] => f.extra
    | '%' :: rest =>
      let (text, f) := { f with rest }.place
      text ++ run fuel f
    | c :: rest => c.toString ++ run fuel { f with rest }

end Filling

def apply (template : String) (args : List Arg) : String :=
  if args.isEmpty then template else Filling.run template.length { args, rest := template.toList }

example : apply "n=%d s=%s" [.number (-5), .text "é"] = "n=-5 s=é" := by decide +kernel
example : apply "100% %d" [] = "100% %d" := by decide +kernel
example : apply "%05d|%-3s|%#x" [.number (-5), .text "é", .number 255] = "-0005|é  |0xff" := by
  decide +kernel
example : apply "%d%." [.number 12] = "12%!.(MISSING)" := by decide +kernel
example : apply "%[2]*[1]d %d" [.number 7, .number 3] = "  7 3" := by decide +kernel

end Template
end Sidetable
