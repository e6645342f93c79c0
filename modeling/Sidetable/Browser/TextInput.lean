import Sidetable.Browser.Widgets
import Sidetable.Text.Blank
import Sidetable.Text.Columns

/-!
# A line of text being edited

The line shows a window of the value, which moves with the cursor when the value is wider than the
window.
-/
namespace Sidetable

namespace TextInput

def width : Nat := 24

/-- Tabs and line ends become blanks; other control characters and the replacement character are
dropped. -/
def clean (text : String) : List Char :=
  text.toList.filterMap fun c =>
    if c = '\t' || c = '\n' || c = '\r' then some ' '
    else if c.toNat < 0x20 || (0x7f ≤ c.toNat && c.toNat < 0xa0) || c.toNat = 0xfffd then none
    else some c

/-- How many characters fit into the window and the column of the cursor, after `used` columns. -/
def fitting (used : Nat) : List Char → Nat
  | [] => 0
  | c :: cs =>
    let now := used + Columns.ofChar c
    if width < used || width + 1 < now then 0 else fitting now cs + 1

/-- How many characters fit into the window, of those that are not the last. -/
def fittingBack (used : Nat) : List Char → Nat
  | c :: d :: cs =>
    let now := used + Columns.ofChar c
    if width ≤ used || width < now then 0 else fittingBack now (d :: cs) + 1
  | _ => 0

def reveal (t : TextInput) : TextInput :=
  if columns t.value ≤ width then { t with left := 0, right := t.value.length }
  else
    let right := min t.right t.value.length
    if t.cursor < t.left then
      { t with left := t.cursor, right := t.cursor + fitting 0 (t.value.drop t.cursor) }
    else if right ≤ t.cursor then
      { t with left := t.cursor - fittingBack 0 (t.value.take t.cursor).reverse, right := t.cursor }
    else { t with right }

def moveTo (t : TextInput) (n : Nat) : TextInput :=
  { t with cursor := min n t.value.length }.reveal

def insert (t : TextInput) (cs : List Char) : TextInput :=
  { t with
    value := t.value.take t.cursor ++ cs ++ t.value.drop t.cursor
    cursor := t.cursor + cs.length }.reveal

/-- Deletes the characters from `first` up to `last`. The cursor is put at `first`. -/
def delete (t : TextInput) (first last : Nat) : TextInput :=
  { t with value := t.value.take first ++ t.value.drop last, cursor := first }.reveal

def pastWord (cs : List Char) : List Char :=
  (cs.dropWhile isBlank).dropWhile (!isBlank ·)

def wordStart (t : TextInput) : Nat :=
  (pastWord (t.value.take t.cursor).reverse).length

def wordEnd (t : TextInput) (n : Nat) : Nat :=
  t.value.length - (pastWord (t.value.drop n)).length

inductive Edit where
  | insert (cs : List Char)
  | back
  | ahead
  | wordBack
  | wordAhead
  | toStart
  | toEnd
  | erase
  | eraseAhead
  | eraseWord
  | eraseWordAhead
  | eraseBefore
  | eraseAfter
  | keep
  deriving DecidableEq, Repr

/-- What a key does. Text that spells the name of an editing key counts as that key. -/
def Edit.ofKey : Key → Edit
  | .left | .typed "ctrl+b" => back
  | .right | .typed "ctrl+f" => ahead
  | .typed "alt+left" | .typed "ctrl+left" | .typed "alt+b" => wordBack
  | .typed "alt+right" | .typed "ctrl+right" | .typed "alt+f" => wordAhead
  | .typed "home" | .typed "ctrl+a" => toStart
  | .typed "end" | .typed "ctrl+e" => toEnd
  | .backspace | .typed "ctrl+h" => erase
  | .typed "delete" | .typed "ctrl+d" => eraseAhead
  | .typed "alt+backspace" | .typed "ctrl+w" => eraseWord
  | .typed "alt+delete" | .typed "alt+d" => eraseWordAhead
  | .typed "ctrl+u" => eraseBefore
  | .typed "ctrl+k" => eraseAfter
  | .typed "ctrl+v" | .typed "ctrl+n" | .typed "ctrl+p" => keep
  | .typed text => insert (clean text)
  | _ => keep

def edit (t : TextInput) : Edit → TextInput
  | .insert cs => t.insert cs
  | .back => t.moveTo (t.cursor - 1)
  | .ahead => t.moveTo (t.cursor + 1)
  | .wordBack => t.moveTo t.wordStart
  | .wordAhead => t.moveTo (t.wordEnd t.cursor)
  | .toStart => t.moveTo 0
  | .toEnd => t.moveTo t.value.length
  | .erase => t.delete (t.cursor - 1) t.cursor
  | .eraseAhead => t.delete t.cursor (t.cursor + 1)
  | .eraseWord =>
    -- a blank before the word stays, unless it is the first character
    let start := if t.wordStart = 1 then 0 else t.wordStart
    ((t.moveTo (start - 1)).moveTo start).delete start t.cursor
  | .eraseWordAhead =>
    if t.cursor < t.value.length then
      let stop := t.wordEnd (t.cursor + 1)
      (t.moveTo stop).delete t.cursor stop
    else t
  | .eraseBefore => { t with left := 0 }.delete 0 t.cursor
  | .eraseAfter => t.delete t.cursor t.value.length
  | .keep => t

def press (t : TextInput) (k : Key) : TextInput :=
  t.edit (.ofKey k)

/-- The line as shown: a slash, then the window on the value or else `hint`, with blanks up to 25
columns. A cursor after the last character of the window has a column of its own. -/
def render (t : TextInput) (hint : String) : String :=
  if t.value.isEmpty then "/" ++ filled (width + 1) hint
  else
    let shown := String.ofList ((t.value.take t.right).drop t.left)
    if columns shown.toList ≤ width then "/" ++ filled (width + 1) shown
    else if t.cursor < t.right then "/" ++ shown
    else "/" ++ shown ++ " "

end TextInput
end Sidetable
