import Sidetable.Browser.Key

/-!
# The widgets of the browser

The browser keeps the state of a line of text, which edits the filter, and of a window onto longer
text, which shows a side table. What these make of keys and of text is up to them.
-/
namespace Sidetable

structure TextInput where
  value : List Char := []
  cursor : Nat := 0
  focused : Bool := false
  left : Nat := 0
  /-- characters up to the end of the window -/
  right : Nat := 0
  deriving DecidableEq, Repr

def TextInput.clear (t : TextInput) : TextInput :=
  { t with value := [], cursor := 0, left := 0, right := 0 }

structure Viewport where
  width : Nat := 0
  height : Nat := 0
  offset : Nat := 0
  lines : List String := []
  deriving DecidableEq, Repr

structure Widgets where
  press : TextInput → Key → TextInput
  /-- the line as it is drawn, with a hint in the place of an empty value -/
  line : TextInput → String → String
  setContent : Viewport → String → Viewport
  toTop : Viewport → Viewport
  halfPageUp : Viewport → Viewport
  halfPageDown : Viewport → Viewport
  pane : Viewport → List String

end Sidetable
