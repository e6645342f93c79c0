import Sidetable.Batch
import Sidetable.Browser.Widgets
import Sidetable.Text.Blank

/-!
# Browsing the side tables of a module

A list of functions, which a filter on the function index narrows down, beside the side table of the
selected one. The browser reacts to messages: the size of the window, a module that has been built,
keys.
-/
namespace Sidetable

structure Browser where
  file : String
  problem : Option Problem := none
  result : Option Compilation := none
  /-- positions of the listed functions among those that the module defines -/
  visible : List Nat := []
  filter : TextInput := {}
  view : Viewport := {}
  selected : Int := 0
  /-- the size of the window is known -/
  ready : Bool := false
  deriving DecidableEq, Repr

namespace Browser

def listWidth : Nat := 28

inductive Message where
  | resized (width height : Int64)
  | loaded (problem : Option Problem) (result : Option Compilation)
  | key (k : Key)
  deriving DecidableEq, Repr

def occursIn (part : List Char) : List Char → Bool
  | [] => part.isEmpty
  | c :: cs => part.isPrefixOf (c :: cs) || occursIn part cs

def matching (c : Compilation) (want : List Char) : List Nat :=
  (List.range c.functions.length).filter fun i =>
    want.isEmpty || occursIn want (toString (c.mod.numImportedFuncs + i)).toList

def itemAt {α : Type} (items : List α) (position : Int) : Except Breach α :=
  match items[position.toNat]? with
  | some a => if position < 0 then .error .outOfRange else .ok a
  | none => .error .outOfRange

/-- The side table of the selected function, if it has one. Nothing is looked up in an empty
list. -/
def current (b : Browser) : Except Breach (Option Metadata) :=
  match b.result with
  | none => .ok none
  | some c =>
    if b.visible.isEmpty then .ok none
    else do
      let position ← itemAt b.visible b.selected
      itemAt c.functions position

def showing (w : Widgets) (b : Browser) : Option Metadata → Browser
  | some m => { b with view := w.toTop (w.setContent b.view (m.summary ++ "\n\n" ++ m.dump)) }
  | none => { b with view := w.setContent b.view "not compiled" }

def refresh (w : Widgets) (b : Browser) : Except Breach Browser :=
  if b.ready then b.current.map (b.showing w) else .ok b

/-- Lists the functions that pass the filter. The selection stays in the list. -/
def applyFilter (w : Widgets) (b : Browser) : Except Breach Browser :=
  match b.result with
  | none => .ok { b with visible := [] }
  | some c =>
    let visible := matching c (trimBlank b.filter.value)
    { b with visible, selected := min b.selected (max (visible.length - 1) 0) }.refresh w

def resize (w : Widgets) (b : Browser) (width height : Int64) : Except Breach Browser :=
  let width := (max (width - Int64.ofNat listWidth - 4) 10).toInt.toNat
  let height := (max (height - 6) 3).toInt.toNat
  let view := if b.ready then { b.view with width, height } else { width, height }
  { b with view, ready := true }.refresh w

def clearFilter (w : Widgets) (b : Browser) : Except Breach Browser :=
  { b with filter := b.filter.clear }.applyFilter w

def selectPrevious (w : Widgets) (b : Browser) : Except Breach Browser :=
  if 0 < b.selected then { b with selected := b.selected - 1 }.refresh w else .ok b

def selectNext (w : Widgets) (b : Browser) : Except Breach Browser :=
  if b.selected < b.visible.length - 1 then { b with selected := b.selected + 1 }.refresh w
  else .ok b

/-- A key while the filter is being edited. Other keys than two are up to the text input. -/
def edit (w : Widgets) (b : Browser) : Key → Except Breach Browser
  | .enter => .ok { b with filter := { b.filter with focused := false } }
  | .escape => { b with filter := { b.filter with focused := false } }.clearFilter w
  | k => { b with filter := w.press b.filter k }.applyFilter w

inductive Command where
  | previous
  | next
  | pageUp
  | pageDown
  | filter
  | clear
  | quit
  deriving DecidableEq, Repr

def Command.ofKey : Key → Option Command
  | .interrupt => some .quit
  | .typed "q" => some .quit
  | .up => some .previous
  | .typed "k" => some .previous
  | .down => some .next
  | .typed "j" => some .next
  | .typed "/" => some .filter
  | .escape => some .clear
  | .pageUp => some .pageUp
  | .typed "b" => some .pageUp
  | .pageDown => some .pageDown
  | .typed " " => some .pageDown
  | _ => none

def obey (w : Widgets) (b : Browser) : Command → Except Breach Browser
  | .previous => b.selectPrevious w
  | .next => b.selectNext w
  | .pageUp => .ok { b with view := w.halfPageUp b.view }
  | .pageDown => .ok { b with view := w.halfPageDown b.view }
  | .filter => .ok { b with filter := { b.filter with focused := true } }
  | .clear => b.clearFilter w
  | .quit => .ok b

def update (w : Widgets) (b : Browser) : Message → Except Breach Browser
  | .resized width height => b.resize w width height
  | .loaded problem result => { b with problem, result }.applyFilter w
  | .key k =>
    if b.filter.focused then b.edit w k
    else match Command.ofKey k with
      | some c => b.obey w c
      | none => .ok b

def quits (b : Browser) : Message → Bool
  | .key k => !b.filter.focused && Command.ofKey k = some .quit
  | _ => false

end Browser
end Sidetable
