import Sidetable.Browser
import Sidetable.Text.Columns

/-!
# Drawing the browser
-/
namespace Sidetable
namespace Browser

def rows (b : Browser) : Nat :=
  max (b.view.height - 2) 1

/-- The first row drawn: the list scrolls as far as the selection needs. -/
def firstRow (b : Browser) : Nat :=
  (b.selected - b.rows + 1).toNat

def drawn (b : Browser) : List (Nat × Nat) :=
  (((List.range b.visible.length).zip b.visible).drop b.firstRow).take b.rows

def label (c : Compilation) (position : Nat) : Except Breach String := do
  let size := match ← itemAt c.functions position with
    | some m => s!" {m.size}B"
    | none => " failed"
  return s!"func[{c.mod.numImportedFuncs + position}]" ++ size

def line (b : Browser) (c : Compilation) (row : Nat × Nat) : Except Breach String := do
  let mark := if (row.1 : Int) = b.selected then "> " else "  "
  return mark ++ (← label c row.2)

def lines (b : Browser) (c : Compilation) : Except Breach (List String) :=
  b.drawn.mapM (b.line c)

def list (w : Widgets) (b : Browser) (c : Compilation) : Except Breach String := do
  let filter :=
    if b.filter.focused || !b.filter.value.isEmpty then w.line b.filter "func index" ++ "\n" else ""
  return filter ++ String.join ((← b.lines c).map (· ++ "\n"))

def framed (width : Nat) (lines : List String) : List String :=
  let rule := String.ofList (List.replicate width '─')
  ("┌" ++ rule ++ "┐") :: lines.map (fun l => "│" ++ filled width l ++ "│") ++ ["└" ++ rule ++ "┘"]

/-- Lines filled with blanks up to the longest. A tab is four blanks. -/
def block (text : String) : String :=
  let lines := ((text.replace "\t" "    ").replace "\r\n" "\n").splitOn "\n"
  let width := (lines.map fun l => columns l.toList).foldl max 0
  "\n".intercalate (lines.map (filled width))

def help : String :=
  "↑/↓ select • pgup/pgdn scroll • / filter • esc clear • q quit"

def render (w : Widgets) (b : Browser) : Except Breach String :=
  match b.result, b.problem with
  | none, some p => .ok (block ("Error: " ++ p.message ++ "\n\nPress q to quit."))
  | none, none => .ok "Compiling module..."
  | some c, problem =>
    if !b.ready then .ok "Initializing..."
    else do
      let list ← b.list w c
      let remark := match problem with
        | some p => "  " ++ p.message
        | none => ""
      let left := framed listWidth ((list.splitOn "\n").rightpad b.view.height "")
      let right := framed b.view.width (w.pane b.view)
      return " IPInt Metadata  " ++ b.file ++ remark ++ "\n" ++
        "\n".intercalate (List.zipWith (· ++ ·) left right) ++ "\n" ++ help

end Browser
end Sidetable
