import Sidetable.Browser.Widgets

/-!
# A window onto longer text
-/
namespace Sidetable

def fitted (width : Nat) (text : String) : String :=
  String.ofList ((text.toList.take width).rightpad width ' ')

namespace Viewport

def maxOffset (v : Viewport) : Nat :=
  v.lines.length - v.height

/-- Shows other text. The window stays where it is unless that is past the last line. -/
def setContent (v : Viewport) (text : String) : Viewport :=
  let v := { v with lines := text.splitOn "\n" }
  if v.offset > v.lines.length - 1 then { v with offset := v.maxOffset } else v

def toTop (v : Viewport) : Viewport :=
  { v with offset := 0 }

def halfPageDown (v : Viewport) : Viewport :=
  if v.maxOffset ≤ v.offset then v
  else { v with offset := min (v.offset + v.height / 2) v.maxOffset }

def halfPageUp (v : Viewport) : Viewport :=
  if v.offset = 0 then v else { v with offset := min (v.offset - v.height / 2) v.maxOffset }

def render (v : Viewport) : List String :=
  let shown := (v.lines.drop v.offset).take v.height
  (shown.rightpad v.height "").map (fitted v.width)

end Viewport
end Sidetable
