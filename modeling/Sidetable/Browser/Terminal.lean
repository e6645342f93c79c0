import Sidetable.Browser.TextInput
import Sidetable.Browser.Viewport

/-!
# The widgets of a terminal
-/
namespace Sidetable

def Widgets.terminal : Widgets where
  press := TextInput.press
  line := TextInput.render
  setContent := Viewport.setContent
  toTop := Viewport.toTop
  halfPageUp := Viewport.halfPageUp
  halfPageDown := Viewport.halfPageDown
  pane := Viewport.render

end Sidetable
