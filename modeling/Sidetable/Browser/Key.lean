/-!
# Keys
-/
namespace Sidetable

inductive Key where
  | up
  | down
  | left
  | right
  | pageUp
  | pageDown
  | enter
  | escape
  | backspace
  | interrupt
  /-- characters as they are typed or pasted -/
  | typed (text : String)
  deriving DecidableEq, Repr

namespace Key

def named : String → Key
  | "up" => up
  | "down" => down
  | "left" => left
  | "right" => right
  | "pgup" => pageUp
  | "pgdown" => pageDown
  | "enter" => enter
  | "esc" => escape
  | "backspace" => backspace
  | "ctrl+c" => interrupt
  | text => typed text

end Key
end Sidetable
