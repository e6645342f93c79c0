import Sidetable.Layout
import Sidetable.Text.Quoted

/-!
# Conventions by name
-/
namespace Sidetable

structure UnknownArchitecture where
  name : String
  deriving DecidableEq, Repr

def UnknownArchitecture.message (u : UnknownArchitecture) : String :=
  "unknown architecture " ++ quoted u.name

/-- The convention of an architecture. No name stands for that of the machine. -/
def Convention.named (machine arch : String) : Except UnknownArchitecture Convention :=
  match arch with
  | "host" => .ok (host machine)
  | "" => .ok (host machine)
  | "amd64" => .ok amd64
  | "arm64" => .ok arm64
  | name => .error ⟨name⟩

end Sidetable
