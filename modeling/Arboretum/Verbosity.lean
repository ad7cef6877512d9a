/-!
How much is reported while working.
-/

namespace Arboretum

inductive Verbosity where
  | warning
  | info
  | debug
  deriving DecidableEq, Repr

namespace Verbosity

/-- Level zero and below is for warnings only, level one adds progress, and more adds detail. -/
def ofLevel (level : Int) : Verbosity :=
  if level ≤ 0 then warning else if level = 1 then info else debug

def name : Verbosity → String
  | warning => "Warning"
  | info => "Info"
  | debug => "Debug"

end Verbosity

end Arboretum
