import ArrayCall.Dispatcher

/-!
# Configuration

The settings of a library of callables, with their defaults: how dispatch tables and
the registry treat duplicates, whether dispatch promotes arguments, and whether the
registry starts with the builtin callables.
-/

namespace ArrayCall

/-- The settings. -/
structure Config where
  dispatch : DispatchConfig := {}
  builtins : Bool := true
  deriving DecidableEq, Inhabited

/-- How a policy is spelled in a configuration file. -/
def DuplicatePolicy.spelling : DuplicatePolicy → String
  | firstWins => "first-wins"
  | lastWins => "last-wins"
  | reject => "reject"

def DuplicatePolicy.all : List DuplicatePolicy := [firstWins, lastWins, reject]

def DuplicatePolicy.ofSpelling? (s : String) : Option DuplicatePolicy :=
  all.find? (·.spelling == s)

end ArrayCall
