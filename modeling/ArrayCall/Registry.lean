import ArrayCall.Builtins

/-!
# Registries

A registry holds callables by name. Registering a name for the second time is treated
as the configured policy for duplicates says.
-/

namespace ArrayCall

/-- Callables by name. -/
structure Registry where
  config : Config
  callables : NameTable Callable
  deriving Inhabited

namespace Registry

def empty (config : Config) : Registry := ⟨config, .empty⟩

def register (r : Registry) (name : String) (c : Callable) : Except CallError Registry :=
  if r.callables.contains name then
    match r.config.dispatch.policy with
    | .firstWins => .ok r
    | .lastWins => .ok { r with callables := r.callables.insert name c }
    | .reject => .error (.registration name .nameTaken)
  else .ok { r with callables := r.callables.insert name c }

/-- A registry with the builtin callables, if the configuration asks for them. -/
def withBuiltins (config : Config) : Builder Registry := do
  if config.builtins then
    (← Builtins.all config.dispatch).foldlM (fun r e => r.register e.1 e.2) (empty config)
  else return empty config

def get? (r : Registry) (name : String) : Option Callable := r.callables.get? name

/-- The names in use, ascending. -/
def names (r : Registry) : List String := r.callables.names

end Registry

end ArrayCall
