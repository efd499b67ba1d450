import ArrayCall.Callable.Basic

/-!
# Overloads

An overload replaces a callable in calls of just one result type and one list of
argument types. Resolution does not look at overloads; instantiation asks for the one
to use wherever it comes to a callable.
-/

namespace ArrayCall

/-- Calls of `subject` that resolve to exactly `ret` from exactly `args` instantiate
`target` instead. -/
structure Overload where
  /-- The stamp of the callable that is overloaded. -/
  subject : Nat
  ret : Ty
  args : List Ty
  target : Callable
  deriving Inhabited

abbrev Overloads := List Overload

namespace Overloads

/-- The first overload of a callable for just these types. -/
def find? (os : Overloads) (c : Callable) (ret : Ty) (args : List Ty) : Option Callable :=
  (List.find? (fun o => o.subject == c.stamp && o.ret == ret && o.args == args) os).map (·.target)

/-- What is instantiated for a callable: its overload for just these types, else the
callable itself. -/
def specialize (os : Overloads) (c : Callable) (ret : Ty) (args : List Ty) : Callable :=
  (os.find? c ret args).getD c

/-- Registers an overload behind those registered already. It must take as many
arguments as the callable. -/
def register (os : Overloads) (c : Callable) (ret : Ty) (args : List Ty) (target : Callable) :
    Except CallError Overloads :=
  if args.length = c.arity ∧ target.arity = c.arity then
    .ok (os ++ [⟨c.stamp, ret, args, target⟩])
  else
    .error (.registration c.name (.overloadArity target.name args.length c.name c.arity))

end Overloads

end ArrayCall
