import ArrayCall.Callable.Basic

/-!
# The type of a slot that nobody gave

A slot that reads the destination has the destination's type. If the caller did not
give one, `Callable.inferParam?` guesses it from the types at the other slots.
-/

namespace ArrayCall.Callable

/-- The bindings that known arguments make, if they fit the parameters. -/
def bindKnown? : Bindings → List Ty → List (Option Ty) → Option Bindings
  | b, p :: params, some t :: known =>
    match b.unify p t with
    | .ok b => bindKnown? b params known
    | .error _ => none
  | b, _ :: params, none :: known => bindKnown? b params known
  | b, _, _ => some b

/-- The type that the parameter at a slot must have, given those that are known. A
leaf binds its variables; a dispatch callable asks the entry that the known arguments
select, and takes that entry's category at the slot if it does not know either. -/
def inferParam? (c : Callable) (known : List (Option Ty)) (slot : Nat) : Option Ty :=
  match c with
  | .leaf _ _ sig _ => do
    let b ← bindKnown? .empty sig.params known
    (b.substitute (← sig.params[slot]?)).toOption
  | .dispatch _ _ _ table =>
    match h : table.candidate? (known.map (·.map Ty.typeId)) with
    | none => none
    | some (key, target) =>
      have := sizeOf_entry_lt (Dispatcher.mem_of_candidate? h)
      match target.inferParam? known slot with
      | some t => some t
      | none => key[slot]?.bind fun id => id.scalarKind?.map .scalar
  | _ => none
  termination_by c

end ArrayCall.Callable
