import ArrayCall.Kernel
import ArrayCall.Keywords
import ArrayCall.Text.Quoted

/-!
# Callables

A callable is a leaf kernel, a dispatch table of callables, or an adapter around
another callable. It has a name and a signature; those of an adapter follow from what
it adapts.

Overloads are registered for a callable after it was built, so callables that look
alike must be told apart: each carries a `stamp`, and two values of one stamp are the
same callable.
-/

namespace ArrayCall

/-- The kernel of a leaf. -/
inductive LeafKernel where
  | fixed (k : Kernel)
  /-- Picked by the kind of the first argument, or of the result if there is none. -/
  | perKind (f : KernelFamily)
  deriving DecidableEq, Inhabited

/-- How the data of a leaf's node is found, for the leaves of the library itself. -/
inductive DataInit where
  /-- The number given by the keyword `factor`. -/
  | factor
  /-- The kinds of the source and of the destination. -/
  | cast
  deriving DecidableEq, Inhabited

/-- A kernel on elements. -/
structure Leaf where
  kernel : LeafKernel
  dataInit : Option DataInit := none
  deriving DecidableEq, Inhabited

def Leaf.render (l : Leaf) : String :=
  let kernel :=
    match l.kernel with
    | .fixed k => k.name
    | .perKind _ => "<per-kind>"
  "Leaf \x7b kernel: " ++ Text.quote kernel ++ ", data_init: " ++
    (if l.dataInit.isSome then "true" else "false") ++ " \x7d"

/-- Something that can be called with arrays. -/
inductive Callable where
  /-- A kernel on elements. -/
  | leaf (stamp : Nat) (name : String) (sig : Signature) (kernel : Leaf)
  /-- Picks one of several callables by the categories of the arguments. -/
  | dispatch (stamp : Nat) (name : String) (sig : Signature) (table : Dispatcher Callable)
  /-- Reorders arguments: child slot `k` reads source `slots[k]`, or the destination if
  that is negative. -/
  | permute (stamp : Nat) (child : Callable) (slots : List Int)
  /-- Applies a child over outer dimensions, of any number or as `types` say. -/
  | lift (stamp : Nat) (child : Callable) (types : Option (List Ty))
  /-- Folds over every element of its argument, from an identity if there is one. -/
  | reduce (stamp : Nat) (fold : Callable) (identity : Option Scalar)
  deriving Inhabited

namespace Callable

def stamp : Callable → Nat
  | leaf stamp .. => stamp
  | dispatch stamp .. => stamp
  | permute stamp .. => stamp
  | lift stamp .. => stamp
  | reduce stamp .. => stamp

def name : Callable → String
  | leaf _ name .. => name
  | dispatch _ name .. => name
  | permute _ child _ => "permute(" ++ child.name ++ ")"
  | lift _ child none => "elwise(" ++ child.name ++ ")"
  | lift _ child (some _) => "lift(" ++ child.name ++ ")"
  | reduce _ (permute _ child _) _ => "reduce(" ++ child.name ++ ")"
  | reduce _ fold _ => "reduce(" ++ fold.name ++ ")"

/-- The parameters that remain of `params` when each slot reads what `slots` say:
source `j` has the type of the slot that reads it. -/
def permutedParams (slots : List Int) (params : List Ty) : List Ty :=
  (List.range (slots.countP (0 ≤ ·))).map fun (j : Nat) =>
    (((slots.zip params).find? (·.1 == (j : Int))).map (·.2)).getD .any

def signature : Callable → Signature
  | leaf _ _ sig _ => sig
  | dispatch _ _ sig _ => sig
  | permute _ child slots =>
    { child.signature with params := permutedParams slots child.signature.params }
  | lift _ child types =>
    let sig := child.signature
    { sig with
      params := types.getD (sig.params.map (.ellipsis none))
      ret := .ellipsis none sig.ret }
  | reduce _ fold _ =>
    let sig := fold.signature
    { sig with params := [.ellipsis none (sig.params.headD .any)] }

def arity (c : Callable) : Nat := c.signature.arity

def render (c : Callable) : String := c.name ++ " : " ++ c.signature.render

/-- How a callable is described: its name and its declared type, quoted. -/
def describe (c : Callable) : String :=
  "Callable \x7b name: " ++ Text.quote c.name ++ ", signature: " ++
    Text.quote c.signature.render ++ ", .. \x7d"

def mismatch (c : Callable) (position : ArgPosition) (fault : TypeFault) : CallError :=
  .typeMismatch c.name position fault

/-- Refuses a wrong number of positional arguments, pointing to the first that is
missing or surplus. -/
def checkArity (c : Callable) (n : Nat) : Except CallError Unit :=
  if n = c.arity then .ok ()
  else .error (.arity c.name (.source (min n c.arity)) (.positional c.arity n))

/-- A callable in a dispatch table is smaller than the table. -/
theorem sizeOf_entry_lt {table : Dispatcher Callable} {key : DispatchKey} {target : Callable}
    (h : (key, target) ∈ table.entries) : sizeOf target < sizeOf table := by
  obtain ⟨index, values, config⟩ := table
  have := List.sizeOf_lt_of_mem (List.of_mem_zip h).2
  simp only [Dispatcher.mk.sizeOf_spec] at *
  omega

/-- A callable that a dispatch table selects is smaller than the table. -/
theorem sizeOf_dispatch_lt {table : Dispatcher Callable} {key : DispatchKey} {target : Callable}
    (h : table.dispatch key = .ok target) : sizeOf target < sizeOf table :=
  let ⟨_, mem⟩ := Dispatcher.exists_mem_of_dispatch h
  sizeOf_entry_lt mem

/-- Induction over callables; of a table one has the claim for every entry. -/
@[elab_as_elim, induction_eliminator]
theorem induction {motive : Callable → Prop}
    (leaf : ∀ stamp name sig kernel, motive (leaf stamp name sig kernel))
    (dispatch : ∀ stamp name sig table, (∀ e ∈ table.entries, motive e.2) →
      motive (dispatch stamp name sig table))
    (permute : ∀ stamp child slots, motive child → motive (permute stamp child slots))
    (lift : ∀ stamp child types, motive child → motive (lift stamp child types))
    (reduce : ∀ stamp fold identity, motive fold → motive (reduce stamp fold identity))
    (c : Callable) : motive c :=
  match c with
  | .leaf stamp name sig kernel => leaf stamp name sig kernel
  | .dispatch stamp name sig table =>
    dispatch stamp name sig table fun e mem =>
      have := sizeOf_entry_lt mem
      induction leaf dispatch permute lift reduce e.2
  | .permute stamp child slots =>
    permute stamp child slots (induction leaf dispatch permute lift reduce child)
  | .lift stamp child types =>
    lift stamp child types (induction leaf dispatch permute lift reduce child)
  | .reduce stamp fold identity =>
    reduce stamp fold identity (induction leaf dispatch permute lift reduce fold)
  termination_by c

end Callable

end ArrayCall
