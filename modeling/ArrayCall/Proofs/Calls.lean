import ArrayCall.Callable.Call
import ArrayCall.Proofs.Resolution.Steps
import ArrayCall.Proofs.Types

/-!
# Calls without keywords

A call without keywords resolves by the types of its arguments alone (`Callable.resolve_eq_resolveTypes`)
and runs into zeros of the type that it resolves to (`Callable.call_eq_execute`).
-/

namespace ArrayCall.Callable

variable {os : Overloads} {c : Callable} {args : List NdArray} {ret : Ty} {dst : NdArray} {root : Nat} {g : CallGraph}
  {m : Memory}

/-- Without keywords and for concrete arguments, resolution is that of the types alone. -/
theorem resolve_eq_resolveTypes {types : List Ty} (concrete : ∀ t ∈ types, t.OfScalars) :
    c.resolve none types .empty = c.resolveTypes none types .empty := by
  have symbolic : firstWhere Ty.isSymbolic types = none :=
    firstWhere_eq_none_iff.mpr fun t member => (concrete t member).1
  rw [resolve, symbolic]
  rfl

/-- Without keywords a call writes into zeros. -/
theorem call_without_keywords (os : Overloads) (c : Callable) (args : List NdArray) :
    c.call os args .empty = (do
      let ret ← c.resolve none (args.map (·.ty)) .empty
      let dst ← NdArray.zeros ret
      match c.instantiate os dst.layout (args.map (·.layout)) .empty .empty with
      | none => throw c.cyclicOverloads
      | some (.error e, _) => throw e
      | some (.ok root, g) => execute g root dst args) := rfl

theorem call_eq_execute (resolved : c.resolve none (args.map (·.ty)) .empty = .ok ret)
    (allocated : NdArray.zeros ret = .ok dst)
    (instantiated : c.instantiate os dst.layout (args.map (·.layout)) .empty .empty = some (.ok root, g)) :
    c.call os args .empty = execute g root dst args := by
  rw [call_without_keywords, resolved]
  simp only [allocated, bind, Except.bind, instantiated]

theorem execute_of_ok
    (ran : g.single root ⟨args.length, dst.offset⟩ (sourceAddrs args) (callMemory dst args) = (.ok (), m)) :
    execute g root dst args = .ok { dst with data := (m.regions[args.length]?.map Region.bytes).getD dst.data } := by
  simp only [execute, ran]

theorem execute_of_error {e : CallError}
    (ran : g.single root ⟨args.length, dst.offset⟩ (sourceAddrs args) (callMemory dst args) = (.error e, m)) :
    execute g root dst args = .error e := by
  simp only [execute, ran]

end ArrayCall.Callable
