import ArrayCall.Callable.Call
import ArrayCall.Proofs.Instantiation.Outline
import ArrayCall.Proofs.Results

/-!
# The stages of a call

A call resolves the type of its result, finds the destination, and then comes to what the outline of
the callable says: the graph of a call holds just the chain of the callable, whose root is node `0`
(`Callable.call_eq`).
-/

namespace ArrayCall.Callable

variable {os : Overloads} {c : Callable} {kwds : Keywords} {args : List NdArray} {dst r : NdArray}

/-- What is left of a call once its destination is known. -/
def runInto (os : Overloads) (c : Callable) (kwds : Keywords) (args : List NdArray) (dst : NdArray) :
    Except CallError NdArray :=
  match (outline os c dst.layout (args.map (·.layout)) kwds).run with
  | none => .error c.cyclicOverloads
  | some (.error e) => .error e
  | some (.ok chain) => execute (CallGraph.empty.append chain.toList) 0 dst args

theorem call_eq (os : Overloads) (c : Callable) (args : List NdArray) (kwds : Keywords) :
    c.call os args kwds = (do
      let ret ← c.resolve none (args.map (·.ty)) kwds
      let dst ← destination kwds ret
      runInto os c (kwds.erase Keywords.dstName) args dst) := by
  rw [call]
  refine bind_congr fun ret => bind_congr fun dst => ?_
  dsimp only
  rw [instantiate_eq_onto _ _ _ _ _ CallGraph.closed_empty, runInto, Outline.onto]
  generalize (outline os c dst.layout (args.map (·.layout)) (kwds.erase Keywords.dstName)).run = outlined
  rcases outlined with _ | _ | chain
  · rfl
  · rfl
  · rfl

theorem call_eq_ok_iff :
    c.call os args kwds = .ok r ↔ ∃ ret dst, c.resolve none (args.map (·.ty)) kwds = .ok ret ∧
      destination kwds ret = .ok dst ∧ runInto os c (kwds.erase Keywords.dstName) args dst = .ok r := by
  rw [call_eq, bind_eq_ok_iff]
  refine exists_congr fun ret => ?_
  rw [exists_and_left]
  exact and_congr_right fun _ => bind_eq_ok_iff

theorem runInto_eq_ok_iff :
    runInto os c kwds args dst = .ok r ↔ ∃ chain : Chain,
      (outline os c dst.layout (args.map (·.layout)) kwds).run = some (.ok chain) ∧
        execute (CallGraph.empty.append chain.toList) 0 dst args = .ok r := by
  rw [runInto]
  generalize (outline os c dst.layout (args.map (·.layout)) kwds).run = outlined
  rcases outlined with _ | _ | chain <;> simp

end ArrayCall.Callable
