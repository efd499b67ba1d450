import ArrayCall.Callable.Instantiate
import ArrayCall.Execution

/-!
# Calling

A call resolves the type of the result, takes the destination that the caller passed or
allocates one, instantiates the kernels and runs them over the buffers of the
arguments. The arguments themselves are never written.
-/

namespace ArrayCall.Callable

/-- What a call fails with if overloads lead back to a callable that is being
instantiated. -/
def cyclicOverloads (c : Callable) : CallError :=
  .instantiation c.name (.execution none .endless)

/-- The array that a call writes into: the one that the caller passed, or zeros. -/
def destination (kwds : Keywords) (ret : Ty) : Except CallError NdArray :=
  match kwds.get? Keywords.dstName with
  | some (.array a) => .ok a
  | _ => NdArray.zeros ret

/-- The memory of a call: the buffers of the arguments, to be read only, and behind them
the buffer of the destination. -/
def callMemory (dst : NdArray) (args : List NdArray) : Memory :=
  ⟨args.map (fun a => ⟨.shared, a.data⟩) ++ [⟨.exclusive, dst.data⟩], []⟩

/-- The addresses of the first elements of the arguments. -/
def sourceAddrs (args : List NdArray) : List Addr :=
  args.zipIdx.map fun (a, i) => ⟨i, a.offset⟩

/-- Runs a graph over the buffers of a call, and gives the destination with its new
contents. -/
def execute (g : CallGraph) (root : Nat) (dst : NdArray) (args : List NdArray) :
    Except CallError NdArray :=
  let run := g.single root ⟨args.length, dst.offset⟩ (sourceAddrs args)
  match run (callMemory dst args) with
  | (.error e, _) => .error e
  | (.ok (), m) => .ok { dst with data := (m.regions[args.length]?.map Region.bytes).getD dst.data }

def call (os : Overloads) (c : Callable) (args : List NdArray) (kwds : Keywords) :
    Except CallError NdArray := do
  let ret ← c.resolve none (args.map (·.ty)) kwds
  let dst ← destination kwds ret
  let kwds := kwds.erase Keywords.dstName
  match instantiate os c dst.layout (args.map (·.layout)) kwds .empty with
  | none => throw c.cyclicOverloads
  | some (.error e, _) => throw e
  | some (.ok root, g) => execute g root dst args

end ArrayCall.Callable
