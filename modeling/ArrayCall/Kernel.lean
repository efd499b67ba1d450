import ArrayCall.Error.Fault
import ArrayCall.Scalar
import ArrayCall.Text.Quoted

/-!
# Kernels

A kernel is what one node of a call graph does: an operation on elements, or the
plumbing between such operations. Next to it a node carries data of its own.

* `BinaryOp.apply` computes on elements of one kind, given as they stand in memory:
  integers wrap to the kind's width, and division by the integer zero fails.
* `ConvertPlan.between` lists the conversions that elements of some kinds need for
  a kernel of other kinds.
-/

namespace ArrayCall

/-- The number that an element of an integer kind is. -/
def Kind.integer (k : Kind) (bytes : Bytes) : Int := (k.decode bytes).toInt?.getD 0

/-- The binary operations. -/
inductive BinaryOp where
  | add
  | subtract
  | multiply
  | divide
  | maximum
  | minimum
  deriving DecidableEq, Inhabited

namespace BinaryOp

def all : List BinaryOp := [add, subtract, multiply, divide, maximum, minimum]

def name : BinaryOp → String
  | add => "add"
  | subtract => "subtract"
  | multiply => "multiply"
  | divide => "divide"
  | maximum => "maximum"
  | minimum => "minimum"

/-- The operation on integers. Division goes toward zero. -/
def onInt (op : BinaryOp) (a b : Int) : Except ExecutionFault Int :=
  match op with
  | add => .ok (a + b)
  | subtract => .ok (a - b)
  | multiply => .ok (a * b)
  | divide => if b = 0 then .error .divisionByZero else .ok (a.tdiv b)
  | maximum => .ok (if b ≤ a then a else b)
  | minimum => .ok (if a ≤ b then a else b)

/-- The operation on doubles. If one operand is NaN, the second is the greater and
the lesser one. -/
def onDouble (op : BinaryOp) (a b : Double) : Double :=
  match op with
  | add => a.combine (· + ·) b
  | subtract => a.combine (· - ·) b
  | multiply => a.combine (· * ·) b
  | divide => a.combine (· / ·) b
  | maximum => if b.toFloat ≤ a.toFloat then a else b
  | minimum => if a.toFloat ≤ b.toFloat then a else b

def onSingle (op : BinaryOp) (a b : Single) : Single :=
  match op with
  | add => a.combine (· + ·) b
  | subtract => a.combine (· - ·) b
  | multiply => a.combine (· * ·) b
  | divide => a.combine (· / ·) b
  | maximum => if b.toFloat32 ≤ a.toFloat32 then a else b
  | minimum => if a.toFloat32 ≤ b.toFloat32 then a else b

def apply (op : BinaryOp) (k : Kind) (a b : Bytes) : Except ExecutionFault Bytes :=
  match k with
  | .float64 => .ok (op.onDouble (.ofBytes a) (.ofBytes b)).toBytes
  | .float32 => .ok (op.onSingle (.ofBytes a) (.ofBytes b)).toBytes
  | k => (op.onInt (k.integer a) (k.integer b)).map fun n => (k.ofInt n).encode k

end BinaryOp

def Kind.negate (k : Kind) (a : Bytes) : Bytes :=
  match k with
  | .float64 => (Double.ofBytes a).negate.toBytes
  | .float32 => (Single.ofBytes a).negate.toBytes
  | k => (k.ofInt (-(k.integer a))).encode k

/-- Where a kernel may run. -/
inductive Targets where
  | host
  | hostDevice
  deriving DecidableEq, Inhabited

def Targets.meet : Targets → Targets → Targets
  | .hostDevice, .hostDevice => .hostDevice
  | _, _ => .host

def Targets.render : Targets → String
  | .host => "Host"
  | .hostDevice => "HostDevice"

/-- What a node does. These are the kernels of the library itself; a kernel that someone
else has written, who may read anything of the graph and the memory, is not one of them. -/
inductive Kernel where
  /-- Applies an operation to two elements of a kind. -/
  | binary (op : BinaryOp) (kind : Kind)
  /-- Negates an element of a kind. -/
  | negative (kind : Kind)
  /-- Multiplies an element of a kind by the number in the node's data. -/
  | scale (kind : Kind)
  /-- Copies an element, converting it as the node's data say. -/
  | assign
  /-- Runs its child for each index of one dimension. -/
  | loop
  /-- Runs its child on reordered sources. -/
  | permute
  /-- Writes the identity of a reduction before it runs its child. -/
  | fold
  /-- Converts sources before its child runs and the destination around it. -/
  | convert
  /-- Does nothing. -/
  | noop
  deriving DecidableEq, Inhabited

namespace Kernel

def name : Kernel → String
  | binary op _ => op.name
  | negative _ => "negative"
  | scale _ => "scale"
  | assign => "assign"
  | loop => "loop"
  | permute => "permute"
  | fold => "fold"
  | convert => "convert"
  | noop => "noop"

/-- Where a kernel may run. Conversion needs scratch space, which is host memory. -/
def targets : Kernel → Targets
  | convert => .host
  | noop => .host
  | _ => .hostDevice

def render (k : Kernel) : String :=
  "KernelFns \x7b name: " ++ Text.quote k.name ++ ", targets: " ++ k.targets.render ++ ", .. \x7d"

end Kernel

/-- A family of kernels, one for each kind with arithmetic: those of the library itself. -/
inductive KernelFamily where
  | binary (op : BinaryOp)
  | negative
  | scale
  deriving DecidableEq, Inhabited

/-- The kernel of a family for a kind; there is none for booleans. -/
def KernelFamily.kernel? (f : KernelFamily) (k : Kind) : Option Kernel :=
  if k = .bool then none
  else
    match f with
    | binary op => some (.binary op k)
    | negative => some (.negative k)
    | scale => some (.scale k)

/-- One level of a loop. -/
structure DimLoop where
  extent : Nat
  dstStride : Int
  /-- Zero for a source that has no such dimension, or one of size one. -/
  srcStride : List Int
  /-- Whether the whole extent is handed to the child at once. -/
  innermost : Bool
  deriving DecidableEq, Inhabited

/-- The conversions around a kernel: for each source and for the destination the kind
that it has and the kind that the kernel takes, where they differ. -/
structure ConvertPlan where
  src : List (Option (Kind × Kind))
  dst : Option (Kind × Kind)
  deriving DecidableEq, Inhabited

namespace ConvertPlan

/-- The conversion from one kind to another, unless they are the same. -/
def step (actual kernel : Kind) : Option (Kind × Kind) :=
  if actual = kernel then none else some (actual, kernel)

/-- The conversions that elements need for a kernel. -/
def between (actualSrc kernelSrc : List Kind) (actualDst kernelDst : Option Kind) :
    ConvertPlan where
  src := List.zipWith step actualSrc kernelSrc
  dst :=
    match actualDst, kernelDst with
    | some a, some k => step a k
    | _, _ => none

def isIdentity (p : ConvertPlan) : Bool := p.dst.isNone && p.src.all Option.isNone

end ConvertPlan

/-- What a node carries next to its kernel. -/
inductive NodeData where
  | none
  /-- Child slot `k` reads source `slots[k]`, or the destination if that is negative. -/
  | permutation (slots : List Int)
  | loop (l : DimLoop)
  /-- The value a reduction starts from, if it has one, and the kind it is kept in. -/
  | fold (identity : Option Scalar) (acc : Kind)
  | convert (plan : ConvertPlan)
  | cast (src dst : Kind)
  | scalar (value : Scalar)
  deriving Inhabited

end ArrayCall
