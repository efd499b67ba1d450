import ArrayCall.Json.Basic
import ArrayCall.Signature

/-!
# The JSON form of types and signatures

A type is written as the word of its form, or as an object whose one member has
that word for its name. Reading is more liberal than writing: members of other names
are passed over, the name of an ellipsis may be left out, and a form without content
may be written as an object whose member is null. The parts of a signature and of a
keyword parameter, but not of a type, may also be listed in order.

`Ty.toJson` and `Ty.ofJson?` keep all names apart, reserved and empty ones
included; nothing is checked that the notation for types would refuse.
-/

namespace ArrayCall

namespace Json

theorem sizeOf_lt_of_mem_members {name : String} {value : Json} {members : List (String × Json)}
    (h : (name, value) ∈ members) : sizeOf value < sizeOf (obj members) := by
  have := List.sizeOf_lt_of_mem h
  simp only [obj.sizeOf_spec, Prod.mk.sizeOf_spec] at *
  omega

/-- The members of the given names of an object. One that is missing is null if it
`mayLack`. -/
def fields? (mayLack : String → Bool) (names : List String) (j : Json) : Option (List Json) :=
  match j with
  | obj members =>
    names.mapM fun name =>
      match members.find? (·.1 == name) with
      | some m => some m.2
      | none => if mayLack name then some null else none
  | _ => none

/-- The parts of a record: the members of the given names, or the items of a list of
just as many. -/
def parts? (names : List String) (j : Json) : Option (List Json) :=
  match j with
  | arr items => if items.length = names.length then some items else none
  | j => j.fields? (fun _ => false) names

theorem sizeOf_field_le {mayLack : String → Bool} {names : List String} {j f : Json}
    {fs : List Json} (h : fields? mayLack names j = some fs) (hf : f ∈ fs) :
    f = null ∨ sizeOf f < sizeOf j := by
  unfold fields? at h
  split at h
  next members =>
    induction names generalizing fs with
    | nil =>
      cases h
      simp at hf
    | cons name names ih =>
      simp only [List.mapM_cons, Option.bind_eq_bind, Option.bind_eq_some_iff,
        Option.pure_def, Option.some.injEq] at h
      obtain ⟨v, hv, vs, hvs, rfl⟩ := h
      rcases List.mem_cons.mp hf with rfl | hf
      · split at hv
        next m found =>
          cases hv
          exact .inr (sizeOf_lt_of_mem_members (List.mem_of_find?_eq_some found))
        next =>
          split at hv
          · cases hv
            exact .inl rfl
          · cases hv
      · exact ih hf hvs
  next => cases h

end Json

def Kind.jsonName : Kind → String
  | .uint .w8 => "u_int8"
  | .uint .w16 => "u_int16"
  | .uint .w32 => "u_int32"
  | .uint .w64 => "u_int64"
  | k => k.name

/-- The value that a word, or an object of that word and null, stands for. -/
def Json.wordOf? {α : Type} (all : List α) (word : α → String) : Json → Option α
  | .str s => all.find? (word · == s)
  | .obj [(s, .null)] => all.find? (word · == s)
  | _ => none

def Kind.ofJson? : Json → Option Kind := Json.wordOf? all jsonName

def TypeId.jsonName : TypeId → String
  | void => "void"
  | scalar kind => kind.jsonName
  | fixedDim => "fixed_dim"
  | symbolicDim => "symbolic_dim"
  | ellipsis => "ellipsis"
  | typeVar => "type_var"
  | any => "any"

def TypeId.ofJson? : Json → Option TypeId := Json.wordOf? all jsonName

def Json.optionalString? : Json → Option (Option String)
  | .null => some none
  | .str s => some (some s)
  | _ => none

def Json.string? : Json → Option String
  | .str s => some s
  | _ => none

def Json.size? : Json → Option Nat
  | .int n => if 0 ≤ n then some n.toNat else none
  | _ => none

def Json.bool? : Json → Option Bool
  | .bool b => some b
  | _ => none

namespace Ty

def toJson : Ty → Json
  | void => .str "Void"
  | any => .str "Any"
  | scalar kind => .obj [("Scalar", .str kind.jsonName)]
  | typeVar name => .obj [("TypeVar", .str name)]
  | fixedDim size elem =>
    .obj [("FixedDim", .obj [("elem", elem.toJson), ("size", .int size)])]
  | symbolicDim name elem =>
    .obj [("SymbolicDim", .obj [("elem", elem.toJson), ("name", .str name)])]
  | ellipsis name elem =>
    .obj [("Ellipsis", .obj [("elem", elem.toJson), ("name", name.elim .null .str)])]

/-- What stands beside the element type of a dimension of a word: its name, whether it
may be left out, and what it makes of the element type. -/
def dimension? : (word : String) → Option (String × Bool × (Json → Option (Ty → Ty)))
  | "FixedDim" => some ("size", false, fun size => size.size?.map fixedDim)
  | "SymbolicDim" => some ("name", false, fun name => name.string?.map symbolicDim)
  | "Ellipsis" => some ("name", true, fun name => name.optionalString?.map ellipsis)
  | _ => none

def ofJson? (j : Json) : Option Ty :=
  match j with
  | .str "Void" => some void
  | .str "Any" => some any
  | .obj [("Void", .null)] => some void
  | .obj [("Any", .null)] => some any
  | .obj [("Scalar", v)] => (Kind.ofJson? v).map scalar
  | .obj [("TypeVar", v)] => v.string?.map typeVar
  | .obj [(word, v)] =>
    match dimension? word with
    | none => none
    | some (part, mayLack, dimension) =>
      match h : Json.fields? (fun name => mayLack && name == part) [part, "elem"] v with
      | some [part, elem] => do
        have := Json.sizeOf_field_le h (f := elem) (by simp)
        return (← dimension part) (← ofJson? elem)
      | _ => none
  | _ => none
  termination_by sizeOf j
  decreasing_by
    simp_wf
    rcases this with rfl | smaller
    · simp
    · omega

end Ty

namespace KeywordParam

def toJson (k : KeywordParam) : Json :=
  .obj [("name", .str k.name), ("optional", .bool k.optional), ("ty", k.ty.toJson)]

/-- The keyword parameter that a JSON value denotes. -/
def ofJson? (j : Json) : Option KeywordParam :=
  match j.parts? ["name", "ty", "optional"] with
  | some [name, ty, optional] => do
    return ⟨← name.string?, ← Ty.ofJson? ty, ← optional.bool?⟩
  | _ => none

end KeywordParam

namespace Signature

def toJson (s : Signature) : Json :=
  .obj [("kwds", .arr (s.kwds.map KeywordParam.toJson)),
    ("params", .arr (s.params.map Ty.toJson)), ("ret", s.ret.toJson)]

def ofJson? (j : Json) : Option Signature :=
  match j.parts? ["params", "kwds", "ret"] with
  | some [.arr params, .arr kwds, ret] => do
    return ⟨← params.mapM Ty.ofJson?, ← kwds.mapM KeywordParam.ofJson?, ← Ty.ofJson? ret⟩
  | _ => none

end Signature

end ArrayCall
