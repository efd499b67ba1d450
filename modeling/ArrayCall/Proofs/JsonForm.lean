import ArrayCall.Ty.JsonForm
import Mathlib.Logic.Function.Basic

/-!
# The JSON form loses nothing

Reading the JSON form of a type or of a signature gives back what was written, whatever its names are, so that no two
of them have the same form (`json_form_reads_back`). A dimension is read by the members of its content, in whatever
order they stand and whatever else stands beside them, and the type behind it by recursion; what was written of a
dimension is one of these contents, and the induction over the type does the rest.
-/

namespace ArrayCall

namespace Json

variable {α : Type} {write : α → Json} {read : Json → Option α} (reads : ∀ a, read (write a) = some a)
include reads

theorem injective_of_reads : Function.Injective write := by
  intro a b same
  have found : some b = some a := by rw [← reads a, same, reads b]
  exact (Option.some.inj found).symm

/-- What is read back one by one is read back as a list. -/
theorem mapM_map_of_reads (list : List α) : (list.map write).mapM read = some list := by
  have same : read ∘ write = fun a => pure a := funext reads
  rw [List.mapM_map, same, List.mapM_pure, List.map_id']
  rfl

end Json

theorem Kind.ofJson?_jsonName (k : Kind) : ofJson? (.str k.jsonName) = some k := by
  cases k with
  | int w => cases w <;> rfl
  | uint w => cases w <;> rfl
  | _ => rfl

/-! ## Types -/

namespace Ty

/-- A dimension is read by the two members of its content. -/
theorem ofJson?_dimension {word part : String} {mayLack : Bool} {dimension : Json → Option (Ty → Ty)}
    {content beside elem : Json} (known : dimension? word = some (part, mayLack, dimension))
    (members : content.fields? (fun name => mayLack && name == part) [part, "elem"] = some [beside, elem]) :
    ofJson? (.obj [(word, content)]) = do return (← dimension beside) (← ofJson? elem) := by
  have other {w : String} (unknown : dimension? w = none) : word ≠ w := by
    rintro rfl
    cases unknown.symm.trans known
  rw [ofJson?]
  · rw [known]
    dsimp only
    split
    next found =>
      cases members.symm.trans found
      rfl
    next different => exact absurd members (different _ _)
  · exact fun void _ => other rfl void
  · exact fun any _ => other rfl any
  · exact other rfl
  · exact other rfl

/-- Members of other names are passed over, and all are found in any order. -/
example : ofJson? (.obj [("Ellipsis", .obj [("size", .int 3), ("elem", .str "Void")])]) =
    some (ellipsis none void) := by
  cbv

theorem ofJson?_toJson (t : Ty) : ofJson? t.toJson = some t := by
  induction t with
  | void => rw [toJson, ofJson?]
  | any => rw [toJson, ofJson?]
  | scalar kind => rw [toJson, ofJson?, Kind.ofJson?_jsonName, Option.map_some]
  | typeVar name => rw [toJson, ofJson?, Json.string?, Option.map_some]
  | fixedDim size elem inductionHypothesis =>
    rw [toJson, ofJson?_dimension rfl rfl, inductionHypothesis]
    simp [Json.size?]
  | symbolicDim name elem inductionHypothesis =>
    rw [toJson, ofJson?_dimension rfl rfl, inductionHypothesis]
    simp [Json.string?]
  | ellipsis name elem inductionHypothesis =>
    rw [toJson, ofJson?_dimension rfl rfl, inductionHypothesis]
    cases name <;> simp [Json.optionalString?]

end Ty

/-! ## Signatures -/

theorem KeywordParam.ofJson?_toJson (k : KeywordParam) : ofJson? k.toJson = some k := by
  have parts : k.toJson.parts? ["name", "ty", "optional"] =
      some [.str k.name, k.ty.toJson, .bool k.optional] := rfl
  simp [ofJson?, parts, Ty.ofJson?_toJson, Json.string?, Json.bool?]

theorem Signature.ofJson?_toJson (s : Signature) : ofJson? s.toJson = some s := by
  have parts : s.toJson.parts? ["params", "kwds", "ret"] = some [.arr (s.params.map Ty.toJson),
      .arr (s.kwds.map KeywordParam.toJson), s.ret.toJson] := rfl
  simp only [ofJson?, parts, Json.mapM_map_of_reads Ty.ofJson?_toJson,
    Json.mapM_map_of_reads KeywordParam.ofJson?_toJson, Ty.ofJson?_toJson, Option.bind_eq_bind, Option.bind_some]
  rfl

/-- The JSON form of a type or of a signature is read back as the type or the signature that it was written of, and
different ones have different forms. -/
theorem json_form_reads_back :
    (∀ t : Ty, Ty.ofJson? t.toJson = some t) ∧ (∀ s : Signature, Signature.ofJson? s.toJson = some s) ∧
      Function.Injective Ty.toJson ∧ Function.Injective Signature.toJson := by
  refine ⟨Ty.ofJson?_toJson, Signature.ofJson?_toJson, ?_, ?_⟩
  · exact Json.injective_of_reads Ty.ofJson?_toJson
  · exact Json.injective_of_reads Signature.ofJson?_toJson

end ArrayCall
