import ArrayCall.Grammar.Parser
import Mathlib.Data.List.Basic
import Mathlib.Data.List.Nodup

/-!
# Derivations of types and signatures

The grammar of the notation, apart from any reader of it. A derivation is a tree with a production of the
grammar at each node:

* `Type = Int * Type | ... * Type | Var ... * Type | Var * Type | void | Any | kind | Var`, the last of
  them without `Any` (`TypeTree`);
* `Item = Type | Ident : [?] Type` (`ItemTree`);
* `Signature = ( [Item {, Item}] ) -> Type`, no type item behind a keyword item and no keyword named twice
  (`SignatureTree`).

Of each tree there are the tokens that it derives and what these stand for. What they stand for says which
tree it was (`TypeTree.type_injective`, `SignatureTree.signature_injective`).
-/

namespace ArrayCall.Grammar

/-- The names that can stand for types and dimensions. -/
abbrev VariableName := { name : String // isVariableName name }

/-- A derivation by the productions of types. -/
inductive TypeTree where
  /-- `Int * Type` -/
  | sized (size : Nat) (elem : TypeTree)
  /-- `... * Type` -/
  | unnamed (elem : TypeTree)
  /-- `Var ... * Type` -/
  | named (name : VariableName) (elem : TypeTree)
  /-- `Var * Type` -/
  | symbolic (name : VariableName) (elem : TypeTree)
  | void
  | any
  | kind (k : Kind)
  /-- `Var`, which alone is not `Any`. -/
  | typeVar (name : VariableName) (free : name.1 ≠ "Any")

namespace TypeTree

def tokens : TypeTree → List Token
  | sized size elem => .size size :: .star :: elem.tokens
  | unnamed elem => .ellipsis :: .star :: elem.tokens
  | named name elem => .ident name :: .ellipsis :: .star :: elem.tokens
  | symbolic name elem => .ident name :: .star :: elem.tokens
  | void => [.ident "void"]
  | any => [.ident "Any"]
  | kind k => [.ident k.name]
  | typeVar name _ => [.ident name]

/-- The type that a derivation stands for. -/
def type : TypeTree → Ty
  | sized size elem => .fixedDim size elem.type
  | unnamed elem => .ellipsis none elem.type
  | named name elem => .ellipsis (some name) elem.type
  | symbolic name elem => .symbolicDim name elem.type
  | void => .void
  | any => .any
  | kind k => .scalar k
  | typeVar name _ => .typeVar name

/-- Each production makes types of a form of its own. -/
theorem type_injective : Function.Injective type := by
  intro d d' same
  induction d generalizing d' with
  | sized | unnamed | named | symbolic =>
    rename_i inductionHypothesis
    cases d' <;> simp only [type, reduceCtorEq, Ty.fixedDim.injEq, Ty.ellipsis.injEq, Ty.symbolicDim.injEq,
      Option.some.injEq, false_and] at same
    have inner := inductionHypothesis same.2
    simp_all [Subtype.ext_iff]
  | void | any => cases d' <;> first | rfl | cases same
  | kind k =>
    cases d' <;> cases same
    rfl
  | typeVar name free =>
    cases d' <;> simp only [type, reduceCtorEq, Ty.typeVar.injEq] at same
    simpa [Subtype.ext_iff] using same

end TypeTree

/-- A derivation of an item of a parameter list. -/
inductive ItemTree where
  /-- `Type` -/
  | positional (type : TypeTree)
  /-- `Ident : [?] Type` -/
  | keyword (name : String) (optional : Bool) (type : TypeTree)

namespace ItemTree

def tokens : ItemTree → List Token
  | positional type => type.tokens
  | keyword name optional type => .ident name :: .colon :: ((if optional then [.question] else []) ++ type.tokens)

def param? : ItemTree → Option Ty
  | positional type => some type.type
  | keyword .. => none

def kwd? : ItemTree → Option KeywordParam
  | positional _ => none
  | keyword name optional type => some ⟨name, type.type, optional⟩

theorem param?_eq_none_of_kwd? {item : ItemTree} (keyword : item.kwd?.isSome) : item.param? = none := by
  cases item with
  | positional => cases keyword
  | keyword => rfl

end ItemTree

/-- The tokens of items, with commas between them. -/
def separated (items : List ItemTree) : List Token := [Token.comma].intercalate (items.map ItemTree.tokens)

theorem separated_singleton (item : ItemTree) : separated [item] = item.tokens := by
  simp [separated]

theorem separated_cons_cons (item next : ItemTree) (items : List ItemTree) :
    separated (item :: next :: items) = item.tokens ++ .comma :: separated (next :: items) := by
  simp [separated, List.intercalate]

/-- Behind a keyword item there are keyword items only. -/
def KeywordsLast (items : List ItemTree) : Prop := items.Pairwise fun item next => item.kwd?.isSome → next.kwd?.isSome

/-- A derivation of a signature. -/
structure SignatureTree where
  items : List ItemTree
  ordered : KeywordsLast items
  distinct : ((items.filterMap ItemTree.kwd?).map (·.name)).Nodup
  ret : TypeTree

namespace SignatureTree

def tokens (d : SignatureTree) : List Token :=
  .openParen :: (separated d.items ++ .closeParen :: .arrow :: d.ret.tokens)

/-- The signature that a derivation stands for. -/
def signature (d : SignatureTree) : Signature :=
  ⟨d.items.filterMap ItemTree.param?, d.items.filterMap ItemTree.kwd?, d.ret.type⟩

/-- A parameter list in order has no types if it begins with a keyword. -/
theorem params_eq_nil {name : String} {optional : Bool} {type : TypeTree} {rest : List ItemTree}
    (ordered : KeywordsLast (.keyword name optional type :: rest)) :
    (ItemTree.keyword name optional type :: rest).filterMap ItemTree.param? = [] := by
  have keywords := (List.pairwise_cons.mp ordered).1
  rw [List.filterMap_cons_none rfl, List.filterMap_eq_nil_iff]
  exact fun item member => ItemTree.param?_eq_none_of_kwd? (keywords item member rfl)

/-- Of a parameter list in order one knows the items by what they stand for, the types and the keywords
apart from each other. -/
theorem items_eq {items items' : List ItemTree}
    (ordered : KeywordsLast items) (ordered' : KeywordsLast items')
    (params : items.filterMap ItemTree.param? = items'.filterMap ItemTree.param?)
    (kwds : items.filterMap ItemTree.kwd? = items'.filterMap ItemTree.kwd?) : items = items' := by
  induction items generalizing items' with
  | nil =>
    cases items' with
    | nil => rfl
    | cons item rest => cases item <;> simp [ItemTree.param?, ItemTree.kwd?] at params kwds
  | cons item items inductionHypothesis =>
    cases items' with
    | nil => cases item <;> simp [ItemTree.param?, ItemTree.kwd?] at params kwds
    | cons item' items' =>
      have rest := inductionHypothesis (List.pairwise_cons.mp ordered).2 (List.pairwise_cons.mp ordered').2
      cases item with
      | positional type =>
        cases item' with
        | positional type' =>
          simp only [List.filterMap_cons, ItemTree.param?, ItemTree.kwd?, List.cons.injEq] at params kwds
          rw [TypeTree.type_injective params.1, rest params.2 kwds]
        | keyword =>
          rw [params_eq_nil ordered'] at params
          cases params
      | keyword name optional type =>
        cases item' with
        | positional =>
          rw [params_eq_nil ordered] at params
          cases params
        | keyword name' optional' type' =>
          simp only [List.filterMap_cons, ItemTree.param?, ItemTree.kwd?, List.cons.injEq, KeywordParam.mk.injEq]
            at params kwds
          obtain ⟨⟨rfl, types, rfl⟩, kwds⟩ := kwds
          rw [TypeTree.type_injective types, rest params kwds]

theorem signature_injective : Function.Injective signature := by
  rintro ⟨items, ordered, distinct, ret⟩ ⟨items', ordered', distinct', ret'⟩ same
  simp only [signature, Signature.mk.injEq] at same
  obtain ⟨params, kwds, rets⟩ := same
  obtain rfl := items_eq ordered ordered' params kwds
  obtain rfl := TypeTree.type_injective rets
  rfl

end SignatureTree

end ArrayCall.Grammar
