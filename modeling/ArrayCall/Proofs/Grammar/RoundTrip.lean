import ArrayCall.Proofs.Grammar.Spelling

/-!
# Printing and parsing

Types and signatures survive being printed and parsed again, provided that the notation has words for what is
in them (`Ty.isSpellable`, `Signature.IsSpellable`), and what was parsed is always such.

Types and derivations are two views of one thing here: a spellable type has a derivation
(`Grammar.exists_tree_of_isSpellable`), its text spells the tokens of that (`Grammar.spells_type`), and the
tokens are read as the type.
-/

namespace ArrayCall

/-- Whether the notation has words for all of a type: sizes below the limit, identifiers beginning with an
uppercase letter for dimensions and variables, and a variable that is not called `Any`. -/
def Ty.isSpellable : Ty → Bool
  | .fixedDim size elem => size < Lexeme.sizeLimit && elem.isSpellable
  | .symbolicDim name elem => isIdentifier name && isVariableName name && elem.isSpellable
  | .ellipsis (some name) elem => isIdentifier name && isVariableName name && elem.isSpellable
  | .ellipsis none elem => elem.isSpellable
  | .typeVar name => isIdentifier name && isVariableName name && name ≠ "Any"
  | .void | .scalar _ | .any => true

def KeywordParam.isSpellable (k : KeywordParam) : Bool := isIdentifier k.name && k.ty.isSpellable

structure Signature.IsSpellable (s : Signature) : Prop where
  params : ∀ t ∈ s.params, t.isSpellable
  kwds : ∀ k ∈ s.kwds, k.isSpellable
  distinct : (s.kwds.map (·.name)).Nodup
  ret : s.ret.isSpellable

namespace Grammar

open Lexeme (Spells)

/-! ## Spellable types have derivations -/

/-- A type is spellable just if the tokens of its derivation are. -/
theorem isSpellable_type_iff (d : TypeTree) : d.type.isSpellable ↔ ∀ t ∈ d.tokens, t.isSpellable := by
  induction d with
  | sized | unnamed =>
    rename_i inductionHypothesis
    simp only [TypeTree.tokens, List.forall_mem_cons, ← inductionHypothesis]
    simp [TypeTree.type, Ty.isSpellable, Token.isSpellable]
  | named name | symbolic name =>
    rename_i inductionHypothesis
    simp only [TypeTree.tokens, List.forall_mem_cons, ← inductionHypothesis]
    simp [TypeTree.type, Ty.isSpellable, Token.isSpellable, name.2]
  | void | any => simp [TypeTree.type, TypeTree.tokens, Ty.isSpellable]; decide
  | kind k => simp [TypeTree.type, TypeTree.tokens, Ty.isSpellable, Token.isSpellable, isIdentifier_name]
  | typeVar name free => simp [TypeTree.type, TypeTree.tokens, Ty.isSpellable, Token.isSpellable, name.2, free]

theorem exists_tree_of_isSpellable {t : Ty} (spellable : t.isSpellable) : ∃ d : TypeTree, d.type = t := by
  induction t with
  | void => exact ⟨.void, rfl⟩
  | scalar k => exact ⟨.kind k, rfl⟩
  | any => exact ⟨.any, rfl⟩
  | typeVar name =>
    simp only [Ty.isSpellable, Bool.and_eq_true, decide_eq_true_eq] at spellable
    exact ⟨.typeVar ⟨name, spellable.1.2⟩ spellable.2, rfl⟩
  | fixedDim size elem inductionHypothesis =>
    simp only [Ty.isSpellable, Bool.and_eq_true] at spellable
    obtain ⟨d, rfl⟩ := inductionHypothesis spellable.2
    exact ⟨.sized size d, rfl⟩
  | symbolicDim name elem inductionHypothesis =>
    simp only [Ty.isSpellable, Bool.and_eq_true] at spellable
    obtain ⟨d, rfl⟩ := inductionHypothesis spellable.2
    exact ⟨.symbolic ⟨name, spellable.1.2⟩ d, rfl⟩
  | ellipsis name elem inductionHypothesis =>
    cases name with
    | none =>
      obtain ⟨d, rfl⟩ := inductionHypothesis spellable
      exact ⟨.unnamed d, rfl⟩
    | some name =>
      simp only [Ty.isSpellable, Bool.and_eq_true] at spellable
      obtain ⟨d, rfl⟩ := inductionHypothesis spellable.2
      exact ⟨.named ⟨name, spellable.1.2⟩ d, rfl⟩

/-! ## Texts of derivations -/

variable {rest : List Char} {tokens : List Token}

/-- A text does not go on with a letter, a digit or an underscore. -/
def Stops (rest : List Char) : Prop := ∀ c ∈ rest.head?, Lexeme.isNamePart c = false

theorem Stops.not_isExtendedBy (stops : Stops rest) (t : Token) : ∀ c ∈ rest.head?, t.isExtendedBy c = false :=
  fun c member => Token.isExtendedBy_eq_false (stops c member)

theorem stops_nil : Stops [] := by
  rintro _ ⟨⟩

theorem stops_cons {c : Char} (other : Lexeme.isNamePart c = false) : Stops (c :: rest) := by
  rintro _ ⟨⟩
  exact other

theorem spells_star (behind : Spells rest tokens) : Spells (' ' :: '*' :: ' ' :: rest) (.star :: tokens) :=
  .blank rfl (.sign (t := .star) rfl rfl (.blank rfl behind))

theorem spells_dots (behind : Spells rest tokens) : Spells ('.' :: '.' :: '.' :: rest) (.ellipsis :: tokens) :=
  .sign (t := .ellipsis) rfl rfl behind

theorem spells_ident {name : String} (identifier : isIdentifier name) (stops : Stops rest)
    (behind : Spells rest tokens) : Spells (name.toList ++ rest) (.ident name :: tokens) :=
  .token (t := .ident name) identifier (stops.not_isExtendedBy _) behind

/-- A type that is printed in front of a text spells its tokens in front of those of the text, unless the text
goes on with a letter. -/
theorem spells_type {d : TypeTree} (spellable : ∀ t ∈ d.tokens, t.isSpellable) (stops : Stops rest)
    (behind : Spells rest tokens) : Spells (d.type.render.toList ++ rest) (d.tokens ++ tokens) := by
  -- Behind the size or the name of a dimension there is a blank or a dot, so that only a type without dimensions
  -- is next to what follows.
  induction d with
  | sized size elem inductionHypothesis =>
    rw [TypeTree.tokens, List.forall_mem_cons, List.forall_mem_cons] at spellable
    simpa [TypeTree.type, TypeTree.tokens, Ty.render, Token.spelling] using
      Spells.token spellable.1 ((stops_cons rfl).not_isExtendedBy _) (spells_star (inductionHypothesis spellable.2.2))
  | unnamed elem inductionHypothesis =>
    rw [TypeTree.tokens, List.forall_mem_cons, List.forall_mem_cons] at spellable
    simpa [TypeTree.type, TypeTree.tokens, Ty.render] using
      spells_dots (spells_star (inductionHypothesis spellable.2.2))
  | named name elem inductionHypothesis =>
    rw [TypeTree.tokens, List.forall_mem_cons, List.forall_mem_cons, List.forall_mem_cons] at spellable
    simpa [TypeTree.type, TypeTree.tokens, Ty.render] using
      spells_ident spellable.1 (stops_cons rfl) (spells_dots (spells_star (inductionHypothesis spellable.2.2.2)))
  | symbolic name elem inductionHypothesis =>
    rw [TypeTree.tokens, List.forall_mem_cons, List.forall_mem_cons] at spellable
    simpa [TypeTree.type, TypeTree.tokens, Ty.render] using
      spells_ident spellable.1 (stops_cons rfl) (spells_star (inductionHypothesis spellable.2.2))
  | void | any | kind | typeVar => exact spells_ident (spellable _ (.head _)) stops behind

/-! ## Items -/

def ItemTree.render : ItemTree → String
  | .positional type => type.type.render
  | .keyword name optional type => KeywordParam.render ⟨name, type.type, optional⟩

theorem spells_item {item : ItemTree} (spellable : ∀ t ∈ item.tokens, t.isSpellable) (stops : Stops rest)
    (behind : Spells rest tokens) : Spells (item.render.toList ++ rest) (item.tokens ++ tokens) := by
  cases item with
  | positional type => exact spells_type spellable stops behind
  | keyword name optional type =>
    rw [ItemTree.tokens, List.forall_mem_cons, List.forall_mem_cons, List.forall_mem_append] at spellable
    obtain ⟨here, -, -, inner⟩ := spellable
    have type' : Spells (type.type.render.toList ++ rest) (type.tokens ++ tokens) := spells_type inner stops behind
    have colon {text : List Char} {others : List Token} (behind : Spells text others) :
        Spells (':' :: ' ' :: text) (.colon :: others) :=
      .sign (t := .colon) rfl rfl (.blank rfl behind)
    cases optional with
    | false =>
      simpa [ItemTree.render, ItemTree.tokens, KeywordParam.render] using
        spells_ident here (stops_cons rfl) (colon type')
    | true =>
      simpa [ItemTree.render, ItemTree.tokens, KeywordParam.render, Token.spelling] using
        spells_ident here (stops_cons rfl) (colon (.sign (t := .question) rfl rfl type'))

theorem forall_mem_separated_iff {P : Token → Prop} (comma : P .comma) (items : List ItemTree) :
    (∀ t ∈ separated items, P t) ↔ ∀ item ∈ items, ∀ t ∈ item.tokens, P t := by
  induction items with
  | nil => simp [separated]
  | cons item items inductionHypothesis =>
    cases items with
    | nil => simp [separated_singleton]
    | cons next items =>
      rw [separated_cons_cons, List.forall_mem_append, List.forall_mem_cons, inductionHypothesis,
        @List.forall_mem_cons _ _ item]
      exact and_congr_right fun _ => and_iff_right comma

theorem spells_items {items : List ItemTree} (spellable : ∀ item ∈ items, ∀ t ∈ item.tokens, t.isSpellable)
    (stops : Stops rest) (behind : Spells rest tokens) :
    Spells ((", ".intercalate (items.map ItemTree.render)).toList ++ rest) (separated items ++ tokens) := by
  rw [String.toList_intercalate, List.map_map]
  induction items with
  | nil => exact behind
  | cons item items inductionHypothesis =>
    obtain ⟨here, others⟩ := List.forall_mem_cons.mp spellable
    cases items with
    | nil => simpa [separated_singleton, List.intercalate] using spells_item here stops behind
    | cons next items =>
      have comma : Spells (',' :: ' ' :: _) (.comma :: _) :=
        .sign (t := .comma) rfl rfl (.blank rfl (inductionHypothesis others))
      rw [separated_cons_cons]
      simpa [List.intercalate] using spells_item here (stops_cons rfl) comma

/-! ## Signatures -/

/-- Types come before keywords in a parameter list anyway. -/
theorem map_render_of_ordered {items : List ItemTree} (ordered : KeywordsLast items) :
    (items.filterMap ItemTree.param?).map Ty.render ++ (items.filterMap ItemTree.kwd?).map KeywordParam.render =
      items.map ItemTree.render := by
  induction items with
  | nil => rfl
  | cons item items inductionHypothesis =>
    have rest := inductionHypothesis (List.pairwise_cons.mp ordered).2
    cases item with
    | positional => simpa [List.filterMap_cons, ItemTree.param?, ItemTree.kwd?, ItemTree.render] using rest
    | keyword =>
      have none := SignatureTree.params_eq_nil ordered
      rw [List.filterMap_cons_none rfl] at none
      rw [List.filterMap_cons_none rfl, none]
      simpa [List.filterMap_cons, ItemTree.kwd?, ItemTree.render, none] using rest

theorem spells_signature {d : SignatureTree} (spellable : ∀ t ∈ d.tokens, t.isSpellable) :
    Spells d.signature.render.toList d.tokens := by
  rw [SignatureTree.tokens, List.forall_mem_cons, List.forall_mem_append, List.forall_mem_cons, List.forall_mem_cons,
    forall_mem_separated_iff (P := (·.isSpellable)) rfl] at spellable
  obtain ⟨-, items, -, -, ret⟩ := spellable
  have ret' : Spells (d.ret.type.render.toList ++ []) (d.ret.tokens ++ []) := spells_type ret stops_nil .nil
  have arrow : Spells (')' :: ' ' :: '-' :: '>' :: ' ' :: _) (.closeParen :: .arrow :: _) :=
    .sign (t := .closeParen) rfl rfl (.blank rfl
      (.sign (t := .arrow) rfl rfl (.blank rfl ret')))
  have whole := Spells.sign (t := .openParen) rfl rfl
    (spells_items items (stops_cons rfl) arrow)
  simpa [Signature.render, SignatureTree.signature, SignatureTree.tokens, Token.spelling,
    map_render_of_ordered d.ordered] using whole

/-- An item is spellable just if what it declares is. -/
theorem isSpellable_item_iff (item : ItemTree) :
    (∀ t ∈ item.tokens, t.isSpellable) ↔ (∀ t ∈ item.param?, t.isSpellable) ∧ ∀ k ∈ item.kwd?, k.isSpellable := by
  cases item with
  | positional type => simp [ItemTree.tokens, ItemTree.param?, ItemTree.kwd?, isSpellable_type_iff]
  | keyword name optional type =>
    rw [ItemTree.tokens, List.forall_mem_cons, List.forall_mem_cons, List.forall_mem_append, ← isSpellable_type_iff]
    cases optional <;> simp [ItemTree.param?, ItemTree.kwd?, KeywordParam.isSpellable, Token.isSpellable]

/-- A signature is spellable just if the tokens of its derivation are. -/
theorem isSpellable_signature_iff (d : SignatureTree) : d.signature.IsSpellable ↔ ∀ t ∈ d.tokens, t.isSpellable := by
  rw [SignatureTree.tokens, List.forall_mem_cons, List.forall_mem_append, List.forall_mem_cons, List.forall_mem_cons,
    forall_mem_separated_iff (P := (·.isSpellable)) rfl, ← isSpellable_type_iff]
  simp only [isSpellable_item_iff]
  constructor
  · rintro ⟨params, kwds, -, ret⟩
    refine ⟨rfl, fun item member => ⟨fun t found => params t ?_, fun k found => kwds k ?_⟩, rfl, rfl, ret⟩
    · exact List.mem_filterMap.mpr ⟨item, member, found⟩
    · exact List.mem_filterMap.mpr ⟨item, member, found⟩
  · rintro ⟨-, items, -, -, ret⟩
    refine ⟨fun t member => ?_, fun k member => ?_, d.distinct, ret⟩
    · obtain ⟨item, member, found⟩ := List.mem_filterMap.mp member
      exact (items item member).1 t found
    · obtain ⟨item, member, found⟩ := List.mem_filterMap.mp member
      exact (items item member).2 k found

theorem exists_items_of_kwds {kwds : List KeywordParam} (spellable : ∀ k ∈ kwds, k.isSpellable) :
    ∃ items : List ItemTree, KeywordsLast items ∧ items.filterMap ItemTree.param? = [] ∧
      items.filterMap ItemTree.kwd? = kwds := by
  induction kwds with
  | nil => exact ⟨[], .nil, rfl, rfl⟩
  | cons k kwds inductionHypothesis =>
    obtain ⟨here, others⟩ := List.forall_mem_cons.mp spellable
    obtain ⟨items, ordered, none, rfl⟩ := inductionHypothesis others
    obtain ⟨type, same⟩ := exists_tree_of_isSpellable (Bool.and_eq_true_iff.mp here).2
    have keyword : (ItemTree.keyword k.name k.optional type).kwd? = some k := by rw [ItemTree.kwd?, same]
    refine ⟨.keyword k.name k.optional type :: items, List.pairwise_cons.mpr ⟨fun item member _ => ?_, ordered⟩,
      none, List.filterMap_cons_some keyword⟩
    have noType := List.filterMap_eq_nil_iff.mp none item member
    cases item with
    | positional => cases noType
    | keyword => rfl

theorem exists_items {params : List Ty} {kwds : List KeywordParam} (types : ∀ t ∈ params, t.isSpellable)
    (spellable : ∀ k ∈ kwds, k.isSpellable) :
    ∃ items : List ItemTree, KeywordsLast items ∧ items.filterMap ItemTree.param? = params ∧
      items.filterMap ItemTree.kwd? = kwds := by
  induction params with
  | nil => exact exists_items_of_kwds spellable
  | cons t params inductionHypothesis =>
    obtain ⟨here, others⟩ := List.forall_mem_cons.mp types
    obtain ⟨items, ordered, rfl, rfl⟩ := inductionHypothesis others
    obtain ⟨type, rfl⟩ := exists_tree_of_isSpellable here
    exact ⟨.positional type :: items, List.pairwise_cons.mpr ⟨fun _ _ keyword => (by cases keyword), ordered⟩, rfl, rfl⟩

/-- A spellable signature is derived with its types in front and its keywords behind them. -/
theorem exists_signatureTree_of_isSpellable {s : Signature} (spellable : s.IsSpellable) :
    ∃ d : SignatureTree, d.signature = s := by
  obtain ⟨params, kwds, ret⟩ := s
  obtain ⟨types, keywords, distinct, result⟩ := spellable
  obtain ⟨items, ordered, rfl, rfl⟩ := exists_items types keywords
  obtain ⟨d, rfl⟩ := exists_tree_of_isSpellable result
  exact ⟨⟨items, ordered, distinct, d⟩, rfl⟩

/-! ## Printing and parsing -/

theorem parse_render_of_isSpellable {t : Ty} (spellable : t.isSpellable) : Ty.parse t.render = .ok t := by
  obtain ⟨d, rfl⟩ := exists_tree_of_isSpellable spellable
  have spells : Spells (d.type.render.toList ++ []) (d.tokens ++ []) :=
    spells_type ((isSpellable_type_iff d).mp spellable) stops_nil .nil
  obtain ⟨lexemes, scanned, derived⟩ := spells 0
  rw [List.append_nil] at scanned derived
  exact parse_type_eq_ok_iff.mpr ⟨lexemes, scanned, d, derived.symm, rfl⟩

theorem parse_render_signature_of_isSpellable {s : Signature} (spellable : s.IsSpellable) :
    Signature.parse s.render = .ok s := by
  obtain ⟨d, rfl⟩ := exists_signatureTree_of_isSpellable spellable
  obtain ⟨lexemes, scanned, derived⟩ := spells_signature ((isSpellable_signature_iff d).mp spellable) 0
  exact parse_signature_eq_ok_iff.mpr ⟨lexemes, scanned, d, derived.symm, rfl⟩

theorem isSpellable_of_parse {source : String} {t : Ty} (parsed : Ty.parse source = .ok t) : t.isSpellable := by
  obtain ⟨lexemes, scanned, d, derived, rfl⟩ := parse_type_eq_ok_iff.mp parsed
  exact (isSpellable_type_iff d).mpr (derived ▸ Lexeme.isSpellable_of_scanFrom scanned)

theorem isSpellable_of_parse_signature {source : String} {s : Signature} (parsed : Signature.parse source = .ok s) :
    s.IsSpellable := by
  obtain ⟨lexemes, scanned, d, derived, rfl⟩ := parse_signature_eq_ok_iff.mp parsed
  exact (isSpellable_signature_iff d).mpr (derived ▸ Lexeme.isSpellable_of_scanFrom scanned)

/-- Spellable types and signatures are parsed from their own texts, and whatever text is parsed, the result is
spellable, so that it is parsed again from what it prints as. -/
theorem parse_render :
    (∀ t : Ty, t.isSpellable → Ty.parse t.render = .ok t) ∧
    (∀ s : Signature, s.IsSpellable → Signature.parse s.render = .ok s) ∧
    (∀ source t, Ty.parse source = .ok t → t.isSpellable ∧ Ty.parse t.render = .ok t) ∧
    (∀ source s, Signature.parse source = .ok s → s.IsSpellable ∧ Signature.parse s.render = .ok s) := by
  refine ⟨fun t => parse_render_of_isSpellable, fun s => parse_render_signature_of_isSpellable,
    fun source t parsed => ?_, fun source s parsed => ?_⟩
  · have spellable := isSpellable_of_parse parsed
    exact ⟨spellable, parse_render_of_isSpellable spellable⟩
  · have spellable := isSpellable_of_parse_signature parsed
    exact ⟨spellable, parse_render_signature_of_isSpellable spellable⟩

/-- A signature in which `Any` is a type and a keyword. -/
def anyKeywordSignature : Signature where
  params := [.fixedDim 3 (.symbolicDim "N" (.ellipsis (some "Dims") (.typeVar "T"))), .ellipsis none .any]
  kwds := [⟨"n", .scalar (.int .w8), true⟩, ⟨"Any", .void, false⟩]
  ret := .typeVar "T"

/-- Its text is parsed as the signature, and its parameters are parsed from their texts. -/
theorem parse_render_any_keyword :
    Signature.parse "(3 * N * Dims... * T, ... * Any, n: ?int8, Any: void) -> T" = .ok anyKeywordSignature ∧
    (anyKeywordSignature.IsSpellable ∧ Signature.parse anyKeywordSignature.render = .ok anyKeywordSignature) ∧
    (Ty.isSpellable (.ellipsis none .any) ∧ Ty.parse (Ty.ellipsis none .any).render = .ok (.ellipsis none .any)) := by
  have spellable : anyKeywordSignature.IsSpellable := ⟨by decide, by decide, by decide, by decide⟩
  have parsed := parse_render.2.1 anyKeywordSignature spellable
  exact ⟨parsed, parse_render.2.2.2 _ _ parsed, parse_render.2.2.1 _ _ (parse_render.1 (.ellipsis none .any) rfl)⟩

end Grammar

end ArrayCall
