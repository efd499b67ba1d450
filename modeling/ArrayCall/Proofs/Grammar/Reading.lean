import ArrayCall.Proofs.Grammar.Derivations
import ArrayCall.Proofs.Results

/-!
# Readers and derivations

The readers of types and signatures accept just the token sequences that the grammar derives, and return
what these stand for.

* `Grammar.readType_of_tokens`, `Grammar.exists_tree_of_readType`: a reader takes a derivation off the front
  of the tokens, and nothing else.
* `Grammar.readSignature_of_tokens`, `Grammar.exists_tree_of_readSignature`: the same of signatures, whose items
  may stand behind one another just if the keywords among them are last and distinct (`Grammar.admitted_iff`).
* `Grammar.SignatureTree.tokens_injective`: no sequence has two derivations, since a reader comes to one result
  and the result says which derivation it was.
* `Grammar.reads_iff_derives`: all of it, for whole sequences.
-/

namespace ArrayCall.Grammar

/-- The tokens of lexemes, wherever they stood in the text. -/
def tokensOf (lexemes : List Lexeme) : List Token := lexemes.map (·.token)

theorem tokensOf_append (front behind : List Lexeme) : tokensOf (front ++ behind) = tokensOf front ++ tokensOf behind :=
  List.map_append

theorem tokensOf_eq_cons_iff {lexemes : List Lexeme} {t : Token} {tokens : List Token} :
    tokensOf lexemes = t :: tokens ↔ ∃ span behind, lexemes = ⟨t, span⟩ :: behind ∧ tokensOf behind = tokens := by
  rw [tokensOf, List.map_eq_cons_iff]
  constructor
  · rintro ⟨⟨_, span⟩, behind, rfl, rfl, same⟩
    exact ⟨span, behind, rfl, same⟩
  · rintro ⟨span, behind, rfl, same⟩
    exact ⟨_, behind, rfl, rfl, same⟩

theorem tokensOf_eq_append_iff {lexemes : List Lexeme} {front behind : List Token} :
    tokensOf lexemes = front ++ behind ↔
      ∃ taken rest, lexemes = taken ++ rest ∧ tokensOf taken = front ∧ tokensOf rest = behind :=
  List.map_eq_append_iff

/-- What may follow a type: a comma, a closing parenthesis or nothing. -/
def Ends (rest : List Lexeme) : Prop := ∀ l ∈ rest.head?, l.token = .comma ∨ l.token = .closeParen

theorem ends_nil : Ends [] := by
  rintro l ⟨⟩

theorem ends_comma (span : Span) (rest : List Lexeme) : Ends (⟨.comma, span⟩ :: rest) := by
  rintro l ⟨⟩
  exact .inl rfl

theorem ends_closeParen (span : Span) (rest : List Lexeme) : Ends (⟨.closeParen, span⟩ :: rest) := by
  rintro l ⟨⟩
  exact .inr rfl

variable {stop : Nat} {lexemes taken rest : List Lexeme}

/-! ## Names -/

theorem isVariableName_name (k : Kind) : isVariableName k.name = false := by
  cases k with
  | int w => cases w <;> decide
  | uint w => cases w <;> decide
  | _ => decide

theorem ofName?_name (k : Kind) : Ty.ofName? k.name = some (.scalar k) := by
  cases k with
  | int w => cases w <;> decide
  | uint w => cases w <;> decide
  | _ => decide

theorem ofName?_of_isVariableName {name : String} (capital : isVariableName name) (free : name ≠ "Any") :
    Ty.ofName? name = some (.typeVar name) := by
  have notVoid : name ≠ "void" := by
    rintro rfl
    exact absurd capital (by decide)
  rw [Ty.ofName?, if_neg notVoid, if_neg free]
  cases found : Kind.ofName? name with
  | none => exact if_pos capital
  | some k =>
    rw [← Kind.name_of_ofName? found, isVariableName_name] at capital
    cases capital

/-- A name alone is a type just if a production makes it one. -/
theorem exists_tree_of_ofName? {name : String} {t : Ty} (found : Ty.ofName? name = some t) :
    ∃ d : TypeTree, d.tokens = [.ident name] ∧ d.type = t := by
  rw [Ty.ofName?] at found
  split at found
  next void =>
    cases found
    exact ⟨.void, by rw [void]; rfl, rfl⟩
  next =>
    split at found
    next any =>
      cases found
      exact ⟨.any, by rw [any]; rfl, rfl⟩
    next free =>
      split at found
      next k kind =>
        cases found
        exact ⟨.kind k, by rw [← Kind.name_of_ofName? kind]; rfl, rfl⟩
      next =>
        split at found
        next capital =>
          cases found
          exact ⟨.typeVar ⟨name, capital⟩ free, rfl, rfl⟩
        next => cases found

/-! ## Types -/

theorem readType_ident {name : String} {span : Span} {t : Ty} (ends : Ends rest) (found : Ty.ofName? name = some t) :
    readType stop (⟨.ident name, span⟩ :: rest) = .ok (t, rest) := by
  match rest with
  | [] => simp [readType, found]
  | ⟨token, _⟩ :: rest =>
    obtain rfl | rfl : token = .comma ∨ token = .closeParen := ends _ rfl
    · simp [readType, found]
    · simp [readType, found]

theorem tokensOf_eq_singleton_iff {t : Token} : tokensOf lexemes = [t] ↔ ∃ span, lexemes = [⟨t, span⟩] := by
  rw [tokensOf_eq_cons_iff]
  exact exists_congr fun span => by simp [tokensOf]

/-- A reader of types takes a whole derivation off the front. -/
theorem readType_of_tokens (stop : Nat) {d : TypeTree} (derived : tokensOf taken = d.tokens) (ends : Ends rest) :
    readType stop (taken ++ rest) = .ok (d.type, rest) := by
  induction d generalizing taken with
  | sized size elem inductionHypothesis =>
    obtain ⟨_, _, rfl, starred⟩ := tokensOf_eq_cons_iff.mp derived
    obtain ⟨_, _, rfl, inner⟩ := tokensOf_eq_cons_iff.mp starred
    simp only [List.cons_append, readType, inductionHypothesis inner]
    rfl
  | unnamed elem inductionHypothesis =>
    obtain ⟨_, _, rfl, starred⟩ := tokensOf_eq_cons_iff.mp derived
    obtain ⟨_, _, rfl, inner⟩ := tokensOf_eq_cons_iff.mp starred
    simp only [List.cons_append, readType, inductionHypothesis inner]
    rfl
  | named name elem inductionHypothesis =>
    obtain ⟨_, _, rfl, dotted⟩ := tokensOf_eq_cons_iff.mp derived
    obtain ⟨_, _, rfl, starred⟩ := tokensOf_eq_cons_iff.mp dotted
    obtain ⟨_, _, rfl, inner⟩ := tokensOf_eq_cons_iff.mp starred
    simp only [List.cons_append, readType, inductionHypothesis inner, name.2]
    rfl
  | symbolic name elem inductionHypothesis =>
    obtain ⟨_, _, rfl, starred⟩ := tokensOf_eq_cons_iff.mp derived
    obtain ⟨_, _, rfl, inner⟩ := tokensOf_eq_cons_iff.mp starred
    simp only [List.cons_append, readType, inductionHypothesis inner, name.2]
    rfl
  | void | any =>
    obtain ⟨_, rfl⟩ := tokensOf_eq_singleton_iff.mp derived
    exact readType_ident ends rfl
  | kind k =>
    obtain ⟨_, rfl⟩ := tokensOf_eq_singleton_iff.mp derived
    exact readType_ident ends (ofName?_name k)
  | typeVar name free =>
    obtain ⟨_, rfl⟩ := tokensOf_eq_singleton_iff.mp derived
    exact readType_ident ends (ofName?_of_isVariableName name.2 free)

/-- A dimension in front of what a reader takes makes a derivation of it. -/
theorem exists_tree_of_dimension (front : List Lexeme) (make : TypeTree → TypeTree) {tail : List Lexeme} {t : Ty}
    {wrap : Ty → Ty} (tokens : ∀ d, (make d).tokens = tokensOf front ++ d.tokens)
    (type : ∀ d, (make d).type = wrap d.type)
    (inner : ∀ {t rest}, readType stop tail = .ok (t, rest) →
      ∃ taken, ∃ d : TypeTree, tail = taken ++ rest ∧ tokensOf taken = d.tokens ∧ d.type = t)
    (read : (readType stop tail >>= fun r => .ok (wrap r.1, r.2)) = .ok (t, rest)) :
    ∃ taken, ∃ d : TypeTree, front ++ tail = taken ++ rest ∧ tokensOf taken = d.tokens ∧ d.type = t := by
  obtain ⟨⟨elem, behind⟩, found, same⟩ := bind_eq_ok_iff.mp read
  cases same
  obtain ⟨taken, d, rfl, derived, rfl⟩ := inner found
  exact ⟨front ++ taken, make d, (List.append_assoc ..).symm, by rw [tokensOf_append, derived, tokens], type d⟩

/-- What a reader of types takes is a derivation of the type that it returns. -/
theorem exists_tree_of_readType {t : Ty} (read : readType stop lexemes = .ok (t, rest)) :
    ∃ taken, ∃ d : TypeTree, lexemes = taken ++ rest ∧ tokensOf taken = d.tokens ∧ d.type = t := by
  fun_induction readType stop lexemes generalizing t rest with
  | case1 size span span' tail inner =>
    exact exists_tree_of_dimension [⟨.size size, span⟩, ⟨.star, span'⟩] (.sized size)
      (fun _ => rfl) (fun _ => rfl) inner read
  | case2 span span' tail inner =>
    exact exists_tree_of_dimension [⟨.ellipsis, span⟩, ⟨.star, span'⟩] .unnamed
      (fun _ => rfl) (fun _ => rfl) inner read
  | case3 name span span' span'' tail capital inner =>
    exact exists_tree_of_dimension [⟨.ident name, span⟩, ⟨.ellipsis, span'⟩, ⟨.star, span''⟩]
      (.named ⟨name, capital⟩) (fun _ => rfl) (fun _ => rfl) inner read
  | case5 name span span' tail capital inner =>
    exact exists_tree_of_dimension [⟨.ident name, span⟩, ⟨.star, span'⟩]
      (.symbolic ⟨name, capital⟩) (fun _ => rfl) (fun _ => rfl) inner read
  | case7 name span tail _ _ t found =>
    cases read
    obtain ⟨d, tokens, type⟩ := exists_tree_of_ofName? found
    exact ⟨[⟨.ident name, span⟩], d, rfl, tokens.symm, type⟩
  | case4 | case6 | case8 | case9 | case10 => cases read

/-! ## Items -/

/-- A type does not look like a keyword with its colon. -/
theorem keywordItem?_of_tokens {d : TypeTree} (derived : tokensOf taken = d.tokens) (ends : Ends rest) :
    keywordItem? (taken ++ rest) = none := by
  have alone {name : String} {span : Span} : keywordItem? (⟨.ident name, span⟩ :: rest) = none := by
    match rest with
    | [] => rfl
    | ⟨token, _⟩ :: rest =>
      obtain rfl | rfl : token = .comma ∨ token = .closeParen := ends _ rfl
      · rfl
      · rfl
  cases d with
  | sized | unnamed =>
    obtain ⟨_, _, rfl, -⟩ := tokensOf_eq_cons_iff.mp derived
    rfl
  | named | symbolic =>
    obtain ⟨_, _, rfl, behind⟩ := tokensOf_eq_cons_iff.mp derived
    obtain ⟨_, _, rfl, -⟩ := tokensOf_eq_cons_iff.mp behind
    rfl
  | void | any | kind | typeVar =>
    obtain ⟨_, rfl⟩ := tokensOf_eq_singleton_iff.mp derived
    exact alone

theorem takeQuestion_of_tokens {d : TypeTree} (derived : tokensOf taken = d.tokens) :
    takeQuestion (taken ++ rest) = (false, taken ++ rest) := by
  cases d <;> obtain ⟨_, _, rfl, -⟩ := tokensOf_eq_cons_iff.mp derived <;> rfl

/-- What an item may stand behind: a type behind types alone, a keyword behind keywords of other names. -/
def Admits (kwds : List KeywordParam) (item : ItemTree) : Prop :=
  match item with
  | .positional _ => kwds = []
  | .keyword name _ _ => name ∉ kwds.map (·.name)

theorem readItem_of_keyword {params : List Ty} {kwds : List KeywordParam} {name : String} {span : Span}
    {tail : List Lexeme} (front : keywordItem? lexemes = some (name, span, tail)) (new : name ∉ kwds.map (·.name)) :
    readItem stop params kwds lexemes = (readType stop (takeQuestion tail).2 >>= fun r =>
      .ok ((params, kwds ++ [⟨name, r.1, (takeQuestion tail).1⟩]), r.2)) := by
  have new : kwds.any (·.name == name) = false := by simpa using new
  rw [readItem, front]
  dsimp only
  rw [new]
  rfl

theorem readItem_of_positional {params : List Ty} (front : keywordItem? lexemes = none) :
    readItem stop params [] lexemes = (readType stop lexemes >>= fun r => .ok ((params ++ [r.1], []), r.2)) := by
  rw [readItem, front]
  rfl

/-- The reader of items takes a whole item, if it stands behind what it may. -/
theorem readItem_of_tokens (stop : Nat) (params : List Ty) {kwds : List KeywordParam} {item : ItemTree}
    (derived : tokensOf taken = item.tokens) (admitted : Admits kwds item) (ends : Ends rest) :
    readItem stop params kwds (taken ++ rest) =
      .ok ((params ++ item.param?.toList, kwds ++ item.kwd?.toList), rest) := by
  cases item with
  | positional type =>
    obtain rfl : kwds = [] := admitted
    rw [readItem_of_positional (keywordItem?_of_tokens derived ends), readType_of_tokens stop derived ends]
    rfl
  | keyword name optional type =>
    obtain ⟨span, _, rfl, behind⟩ := tokensOf_eq_cons_iff.mp derived
    obtain ⟨span', tail, rfl, behind'⟩ := tokensOf_eq_cons_iff.mp behind
    have question : ∃ tail', takeQuestion (tail ++ rest) = (optional, tail' ++ rest) ∧
        tokensOf tail' = type.tokens := by
      cases optional with
      | false => exact ⟨tail, takeQuestion_of_tokens behind', behind'⟩
      | true =>
        obtain ⟨_, tail', rfl, inner⟩ := tokensOf_eq_cons_iff.mp behind'
        exact ⟨tail', rfl, inner⟩
    obtain ⟨tail', question, inner⟩ := question
    have front : keywordItem? (⟨.ident name, span⟩ :: ⟨.colon, span'⟩ :: tail ++ rest) =
        some (name, span, tail ++ rest) := rfl
    rw [readItem_of_keyword front admitted, question, readType_of_tokens stop inner ends]
    simp [bind, Except.bind, ItemTree.param?, ItemTree.kwd?]

theorem eq_of_keywordItem? {name : String} {span : Span} (found : keywordItem? lexemes = some (name, span, rest)) :
    ∃ span', lexemes = ⟨.ident name, span⟩ :: ⟨.colon, span'⟩ :: rest := by
  unfold keywordItem? at found
  split at found
  · cases found
    exact ⟨_, rfl⟩
  · cases found

theorem exists_of_takeQuestion (lexemes : List Lexeme) :
    ∃ front, lexemes = front ++ (takeQuestion lexemes).2 ∧
      tokensOf front = if (takeQuestion lexemes).1 then [.question] else [] := by
  unfold takeQuestion
  split
  · exact ⟨[⟨.question, _⟩], rfl, rfl⟩
  · exact ⟨[], rfl, rfl⟩

/-- The reader of items takes nothing behind what it may not stand behind. -/
theorem admits_of_readItem {params : List Ty} {kwds : List KeywordParam} {found : List Ty × List KeywordParam}
    (read : readItem stop params kwds lexemes = .ok (found, rest)) :
    match keywordItem? lexemes with
    | some (name, _) => name ∉ kwds.map (·.name)
    | none => kwds = [] := by
  rw [readItem] at read
  split at read
  next front =>
    split at read
    · cases read
    next new => simpa [front] using new
  next front =>
    split at read
    next none => simpa [front] using none
    · cases read

/-- What the reader of items takes is an item that may stand where it does. -/
theorem exists_tree_of_readItem {params : List Ty} {kwds : List KeywordParam} {found : List Ty × List KeywordParam}
    (read : readItem stop params kwds lexemes = .ok (found, rest)) :
    ∃ taken, ∃ item : ItemTree, lexemes = taken ++ rest ∧ tokensOf taken = item.tokens ∧ Admits kwds item ∧
      found = (params ++ item.param?.toList, kwds ++ item.kwd?.toList) := by
  have admitted := admits_of_readItem read
  cases front : keywordItem? lexemes with
  | none =>
    obtain rfl : kwds = [] := by simpa [front] using admitted
    rw [readItem_of_positional front] at read
    obtain ⟨⟨t, behind⟩, inner, same⟩ := bind_eq_ok_iff.mp read
    cases same
    obtain ⟨taken, d, split, derived, rfl⟩ := exists_tree_of_readType inner
    exact ⟨taken, .positional d, split, derived, rfl, rfl⟩
  | some item =>
    obtain ⟨name, span, tail⟩ := item
    have new : name ∉ kwds.map (·.name) := by simpa [front] using admitted
    rw [readItem_of_keyword front new] at read
    obtain ⟨⟨t, behind⟩, inner, same⟩ := bind_eq_ok_iff.mp read
    cases same
    obtain ⟨span', rfl⟩ := eq_of_keywordItem? front
    obtain ⟨question, split, optional⟩ := exists_of_takeQuestion tail
    obtain ⟨taken, d, split', derived, rfl⟩ := exists_tree_of_readType inner
    refine ⟨⟨.ident name, span⟩ :: ⟨.colon, span'⟩ :: (question ++ taken),
      .keyword name (takeQuestion tail).1 d, ?_, ?_, new, ?_⟩
    · rw [List.cons_append, List.cons_append, List.append_assoc, ← split', ← split]
    · rw [ItemTree.tokens, ← optional, ← derived, ← tokensOf_append]
      rfl
    · simp [ItemTree.param?, ItemTree.kwd?]

/-! ## Parameter lists -/

theorem filterMap_cons_eq_append {α β : Type} (f : α → Option β) (a : α) (list : List α) :
    (a :: list).filterMap f = (f a).toList ++ list.filterMap f := by
  rw [List.filterMap_cons]
  cases f a <;> rfl

/-- Each item may stand behind the keywords before it. -/
def Admitted : List KeywordParam → List ItemTree → Prop
  | _, [] => True
  | kwds, item :: items => Admits kwds item ∧ Admitted (kwds ++ item.kwd?.toList) items

/-- The items of a parameter list may follow one another just if the keywords are last and distinct. -/
theorem admitted_iff {kwds : List KeywordParam} {items : List ItemTree} (distinct : (kwds.map (·.name)).Nodup) :
    Admitted kwds items ↔ (kwds ≠ [] → ∀ item ∈ items, item.kwd?.isSome) ∧ KeywordsLast items ∧
      ((kwds ++ items.filterMap ItemTree.kwd?).map (·.name)).Nodup := by
  induction items generalizing kwds with
  | nil => simp [Admitted, KeywordsLast, distinct]
  | cons item items inductionHypothesis =>
    rw [Admitted, KeywordsLast, List.pairwise_cons, ← KeywordsLast, filterMap_cons_eq_append]
    cases item with
    | positional type =>
      by_cases none : kwds = []
      · subst none
        simp [Admits, ItemTree.kwd?, @inductionHypothesis [] List.nodup_nil]
      · simp [Admits, ItemTree.kwd?, none]
    | keyword name optional type =>
      by_cases new : name ∈ kwds.map (·.name)
      · refine iff_of_false (fun admitted => admitted.1 new) fun all => ?_
        have apart := all.2.2
        rw [List.map_append, List.nodup_append] at apart
        exact apart.2.2 name new name (by simp [ItemTree.kwd?]) rfl
      · have distinct' : ((kwds ++ (ItemTree.keyword name optional type).kwd?.toList).map (·.name)).Nodup := by
          simpa [ItemTree.kwd?] using distinct.concat new
        rw [inductionHypothesis distinct', List.append_assoc]
        simp only [Admits, new, not_false_eq_true, true_and, List.mem_cons, forall_eq_or_imp]
        simp [ItemTree.kwd?]
        tauto

theorem admitted_nil_iff {items : List ItemTree} :
    Admitted [] items ↔ KeywordsLast items ∧ ((items.filterMap ItemTree.kwd?).map (·.name)).Nodup := by
  simpa using @admitted_iff [] items List.nodup_nil

theorem readItems_of_comma {params : List Ty} {kwds : List KeywordParam} {found : List Ty × List KeywordParam}
    {span : Span} (read : readItem stop params kwds lexemes = .ok (found, ⟨.comma, span⟩ :: rest)) :
    readItems stop params kwds lexemes = readItems stop found.1 found.2 rest := by
  rw [readItems]
  split
  next failed => rw [failed] at read; cases read
  next read' => rw [read'] at read; cases read; rfl
  next other read' => rw [read'] at read; cases read; exact (other _ _ rfl).elim

theorem readItems_of_last {params : List Ty} {kwds : List KeywordParam} {found : List Ty × List KeywordParam}
    (read : readItem stop params kwds lexemes = .ok (found, rest))
    (last : ∀ span rest', rest ≠ ⟨.comma, span⟩ :: rest') :
    readItems stop params kwds lexemes = .ok (found, rest) := by
  rw [readItems]
  split
  next failed => rw [failed] at read; cases read
  next read' => rw [read'] at read; cases read; exact absurd rfl (last _ _)
  next read' => rw [read'] at read; cases read; rfl

/-- The reader of parameter lists takes all items of a derivation. -/
theorem readItems_of_tokens (stop : Nat) (params : List Ty) {kwds : List KeywordParam} {item : ItemTree}
    {items : List ItemTree} (derived : tokensOf taken = separated (item :: items))
    (admitted : Admitted kwds (item :: items)) (span : Span) :
    readItems stop params kwds (taken ++ ⟨.closeParen, span⟩ :: rest) =
      .ok ((params ++ (item :: items).filterMap ItemTree.param?, kwds ++ (item :: items).filterMap ItemTree.kwd?),
        ⟨.closeParen, span⟩ :: rest) := by
  -- What the reader has seen of the list grows item by item, so the claim is for any such beginning.
  induction items generalizing params kwds item taken with
  | nil =>
    rw [separated_singleton] at derived
    rw [readItems_of_last (readItem_of_tokens stop params derived admitted.1 (ends_closeParen span rest)) (by simp)]
    cases item <;> rfl
  | cons next items inductionHypothesis =>
    rw [separated_cons_cons] at derived
    obtain ⟨first, behind, rfl, here, later⟩ := tokensOf_eq_append_iff.mp derived
    obtain ⟨comma, others, rfl, rest'⟩ := tokensOf_eq_cons_iff.mp later
    rw [List.append_assoc, List.cons_append,
      readItems_of_comma (readItem_of_tokens stop params here admitted.1 (ends_comma comma _)),
      inductionHypothesis _ rest' admitted.2]
    simp only [filterMap_cons_eq_append _ item, List.append_assoc]

/-- What the reader of parameter lists takes are items that may follow one another. -/
theorem exists_trees_of_readItems {params : List Ty} {kwds : List KeywordParam} {found : List Ty × List KeywordParam}
    (read : readItems stop params kwds lexemes = .ok (found, rest)) :
    ∃ taken, ∃ item : ItemTree, ∃ items, lexemes = taken ++ rest ∧ tokensOf taken = separated (item :: items) ∧
      Admitted kwds (item :: items) ∧
      found = (params ++ (item :: items).filterMap ItemTree.param?,
        kwds ++ (item :: items).filterMap ItemTree.kwd?) := by
  fun_induction readItems stop params kwds lexemes generalizing found rest with
  | case1 => cases read
  | case2 params kwds lexemes here comma tail first _ inductionHypothesis =>
    obtain ⟨taken, item, rfl, derived, admits, rfl⟩ := exists_tree_of_readItem first
    obtain ⟨others, next, items, rfl, derived', admitted, rfl⟩ := inductionHypothesis read
    refine ⟨taken ++ ⟨.comma, comma⟩ :: others, item, next :: items, by simp, ?_, ⟨admits, admitted⟩, ?_⟩
    · rw [separated_cons_cons, tokensOf_append, derived, ← derived']
      rfl
    · simp only [filterMap_cons_eq_append _ item, List.append_assoc]
  | case3 params kwds lexemes here tail _ first =>
    cases read
    obtain ⟨taken, item, rfl, derived, admits, rfl⟩ := exists_tree_of_readItem first
    refine ⟨taken, item, [], rfl, by rw [separated_singleton, derived], ⟨admits, trivial⟩, ?_⟩
    cases item <;> rfl

/-- A closing parenthesis begins no items. -/
theorem readParams_of_readItems {found : List Ty × List KeywordParam}
    (read : readItems stop [] [] lexemes = .ok (found, rest)) : readParams stop lexemes = .ok (found, rest) := by
  unfold readParams
  split
  · rw [readItems] at read
    split at read
    next => cases read
    next first => cases first
    next first => cases first
  · exact read

/-- The reader of a parameter list that may be empty takes all items of a derivation. -/
theorem readParams_of_tokens (stop : Nat) {items : List ItemTree} (derived : tokensOf taken = separated items)
    (admitted : Admitted [] items) (span : Span) :
    readParams stop (taken ++ ⟨.closeParen, span⟩ :: rest) =
      .ok ((items.filterMap ItemTree.param?, items.filterMap ItemTree.kwd?), ⟨.closeParen, span⟩ :: rest) := by
  cases items with
  | nil =>
    obtain rfl : taken = [] := List.map_eq_nil_iff.mp derived
    rfl
  | cons item items => exact readParams_of_readItems (readItems_of_tokens stop [] derived admitted span)

theorem exists_trees_of_readParams {found : List Ty × List KeywordParam}
    (read : readParams stop lexemes = .ok (found, rest)) :
    ∃ taken, ∃ items : List ItemTree, lexemes = taken ++ rest ∧ tokensOf taken = separated items ∧ Admitted [] items ∧
      found = (items.filterMap ItemTree.param?, items.filterMap ItemTree.kwd?) := by
  unfold readParams at read
  split at read
  · cases read
    exact ⟨[], [], rfl, rfl, trivial, rfl⟩
  · obtain ⟨taken, item, items, split, derived, admitted, found⟩ := exists_trees_of_readItems read
    exact ⟨taken, item :: items, split, derived, admitted, found⟩

/-! ## Signatures -/

theorem take_eq_ok_iff {t : Token} {spelling : String} :
    take stop t spelling lexemes = .ok rest ↔ ∃ span, lexemes = ⟨t, span⟩ :: rest := by
  match lexemes with
  | [] => simp [take]
  | ⟨token, span⟩ :: behind =>
    by_cases same : token = t
    · simp [take, same]
    · simp [take, same]

/-- A reader of signatures takes a whole derivation off the front. -/
theorem readSignature_of_tokens (stop : Nat) {d : SignatureTree} (derived : tokensOf taken = d.tokens)
    (ends : Ends rest) : readSignature stop (taken ++ rest) = .ok (d.signature, rest) := by
  obtain ⟨span, inside, rfl, derived'⟩ := tokensOf_eq_cons_iff.mp derived
  obtain ⟨params, behind, rfl, items, closed⟩ := tokensOf_eq_append_iff.mp derived'
  obtain ⟨span', arrowed, rfl, pointed⟩ := tokensOf_eq_cons_iff.mp closed
  obtain ⟨span'', ret, rfl, result⟩ := tokensOf_eq_cons_iff.mp pointed
  have admitted : Admitted [] d.items := admitted_nil_iff.mpr ⟨d.ordered, d.distinct⟩
  simp only [readSignature, List.cons_append, List.append_assoc, take_eq_ok_iff.mpr ⟨_, rfl⟩, bind, Except.bind,
    readParams_of_tokens stop items admitted, readType_of_tokens stop result ends]
  rfl

/-- What a reader of signatures takes is a derivation of the signature that it returns. -/
theorem exists_tree_of_readSignature {s : Signature} (read : readSignature stop lexemes = .ok (s, rest)) :
    ∃ taken, ∃ d : SignatureTree, lexemes = taken ++ rest ∧ tokensOf taken = d.tokens ∧ d.signature = s := by
  obtain ⟨inside, opened, read⟩ := bind_eq_ok_iff.mp read
  obtain ⟨⟨found, closed⟩, items, read⟩ := bind_eq_ok_iff.mp read
  obtain ⟨arrowed, close, read⟩ := bind_eq_ok_iff.mp read
  obtain ⟨result, arrow, read⟩ := bind_eq_ok_iff.mp read
  obtain ⟨⟨ret, behind⟩, last, same⟩ := bind_eq_ok_iff.mp read
  cases same
  obtain ⟨span, rfl⟩ := take_eq_ok_iff.mp opened
  obtain ⟨span', rfl⟩ := take_eq_ok_iff.mp close
  obtain ⟨span'', rfl⟩ := take_eq_ok_iff.mp arrow
  obtain ⟨params, trees, rfl, derived, admitted, rfl⟩ := exists_trees_of_readParams items
  obtain ⟨taken, d, rfl, derived', rfl⟩ := exists_tree_of_readType last
  obtain ⟨ordered, distinct⟩ := admitted_nil_iff.mp admitted
  refine ⟨⟨.openParen, span⟩ :: (params ++ ⟨.closeParen, span'⟩ :: ⟨.arrow, span''⟩ :: taken),
    ⟨trees, ordered, distinct, d⟩, by simp, ?_, rfl⟩
  rw [SignatureTree.tokens, ← derived, ← derived']
  simp [tokensOf]

/-! ## Whole sequences -/

theorem bind_finish_eq_ok_iff {α : Type} {read : Except SyntaxError (α × List Lexeme)} {a : α} :
    (read >>= finish) = .ok a ↔ read = .ok (a, []) := by
  match read with
  | .error e => simp [bind, Except.bind]
  | .ok (found, []) => simp [bind, Except.bind, finish]
  | .ok (found, _ :: _) => simp [bind, Except.bind, finish]

theorem exists_lexemes (tokens : List Token) : ∃ lexemes, tokensOf lexemes = tokens :=
  ⟨tokens.map fun t => ⟨t, 0, 0⟩, by simp [tokensOf, Function.comp_def]⟩

section Whole

variable {α δ : Type} {read : List Lexeme → Except SyntaxError (α × List Lexeme)} {tokens : δ → List Token}
  {meaning : δ → α}
  (complete : ∀ {d lexemes}, tokensOf lexemes = tokens d → read lexemes = .ok (meaning d, []))
include complete

/-- No sequence is derived twice: a reader comes to one result, and the result says which derivation it was. -/
theorem tokens_injective_of_complete (injective : Function.Injective meaning) : Function.Injective tokens := by
  intro d d' same
  obtain ⟨lexemes, derived⟩ := exists_lexemes (tokens d)
  have found := complete derived
  rw [complete (derived.trans same)] at found
  exact injective (congrArg Prod.fst (Except.ok.inj found)).symm

theorem finish_eq_ok_iff_derives (sound : ∀ {a rest}, read lexemes = .ok (a, rest) →
      ∃ taken, ∃ d, lexemes = taken ++ rest ∧ tokensOf taken = tokens d ∧ meaning d = a) {a : α} :
    (read lexemes >>= finish) = .ok a ↔ ∃ d, tokens d = tokensOf lexemes ∧ meaning d = a := by
  rw [bind_finish_eq_ok_iff]
  constructor
  · intro found
    obtain ⟨taken, d, rfl, derived, same⟩ := sound found
    exact ⟨d, by rw [List.append_nil, derived], same⟩
  · rintro ⟨d, derived, rfl⟩
    exact complete derived.symm

end Whole

theorem readType_of_all_tokens (stop : Nat) {d : TypeTree} (derived : tokensOf lexemes = d.tokens) :
    readType stop lexemes = .ok (d.type, []) := by
  simpa using readType_of_tokens stop derived ends_nil

theorem readSignature_of_all_tokens (stop : Nat) {d : SignatureTree} (derived : tokensOf lexemes = d.tokens) :
    readSignature stop lexemes = .ok (d.signature, []) := by
  simpa using readSignature_of_tokens stop derived ends_nil

theorem TypeTree.tokens_injective : Function.Injective TypeTree.tokens :=
  tokens_injective_of_complete (readType_of_all_tokens 0) TypeTree.type_injective

theorem SignatureTree.tokens_injective : Function.Injective SignatureTree.tokens :=
  tokens_injective_of_complete (readSignature_of_all_tokens 0) SignatureTree.signature_injective

theorem readType_finish_eq_ok_iff {t : Ty} :
    (readType stop lexemes >>= finish) = .ok t ↔ ∃ d : TypeTree, d.tokens = tokensOf lexemes ∧ d.type = t :=
  finish_eq_ok_iff_derives (readType_of_all_tokens stop) exists_tree_of_readType

theorem readSignature_finish_eq_ok_iff {s : Signature} :
    (readSignature stop lexemes >>= finish) = .ok s ↔
      ∃ d : SignatureTree, d.tokens = tokensOf lexemes ∧ d.signature = s :=
  finish_eq_ok_iff_derives (readSignature_of_all_tokens stop) exists_tree_of_readSignature

theorem parse_type_eq_ok_iff {source : String} {t : Ty} :
    Ty.parse source = .ok t ↔
      ∃ lexemes, Lexeme.scan source = .ok lexemes ∧ ∃ d : TypeTree, d.tokens = tokensOf lexemes ∧ d.type = t := by
  rw [Ty.parse, bind_eq_ok_iff]
  exact exists_congr fun lexemes => and_congr_right fun _ => readType_finish_eq_ok_iff

theorem parse_signature_eq_ok_iff {source : String} {s : Signature} :
    Signature.parse source = .ok s ↔
      ∃ lexemes, Lexeme.scan source = .ok lexemes ∧
        ∃ d : SignatureTree, d.tokens = tokensOf lexemes ∧ d.signature = s := by
  rw [Signature.parse, bind_eq_ok_iff]
  exact exists_congr fun lexemes => and_congr_right fun _ => readSignature_finish_eq_ok_iff

/-- A sequence of tokens is read as a signature, or as a type, just if the grammar derives that from it, a text
is parsed as what its tokens are read as, and no sequence has two derivations. -/
theorem reads_iff_derives :
    (∀ stop lexemes s, (readSignature stop lexemes >>= finish) = .ok s ↔
      ∃ d : SignatureTree, d.tokens = tokensOf lexemes ∧ d.signature = s) ∧
    (∀ stop lexemes t, (readType stop lexemes >>= finish) = .ok t ↔
      ∃ d : TypeTree, d.tokens = tokensOf lexemes ∧ d.type = t) ∧
    (∀ source s, Signature.parse source = .ok s ↔ ∃ lexemes, Lexeme.scan source = .ok lexemes ∧
      ∃ d : SignatureTree, d.tokens = tokensOf lexemes ∧ d.signature = s) ∧
    (∀ source t, Ty.parse source = .ok t ↔ ∃ lexemes, Lexeme.scan source = .ok lexemes ∧
      ∃ d : TypeTree, d.tokens = tokensOf lexemes ∧ d.type = t) ∧
    (∀ d d' : SignatureTree, d.tokens = d'.tokens → d = d') ∧
    (∀ d d' : TypeTree, d.tokens = d'.tokens → d = d') :=
  ⟨fun _ _ _ => readSignature_finish_eq_ok_iff, fun _ _ _ => readType_finish_eq_ok_iff,
    fun _ _ => parse_signature_eq_ok_iff, fun _ _ => parse_type_eq_ok_iff,
    fun _ _ same => SignatureTree.tokens_injective same, fun _ _ same => TypeTree.tokens_injective same⟩

/-- The derivation of `(Dims... * T, n: ?int64) -> T`. -/
def optionalKeywordTree : SignatureTree where
  items := [.positional (.named ⟨"Dims", rfl⟩ (.typeVar ⟨"T", rfl⟩ (by decide))), .keyword "n" true (.kind (.int .w64))]
  ordered := List.pairwise_pair.mpr fun _ => rfl
  distinct := List.nodup_singleton "n"
  ret := .typeVar ⟨"T", rfl⟩ (by decide)

/-- Its tokens are read as its signature, and derived in no other way. -/
theorem reads_iff_derives_optional_keyword :
    optionalKeywordTree.tokens = [.openParen, .ident "Dims", .ellipsis, .star, .ident "T", .comma, .ident "n", .colon,
      .question, .ident "int64", .closeParen, .arrow, .ident "T"] ∧
    (readSignature 30 (optionalKeywordTree.tokens.map fun t => ⟨t, 0, 0⟩) >>= finish) =
      .ok ⟨[.ellipsis (some "Dims") (.typeVar "T")], [⟨"n", .scalar (.int .w64), true⟩], .typeVar "T"⟩ ∧
    ∀ d : SignatureTree, d.tokens = optionalKeywordTree.tokens → d = optionalKeywordTree :=
  ⟨rfl, (reads_iff_derives.1 30 _ _).mpr ⟨optionalKeywordTree, rfl, rfl⟩,
    fun d same => reads_iff_derives.2.2.2.2.1 d optionalKeywordTree same⟩

end ArrayCall.Grammar
