import ArrayCall.Proofs.Grammar.Tiling

/-!
# Parts of texts

The tokens of a text lie in it one behind the other, blanks between them, and what an error is about is a part
of the text: a token, the end of the text, or the first piece of it that is no token.

* `Lexeme.Covers`: what the bytes of tokens say about a text.
* `Grammar.Blames`: an error about one of the tokens that a reader was given, or about the end of the text. All
  errors of the readers of types and signatures are of this sort (`Grammar.fails_readType`,
  `Grammar.fails_readSignature`).
* `Grammar.spans_point_into_text`: all of it, for whole texts.
-/

namespace ArrayCall

/-- The span of no bytes at the end of a text. -/
def endOf (source : String) : Span := ⟨source.utf8ByteSize, 0⟩

namespace Lexeme

open Grammar (tokensOf)

variable {source : String} {lexemes : List Lexeme} {e : SyntaxError}

/-- What the tokens of a text and their bytes say about it: each is written in the bytes of its span, and does not go
on behind them, the spans come one behind the other in front of the end, and the bytes outside them are blanks. -/
structure Covers (source : String) (lexemes : List Lexeme) : Prop where
  written : ∀ l ∈ lexemes, ∃ before text after : String, source = before ++ text ++ after ∧
    l.span = ⟨before.utf8ByteSize, text.utf8ByteSize⟩ ∧ l.token.WrittenAs text.toList ∧
    ∀ c ∈ after.toList.head?, l.token.isExtendedBy c = false
  nonempty : ∀ l ∈ lexemes, 0 < l.span.length
  ordered : (lexemes.map span ++ [endOf source]).Pairwise fun a b => a.stop ≤ b.start
  blank : ∀ byte < source.utf8ByteSize, (∀ l ∈ lexemes, byte < l.span.start ∨ l.span.stop ≤ byte) →
    ∃ (before : String) (c : Char) (after : String), source = before ++ String.singleton c ++ after ∧
      before.utf8ByteSize = byte ∧ isBlank c

/-- The error is about the first piece of the text that is no token, though tokens and blanks stand in front of it. -/
structure StopsAt (source : String) (e : SyntaxError) (front fragment rest : String) : Prop where
  parts : source = front ++ fragment ++ rest
  read : ∃ lexemes, Tiled (fragment.toList ++ rest.toList) 0 front.toList lexemes
  unreadable : Unreadable fragment.toList rest.toList e.fault
  span : e.span = ⟨front.utf8ByteSize, fragment.utf8ByteSize⟩

theorem eq_append_of_toList {front middle behind : List Char} (parts : source.toList = front ++ middle ++ behind) :
    source = String.ofList front ++ String.ofList middle ++ String.ofList behind := by
  rw [← String.toList_inj, parts]
  simp

theorem covers_of_scan (scanned : scan source = .ok lexemes) : Covers source lexemes := by
  have tiled := scanFrom_eq_ok_iff.mp scanned
  refine ⟨fun l found => ?_, fun l found => ?_, ?_, fun byte inside outside => ?_⟩
  · obtain ⟨before, text, after, parts, span, written, ends⟩ := tiled.member l found
    refine ⟨_, _, _, eq_append_of_toList parts, ?_, ?_, ?_⟩
    · rw [span, utf8ByteSize_ofList, utf8ByteSize_ofList, Nat.zero_add]
    · rwa [String.toList_ofList]
    · rwa [String.toList_ofList, ← List.append_nil after]
  · obtain ⟨_, text, _, -, span, written, -⟩ := tiled.member l found
    obtain ⟨c, more, rfl⟩ := written.exists_cons
    rw [span]
    exact Nat.add_pos_left c.utf8Size_pos _
  · have ordered := tiled.ordered
    rwa [Nat.zero_add, byteLength_toList] at ordered
  · rw [← byteLength_toList] at inside
    obtain ⟨before, c, after, parts, place, blank⟩ := tiled.covered (Nat.zero_le _) (by simpa using inside) outside
    refine ⟨String.ofList before, c, String.ofList after, ?_, ?_, blank⟩
    · rw [String.singleton_eq_ofList]
      exact eq_append_of_toList (by simpa using parts)
    · rw [utf8ByteSize_ofList, ← place, Nat.zero_add]

theorem scan_insert (scanned : scan source = .ok lexemes) {front blanks behind : String}
    (parts : source = front ++ behind) (blank : ∀ c ∈ blanks.toList, isBlank c)
    (outside : ∀ l ∈ lexemes, front.utf8ByteSize ≤ l.span.start ∨ l.span.stop ≤ front.utf8ByteSize) :
    ∃ lexemes', scan (front ++ blanks ++ behind) = .ok lexemes' ∧ tokensOf lexemes' = tokensOf lexemes := by
  subst parts
  have tiled := scanFrom_eq_ok_iff.mp scanned
  rw [String.toList_append] at tiled
  simp only [scan, String.toList_append]
  refine tiled.spells_insert ?_ blank 0
  simpa [byteLength_toList] using outside

theorem stopsAt_of_scan (failed : scan source = .error e) :
    ∃ front fragment rest, StopsAt source e front fragment rest := by
  obtain ⟨front, fragment, rest, lexemes, parts, tiled, unreadable, span⟩ := scanFrom_eq_error_iff.mp failed
  refine ⟨.ofList front, .ofList fragment, .ofList rest, ?_, ⟨lexemes, ?_⟩, ?_, ?_⟩
  · exact eq_append_of_toList (by simpa using parts)
  · simpa using tiled
  · simpa using unreadable
  · rw [span, utf8ByteSize_ofList, utf8ByteSize_ofList, Nat.zero_add]

theorem StopsAt.within {front fragment rest : String} (stops : StopsAt source e front fragment rest) :
    e.span.stop ≤ source.utf8ByteSize := by
  rw [stops.span, Span.stop_mk, stops.parts, String.utf8ByteSize_append, String.utf8ByteSize_append]
  exact Nat.le_add_right ..

theorem Covers.within (covers : Covers source lexemes) {span : Span} (found : span ∈ lexemes.map Lexeme.span) :
    span.stop ≤ source.utf8ByteSize :=
  (List.pairwise_append.mp covers.ordered).2.2 span found _ (.head _)

end Lexeme

namespace Grammar

/-! ## Errors of readers -/

/-- The error is about one of the tokens, or about the end of the text at byte `stop`. -/
def Blames (stop : Nat) (lexemes : List Lexeme) (e : SyntaxError) : Prop :=
  e.span ∈ lexemes.map Lexeme.span ∨ e.span = ⟨stop, 0⟩

variable {α : Type} {stop : Nat} {lexemes rest : List Lexeme} {l : Lexeme} {fault : SyntaxFault}
  {x : Except SyntaxError α}

theorem blames_mem (found : l ∈ lexemes) : Blames stop lexemes ⟨fault, l.span⟩ :=
  .inl (List.mem_map_of_mem found)

theorem blames_faultHere : Blames stop lexemes (faultHere stop lexemes fault) := by
  cases lexemes with
  | nil => exact .inr rfl
  | cons l rest => exact blames_mem (.head _)

/-- A reader that is given the tokens behind others blames one of these all the more. -/
theorem fails_of_suffix (behind : rest <:+ lexemes) (fails : Fails (Blames stop rest) x) :
    Fails (Blames stop lexemes) x := by
  intro e failed
  refine (fails e failed).imp_left fun found => ?_
  exact (behind.map Lexeme.span).subset found

theorem fails_take {token : Token} {spelling : String} :
    Fails (Blames stop lexemes) (take stop token spelling lexemes) := by
  unfold take
  split
  · split
    · exact fails_ok _
    · exact fails_error (blames_mem (.head _))
  · exact fails_error (.inr rfl)

theorem fails_readType : Fails (Blames stop lexemes) (readType stop lexemes) := by
  have inner (front : List Lexeme) {tail : List Lexeme} {make : Ty → Ty}
      (fails : Fails (Blames stop tail) (readType stop tail)) :
      Fails (Blames stop (front ++ tail)) (readType stop tail >>= fun r => .ok (make r.1, r.2)) :=
    fails_bind (fails_of_suffix (List.suffix_append ..) fails) fun _ _ => fails_ok _
  fun_induction readType stop lexemes with
  | case1 n span span' tail inductionHypothesis =>
    exact inner [⟨.size n, span⟩, ⟨.star, span'⟩] inductionHypothesis
  | case2 span span' tail inductionHypothesis =>
    exact inner [⟨.ellipsis, span⟩, ⟨.star, span'⟩] inductionHypothesis
  | case3 name span span' span'' tail _ inductionHypothesis =>
    exact inner [⟨.ident name, span⟩, ⟨.ellipsis, span'⟩, ⟨.star, span''⟩] inductionHypothesis
  | case5 name span span' tail _ inductionHypothesis =>
    exact inner [⟨.ident name, span⟩, ⟨.star, span'⟩] inductionHypothesis
  | case4 name span | case6 name span | case8 name span =>
    exact fails_error (blames_mem (l := ⟨.ident name, span⟩) (.head _))
  | case9 n span => exact fails_error (blames_mem (l := ⟨.size n, span⟩) (.head _))
  | case7 => exact fails_ok _
  | case10 => exact fails_error blames_faultHere

variable {params : List Ty} {kwds : List KeywordParam}

theorem fails_readItem : Fails (Blames stop lexemes) (readItem stop params kwds lexemes) := by
  unfold readItem
  split
  next name span tail found =>
    obtain ⟨span', rfl⟩ := eq_of_keywordItem? found
    split
    · exact fails_error (blames_mem (l := ⟨.ident name, span⟩) (.head _))
    · obtain ⟨question, split, -⟩ := exists_of_takeQuestion tail
      have behind : (takeQuestion tail).2 <:+ ⟨.ident name, span⟩ :: ⟨.colon, span'⟩ :: tail :=
        List.IsSuffix.trans ⟨question, split.symm⟩ ⟨[_, _], rfl⟩
      exact fails_bind (fails_of_suffix behind fails_readType) fun _ _ => fails_ok _
  next =>
    split
    · exact fails_bind fails_readType fun _ _ => fails_ok _
    · exact fails_error blames_faultHere

theorem fails_readItems : Fails (Blames stop lexemes) (readItems stop params kwds lexemes) := by
  fun_induction readItems stop params kwds lexemes with
  | case1 params kwds lexemes e failed => exact fails_error (fails_readItem e failed)
  | case2 params kwds lexemes items span tail read _ inductionHypothesis =>
    obtain ⟨taken, _, rfl, -⟩ := exists_tree_of_readItem read
    exact fails_of_suffix (List.suffix_append ..) (fails_of_suffix (List.suffix_cons ..) inductionHypothesis)
  | case3 => exact fails_ok _

theorem fails_readParams : Fails (Blames stop lexemes) (readParams stop lexemes) := by
  unfold readParams
  split
  · exact fails_ok _
  · exact fails_readItems

theorem fails_readSignature : Fails (Blames stop lexemes) (readSignature stop lexemes) := by
  refine fails_bind fails_take fun inside opened => ?_
  obtain ⟨span, rfl⟩ := take_eq_ok_iff.mp opened
  refine fails_of_suffix (List.suffix_cons ..) (fails_bind fails_readParams fun found read => ?_)
  obtain ⟨found, behind⟩ := found
  obtain ⟨taken, _, rfl, -⟩ := exists_trees_of_readParams read
  refine fails_of_suffix (List.suffix_append ..) (fails_bind fails_take fun arrow closed => ?_)
  obtain ⟨span', rfl⟩ := take_eq_ok_iff.mp closed
  refine fails_of_suffix (List.suffix_cons ..) (fails_bind fails_take fun ret pointed => ?_)
  obtain ⟨span'', rfl⟩ := take_eq_ok_iff.mp pointed
  exact fails_of_suffix (List.suffix_cons ..) (fails_bind fails_readType fun _ _ => fails_ok _)

theorem suffix_of_readType {t : Ty} (read : readType stop lexemes = .ok (t, rest)) : rest <:+ lexemes := by
  obtain ⟨taken, _, split, -⟩ := exists_tree_of_readType read
  exact ⟨taken, split.symm⟩

theorem suffix_of_readSignature {s : Signature} (read : readSignature stop lexemes = .ok (s, rest)) :
    rest <:+ lexemes := by
  obtain ⟨taken, _, split, -⟩ := exists_tree_of_readSignature read
  exact ⟨taken, split.symm⟩

theorem fails_finish {result : α × List Lexeme} : Fails (Blames stop result.2) (finish result) := by
  unfold finish
  split
  · exact fails_ok _
  next nonempty =>
    rw [nonempty]
    exact fails_error (blames_mem (.head _))

/-! ## Errors of parsing -/

section Parsing

open Lexeme

variable {source : String} {e : SyntaxError}

/-- What an error about a text can be about. -/
def PointsInto (source : String) (e : SyntaxError) : Prop :=
  e.span.stop ≤ source.utf8ByteSize ∧
    ((∃ lexemes, scan source = .ok lexemes ∧ (e.span ∈ lexemes.map Lexeme.span ∨ e.span = endOf source)) ∨
      scan source = .error e ∧ ∃ front fragment rest, StopsAt source e front fragment rest)

theorem pointsInto_of_scan (failed : scan source = .error e) : PointsInto source e := by
  obtain ⟨front, fragment, rest, stops⟩ := stopsAt_of_scan failed
  exact ⟨stops.within, .inr ⟨failed, front, fragment, rest, stops⟩⟩

theorem pointsInto_of_blames {lexemes : List Lexeme} (scanned : scan source = .ok lexemes)
    (blames : Blames source.utf8ByteSize lexemes e) : PointsInto source e := by
  refine ⟨?_, .inl ⟨lexemes, scanned, blames⟩⟩
  obtain token | ending := blames
  · exact (covers_of_scan scanned).within token
  · rw [ending]
    exact Nat.le_refl _

/-- A reader of tokens whose errors are about these reads texts with errors about parts of them. -/
theorem fails_parse {read : List Lexeme → Except SyntaxError (α × List Lexeme)}
    (fails : ∀ lexemes, Fails (Blames source.utf8ByteSize lexemes) (read lexemes))
    (suffix : ∀ {lexemes a rest}, read lexemes = .ok (a, rest) → rest <:+ lexemes) :
    Fails (PointsInto source) (scan source >>= fun lexemes => read lexemes >>= finish) := by
  refine fails_bind (fun e failed => pointsInto_of_scan failed) fun lexemes scanned e failed => ?_
  refine pointsInto_of_blames scanned (fails_bind (fails lexemes) (fun result took => ?_) e failed)
  exact fails_of_suffix (suffix took) fails_finish

/-- The tokens of a text cover it but for blanks, and more blanks may be put between them. An error of parsing points
to one of the tokens, to the end of the text or to the first piece of it that is no token. -/
theorem spans_point_into_text (source : String) :
    (∀ lexemes, scan source = .ok lexemes → Covers source lexemes ∧
      ∀ front blanks behind : String, source = front ++ behind → (∀ c ∈ blanks.toList, isBlank c) →
        (∀ l ∈ lexemes, front.utf8ByteSize ≤ l.span.start ∨ l.span.stop ≤ front.utf8ByteSize) →
        ∃ lexemes', scan (front ++ blanks ++ behind) = .ok lexemes' ∧ tokensOf lexemes' = tokensOf lexemes) ∧
    ∀ e, Ty.parse source = .error e ∨ Signature.parse source = .error e → PointsInto source e := by
  refine ⟨fun lexemes scanned => ⟨covers_of_scan scanned, fun front blanks behind parts blank outside => ?_⟩, ?_⟩
  · exact scan_insert scanned parts blank outside
  · rintro e (failed | failed)
    · exact fails_parse (fun _ => fails_readType) suffix_of_readType e failed
    · exact fails_parse (fun _ => fails_readSignature) suffix_of_readSignature e failed

/-- A size with a separator, with line feeds put behind it, and a letter that is no part of names. -/
theorem spans_point_into_text_of_separated_size :
    (∃ lexemes, scan "1_0 *\tT" = .ok lexemes ∧ Covers "1_0 *\tT" lexemes ∧
      ∃ lexemes', scan ("1_0" ++ "\r\n" ++ " *\tT") = .ok lexemes' ∧
        tokensOf lexemes' = [.size 10, .star, .ident "T"]) ∧
    Ty.parse "5 * é" = .error ⟨.unexpectedCharacter 'é', 4, 2⟩ ∧
      PointsInto "5 * é" ⟨.unexpectedCharacter 'é', 4, 2⟩ := by
  have scanned : scan "1_0 *\tT" = .ok [⟨.size 10, 0, 3⟩, ⟨.star, 4, 1⟩, ⟨.ident "T", 6, 1⟩] := by decide +kernel
  obtain ⟨covers, insert⟩ := (spans_point_into_text "1_0 *\tT").1 _ scanned
  have failed : Ty.parse "5 * é" = .error ⟨.unexpectedCharacter 'é', 4, 2⟩ := by decide +kernel
  exact ⟨⟨_, scanned, covers, insert "1_0" "\r\n" " *\tT" rfl (by simp [isBlank]) (by decide)⟩,
    failed, (spans_point_into_text "5 * é").2 _ (.inl failed)⟩

end Parsing

end Grammar

end ArrayCall
