import ArrayCall.Proofs.Grammar.Spelling

/-!
# Texts divided into tokens

A text is made of tokens and of blanks between them, up to its end or up to the first piece that is no token.

* `Lexeme.Tiled`: a text divided in this way, each token with the bytes that it was written in. What a division
  says of these bytes: each token stands there (`Tiled.member`), one behind the other (`Tiled.ordered`), with
  nothing but blanks between them (`Tiled.covered`).
* `Lexeme.Unreadable`: a piece of text that is no token, though no blank either.
* `Lexeme.exists_tiled`: every text is divided up to its end or up to such a piece. The reader finds the division
  (`Lexeme.scanFrom_eq_ok_iff`) or that piece (`Lexeme.scanFrom_eq_error_iff`).
* `Lexeme.Tiled.spells_insert`: blanks may be put between tokens, wherever one ends or begins.
-/

namespace ArrayCall

/-- The first byte behind a span. -/
def Span.stop (span : Span) : Nat := span.start + span.length

@[simp] theorem Span.stop_mk (start length : Nat) : (Span.mk start length).stop = start + length := rfl

namespace Lexeme

open Grammar (tokensOf tokensOf_append)

variable {c : Char} {front middle behind text blanks more rest fragment : List Char} {t : Token} {tokens : List Token}
  {fault : SyntaxFault} {start byte : Nat} {lexemes : List Lexeme} {e : SyntaxError}

/-! ## Bytes -/

@[simp] theorem byteLength_nil : byteLength [] = 0 := rfl

@[simp] theorem byteLength_cons (c : Char) (rest : List Char) : byteLength (c :: rest) = c.utf8Size + byteLength rest :=
  rfl

@[simp] theorem byteLength_append (front behind : List Char) :
    byteLength (front ++ behind) = byteLength front + byteLength behind := by
  induction front with
  | nil => simp
  | cons c front inductionHypothesis => simp [inductionHypothesis, Nat.add_assoc]

theorem byteLength_eq_zero_iff : byteLength text = 0 ↔ text = [] := by
  cases text with
  | nil => simp
  | cons c more => simp [Nat.ne_of_gt c.utf8Size_pos]

theorem utf8ByteSize_ofList (cs : List Char) : (String.ofList cs).utf8ByteSize = byteLength cs := by
  induction cs with
  | nil => rfl
  | cons c cs inductionHypothesis =>
    rw [String.ofList_cons, String.utf8ByteSize_append, String.utf8ByteSize_singleton,
      inductionHypothesis, byteLength_cons]

theorem byteLength_toList (source : String) : byteLength source.toList = source.utf8ByteSize := by
  rw [← utf8ByteSize_ofList, String.ofList_toList]

theorem utf8Size_of_isBlank (blank : isBlank c) : c.utf8Size = 1 := by
  obtain rfl | rfl | rfl | rfl := isBlank_iff.mp blank <;> rfl

/-! ## Divided texts -/

/-- The text from byte `start` on, as blanks and tokens: each token with the bytes that it is written in, and as long
as it can be in front of the text `behind`. -/
inductive Tiled (behind : List Char) : Nat → List Char → List Lexeme → Prop where
  | nil {start : Nat} : Tiled behind start [] []
  | blank {c : Char} {front : List Char} {start : Nat} {lexemes : List Lexeme} (blank : isBlank c)
      (later : Tiled behind (start + byteLength [c]) front lexemes) : Tiled behind start (c :: front) lexemes
  | token {t : Token} {text front : List Char} {start : Nat} {lexemes : List Lexeme} (written : t.WrittenAs text)
      (ends : ∀ d ∈ (front ++ behind).head?, t.isExtendedBy d = false)
      (later : Tiled behind (start + byteLength text) front lexemes) :
      Tiled behind start (text ++ front) (⟨t, start, byteLength text⟩ :: lexemes)

/-- A piece of text in front of another one that is neither blank nor a token: digits and underscores that are no
size, all that there are at this place, or a character with which no token begins. -/
inductive Unreadable : List Char → List Char → SyntaxFault → Prop where
  | size {c : Char} {more behind : List Char} (digit : isDigit c) (parts : ∀ d ∈ more, isSizePart d)
      (ends : ∀ d ∈ behind.head?, isSizePart d = false) (none : ∀ n, ¬Token.SizeText (c :: more) n) :
      Unreadable (c :: more) behind .invalidSize
  | character {c : Char} {behind : List Char} (visible : isBlank c = false)
      (none : ∀ (t : Token) text, text <+: c :: behind → ¬t.WrittenAs text) :
      Unreadable [c] behind (.unexpectedCharacter c)

namespace Tiled

theorem member (tiled : Tiled behind start front lexemes) :
    ∀ l ∈ lexemes, ∃ before text after, front = before ++ text ++ after ∧
      l.span = ⟨start + byteLength before, byteLength text⟩ ∧ l.token.WrittenAs text ∧
      ∀ d ∈ (after ++ behind).head?, l.token.isExtendedBy d = false := by
  induction tiled with
  | nil => simp
  | @blank c front start lexemes _ _ inductionHypothesis =>
    intro l found
    obtain ⟨before, text, after, rfl, span, written⟩ := inductionHypothesis l found
    exact ⟨c :: before, text, after, rfl, by simpa [Nat.add_assoc] using span, written⟩
  | @token t text front start lexemes written ends _ inductionHypothesis =>
    refine List.forall_mem_cons.mpr ⟨⟨[], text, front, rfl, rfl, written, ends⟩, fun l found => ?_⟩
    obtain ⟨before, text', after, rfl, span, written'⟩ := inductionHypothesis l found
    exact ⟨text ++ before, text', after, by simp, by simpa [Nat.add_assoc] using span, written'⟩

theorem ordered (tiled : Tiled behind start front lexemes) :
    (lexemes.map span ++ [Span.mk (start + byteLength front) 0]).Pairwise fun a b => a.stop ≤ b.start := by
  induction tiled with
  | nil => simp
  | blank _ _ inductionHypothesis => simpa [Nat.add_assoc] using inductionHypothesis
  | token _ _ later inductionHypothesis =>
    rw [List.map_cons, List.cons_append, List.pairwise_cons]
    refine ⟨fun span found => ?_, by simpa [Nat.add_assoc] using inductionHypothesis⟩
    rw [List.mem_append, List.mem_map, List.mem_singleton] at found
    obtain ⟨l, found, rfl⟩ | rfl := found
    · obtain ⟨before, _, _, -, span, -⟩ := later.member l found
      rw [span]
      exact Nat.le_add_right ..
    · simp

theorem covered (tiled : Tiled behind start front lexemes) (begun : start ≤ byte)
    (inside : byte < start + byteLength front) (outside : ∀ l ∈ lexemes, byte < l.span.start ∨ l.span.stop ≤ byte) :
    ∃ before c after, front = before ++ c :: after ∧ start + byteLength before = byte ∧ isBlank c := by
  induction tiled with
  | nil => simp at inside; omega
  | @blank c front start lexemes blank later inductionHypothesis =>
    have one : byteLength [c] = 1 := by simp [utf8Size_of_isBlank blank]
    obtain rfl | further := Nat.eq_or_lt_of_le begun
    · exact ⟨[], c, front, rfl, rfl, blank⟩
    · obtain ⟨before, d, after, rfl, place, blank'⟩ :=
        inductionHypothesis (by omega) (by simpa [Nat.add_assoc] using inside) outside
      exact ⟨c :: before, d, after, rfl, by simpa [Nat.add_assoc] using place, blank'⟩
  | @token t text front start lexemes _ _ _ inductionHypothesis =>
    obtain ⟨here, others⟩ := List.forall_mem_cons.mp outside
    simp only [Span.stop_mk] at here
    have further : start + byteLength text ≤ byte := by omega
    obtain ⟨before, d, after, rfl, place, blank⟩ :=
      inductionHypothesis further (by simpa [Nat.add_assoc] using inside) others
    exact ⟨text ++ before, d, after, by simp, by simpa [Nat.add_assoc] using place, blank⟩

/-! ## Blanks between tokens -/

/-- A divided text is cut at a place that is inside none of its tokens. -/
theorem cut {cs : List Char} (tiled : Tiled behind start cs lexemes) (parts : cs = front ++ middle)
    (outside : ∀ l ∈ lexemes, start + byteLength front ≤ l.span.start ∨ l.span.stop ≤ start + byteLength front) :
    ∃ before after, lexemes = before ++ after ∧ Tiled (middle ++ behind) start front before ∧
      Tiled behind (start + byteLength front) middle after := by
  induction tiled generalizing front with
  | nil =>
    obtain ⟨rfl, rfl⟩ := List.append_eq_nil_iff.mp parts.symm
    exact ⟨[], [], rfl, .nil, .nil⟩
  | @blank c cs start lexemes blank later inductionHypothesis =>
    cases front with
    | nil =>
      cases parts
      exact ⟨[], lexemes, rfl, .nil, .blank blank later⟩
    | cons d front =>
      cases parts
      obtain ⟨before, after, rfl, first, second⟩ :=
        inductionHypothesis rfl (by simpa [Nat.add_assoc] using outside)
      exact ⟨before, after, rfl, .blank blank first, by simpa [Nat.add_assoc] using second⟩
  | @token t text cs start lexemes written ends later inductionHypothesis =>
    obtain ⟨here, others⟩ := List.forall_mem_cons.mp outside
    have beyond (front' : List Char) (same : front = text ++ front') (parts' : cs = front' ++ middle) :
        ∃ before after, ⟨t, start, byteLength text⟩ :: lexemes = before ++ after ∧
          Tiled (middle ++ behind) start front before ∧ Tiled behind (start + byteLength front) middle after := by
      subst same
      obtain ⟨before, after, rfl, first, second⟩ :=
        inductionHypothesis parts' (by simpa [Nat.add_assoc] using others)
      refine ⟨_ :: before, after, rfl, .token written ?_ first, by simpa [Nat.add_assoc] using second⟩
      rwa [← List.append_assoc, ← parts']
    obtain ⟨front', same, parts'⟩ | ⟨tail, same, rfl⟩ := List.append_eq_append_iff.mp parts
    · exact beyond front' same parts'
    simp only [same, Span.stop_mk, byteLength_append] at here
    obtain before | after : byteLength front = 0 ∨ byteLength tail = 0 := by omega
    · rw [byteLength_eq_zero_iff] at before
      subst before same
      exact ⟨[], _, rfl, .nil, .token written ends later⟩
    · rw [byteLength_eq_zero_iff] at after
      subst after
      exact beyond [] (by simpa using same.symm) rfl

/-- A token does not go on with a blank. -/
theorem gap (tiled : Tiled behind start front lexemes) (blank : ∀ c ∈ blanks, isBlank c) :
    Tiled (blanks ++ behind) start front lexemes := by
  induction tiled with
  | nil => exact .nil
  | blank here _ inductionHypothesis => exact .blank here inductionHypothesis
  | @token t _ front _ _ written ends _ inductionHypothesis =>
    refine .token written (fun d first => ?_) inductionHypothesis
    cases front with
    | cons => exact ends d first
    | nil =>
      cases blanks with
      | nil => exact ends d first
      | cons c more =>
        cases first
        exact Token.isExtendedBy_eq_false (not_isNamePart_of_isBlank (blank d (.head _)))

theorem spells (tiled : Tiled behind start front lexemes) (later : Spells behind tokens) :
    Spells (front ++ behind) (tokensOf lexemes ++ tokens) := by
  induction tiled with
  | nil => exact later
  | blank blank _ inductionHypothesis => exact .blank blank inductionHypothesis
  | token written ends _ inductionHypothesis =>
    rw [List.append_assoc]
    exact .written written ends inductionHypothesis

theorem spells_insert (tiled : Tiled [] start (front ++ middle) lexemes)
    (outside : ∀ l ∈ lexemes, start + byteLength front ≤ l.span.start ∨ l.span.stop ≤ start + byteLength front)
    (blank : ∀ c ∈ blanks, isBlank c) : Spells (front ++ blanks ++ middle) (tokensOf lexemes) := by
  obtain ⟨before, after, rfl, first, second⟩ := tiled.cut rfl outside
  have middle' : Spells middle (tokensOf after) := by simpa using second.spells .nil
  have padded : Spells (blanks ++ middle) (tokensOf after) := by
    clear first
    induction blanks with
    | nil => exact middle'
    | cons c blanks inductionHypothesis =>
      obtain ⟨here, others⟩ := List.forall_mem_cons.mp blank
      exact .blank here (inductionHypothesis others)
  rw [List.append_nil] at first
  rw [List.append_assoc, tokensOf_append]
  exact (first.gap blank).spells padded

end Tiled

/-! ## The reader -/

theorem Tiled.scanFrom_append (tiled : Tiled behind start front lexemes) :
    scanFrom start (front ++ behind) = (scanFrom (start + byteLength front) behind).map (lexemes ++ ·) := by
  induction tiled with
  | @nil start =>
    rw [List.nil_append, byteLength_nil, Nat.add_zero]
    cases scanFrom start behind <;> rfl
  | blank blank _ inductionHypothesis =>
    rw [List.cons_append, scanFrom_of_blank _ (front_of_isBlank blank _), inductionHypothesis]
    simp [Nat.add_assoc]
  | @token t text front start _ written ends _ inductionHypothesis =>
    obtain ⟨c, more, rfl⟩ := written.exists_cons
    rw [List.append_assoc, List.cons_append, scanFrom_of_token _ (front_of_writtenAs written ends), inductionHypothesis,
      byteLength_append, Nat.add_assoc]
    cases scanFrom _ behind <;> rfl

theorem not_writtenAs_of_punctuation? (number : isDigit c = false) (name : isNameStart c = false)
    (none : punctuation? c rest = none) (found : text <+: c :: rest) : ¬t.WrittenAs text := by
  intro written
  obtain ⟨_, _, rfl⟩ := written.exists_cons
  obtain ⟨behind, same⟩ := found
  cases same
  cases t with
  | size n =>
    obtain ⟨_, ⟨⟩, digit⟩ := written.start
    exact absurd digit (by simp [number])
  | ident identifier =>
    obtain ⟨valid, spelled⟩ := written
    obtain ⟨_, _, spelled', first, -⟩ := exists_cons_of_isIdentifier valid
    cases spelled.trans spelled'
    exact absurd first (by simp [name])
  | _ =>
    cases written
    cases none

/-- A digit is a size by itself. -/
theorem sizeText_singleton (digit : isDigit c) : Token.SizeText [c] (c.toNat - '0'.toNat) := by
  have other : c ≠ '_' := by
    rintro rfl
    exact absurd digit (by decide)
  have below : c.toNat ≤ '9'.toNat := of_decide_eq_true (Bool.and_eq_true_iff.mp digit).2
  refine ⟨⟨c, rfl, digit⟩, by simp [isSizePart, digit], fun twice => ?_, by simpa using other, ?_, ?_⟩
  · simpa using twice.length_le
  · simp [other, Nat.ofDigitChars_cons]
  · exact Nat.lt_of_le_of_lt (Nat.sub_le_sub_right below _) (by decide)

theorem front_of_unreadable (unreadable : Unreadable (c :: more) rest fault) :
    Lexeme.front c (more ++ rest) = (.fault fault, more, rest) := by
  cases unreadable with
  | size digit parts ends none =>
    obtain ⟨taken, dropped⟩ := takeWhile_append_of_head? parts ends
    have noSize : sizeValue? (c :: more) = .none := by
      rw [Option.eq_none_iff_forall_ne_some]
      exact fun n value => none n ((sizeValue?_eq_some_iff digit parts).mp value)
    simp only [Lexeme.front, not_isBlank_of_isDigit digit, digit, Bool.false_eq_true, if_false, if_true]
    rw [taken, dropped, noSize]
  | character visible none =>
    have number : isDigit c = false := by
      by_contra digit
      exact none (.size _) [c] ⟨rest, rfl⟩ (sizeText_singleton (by simpa using digit))
    have name : isNameStart c = false := by
      by_contra first
      refine none (.ident (String.ofList [c])) [c] ⟨rest, rfl⟩ ⟨?_, String.toList_ofList.symm⟩
      simpa [isIdentifier] using first
    have sign : punctuation? c rest = .none := by
      rw [Option.eq_none_iff_forall_ne_some]
      rintro ⟨t, more, behind⟩ found
      exact none t (c :: more) ⟨behind, by rw [List.cons_append, append_of_punctuation? found]⟩
        (writtenAs_of_punctuation? found).1
    simp [Lexeme.front, visible, number, name, sign]

theorem unreadable_of_front {cs : List Char} (found : Lexeme.front c cs = (.fault fault, more, rest)) :
    Unreadable (c :: more) rest fault := by
  unfold Lexeme.front at found
  split at found
  · cases found
  next visible =>
    rw [Bool.not_eq_true] at visible
    split at found
    next digit =>
      dsimp only at found
      split at found
      · cases found
      next noSize =>
        cases found
        refine .size digit forall_mem_takeWhile head?_dropWhile_eq_false fun n size => ?_
        rw [(sizeValue?_eq_some_iff digit forall_mem_takeWhile).mpr size] at noSize
        cases noSize
    next number =>
      split at found
      · cases found
      next name =>
        split at found
        · cases found
        next sign =>
          cases found
          exact .character visible fun t text =>
            not_writtenAs_of_punctuation? (by simpa using number) (by simpa using name) sign

/-- A text is divided up to its end or up to its first unreadable piece. -/
theorem exists_tiled (start : Nat) (cs : List Char) :
    ∃ front behind lexemes, cs = front ++ behind ∧ Tiled behind start front lexemes ∧
      (behind = [] ∨ ∃ fragment rest fault, behind = fragment ++ rest ∧ Unreadable fragment rest fault) := by
  -- By the recursion of the reader, whose every step takes a blank or a token off the front or finds neither.
  fun_induction scanFrom start cs with
  | case1 start => exact ⟨[], [], [], rfl, .nil, .inl rfl⟩
  | case2 start c cs rest length found inductionHypothesis =>
    obtain ⟨front, behind, lexemes, parts, tiled, stops⟩ := inductionHypothesis
    obtain ⟨blank, empty, same⟩ := of_front_eq_blank (Prod.ext found rfl)
    refine ⟨c :: front, behind, lexemes, ?_, .blank blank ?_, stops⟩
    · rw [List.cons_append, ← parts]
      exact congrArg _ same.symm
    · rwa [← empty]
  | case3 start c cs rest length t found inductionHypothesis =>
    obtain ⟨front, behind, lexemes, parts, tiled, stops⟩ := inductionHypothesis
    obtain ⟨written, ends⟩ := writtenAs_of_front (Prod.ext found rfl)
    refine ⟨_, behind, _, ?_, .token written (by rwa [← parts]) tiled, stops⟩
    rw [List.append_assoc, ← parts, List.cons_append, front_append]
  | case4 start c cs length fault found =>
    refine ⟨[], c :: cs, [], rfl, .nil, .inr ⟨_, _, fault, ?_, unreadable_of_front (Prod.ext found rfl)⟩⟩
    rw [List.cons_append, front_append]

theorem scanFrom_of_unreadable (start : Nat) (unreadable : Unreadable fragment rest fault) :
    scanFrom start (fragment ++ rest) = .error ⟨fault, start, byteLength fragment⟩ := by
  obtain ⟨c, more, rfl⟩ : ∃ c more, fragment = c :: more := by cases unreadable <;> exact ⟨_, _, rfl⟩
  rw [List.cons_append, scanFrom, front_of_unreadable unreadable]

/-- The reader succeeds just on texts that are divided up to their ends, and finds the tokens of the division. -/
theorem scanFrom_eq_ok_iff {cs : List Char} : scanFrom start cs = .ok lexemes ↔ Tiled [] start cs lexemes := by
  have complete {lexemes : List Lexeme} (tiled : Tiled [] start cs lexemes) : scanFrom start cs = .ok lexemes := by
    have read := tiled.scanFrom_append
    rw [List.append_nil] at read
    rw [read, scanFrom]
    simp [Except.map]
  refine ⟨fun scanned => ?_, complete⟩
  obtain ⟨front, behind, found, rfl, tiled, rfl | ⟨fragment, rest, fault, rfl, unreadable⟩⟩ := exists_tiled start cs
  · rw [List.append_nil] at complete scanned ⊢
    cases (complete tiled).symm.trans scanned
    exact tiled
  · rw [tiled.scanFrom_append, scanFrom_of_unreadable _ unreadable] at scanned
    cases scanned

/-- It fails just at the first unreadable piece. -/
theorem scanFrom_eq_error_iff {cs : List Char} :
    scanFrom start cs = .error e ↔ ∃ front fragment rest lexemes, cs = front ++ (fragment ++ rest) ∧
      Tiled (fragment ++ rest) start front lexemes ∧ Unreadable fragment rest e.fault ∧
      e.span = ⟨start + byteLength front, byteLength fragment⟩ := by
  constructor
  · intro failed
    obtain ⟨front, behind, found, rfl, tiled, rfl | ⟨fragment, rest, fault, rfl, unreadable⟩⟩ := exists_tiled start cs
    · rw [List.append_nil, scanFrom_eq_ok_iff.mpr tiled] at failed
      cases failed
    · rw [tiled.scanFrom_append, scanFrom_of_unreadable _ unreadable] at failed
      cases failed
      exact ⟨front, fragment, rest, found, rfl, tiled, unreadable, rfl⟩
  · rintro ⟨front, fragment, rest, found, rfl, tiled, unreadable, span⟩
    rw [tiled.scanFrom_append, scanFrom_of_unreadable _ unreadable, ← span]
    rfl

end Lexeme

end ArrayCall
