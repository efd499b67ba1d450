import ArrayCall.Proofs.Grammar.Reading

/-!
# Texts and tokens

Which pieces of text stand for which tokens, and that the reader of texts finds these and no others.

* `Token.WrittenAs`: the forms of tokens. A size may be written with underscores; every token that has a form at
  all has its `Token.spelling`.
* `Lexeme.front_of_writtenAs`, `Lexeme.writtenAs_of_front`: the reader takes a token off the front of a text just
  if it is written there and what is behind it does not belong to it as well.
* `Lexeme.Spells`: a text is read as certain tokens, wherever it begins. Such a text is put together token by
  token (`Lexeme.Spells.written`, `Lexeme.Spells.token`), blanks between them.
-/

namespace ArrayCall

/-- Whether a text is one name. -/
def isIdentifier (name : String) : Bool :=
  match name.toList with
  | c :: cs => Lexeme.isNameStart c && cs.all Lexeme.isNamePart
  | [] => false

theorem isIdentifier_name (k : Kind) : isIdentifier k.name := by
  cases k with
  | int w => cases w <;> decide
  | uint w => cases w <;> decide
  | _ => decide

theorem exists_cons_of_isIdentifier {name : String} (identifier : isIdentifier name) :
    ∃ c more, name.toList = c :: more ∧ Lexeme.isNameStart c ∧ ∀ d ∈ more, Lexeme.isNamePart d := by
  rw [isIdentifier] at identifier
  split at identifier
  next c more spelled =>
    rw [Bool.and_eq_true, List.all_eq_true] at identifier
    exact ⟨c, more, spelled, identifier⟩
  next => cases identifier

namespace Token

/-- Whether there is a text for the token: not for a size beyond the limit, nor for a name that is none. -/
def isSpellable : Token → Bool
  | size n => n < Lexeme.sizeLimit
  | ident name => isIdentifier name
  | _ => true

def spelling : Token → String
  | arrow => "->"
  | ellipsis => "..."
  | star => "*"
  | comma => ","
  | colon => ":"
  | question => "?"
  | openParen => "("
  | closeParen => ")"
  | size n => toString n
  | ident name => name

/-- Whether a character behind the token would be read as part of it. -/
def isExtendedBy : Token → Char → Bool
  | size _ => Lexeme.isSizePart
  | ident _ => Lexeme.isNamePart
  | _ => fun _ => false

/-- Digits, single underscores between them, that denote a number below the limit. -/
structure SizeText (text : List Char) (n : Nat) : Prop where
  start : ∃ c ∈ text.head?, Lexeme.isDigit c
  parts : ∀ c ∈ text, Lexeme.isSizePart c
  single : ¬['_', '_'] <:+: text
  closed : text.getLast? ≠ some '_'
  value : Nat.ofDigitChars 10 (text.filter (· ≠ '_')) 0 = n
  small : n < Lexeme.sizeLimit

/-- Whether a piece of text, as a whole, stands for the token. -/
def WrittenAs : Token → List Char → Prop
  | size n, text => SizeText text n
  | ident name, text => isIdentifier name ∧ text = name.toList
  | t, text => text = t.spelling.toList

theorem isExtendedBy_eq_false {t : Token} {c : Char} (other : Lexeme.isNamePart c = false) :
    t.isExtendedBy c = false := by
  cases t with
  | size => simp_all [isExtendedBy, Lexeme.isSizePart, Lexeme.isNamePart, Lexeme.isNameStart]
  | ident => exact other
  | _ => rfl

variable {t : Token} {text : List Char}

theorem WrittenAs.isSpellable (written : t.WrittenAs text) : t.isSpellable := by
  cases t with
  | size n => exact decide_eq_true written.small
  | ident name => exact written.1
  | _ => rfl

theorem WrittenAs.exists_cons (written : t.WrittenAs text) : ∃ c more, text = c :: more := by
  cases t with
  | size n =>
    obtain ⟨c, first, -⟩ := written.start
    exact ⟨c, _, (List.cons_head?_tail first).symm⟩
  | ident name =>
    obtain ⟨identifier, rfl⟩ := written
    obtain ⟨c, more, spelled, -⟩ := exists_cons_of_isIdentifier identifier
    exact ⟨c, more, spelled⟩
  | _ =>
    cases written
    exact ⟨_, _, rfl⟩

end Token

namespace Lexeme

open Grammar (tokensOf)

/-! ## Characters -/

theorem isBlank_iff {c : Char} : isBlank c ↔ c = ' ' ∨ c = '\t' ∨ c = '\r' ∨ c = '\n' := by
  simp [isBlank, or_assoc]

theorem not_isNamePart_of_isBlank {c : Char} (blank : isBlank c) : isNamePart c = false := by
  obtain rfl | rfl | rfl | rfl := isBlank_iff.mp blank <;> rfl

theorem not_isBlank_of_isNamePart {c : Char} (part : isNamePart c) : isBlank c = false := by
  by_contra blank
  rw [not_isNamePart_of_isBlank (eq_true_of_ne_false blank)] at part
  cases part

theorem not_isBlank_of_isNameStart {c : Char} (start : isNameStart c) : isBlank c = false :=
  not_isBlank_of_isNamePart (Bool.or_eq_true_iff.mpr (.inl start))

theorem not_isBlank_of_isDigit {c : Char} (digit : isDigit c) : isBlank c = false :=
  not_isBlank_of_isNamePart (Bool.or_eq_true_iff.mpr (.inr digit))

/-- Digits stand before the letters and the underscore. -/
theorem not_isDigit_of_isNameStart {c : Char} (start : isNameStart c) : isDigit c = false := by
  by_contra digit
  simp only [isDigit, isNameStart, Bool.not_eq_false, Bool.or_eq_true, Bool.and_eq_true, decide_eq_true_eq]
    at digit start
  obtain (lower | upper) | rfl := start
  · exact absurd (Char.le_trans lower.1 digit.2) (by decide)
  · exact absurd (Char.le_trans upper.1 digit.2) (by decide)
  · exact absurd digit.2 (by decide)

/-- A run of characters of one sort ends where another character follows. -/
theorem takeWhile_append_of_head? {p : Char → Bool} {more rest : List Char} (all : ∀ c ∈ more, p c)
    (ends : ∀ c ∈ rest.head?, p c = false) :
    (more ++ rest).takeWhile p = more ∧ (more ++ rest).dropWhile p = rest := by
  rw [List.takeWhile_append_of_pos all, List.dropWhile_append_of_pos all]
  match rest with
  | [] => simp
  | c :: rest => simp [ends c rfl]

theorem forall_mem_takeWhile {p : Char → Bool} {cs : List Char} : ∀ c ∈ cs.takeWhile p, p c :=
  List.all_eq_true.mp List.all_takeWhile

theorem head?_dropWhile_eq_false {p : Char → Bool} {cs : List Char} : ∀ c ∈ (cs.dropWhile p).head?, p c = false := by
  intro c first
  have stopped := List.head?_dropWhile_not p cs
  rw [Option.mem_def.mp first] at stopped
  exact stopped

/-! ## Sizes -/

theorem separated_iff {cs : List Char} : separated cs ↔ ¬['_', '_'] <:+: cs ∧ cs.getLast? ≠ some '_' := by
  fun_induction separated cs with
  | case1 => simp
  | case2 rest =>
    have double : ['_', '_'] <:+: '_' :: '_' :: rest := (List.prefix_append _ rest).isInfix
    simp [double]
  | case3 => simp
  | case4 c rest notDouble notLast inductionHypothesis =>
    have here : ¬['_', '_'] <+: c :: rest := by
      rintro ⟨behind, same⟩
      cases same
      exact notDouble behind rfl rfl
    have last : (c :: rest).getLast? = some '_' ↔ rest.getLast? = some '_' := by
      cases rest with
      | nil => simpa using fun same => notLast same rfl
      | cons d rest => rw [List.getLast?_cons_cons]
    rw [inductionHypothesis, List.infix_cons_iff, Ne, Ne, last]
    simp [here]

/-- Digits are read as the number that they denote, if that is below the limit: so are then all that are met on
the way to it. -/
theorem foldlM_digits_eq_some_iff {cs : List Char} {n m : Nat} (small : n < sizeLimit) :
    cs.foldlM (fun n c =>
      let longer := 10 * n + (c.toNat - '0'.toNat)
      if c = '_' then some n else if longer < sizeLimit then some longer else none) n = some m ↔
      Nat.ofDigitChars 10 (cs.filter (· ≠ '_')) n = m ∧ m < sizeLimit := by
  induction cs generalizing n with
  | nil =>
    rw [List.foldlM_nil, List.filter_nil, Nat.ofDigitChars_nil]
    change some n = some m ↔ _
    rw [Option.some_inj]
    exact (and_iff_left_of_imp fun same => same ▸ small).symm
  | cons c cs inductionHypothesis =>
    rw [List.foldlM_cons]
    dsimp only
    by_cases underscore : c = '_'
    · rw [if_pos underscore, List.filter_cons_of_neg (by simpa using underscore)]
      exact inductionHypothesis small
    · rw [if_neg underscore, List.filter_cons_of_pos (by simpa using underscore), Nat.ofDigitChars_cons]
      generalize 10 * n + (c.toNat - '0'.toNat) = longer
      split
      next small' => exact inductionHypothesis small'
      next large =>
        refine iff_of_false (fun found => nomatch found) ?_
        rintro ⟨rfl, whole⟩
        rw [Nat.ofDigitChars_eq_ofDigitChars_zero] at whole
        have : longer ≤ 10 ^ (cs.filter (· ≠ '_')).length * longer := Nat.le_mul_of_pos_left _ (Nat.pow_pos (by decide))
        omega

theorem sizeValue?_eq_some_iff {c : Char} {more : List Char} {n : Nat} (digit : isDigit c)
    (parts : ∀ d ∈ more, isSizePart d) : sizeValue? (c :: more) = some n ↔ Token.SizeText (c :: more) n := by
  have parts' : ∀ d ∈ c :: more, isSizePart d := List.forall_mem_cons.mpr ⟨by simp [isSizePart, digit], parts⟩
  rw [sizeValue?]
  split
  next apart =>
    obtain ⟨single, closed⟩ := separated_iff.mp apart
    rw [digitsValue?, foldlM_digits_eq_some_iff (by decide)]
    exact ⟨fun ⟨value, small⟩ => ⟨⟨c, rfl, digit⟩, parts', single, closed, value, small⟩,
      fun size => ⟨size.value, size.small⟩⟩
  next misplaced =>
    refine iff_of_false (fun found => nomatch found) fun size => ?_
    exact misplaced (separated_iff.mpr ⟨size.single, size.closed⟩)

theorem sizeText_toDigits {n : Nat} (small : n < sizeLimit) : Token.SizeText (Nat.toDigits 10 n) n := by
  have digits : ∀ d ∈ Nat.toDigits 10 n, isDigit d := fun d member =>
    Nat.isDigit_of_mem_toDigits (by decide) (by decide) member
  have plain : '_' ∉ Nat.toDigits 10 n := Nat.underscore_not_in_toDigits
  obtain ⟨c, more, spelled⟩ := List.exists_cons_of_ne_nil (@Nat.toDigits_ne_nil n 10)
  refine ⟨⟨c, by rw [spelled]; rfl, digits c (spelled ▸ .head _)⟩,
    fun d member => by simp [isSizePart, digits d member],
    fun twice => plain (twice.subset (.head _)), fun last => plain (List.mem_of_getLast? last), ?_, small⟩
  have unchanged : (Nat.toDigits 10 n).filter (· ≠ '_') = Nat.toDigits 10 n :=
    List.filter_eq_self.mpr fun d member => decide_eq_true fun same => plain (same ▸ member)
  rw [unchanged, Nat.ofDigitChars_ten_toDigits]

theorem writtenAs_spelling {t : Token} (spellable : t.isSpellable) : t.WrittenAs t.spelling.toList := by
  cases t with
  | size n =>
    rw [Token.spelling, Nat.toString_eq_ofList_toDigits, String.toList_ofList]
    exact sizeText_toDigits (of_decide_eq_true spellable)
  | ident name => exact ⟨spellable, rfl⟩
  | _ => rfl

/-! ## Fronts of texts -/

variable {c : Char} {cs more rest text : List Char} {t : Token} {tokens : List Token}

/-- A token written at the front is found, unless what is behind it would belong to it. -/
theorem front_of_writtenAs (written : t.WrittenAs (c :: more)) (ends : ∀ d ∈ rest.head?, t.isExtendedBy d = false) :
    front c (more ++ rest) = (.token t, more, rest) := by
  cases t with
  | size n =>
    obtain ⟨_, ⟨⟩, digit⟩ := written.start
    have parts := fun d member => written.parts d (.tail _ member)
    obtain ⟨taken, dropped⟩ := takeWhile_append_of_head? parts ends
    simp only [front, not_isBlank_of_isDigit digit, digit, Bool.false_eq_true, if_false, if_true]
    rw [taken, dropped, (sizeValue?_eq_some_iff digit parts).mpr written]
  | ident name =>
    obtain ⟨identifier, spelled⟩ := written
    obtain ⟨_, _, spelled', start, parts⟩ := exists_cons_of_isIdentifier identifier
    cases spelled.trans spelled'
    obtain ⟨taken, dropped⟩ := takeWhile_append_of_head? parts ends
    simp only [front, not_isBlank_of_isNameStart start, not_isDigit_of_isNameStart start, start, Bool.false_eq_true,
      if_false, if_true]
    rw [taken, dropped, spelled, String.ofList_toList]
  | _ =>
    cases written
    rfl

theorem writtenAs_of_punctuation? (found : punctuation? c cs = some (t, more, rest)) :
    t.WrittenAs (c :: more) ∧ t.isExtendedBy = fun _ => false := by
  unfold punctuation? at found
  split at found <;> cases found <;> exact ⟨rfl, rfl⟩

/-- What is found at the front is written there, and what is behind it does not belong to it. -/
theorem writtenAs_of_front (found : front c cs = (.token t, more, rest)) :
    t.WrittenAs (c :: more) ∧ ∀ d ∈ rest.head?, t.isExtendedBy d = false := by
  unfold front at found
  split at found
  · cases found
  split at found
  next digit =>
    dsimp only at found
    split at found
    next n value =>
      cases found
      exact ⟨(sizeValue?_eq_some_iff digit forall_mem_takeWhile).mp value, head?_dropWhile_eq_false⟩
    next => cases found
  split at found
  next start =>
    cases found
    refine ⟨⟨?_, (String.toList_ofList).symm⟩, head?_dropWhile_eq_false⟩
    simp [isIdentifier, start]
  · split at found
    next sign =>
      cases found
      obtain ⟨written, fixed⟩ := writtenAs_of_punctuation? sign
      exact ⟨written, fun d _ => congrFun fixed d⟩
    next => cases found

theorem front_of_isBlank (gap : isBlank c) (cs : List Char) : front c cs = (.blank, [], cs) := by
  rw [front, if_pos gap]

theorem of_front_eq_blank (found : front c cs = (.blank, more, rest)) : isBlank c ∧ more = [] ∧ rest = cs := by
  unfold front at found
  split at found
  next gap =>
    cases found
    exact ⟨gap, rfl, rfl⟩
  split at found
  · dsimp only at found
    split at found <;> cases found
  split at found
  · cases found
  · split at found <;> cases found

/-! ## Reading on -/

theorem scanFrom_of_blank (start : Nat) (found : front c cs = (.blank, more, rest)) :
    scanFrom start (c :: cs) = scanFrom (start + byteLength (c :: more)) rest := by
  rw [scanFrom, found]

theorem scanFrom_of_token (start : Nat) (found : front c cs = (.token t, more, rest)) :
    scanFrom start (c :: cs) =
      (scanFrom (start + byteLength (c :: more)) rest).map (⟨t, start, byteLength (c :: more)⟩ :: ·) := by
  rw [scanFrom, found]

theorem isSpellable_of_scanFrom {start : Nat} {cs : List Char} {lexemes : List Lexeme}
    (scanned : scanFrom start cs = .ok lexemes) : ∀ t ∈ tokensOf lexemes, t.isSpellable := by
  fun_induction scanFrom start cs generalizing lexemes with
  | case1 =>
    cases scanned
    simp [tokensOf]
  | case2 =>
    rename_i inductionHypothesis
    exact inductionHypothesis scanned
  | case3 =>
    rename_i found inductionHypothesis
    obtain ⟨behind, others, rfl⟩ := map_eq_ok_iff.mp scanned
    exact List.forall_mem_cons.mpr
      ⟨(writtenAs_of_front (Prod.ext found rfl)).1.isSpellable, inductionHypothesis others⟩
  | case4 => cases scanned

/-! ## What is spelled -/

/-- Wherever the text begins, these tokens are found in it. -/
def Spells (text : List Char) (tokens : List Token) : Prop :=
  ∀ start, ∃ lexemes, scanFrom start text = .ok lexemes ∧ tokensOf lexemes = tokens

namespace Spells

theorem nil : Spells [] [] := fun start => ⟨[], by rw [scanFrom], rfl⟩

theorem blank (gap : isBlank c) (behind : Spells rest tokens) : Spells (c :: rest) tokens := by
  intro start
  obtain ⟨lexemes, scanned, same⟩ := behind (start + byteLength [c])
  exact ⟨lexemes, (scanFrom_of_blank start (front_of_isBlank gap rest)).trans scanned, same⟩

/-- A written token is found, unless what is behind it would belong to it. -/
theorem written (written : t.WrittenAs text) (ends : ∀ c ∈ rest.head?, t.isExtendedBy c = false)
    (behind : Spells rest tokens) : Spells (text ++ rest) (t :: tokens) := by
  intro start
  obtain ⟨c, more, rfl⟩ := written.exists_cons
  obtain ⟨lexemes, scanned, same⟩ := behind (start + byteLength (c :: more))
  refine ⟨⟨t, start, byteLength (c :: more)⟩ :: lexemes, ?_, by rw [← same]; rfl⟩
  rw [List.cons_append, scanFrom_of_token start (front_of_writtenAs written ends), scanned]
  rfl

theorem token (spellable : t.isSpellable) (ends : ∀ c ∈ rest.head?, t.isExtendedBy c = false)
    (behind : Spells rest tokens) : Spells (t.spelling.toList ++ rest) (t :: tokens) :=
  .written (writtenAs_spelling spellable) ends behind

/-- A token of fixed spelling is found whatever is behind it. -/
theorem sign (fixed : t.isExtendedBy = fun _ => false) (spellable : t.isSpellable) (behind : Spells rest tokens) :
    Spells (t.spelling.toList ++ rest) (t :: tokens) :=
  .token spellable (fun c _ => congrFun fixed c) behind

end Spells

end Lexeme

end ArrayCall
