import ArrayCall.Grammar.Token
import ArrayCall.Signature

/-!
# Reading types and signatures

The grammar of the notation, over tokens:

* `Type = size * Type | ... * Type | Var ... * Type | Var * Type | atom`, where an
  atom is `void`, `Any`, the name of a kind or a `Var`, and a `Var` begins with an
  uppercase letter;
* `Signature = ( [Item {, Item}] ) -> Type`, where an item is a `Type` or
  `name : [?] Type`, the keyword items last and of distinct names.

Each reader takes tokens off the front of a list and returns the rest. What it
reports about a place where no token is left points to the end of the text.
-/

namespace ArrayCall

/-- Whether a name can stand for a type or a dimension. -/
def isVariableName (name : String) : Bool :=
  match name.toList with
  | c :: _ => 'A' ≤ c && c ≤ 'Z'
  | [] => false

def Ty.ofName? (name : String) : Option Ty :=
  if name = "void" then some .void
  else if name = "Any" then some .any
  else
    match Kind.ofName? name with
    | some kind => some (.scalar kind)
    | none => if isVariableName name then some (.typeVar name) else none

namespace Grammar

/-- A fault about the next token, or about the end of the text at byte `stop`. -/
def faultHere (stop : Nat) (tokens : List Lexeme) (fault : SyntaxFault) : SyntaxError :=
  match tokens with
  | [] => ⟨fault, stop, 0⟩
  | t :: _ => ⟨fault, t.span⟩

/-- Takes one given token, which messages call `spelling`. -/
def take (stop : Nat) (token : Token) (spelling : String) (tokens : List Lexeme) :
    Except SyntaxError (List Lexeme) :=
  match tokens with
  | t :: rest =>
    if t.token = token then .ok rest else .error ⟨.expected spelling, t.span⟩
  | [] => .error ⟨.expected spelling, stop, 0⟩

def readType (stop : Nat) : List Lexeme → Except SyntaxError (Ty × List Lexeme)
  | ⟨.size n, _⟩ :: ⟨.star, _⟩ :: rest => do
    let (elem, rest) ← readType stop rest
    return (.fixedDim n elem, rest)
  | ⟨.ellipsis, _⟩ :: ⟨.star, _⟩ :: rest => do
    let (elem, rest) ← readType stop rest
    return (.ellipsis none elem, rest)
  | ⟨.ident name, span⟩ :: ⟨.ellipsis, _⟩ :: ⟨.star, _⟩ :: rest =>
    if isVariableName name then do
      let (elem, rest) ← readType stop rest
      return (.ellipsis (some name) elem, rest)
    else .error ⟨.lowercaseEllipsis, span⟩
  | ⟨.ident name, span⟩ :: ⟨.star, _⟩ :: rest =>
    if isVariableName name then do
      let (elem, rest) ← readType stop rest
      return (.symbolicDim name elem, rest)
    else .error ⟨.lowercaseDimension name, span⟩
  | ⟨.ident name, span⟩ :: rest =>
    match Ty.ofName? name with
    | some t => .ok (t, rest)
    | none => .error ⟨.unknownType name, span⟩
  | ⟨.size _, span⟩ :: _ => .error ⟨.missingStar, span⟩
  | tokens => .error (faultHere stop tokens .expectedType)

/-- A type takes at least one token. -/
theorem length_readType_lt {stop : Nat} {tokens rest : List Lexeme} {t : Ty}
    (h : readType stop tokens = .ok (t, rest)) : rest.length < tokens.length := by
  fun_induction readType stop tokens generalizing t rest with
  | case1 n _ _ tail ih | case2 _ _ tail ih | case3 name _ _ _ tail _ ih
  | case5 name _ _ tail _ ih =>
    cases found : readType stop tail with
    | error e => simp [found, bind, Except.bind] at h
    | ok r =>
      have := ih found
      simp [found, bind, Except.bind, pure, Except.pure] at h
      simp only [List.length_cons, ← h.2]
      omega
  | case7 =>
    cases h
    simp
  | case4 | case6 | case8 | case9 | case10 => cases h

/-- What the keyword item at the front of the tokens is called, with the tokens
behind its colon. -/
def keywordItem? : List Lexeme → Option (String × Span × List Lexeme)
  | ⟨.ident name, span⟩ :: ⟨.colon, _⟩ :: rest => some (name, span, rest)
  | _ => none

theorem length_keywordItem?_lt {tokens rest : List Lexeme} {name : String} {span : Span}
    (h : keywordItem? tokens = some (name, span, rest)) : rest.length < tokens.length := by
  unfold keywordItem? at h
  split at h
  · cases h
    simp only [List.length_cons]
    omega
  · cases h

/-- Takes the question mark of an optional keyword, if there is one. -/
def takeQuestion : List Lexeme → Bool × List Lexeme
  | ⟨.question, _⟩ :: rest => (true, rest)
  | tokens => (false, tokens)

theorem length_takeQuestion_le (tokens : List Lexeme) :
    (takeQuestion tokens).2.length ≤ tokens.length := by
  unfold takeQuestion
  split
  · simp
  · exact Nat.le_refl _

/-- Reads one item of a parameter list, behind the items already read. -/
def readItem (stop : Nat) (params : List Ty) (kwds : List KeywordParam) (tokens : List Lexeme) :
    Except SyntaxError ((List Ty × List KeywordParam) × List Lexeme) :=
  match keywordItem? tokens with
  | some (name, span, rest) =>
    if kwds.any (·.name == name) then .error ⟨.duplicateKeyword name, span⟩
    else do
      let (optional, rest) := takeQuestion rest
      let (ty, rest) ← readType stop rest
      return ((params, kwds ++ [⟨name, ty, optional⟩]), rest)
  | none =>
    if kwds.isEmpty then do
      let (ty, rest) ← readType stop tokens
      return ((params ++ [ty], kwds), rest)
    else .error (faultHere stop tokens .positionalAfterKeyword)

theorem length_readItem_lt {stop : Nat} {params : List Ty} {kwds : List KeywordParam}
    {tokens rest : List Lexeme} {items : List Ty × List KeywordParam}
    (h : readItem stop params kwds tokens = .ok (items, rest)) :
    rest.length < tokens.length := by
  unfold readItem at h
  split at h
  next name span tail found =>
    have shorter := length_keywordItem?_lt found
    have question := length_takeQuestion_le tail
    split at h
    · cases h
    · cases read : readType stop (takeQuestion tail).2 with
      | error e => simp [read, bind, Except.bind] at h
      | ok r =>
        have := length_readType_lt read
        simp [read, bind, Except.bind, pure, Except.pure] at h
        rw [← h.2]
        omega
  next =>
    split at h
    · cases read : readType stop tokens with
      | error e => simp [read, bind, Except.bind] at h
      | ok r =>
        have := length_readType_lt read
        simp [read, bind, Except.bind, pure, Except.pure] at h
        rw [← h.2]
        exact this
    · cases h

/-- Reads the items of a parameter list, which commas separate. -/
def readItems (stop : Nat) (params : List Ty) (kwds : List KeywordParam)
    (tokens : List Lexeme) : Except SyntaxError ((List Ty × List KeywordParam) × List Lexeme) :=
  match read : readItem stop params kwds tokens with
  | .error e => .error e
  | .ok (items, ⟨.comma, _⟩ :: rest) =>
    have : rest.length + 1 < tokens.length := length_readItem_lt read
    readItems stop items.1 items.2 rest
  | .ok (items, rest) => .ok (items, rest)
  termination_by tokens.length

/-- Reads a parameter list up to its closing parenthesis. -/
def readParams (stop : Nat) :
    List Lexeme → Except SyntaxError ((List Ty × List KeywordParam) × List Lexeme)
  | ⟨.closeParen, span⟩ :: rest => .ok (([], []), ⟨.closeParen, span⟩ :: rest)
  | tokens => readItems stop [] [] tokens

def readSignature (stop : Nat) (tokens : List Lexeme) :
    Except SyntaxError (Signature × List Lexeme) := do
  let rest ← take stop .openParen "(" tokens
  let ((params, kwds), rest) ← readParams stop rest
  let rest ← take stop .closeParen ")" rest
  let rest ← take stop .arrow "->" rest
  let (ret, rest) ← readType stop rest
  return (⟨params, kwds, ret⟩, rest)

def finish {α : Type} (result : α × List Lexeme) : Except SyntaxError α :=
  match result.2 with
  | [] => .ok result.1
  | t :: _ => .error ⟨.trailingInput, t.span⟩

end Grammar

open Grammar

def Ty.parse (source : String) : Except SyntaxError Ty := do
  finish (← readType source.utf8ByteSize (← Lexeme.scan source))

def Signature.parse (source : String) : Except SyntaxError Signature := do
  finish (← readSignature source.utf8ByteSize (← Lexeme.scan source))

end ArrayCall
