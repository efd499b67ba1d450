/-!
# Options of a command line

The words of a command line are read from left to right. Options may stand before and
behind the words of the command that they belong to; `--` ends them.

* `Invocation.parse` reads a whole command line. There is nothing for one that does not
  follow the usage.
* A request for help or for the version is answered where it stands: what follows is
  not looked at, but what is in front of it must be right.
-/

namespace ArrayCall.CommandLine

/-! ## Words -/

/-- What a word is by its form. -/
inductive Word where
  /-- `--`: no more options from here on. -/
  | escape
  /-- `--name` or `--name=value` -/
  | long (name : String) (value : Option String)
  /-- `-abc`: three options of one letter. -/
  | letters (cs : List Char)
  | plain (s : String)
  deriving DecidableEq

/-- The form of a word. A single dash is a plain word. -/
def Word.of (s : String) : Word :=
  match s.toList with
  | ['-', '-'] => .escape
  | '-' :: '-' :: cs =>
    match cs.dropWhile (· ≠ '=') with
    | _ :: value => .long (String.ofList (cs.takeWhile (· ≠ '='))) (some (String.ofList value))
    | [] => .long (String.ofList cs) none
  | '-' :: c :: cs => .letters (c :: cs)
  | _ => .plain s

/-- The options. -/
inductive Flag where
  | config
  | verbose
  | help
  | version
  | arg
  | dstType
  | kwd
  deriving DecidableEq

namespace Flag

def long : Flag → String
  | config => "config"
  | verbose => "verbose"
  | help => "help"
  | version => "version"
  | arg => "arg"
  | dstType => "dst-tp"
  | kwd => "kwd"

def letter? : Flag → Option Char
  | verbose => some 'v'
  | help => some 'h'
  | version => some 'V'
  | _ => none

def takesValue : Flag → Bool
  | config => true
  | arg => true
  | dstType => true
  | kwd => true
  | _ => false

/-- Whether an option may be given more than once. -/
def isRepeatable : Flag → Bool
  | config => false
  | dstType => false
  | _ => true

/-- Whether an option is a question that is answered at once. -/
def isQuestion : Flag → Bool
  | help => true
  | version => true
  | _ => false

/-- Whether a value is acceptable for an option. A path is not empty. -/
def accepts (f : Flag) (value : String) : Bool := f ≠ config || !value.isEmpty

def everywhere : List Flag := [config, verbose, help]

end Flag

/-! ## One command -/

/-- What the words of a command that are no options stand for. -/
inductive Plain where
  /-- The first one names a further command. -/
  | command
  /-- They belong to the command, which takes no more than `capacity`, if that is given. -/
  | upTo (capacity : Option Nat)

/-- What a command may be given: its options, and words that are no options. -/
structure Usage where
  flags : List Flag
  plain : Plain

/-- The words of one command. -/
structure Words where
  plain : List String
  values : List (Flag × String)

/-- How the words of a command end. -/
inductive Ending where
  | done
  /-- A question, which is to be answered instead. -/
  | question (f : Flag)
  /-- The name of a further command, and the words behind it. -/
  | command (name : String) (rest : List String)

namespace Words

def empty : Words := ⟨[], []⟩

def addValue? (w : Words) (f : Flag) (value : String) : Option Words :=
  if f.accepts value && (f.isRepeatable || !w.values.any (·.1 = f)) then
    some { w with values := w.values ++ [(f, value)] }
  else none

/-- Adds a word that is no option to those that a command takes, of which there may be
no more than `capacity`, if that is given. -/
def addPlain? (capacity : Option Nat) (w : Words) (s : String) : Option Words :=
  if capacity.all (w.plain.length < ·) then some { w with plain := w.plain ++ [s] } else none

/-- Reads options of one letter, none of which has a value: the question among them, if
there is one. There is nothing if a letter is unknown. -/
def readLetters? (flags : List Flag) : List Char → Option (Option Flag)
  | [] => some none
  | c :: cs =>
    match flags.find? (·.letter? = some c) with
    | none => none
    | some f => if f.isQuestion then some (some f) else readLetters? flags cs

/-- What follows a long option without a value of its own. -/
inductive Next where
  | nothing
  | value
  | answer

def readLong? (w : Words) (flags : List Flag) (name : String) (value : Option String) :
    Option (Flag × Next × Words) :=
  match flags.find? (·.long = name), value with
  | none, _ => none
  | some f, some v =>
    if f.takesValue then (w.addValue? f v).map fun w => (f, .nothing, w) else none
  | some f, none =>
    some (f, if f.takesValue then .value else if f.isQuestion then .answer else .nothing, w)

/-- Reads the words of one command behind `w`. `due` is the option whose value is due. -/
def read (usage : Usage) (due : Option Flag) (w : Words) :
    List String → Option (Words × Ending)
  | [] => if due.isSome then none else some (w, .done)
  | s :: rest =>
    match Word.of s, due with
    | .plain s, some f => (w.addValue? f s).bind fun w => read usage none w rest
    | _, some _ => none
    | .plain s, none =>
      match usage.plain with
      | .command => some (w, .command s rest)
      | .upTo capacity => (w.addPlain? capacity s).bind fun w => read usage none w rest
    | .escape, none =>
      match usage.plain with
      | .command => none
      | .upTo capacity => (rest.foldlM (addPlain? capacity) w).map fun w => (w, .done)
    | .letters cs, none =>
      match readLetters? usage.flags cs with
      | none => none
      | some (some f) => some (w, .question f)
      | some none => read usage none w rest
    | .long name value, none =>
      match w.readLong? usage.flags name value with
      | none => none
      | some (f, .answer, w) => some (w, .question f)
      | some (f, .value, w) => read usage (some f) w rest
      | some (_, .nothing, w) => read usage none w rest

/-- The values of an option, in order. -/
def valuesOf (w : Words) (f : Flag) : List String :=
  (w.values.filter (·.1 = f)).map (·.2)

def value? (w : Words) (f : Flag) : Option String := (w.valuesOf f).head?

end Words

/-! ## All commands -/

/-- The commands. -/
inductive Verb where
  | list
  | resolve
  | call
  deriving DecidableEq

namespace Verb

def all : List Verb := [list, resolve, call]

def name : Verb → String
  | list => "list"
  | resolve => "resolve"
  | call => "call"

def ofName? (s : String) : Option Verb := all.find? (·.name = s)

def flags : Verb → List Flag
  | list => Flag.everywhere
  | resolve => Flag.everywhere ++ [.dstType, .kwd]
  | call => Flag.everywhere ++ [.dstType, .kwd, .arg]

/-- How many words that are no options a command takes. There is no limit to the types
that `resolve` takes behind a name. -/
def capacity? : Verb → Option Nat
  | list => some 0
  | resolve => none
  | call => some 1

def usage (v : Verb) : Usage := ⟨v.flags, .upTo v.capacity?⟩

end Verb

/-- What is to be done with the callables. -/
inductive Action where
  /-- List all callables. -/
  | list
  /-- Print the type of the result for arguments of the given types. -/
  | resolve (name : String) (types : List String) (dstType : Option String) (kwds : List String)
  /-- Call with the given arguments and print the result. -/
  | call (name : String) (args : List String) (dstType : Option String) (kwds : List String)
  deriving DecidableEq

/-- What a command line asks for. -/
inductive Invocation where
  | version
  /-- Help on a command, or on all of them. -/
  | help (topic : Option Verb)
  /-- Something to be done, with the configuration file that is named, if one is. -/
  | run (config : Option String) (action : Action)
  deriving DecidableEq

def Verb.action? (v : Verb) (w : Words) : Option Action :=
  match v, w.plain with
  | list, [] => some .list
  | resolve, name :: types => some (.resolve name types (w.value? .dstType) (w.valuesOf .kwd))
  | call, [name] => some (.call name (w.valuesOf .arg) (w.value? .dstType) (w.valuesOf .kwd))
  | _, _ => none

namespace Invocation

def helpOn? : List String → Option Invocation
  | [] => some (.help none)
  | [s] => if s = "help" then some (.help none) else (Verb.ofName? s).map fun v => .help (some v)
  | _ => none

/-- Reads the words behind those that stand in front of a command. A configuration file
that is named behind the command goes before one that is named in front of it. -/
def ofCommand? (outer : Words) (name : String) (rest : List String) : Option Invocation :=
  match Verb.ofName? name with
  | none => if name = "help" then helpOn? rest else none
  | some v =>
    match Words.empty.read v.usage none rest with
    | some (w, .done) =>
      (v.action? w).map fun action => .run ((w.value? .config).or (outer.value? .config)) action
    | some (_, .question _) => some (.help (some v))
    | _ => none

def usage : Usage := ⟨.version :: Flag.everywhere, .command⟩

def parse (words : List String) : Option Invocation :=
  match Words.empty.read usage none words with
  | some (outer, .command name rest) => ofCommand? outer name rest
  | some (_, .question .version) => some .version
  | some (_, .question _) => some (.help none)
  | _ => none

end Invocation

end ArrayCall.CommandLine
