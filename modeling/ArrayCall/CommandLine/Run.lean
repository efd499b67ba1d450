import ArrayCall.Callable.Call
import ArrayCall.CommandLine.Options
import ArrayCall.CommandLine.Value
import ArrayCall.Config.Toml
import ArrayCall.Registry

/-!
# What the program does

`run` is the whole program but for the reading of files: from the words of its command
line and the settings it computes what is printed and the exit code.
-/

namespace ArrayCall.CommandLine

/-- Why an action fails. -/
inductive Failure where
  | unreadableConfig
  | invalidConfig
  | registration (e : CallError)
  | unknownCallable (name : String)
  | type (e : SyntaxError)
  | value (e : ValueError)
  | call (e : CallError)

def Failure.message : Failure → String
  | unreadableConfig => "the configuration file cannot be read"
  | invalidConfig => "invalid configuration"
  | registration e => e.message
  | unknownCallable name => "no callable named " ++ quoted name ++ "; see " ++ quoted "ndcall list"
  | type e => e.message
  | value e => e.message
  | call e => e.message

/-- Where the settings come from. -/
inductive Settings where
  /-- No file is named. -/
  | default
  | unreadable
  | file (text : String)
  deriving DecidableEq

def Settings.load : Settings → Except Failure Config
  | .default => .ok {}
  | .unreadable => .error .unreadableConfig
  | .file text =>
    match Config.ofToml? text with
    | some c => .ok c
    | none => .error .invalidConfig

def Settings.registry (s : Settings) : Except Failure Registry := do
  let config ← s.load
  match (Registry.withBuiltins config).run 0 with
  | .ok (r, _) => return r
  | .error e => throw (.registration e)

def lookup (r : Registry) (name : String) : Except Failure Callable :=
  match r.get? name with
  | some c => .ok c
  | none => .error (.unknownCallable name)

/-- The keyword arguments of an action, later ones of a name going before earlier ones
and an option for the destination before both. -/
def keywords (dstType : Option String) (kwds : List String) : Except Failure Keywords := do
  let entries ← (kwds.mapM parseKeyword).mapError .value
  let given := NameTable.ofList entries
  match dstType with
  | none => return given
  | some source => return given.insert Keywords.dstTypeName (.type (← (Ty.parse source).mapError .type))

def padRight (width : Nat) (s : String) : String :=
  s ++ String.ofList (List.replicate (width - s.length) ' ')

def listLine (e : String × Callable) : String :=
  padRight 10 e.1 ++ " " ++ e.2.signature.render ++ "\n"

def Action.perform (r : Registry) : Action → Except Failure String
  | .list => .ok (String.join (r.callables.entries.map listLine))
  | .resolve name types dstType kwds => do
    let c ← lookup r name
    let types ← (types.mapM Ty.parse).mapError .type
    let kwds ← keywords dstType kwds
    let t ← (c.resolve none types kwds).mapError .call
    return t.render ++ "\n"
  | .call name args dstType kwds => do
    let c ← lookup r name
    let args ← (args.mapM parseArgument).mapError .value
    let kwds ← keywords dstType kwds
    let result ← (c.call [] args kwds).mapError .call
    let report ← (ArrayReport.of result).mapError .value
    let shown := Json.obj [("callable", .str name), ("result", report.toJson)]
    return shown.renderLines "" ++ "\n"

/-- What the program leaves behind: its exit code, and what it prints. -/
structure Outcome where
  exit : UInt32
  stdout : String
  stderr : String
  deriving DecidableEq

def version : String := "ndcall 0.2.0\n"

def usage : Option Verb → String
  | none => "Usage: ndcall [OPTIONS] <COMMAND>\n\nCommands:\n" ++
      "  list     List registered callables and their signatures\n" ++
      "  resolve  Print the result type of a callable for concrete argument types\n" ++
      "  call     Call a callable on JSON data and print the result as JSON\n"
  | some .list => "Usage: ndcall list [OPTIONS]\n"
  | some .resolve => "Usage: ndcall resolve [OPTIONS] <NAME> [TYPES]...\n"
  | some .call => "Usage: ndcall call [OPTIONS] <NAME>\n"

/-- Runs the program on the words of its command line. `settings` are those of the
configuration file that the command line names, if it names one. -/
def run (words : List String) (settings : Option String → Settings) : Outcome :=
  match Invocation.parse words with
  | none => ⟨2, "", usage none⟩
  | some .version => ⟨0, version, ""⟩
  | some (.help topic) => ⟨0, usage topic, ""⟩
  | some (.run config action) =>
    match (settings config).registry.bind action.perform with
    | .ok text => ⟨0, text, ""⟩
    | .error e => ⟨1, "", "Error: " ++ e.message ++ "\n"⟩

/-- The configuration file that the words of a command line name, if they name one. -/
def configFile? (words : List String) : Option String :=
  match Invocation.parse words with
  | some (.run config _) => config
  | _ => none

end ArrayCall.CommandLine
