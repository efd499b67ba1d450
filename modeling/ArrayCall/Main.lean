import ArrayCall.CommandLine.Run

/-!
# The program

Reads the configuration file that the command line names, else the one that the
environment names, and does what `ArrayCall.CommandLine.run` says.
-/

open ArrayCall.CommandLine

/-- The environment variable that names a configuration file. -/
def configVariable : String := "NDCALL_CONFIG"

def readSettings (path : String) : IO Settings := do
  try
    return .file (← IO.FS.readFile path)
  catch _ => return .unreadable

def main (words : List String) : IO UInt32 := do
  let named := configFile? words
  let path ← match named with
    | some path => pure (some path)
    | none => IO.getEnv configVariable
  let settings ← match path with
    | some path => readSettings path
    | none => pure .default
  let outcome := run words fun _ => settings
  IO.print outcome.stdout
  IO.eprint outcome.stderr
  return outcome.exit
