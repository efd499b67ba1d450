import ArrayCall.Config.Basic
import ArrayCall.Toml.Reader

/-!
# Configuration files

A configuration file is a TOML document of two records, `dispatch` and `registry`.
Whatever is missing has its default, and whatever is unknown is passed over.

A record may be a table, or a list of its fields in order. A date is a record without
fields.
-/

namespace ArrayCall

namespace Toml

/-- Reads a field of a record: its item is of the given name in a table, and at the
given place in a list. A field that is missing is `default`; there is nothing if the
item is no record, or its field cannot be read. -/
def Item.readField {α : Type} (record : Item) (place : Nat) (name : String) (default : α)
    (read : Item → Option α) : Option α :=
  let orDefault : Option Item → Option α := fun field => field.elim (some default) read
  match record with
  | .table _ entries => orDefault (find? entries name)
  | .closed entries => orDefault (find? entries name)
  | .list items => orDefault items[place]?
  | .tables elements => orDefault (elements[place]?.map (.table .defined))
  | .moment => some default
  | _ => none

def Item.truth? : Item → Option Bool
  | .truth b => some b
  | _ => none

/-- Whether an item is a table or a list, and has nothing in it. -/
def Item.isVacant : Item → Bool
  | .table _ entries => entries.isEmpty
  | .closed entries => entries.isEmpty
  | .list items => items.isEmpty
  | .tables elements => elements.isEmpty
  | _ => false

/-- The word that an item stands for: a string, or the only key of a table, whose item
is vacant. -/
def Item.word? : Item → Option String
  | .text s => some s
  | .closed [(key, content)] => if content.isVacant then some key else none
  | .table _ [(key, content)] => if content.isVacant then some key else none
  | _ => none

end Toml

/-- The settings of dispatch tables that an item holds. -/
def DispatchConfig.ofItem? (record : Toml.Item) : Option DispatchConfig := do
  let policy ← record.readField 0 "duplicate_policy" .firstWins fun item =>
    item.word?.bind DuplicatePolicy.ofSpelling?
  let promotion ← record.readField 1 "promotion" true Toml.Item.truth?
  return ⟨policy, promotion⟩

namespace Config

def ofItem? (record : Toml.Item) : Option Config := do
  let dispatch ← record.readField 0 "dispatch" {} DispatchConfig.ofItem?
  let builtins ← record.readField 1 "registry" true fun registry =>
    registry.readField 0 "builtins" true Toml.Item.truth?
  return ⟨dispatch, builtins⟩

/-- The settings that the text of a configuration file holds. -/
def ofToml? (text : String) : Option Config :=
  (Toml.parse? text).bind fun entries => ofItem? (.table .defined entries)

def renderBool (b : Bool) : String := if b then "true" else "false"

/-- The text of a configuration file that holds the settings. -/
def toToml (c : Config) : String :=
  "[dispatch]\n" ++
  "duplicate_policy = \"" ++ c.dispatch.policy.spelling ++ "\"\n" ++
  "promotion = " ++ renderBool c.dispatch.promotion ++ "\n\n" ++
  "[registry]\n" ++
  "builtins = " ++ renderBool c.builtins ++ "\n"

end Config

end ArrayCall
