/-!
# TOML documents

A document is a table of items by key. Whether a table may still be extended depends
on how it came about, so each table carries its `Form`.

* `insert` adds a value under a dotted key.
* `openTable` and `openElement` are the headers `[a.b]` and `[[a.b]]`.
* `update` changes the table that the last header opened.

Each gives nothing if the document would define something twice.
-/

namespace ArrayCall.Toml

/-- How a table came about. -/
inductive Form where
  /-- By a header of a table inside it. It may still get a header of its own. -/
  | implicit
  /-- By a dotted key. Only dotted keys may extend it. -/
  | dotted
  /-- By a header of its own. -/
  | defined
  deriving DecidableEq, Inhabited

/-- What a key stands for. -/
inductive Item where
  | text (s : String)
  | truth (b : Bool)
  /-- A number. It has been checked, but no setting asks for its value. -/
  | number
  /-- A date or a time, likewise. -/
  | moment
  | list (items : List Item)
  /-- A table in braces, which nothing extends. -/
  | closed (entries : List (String × Item))
  | table (form : Form) (entries : List (String × Item))
  /-- The tables of an array of tables, in order. -/
  | tables (elements : List (List (String × Item)))
  deriving Inhabited

/-- Items by key, in the order in which the keys first occur. -/
abbrev Entries := List (String × Item)

def find? (entries : Entries) (key : String) : Option Item :=
  (entries.find? (·.1 == key)).map (·.2)

/-- Gives a key another item, or adds it behind the others. -/
def put (entries : Entries) (key : String) (item : Item) : Entries :=
  if entries.any (·.1 == key) then entries.map fun e => if e.1 == key then (key, item) else e
  else entries ++ [(key, item)]

/-- Changes the last of the tables of an array of tables. -/
def updateLast (change : Entries → Option Entries) (elements : List Entries) :
    Option (List Entries) :=
  match elements.getLast? with
  | some last => (change last).map fun last => elements.dropLast ++ [last]
  | none => none

/-- Adds a value under a dotted key, of which `path` holds all parts but the last. The
tables on the way must come from dotted keys, or be those that headers have led
through; the one that gets the value must come from dotted keys. -/
def insert (entries : Entries) (path : List String) (key : String) (value : Item) :
    Option Entries :=
  match path with
  | [] => if (find? entries key).isSome then none else some (entries ++ [(key, value)])
  | name :: rest =>
    match find? entries name with
    | none => (insert [] rest key value).map fun inner => put entries name (.table .dotted inner)
    | some (.table .dotted inner) =>
      (insert inner rest key value).map fun inner => put entries name (.table .dotted inner)
    | some (.table .implicit inner) =>
      if rest.isEmpty then none
      else (insert inner rest key value).map fun inner => put entries name (.table .implicit inner)
    | some (.tables elements) =>
      if rest.isEmpty then none
      else
        (updateLast (insert · rest key value) elements).map fun elements =>
          put entries name (.tables elements)
    | some _ => none

/-- Changes the table that a path of a header leads to. Tables on the way that do not
exist come about implicitly, and an array of tables is its last table. -/
def descend (entries : Entries) (path : List String) (change : Entries → Option Entries) :
    Option Entries :=
  match path with
  | [] => change entries
  | name :: rest =>
    match find? entries name with
    | none => (descend [] rest change).map fun inner => put entries name (.table .implicit inner)
    | some (.table form inner) =>
      (descend inner rest change).map fun inner => put entries name (.table form inner)
    | some (.tables elements) =>
      (updateLast (descend · rest change) elements).map fun elements =>
        put entries name (.tables elements)
    | some _ => none

/-- The header `[path.key]`. -/
def openTable (entries : Entries) (path : List String) (key : String) : Option Entries :=
  descend entries path fun inner =>
    match find? inner key with
    | none => some (put inner key (.table .defined []))
    | some (.table .implicit own) => some (put inner key (.table .defined own))
    | some _ => none

/-- The header `[[path.key]]`. -/
def openElement (entries : Entries) (path : List String) (key : String) : Option Entries :=
  descend entries path fun inner =>
    match find? inner key with
    | none => some (put inner key (.tables [[]]))
    | some (.tables elements) => some (put inner key (.tables (elements ++ [[]])))
    | some _ => none

end ArrayCall.Toml
