import ArrayCall.Toml.Basic
import ArrayCall.Toml.Lexical

/-!
# Reading TOML documents

A document is a sequence of lines: blank lines, headers of tables, and keys with
values. A value may be a list, which may go over several lines, or a table in braces.
-/

namespace ArrayCall.Toml

/-- The text behind blanks, comments and ends of lines, which may stand between the
items of a list. `rounds` counts the lines that are left. -/
def skipBlankLines : (rounds : Nat) → List Char → List Char
  | 0, cs => cs
  | rounds + 1, cs =>
    match newline? (skipComment (skipSpace cs)) with
    | some rest => skipBlankLines rounds rest
    | none => skipSpace cs

def simpleValue? (cs : List Char) : Reading Item :=
  match cs with
  | '"' :: _ => (string? cs).map fun (s, rest) => (.text s, rest)
  | '\'' :: _ => (string? cs).map fun (s, rest) => (.text s, rest)
  | 't' :: 'r' :: 'u' :: 'e' :: rest => some (.truth true, rest)
  | 'f' :: 'a' :: 'l' :: 's' :: 'e' :: rest => some (.truth false, rest)
  | _ =>
    match moment? cs with
    | some rest => some (.moment, rest)
    | none => (number? cs).map fun rest => (.number, rest)

mutual

/-- Reads a value in which lists and tables are nested at most `depth` deep. Every call
in turn is given less `fuel`; twice as much as there are characters is enough, for the
blank lines between items too. -/
def value? : (fuel depth : Nat) → List Char → Reading Item
  | 0, _, _ => none
  | _ + 1, 0, '[' :: _ => none
  | _ + 1, 0, '\x7b' :: _ => none
  | fuel + 1, depth + 1, '[' :: rest =>
    (listItems? fuel depth rest).map fun (items, rest) => (.list items, rest)
  | fuel + 1, depth + 1, '\x7b' :: rest =>
    match skipSpace rest with
    | '\x7d' :: rest => some (.closed [], rest)
    | _ => (members? fuel depth [] rest).map fun (entries, rest) => (.closed entries, rest)
  | _ + 1, _, cs => simpleValue? cs

/-- Reads the items of a list, up to and with its closing bracket. A comma may stand
behind the last one. -/
def listItems? : (fuel depth : Nat) → List Char → Reading (List Item)
  | 0, _, _ => none
  | fuel + 1, depth, cs =>
    match skipBlankLines fuel cs with
    | ']' :: rest => some ([], rest)
    | cs =>
      match value? fuel depth cs with
      | none => none
      | some (item, rest) =>
        match skipBlankLines fuel rest with
        | ',' :: rest => (listItems? fuel depth rest).map fun (items, rest) => (item :: items, rest)
        | ']' :: rest => some ([item], rest)
        | _ => none

/-- Reads the members of a table in braces behind those of `entries`, up to and with
its closing brace. -/
def members? : (fuel depth : Nat) → Entries → List Char → Reading Entries
  | 0, _, _, _ => none
  | fuel + 1, depth, entries, cs =>
    match key? cs with
    | some ((path, key), '=' :: rest) =>
      match value? fuel depth (skipSpace rest) with
      | none => none
      | some (item, rest) =>
        match insert entries path key item with
        | none => none
        | some entries =>
          match skipSpace rest with
          | ',' :: rest => members? fuel depth entries rest
          | '\x7d' :: rest => some (entries, rest)
          | _ => none
    | _ => none

end

/-- A document so far, and the path of the table that its keys go to. -/
structure Draft where
  entries : Entries
  current : List String

/-- Reads a key with its value into the current table. -/
def Draft.readMember (d : Draft) (cs : List Char) : Option (Draft × List Char) := do
  let ((path, key), rest) ← key? cs
  let rest ← char? '=' rest
  let rest := skipSpace rest
  let (item, rest) ← value? (2 * rest.length + 2) (nestingLimit - 1) rest
  let rest ← lineEnd? rest
  let entries ← descend d.entries d.current fun inner => insert inner path key item
  return ({ d with entries }, rest)

def Draft.readHeader (d : Draft) : List Char → Option (Draft × List Char)
  | '[' :: '[' :: rest => do
    let ((path, key), rest) ← key? rest
    let rest ← char? ']' rest
    let rest ← char? ']' rest
    let rest ← lineEnd? rest
    return (⟨← openElement d.entries path key, path ++ [key]⟩, rest)
  | '[' :: rest => do
    let ((path, key), rest) ← key? rest
    let rest ← char? ']' rest
    let rest ← lineEnd? rest
    return (⟨← openTable d.entries path key, path ++ [key]⟩, rest)
  | _ => none

/-- Reads lines, of which there are no more than `rounds`. -/
def readLines : (rounds : Nat) → Draft → List Char → Option Entries
  | 0, d, cs => if (skipSpace cs).isEmpty then some d.entries else none
  | rounds + 1, d, cs =>
    match skipSpace cs with
    | [] => some d.entries
    | '[' :: rest => (d.readHeader ('[' :: rest)).bind fun (d, rest) => readLines rounds d rest
    | '#' :: rest => (lineEnd? ('#' :: rest)).bind fun rest => readLines rounds d rest
    | cs =>
      match newline? cs with
      | some rest => readLines rounds d rest
      | none => (d.readMember cs).bind fun (d, rest) => readLines rounds d rest

/-- The text behind a byte order mark. -/
def skipMark : List Char → List Char
  | '\ufeff' :: rest => rest
  | cs => cs

def parse? (text : String) : Option Entries :=
  let cs := skipMark text.toList
  readLines (cs.length + 1) ⟨[], []⟩ cs

end ArrayCall.Toml
