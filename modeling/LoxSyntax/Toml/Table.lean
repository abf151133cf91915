namespace LoxSyntax.Toml

/-- How a table came to be. -/
inductive Form where
  /-- by a header of its own -/
  | headed
  /-- by the header of a table inside it -/
  | implied
  /-- by a dotted key -/
  | dotted
  deriving DecidableEq, Repr

inductive Node where
  | string (value : String)
  | integer (value : Int)
  | boolean (value : Bool)
  | float
  | moment
  | array (items : List Node)
  /-- A table written as a value, to which nothing can be added. -/
  | inline (entries : List (String × Node))
  | table (form : Form) (entries : List (String × Node))
  /-- Tables under headers in double brackets, in their order. -/
  | tables (elements : List (List (String × Node)))

abbrev Entries := List (String × Node)

namespace Entries

/-- Puts a node under a key, in the place of the one that was there. -/
def put (key : String) (node : Node) : Entries → Entries
  | [] => [(key, node)]
  | (k, n) :: more => if k == key then (k, node) :: more else (k, n) :: put key node more

/-- Changes the entries of the table at the end of a path. Tables missing on the way are made in
the form `via`; of an array of tables the last one is meant. A dotted key does not reach into a
table that has a header. -/
def within (via : Form) (change : Form → Entries → Option Entries) :
    List String → Form → Entries → Option Entries
  | [], form, entries => change form entries
  | key :: path, _, entries =>
    match entries.lookup key with
    | none => do
      let made ← within via change path via []
      return put key (.table via made) entries
    | some (.table form found) =>
      if via = .dotted && form = .headed then none
      else do
        let changed ← within via change path form found
        return put key (.table form changed) entries
    | some (.tables elements) => do
      let changed ← within via change path .headed (elements.getLast?.getD [])
      return put key (.tables (elements.dropLast ++ [changed])) entries
    | some _ => none

/-- Adds a value under a key. Each key is given once, and a dotted key adds only to tables that
dotted keys have made. -/
def addValue (entries : Entries) (path : List String) (key : String) (value : Node) :
    Option Entries :=
  let add (form : Form) (inside : Entries) : Option Entries :=
    if (form = .dotted) = path.isEmpty then none
    else if (inside.lookup key).isSome then none
    else some (put key value inside)
  within .dotted add path .headed entries

/-- Adds the values of one table, in their order. -/
def addValues (values : List ((List String × String) × Node)) (entries : Entries) :
    Option Entries :=
  values.foldlM (fun entries ((path, key), value) => addValue entries path key value) entries

/-- Adds a table under a header. It may have been implied before, but not been given. -/
def addTable (path : List String) (key : String) (values : List ((List String × String) × Node)) :
    Entries → Option Entries :=
  let add (_ : Form) (parent : Entries) : Option Entries := do
    let known ← match parent.lookup key with
      | none => some []
      | some (.table .implied known) => some known
      | some _ => none
    return put key (.table .headed (← addValues values known)) parent
  within .implied add path .headed

/-- Adds a table to an array of tables. -/
def addElement (path : List String) (key : String)
    (values : List ((List String × String) × Node)) : Entries → Option Entries :=
  let add (_ : Form) (parent : Entries) : Option Entries := do
    let elements ← match parent.lookup key with
      | none => some []
      | some (.tables elements) => some elements
      | some _ => none
    return put key (.tables (elements ++ [← addValues values []])) parent
  within .implied add path .headed

end Entries

end LoxSyntax.Toml
