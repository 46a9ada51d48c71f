/-!
# TOML values and tables

A TOML document is a table. Tables come from headers, from dotted keys and from braces; where a
table comes from decides which later lines may add to it.

* `Toml.Value`: a value, with tables among them.
* `Toml.assign`, `Toml.openTable`, `Toml.openElement`: what a line does to a document.
-/

namespace DocAudit.Toml

/-- Where a table comes from. -/
inductive TableKind where
  /-- It has a header of its own. -/
  | named
  /-- It is named in the header of a table inside of it. -/
  | implied
  /-- It is named in a dotted key. -/
  | dotted
  /-- It is written in braces. -/
  | braced
deriving DecidableEq, Repr

/-- A value; only texts, booleans and containers are told apart further. -/
inductive Value where
  | string (s : String)
  | boolean (b : Bool)
  /-- A number. -/
  | number
  /-- A date, a time, or both. -/
  | moment
  | array (items : List Value)
  | table (kind : TableKind) (fields : List (String × Value))
  /-- An array of tables with headers, the last one first. -/
  | tables (elements : List (List (String × Value)))

/-- The fields of a table, in order. -/
abbrev Fields := List (String × Value)

instance : Inhabited Value := ⟨.number⟩

/-- The fields with a value for a key replaced or added at the end. -/
def Fields.set (key : String) (v : Value) : Fields → Fields
  | [] => [(key, v)]
  | (k, old) :: fields => if k = key then (k, v) :: fields else (k, old) :: Fields.set key v fields

/-- Changes the table at a path. Tables on the way that do not exist yet are made with the given
kind; an array of tables stands for its last element. `passes` tells which tables may be on the
way, and the change is told what kind of table it is applied to. -/
def change (made : TableKind) (passes : TableKind → Bool)
    (f : TableKind → Fields → Option Fields) (kind : TableKind) :
    List String → Fields → Option Fields
  | [], fields => f kind fields
  | key :: path, fields =>
    match fields.lookup key with
    | none => (change made passes f made path []).map fun sub => fields ++ [(key, .table made sub)]
    | some (.table k sub) =>
      if passes k then
        (change made passes f k path sub).map fun sub => Fields.set key (.table k sub) fields
      else none
    | some (.tables (last :: others)) =>
      (change made passes f .named path last).map fun last =>
        Fields.set key (.tables (last :: others)) fields
    | some _ => none

/-- Gives a value to a key of a table; the key may be dotted, and must be new. A dotted key may not
add to a table with a header or in braces. -/
def assign (kind : TableKind) (path : List String) (key : String) (v : Value) (fields : Fields) :
    Option Fields :=
  change .dotted (fun k => k = .dotted || k = .implied)
    (fun k sub =>
      if (path ≠ [] ∧ k ≠ .dotted) ∨ (sub.lookup key).isSome then none
      else some (sub ++ [(key, v)]))
    kind path fields

/-- Whether a header may lead through a table. -/
def passesHeader (k : TableKind) : Bool := k ≠ .braced

/-- The document after the header of a table. -/
def openTable (path : List String) (key : String) (root : Fields) : Option Fields :=
  change .implied passesHeader
    (fun _ sub =>
      match sub.lookup key with
      | none => some (sub ++ [(key, .table .named [])])
      | some (.table .implied fields) => some (Fields.set key (.table .named fields) sub)
      | some _ => none)
    .named path root

/-- The document after the header of an element in an array of tables. -/
def openElement (path : List String) (key : String) (root : Fields) : Option Fields :=
  change .implied passesHeader
    (fun _ sub =>
      match sub.lookup key with
      | none => some (sub ++ [(key, .tables [[]])])
      | some (.tables elements) => some (Fields.set key (.tables ([] :: elements)) sub)
      | some _ => none)
    .named path root

/-- The document after a key and a value in the table at the given path. -/
def assignAt (current path : List String) (key : String) (v : Value) (root : Fields) :
    Option Fields :=
  change .named (fun _ => true) (fun k sub => assign k path key v sub) .named current root

end DocAudit.Toml
