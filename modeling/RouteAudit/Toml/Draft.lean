import RouteAudit.Toml.Basic

/-!
# Tables under construction

A document is read line by line, and each line adds to a table that is not finished. A table that
a header names is fixed and cannot be named again; a table on the way to one is implied until a
header names it; a table on the way of a dotted key is dotted and belongs to the table in which
the key stands. A key is set once.
-/

namespace RouteAudit.Toml

/-- How a table came to be. -/
inductive Origin where
  | stated
  | implied
  | dotted
  deriving DecidableEq, Repr

mutual

/-- A value under a key. -/
inductive Item where
  | leaf (value : Toml)
  | table (t : Draft)
  /-- The tables of repeated headers, the last one first. -/
  | tables (ts : List Draft)

/-- A table under construction. -/
inductive Draft where
  | mk (origin : Origin) (entries : List (String × Item))

end

namespace Draft

def origin : Draft → Origin
  | mk origin _ => origin

/-- The keys of the table with their values. -/
def entries : Draft → List (String × Item)
  | mk _ entries => entries

def new (origin : Origin) : Draft := mk origin []

def get? (d : Draft) (key : String) : Option Item :=
  d.entries.lookup key

/-- The entries with another value under a key. -/
def setEntry (key : String) (item : Item) : List (String × Item) → List (String × Item)
  | [] => [(key, item)]
  | (k, i) :: rest => if k = key then (key, item) :: rest else (k, i) :: setEntry key item rest

/-- The table with another value under a key. -/
def set (d : Draft) (key : String) (item : Item) : Draft :=
  mk d.origin (setEntry key item d.entries)

/-- Changes the table at the end of a path of headers; tables that are missing are implied, and a
repeated table means the last one. -/
def changeAt (change : Draft → Option Draft) : List String → Draft → Option Draft
  | [], d => change d
  | key :: path, d =>
    match d.get? key with
    | none => (changeAt change path (new .implied)).map fun t => d.set key (.table t)
    | some (.table t) => (changeAt change path t).map fun t => d.set key (.table t)
    | some (.tables (t :: ts)) =>
      (changeAt change path t).map fun t => d.set key (.tables (t :: ts))
    | some (.tables []) | some (.leaf _) => none

/-- States the table of a header below the table that it stands in. -/
def stateKey (key : String) (d : Draft) : Option Draft :=
  match d.get? key with
  | none => some (d.set key (.table (new .stated)))
  | some (.table (mk .implied entries)) => some (d.set key (.table (mk .stated entries)))
  | some _ => none

/-- Adds a table to the repeated ones under a key. -/
def repeatKey (key : String) (d : Draft) : Option Draft :=
  match d.get? key with
  | none => some (d.set key (.tables [new .stated]))
  | some (.tables ts) => some (d.set key (.tables (new .stated :: ts)))
  | some _ => none

/-- The path of a header without its last key, and that key. -/
def parentPath? (path : List String) : Option (List String × String) :=
  path.getLast?.map fun key => (path.dropLast, key)

/-- The document with the table of a header. -/
def stateTable (path : List String) (d : Draft) : Option Draft :=
  (parentPath? path).bind fun (parents, key) => changeAt (stateKey key) parents d

/-- The document with one more table of a repeated header. -/
def repeatTable (path : List String) (d : Draft) : Option Draft :=
  (parentPath? path).bind fun (parents, key) => changeAt (repeatKey key) parents d

/-- Sets a key that is not yet there. -/
def insertNew (key : String) (value : Toml) (d : Draft) : Option Draft :=
  match d.get? key with
  | none => some (d.set key (.leaf value))
  | some _ => none

/-- Sets a dotted key. The way may go through implied and dotted tables, and has to end in a
dotted one. -/
def insertDotted (key : String) (value : Toml) : List String → Draft → Option Draft
  | [], d => if d.origin = .dotted then insertNew key value d else none
  | step :: way, d =>
    match d.get? step with
    | none => (insertDotted key value way (new .dotted)).map fun t => d.set step (.table t)
    | some (.table t) =>
      if t.origin = .stated then none
      else (insertDotted key value way t).map fun t => d.set step (.table t)
    | some (.tables _) | some (.leaf _) => none

/-- Sets a key of the table itself: a dotted one, or a plain one, which a dotted table does not
take. -/
def insert (path : List String) (value : Toml) (d : Draft) : Option Draft :=
  match path with
  | [] => none
  | [key] => if d.origin = .dotted then none else insertNew key value d
  | path => (parentPath? path).bind fun (way, key) => insertDotted key value way d

mutual

def finish : Draft → Toml
  | mk _ entries => .table (finishEntries entries)

def finishEntries : List (String × Item) → List (String × Toml)
  | [] => []
  | (key, .leaf value) :: rest => (key, value) :: finishEntries rest
  | (key, .table t) :: rest => (key, finish t) :: finishEntries rest
  | (key, .tables ts) :: rest => (key, .array (finishAll ts).reverse) :: finishEntries rest

/-- The finished tables of a repeated header, in the order that they are kept in. -/
def finishAll : List Draft → List Toml
  | [] => []
  | t :: ts => finish t :: finishAll ts

end

end Draft

end RouteAudit.Toml
