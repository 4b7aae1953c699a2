/-!
# Items of a TOML document

What the keys of a document stand for, and how keys and headers extend its tables. A table may be
extended as long as nothing has written it down as a whole.
-/

namespace CallDepth.Toml

/-- How a table came to be. -/
inductive Origin where
  /-- By a header of its own, or as the whole document. -/
  | header
  /-- By the header of a table within it. -/
  | implied
  /-- By a key with dots that leads through it. -/
  | dotted
  /-- Between braces. -/
  | braces
  deriving DecidableEq, Repr

inductive Item where
  | text (s : String)
  /-- A number or a truth value, neither of which is a setting. -/
  | other
  | date
  | list (items : List Item)
  | table (origin : Origin) (entries : List (String × Item))
  /-- Tables under headers between double brackets. -/
  | tables (elements : List Item)

def Item.text? : Item → Option String
  | .text s => some s
  | _ => none

structure Table where
  origin : Origin
  entries : List (String × Item)

namespace Table

def toItem (t : Table) : Item := .table t.origin t.entries

def get? (t : Table) (key : String) : Option Item := t.entries.lookup key

def append (t : Table) (key : String) (item : Item) : Table :=
  { t with entries := t.entries ++ [(key, item)] }

def replace (t : Table) (key : String) (item : Item) : Table :=
  { t with entries := t.entries.map fun entry => if entry.1 = key then (key, item) else entry }

def erase (t : Table) (key : String) : Table :=
  { t with entries := t.entries.filter fun entry => entry.1 ≠ key }

/-- Changes the table that a path leads to. Tables on the way that are not there are made, by the
kind of path that leads through them; of tables under double brackets the last is meant. A table
between braces cannot be entered, nor one under a header by a key with dots. -/
def changeAt (byKey : Bool) (change : Table → Option Table) :
    List String → Table → Option Table
  | [], t => change t
  | key :: path, t =>
    match t.get? key with
    | none => do
      let made ← changeAt byKey change path ⟨if byKey then .dotted else .implied, []⟩
      some (t.append key made.toItem)
    | some (.table origin entries) =>
      if origin = .braces ∨ (byKey ∧ origin = .header) then none
      else do
        let changed ← changeAt byKey change path ⟨origin, entries⟩
        some (t.replace key changed.toItem)
    | some (.tables elements) =>
      match elements.getLast? with
      | some (.table origin entries) => do
        let changed ← changeAt byKey change path ⟨origin, entries⟩
        some (t.replace key (.tables (elements.dropLast ++ [changed.toItem])))
      | _ => none
    | some _ => none

/-- Gives a key an item, unless it has one. A key with dots only extends tables made by such keys,
and a key without dots none of those. -/
def insert (t : Table) (path : List String) (key : String) (item : Item) : Option Table :=
  t.changeAt true
    (fun inner =>
      if (inner.origin = .dotted) = (path = []) then none
      else if (inner.get? key).isSome then none
      else some (inner.append key item))
    path

def openTable (t : Table) (path : List String) (key : String) : Option Table :=
  t.changeAt false
    (fun parent =>
      match parent.get? key with
      | none => some (parent.append key (.table .header []))
      | some (.table .implied entries) =>
        some ((parent.erase key).append key (.table .header entries))
      | some _ => none)
    path

def openElement (t : Table) (path : List String) (key : String) : Option Table :=
  t.changeAt false
    (fun parent =>
      match parent.get? key with
      | none => some (parent.append key (.tables [.table .header []]))
      | some (.tables elements) =>
        some (parent.replace key (.tables (elements ++ [.table .header []])))
      | some _ => none)
    path

end Table

end CallDepth.Toml
