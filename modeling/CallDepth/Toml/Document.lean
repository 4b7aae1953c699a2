import CallDepth.Toml.Value

/-!
# TOML documents

A document is read line by line into one table. A header says which table the keys after it belong
to.
-/

namespace CallDepth.Toml

/-- The table of a whole document so far, and the path to the table that keys now belong to. -/
structure Document where
  root : Table
  heading : List String

namespace Document

def empty : Document := ⟨⟨.header, []⟩, []⟩

def assign (d : Document) (key : Key) (item : Item) : Option Document := do
  let root ← d.root.changeAt false (fun t => t.insert key.path key.name item) d.heading
  some { d with root }

/-- Goes on with the table under a header. -/
def openTable (d : Document) (key : Key) : Option Document := do
  let root ← d.root.openTable key.path key.name
  some ⟨root, key.path ++ [key.name]⟩

/-- Goes on with one more of the tables under a header between double brackets. -/
def openElement (d : Document) (key : Key) : Option Document := do
  let root ← d.root.openElement key.path key.name
  some ⟨root, key.path ++ [key.name]⟩

/-- Reads what stands on one line, or on several if a value goes on, up to the end of the line. -/
def readEntry (d : Document) : Text → Option (Document × Text)
  | '[' :: '[' :: cs => do
    let (key, cs) ← key cs
    let rest ← mark ']' (← mark ']' cs)
    some (← d.openElement key, rest)
  | '[' :: cs => do
    let (key, cs) ← key cs
    let rest ← mark ']' cs
    some (← d.openTable key, rest)
  | cs => do
    let (key, item, rest) ← member value cs
    some (← d.assign key item, rest)

def readFrom (d : Document) (cs : Text) : Option Document :=
  match dropLines cs with
  | [] => some d
  | start =>
    let entry := if start.head? = some '#' then some (d, start) else d.readEntry start
    match entry with
    | none => none
    | some (d, after) =>
      match lineEnd after with
      | none => none
      | some rest => if rest.length < cs.length then d.readFrom rest else none
termination_by cs.length

def dropByteOrderMark : Text → Text
  | '\ufeff' :: rest => rest
  | cs => cs

end Document

def parse? (text : String) : Option Table :=
  (Document.empty.readFrom (Document.dropByteOrderMark text.toList)).map Document.root

end CallDepth.Toml
