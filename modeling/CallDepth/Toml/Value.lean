import CallDepth.Toml.Quoted

/-!
# Keys and values in TOML

A key is one or more parts with dots between them. A value may hold others, in a list or a table,
to a bounded depth.
-/

namespace CallDepth.Toml

/-! ### Keys -/

/-- How many parts a key may have, and how deeply values may be nested. -/
def maxDepth : Nat := 79

def isBare (c : Char) : Bool :=
  isDecDigit c || ('a' ≤ c && c ≤ 'z') || ('A' ≤ c && c ≤ 'Z') || c = '-' || c = '_'

def keyPart : Text → Option (String × Text)
  | '"' :: rest => basicFrom [] rest
  | '\'' :: rest => literal rest
  | cs =>
    match cs.takeWhile isBare with
    | [] => none
    | name => some (String.ofList name, cs.dropWhile isBare)

/-- The tables that a key leads through and the key in the last of them. -/
structure Key where
  path : List String
  name : String

/-- A key of at most as many parts as `limit` says, with the blanks around it. -/
def keyWithin : Nat → Text → Option (Key × Text)
  | 0, _ => none
  | limit + 1, cs => do
    let (part, cs) ← keyPart (dropBlanks cs)
    match dropBlanks cs with
    | '.' :: cs =>
      let (key, rest) ← keyWithin limit cs
      some ({ key with path := part :: key.path }, rest)
    | rest => some (⟨[], part⟩, rest)

def key (cs : Text) : Option (Key × Text) := keyWithin maxDepth cs

/-! ### Lists and tables -/

abbrev Reader := Text → Option (Item × Text)

/-- The items of a list up to the bracket that closes it; `done` holds those so far, last first. -/
def itemsFrom (value : Reader) (done : List Item) (cs : Text) : Option (List Item × Text) :=
  match dropGaps false cs with
  | ']' :: rest => some (done.reverse, rest)
  | start =>
    match value start with
    | none => none
    | some (item, after) =>
      match dropGaps false after with
      | ']' :: rest => some ((item :: done).reverse, rest)
      | ',' :: rest =>
        if rest.length < cs.length then itemsFrom value (item :: done) rest else none
      | _ => none
termination_by cs.length

def member (value : Reader) (cs : Text) : Option (Key × Item × Text) := do
  let (key, cs) ← key cs
  let (item, rest) ← value (dropBlanks (← mark '=' cs))
  some (key, item, dropBlanks rest)

/-- The members of a table up to the brace that closes it, added to those that it has. -/
def membersFrom (value : Reader) (t : Table) (cs : Text) : Option (Table × Text) :=
  match member value cs with
  | none => none
  | some (key, item, after) =>
    match t.insert key.path key.name item with
    | none => none
    | some t =>
      match after with
      | '}' :: rest => some (t, rest)
      | ',' :: rest => if rest.length < cs.length then membersFrom value t rest else none
      | _ => none
termination_by cs.length

def members (value : Reader) (cs : Text) : Option (Table × Text) :=
  match dropBlanks cs with
  | '}' :: rest => some (⟨.braces, []⟩, rest)
  | cs => membersFrom value ⟨.braces, []⟩ cs

/-! ### Values -/

def plainValue (cs : Text) : Option (Item × Text) :=
  match quoted cs with
  | some (s, rest) => some (.text s, rest)
  | none => scalar cs

/-- A value with others in it to at most the given depth. -/
def valueWithin : Nat → Text → Option (Item × Text)
  | depth + 1, '[' :: rest =>
    (itemsFrom (valueWithin depth) [] rest).map fun (items, rest) => (.list items, rest)
  | depth + 1, '{' :: rest =>
    (members (valueWithin depth) rest).map fun (t, rest) => (t.toItem, rest)
  | _, cs => plainValue cs

def value (cs : Text) : Option (Item × Text) := valueWithin maxDepth cs

end CallDepth.Toml
