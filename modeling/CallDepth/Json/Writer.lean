import CallDepth.Decimal.Shortest
import CallDepth.Json.Basic

/-!
# Writing JSON

Values as text: on one line without blanks, or with each item and member on a line of its own,
indented by two blanks for each array or object around it.
-/

namespace CallDepth.Json

/-! ### Strings -/

def hexDigit (n : Nat) : Char := "0123456789abcdef".toList.getD n '0'

def escapeChar (c : Char) : List Char :=
  if c = '"' then ['\\', '"']
  else if c = '\\' then ['\\', '\\']
  else if c = '\x08' then ['\\', 'b']
  else if c = '\t' then ['\\', 't']
  else if c = '\n' then ['\\', 'n']
  else if c = '\x0c' then ['\\', 'f']
  else if c = '\r' then ['\\', 'r']
  else if c.toNat < 0x20 then
    ['\\', 'u', '0', '0', hexDigit (c.toNat / 16), hexDigit (c.toNat % 16)]
  else [c]

def escape (cs : List Char) : List Char := cs.flatMap escapeChar

def quote (s : String) : List Char := '"' :: (escape s.toList ++ ['"'])

theorem escape_cons (c : Char) (cs : List Char) : escape (c :: cs) = escapeChar c ++ escape cs :=
  List.flatMap_cons ..

/-! ### Scalars -/

def Number.text : Number → String
  | natural n => toString n
  | negative n => "-" ++ toString n
  | real x => x.text

def scalarText : Json → List Char
  | null => "null".toList
  | bool b => (if b then "true" else "false").toList
  | number n => n.text.toList
  | string s => quote s
  | array _ => []
  | object _ => []

/-! ### On one line -/

mutual

def compact : Json → List Char
  | array items => '[' :: (compactItems items ++ [']'])
  | object members => '{' :: (compactMembers members ++ ['}'])
  | other => scalarText other

def compactItems : List Json → List Char
  | [] => []
  | [item] => item.compact
  | item :: rest => item.compact ++ ',' :: compactItems rest

def compactMembers : List (String × Json) → List Char
  | [] => []
  | [(key, value)] => quote key ++ ':' :: value.compact
  | (key, value) :: rest => quote key ++ ':' :: (value.compact ++ ',' :: compactMembers rest)

end

/-! ### On several lines -/

def newLine (depth : Nat) : List Char := '\n' :: List.replicate (2 * depth) ' '

mutual

/-- The text of a value within as many containers as `depth` says. -/
def indented (depth : Nat) : Json → List Char
  | array [] => ['[', ']']
  | array (item :: rest) =>
    '[' :: (newLine (depth + 1) ++ indented (depth + 1) item ++ indentedItems (depth + 1) rest ++
      newLine depth ++ [']'])
  | object [] => ['{', '}']
  | object ((key, value) :: rest) =>
    '{' :: (newLine (depth + 1) ++ quote key ++ [':', ' '] ++ indented (depth + 1) value ++
      indentedMembers (depth + 1) rest ++ newLine depth ++ ['}'])
  | other => scalarText other

/-- The items after the first, at the given depth. -/
def indentedItems (depth : Nat) : List Json → List Char
  | [] => []
  | item :: rest => ',' :: (newLine depth ++ indented depth item ++ indentedItems depth rest)

/-- The members after the first, at the given depth. -/
def indentedMembers (depth : Nat) : List (String × Json) → List Char
  | [] => []
  | (key, value) :: rest =>
    ',' :: (newLine depth ++ quote key ++ [':', ' '] ++ indented depth value ++
      indentedMembers depth rest)

end

def pretty (v : Json) : List Char := indented 0 v

end CallDepth.Json
