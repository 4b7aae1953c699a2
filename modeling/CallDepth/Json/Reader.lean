import CallDepth.Json.Token
import CallDepth.Text.Utf8

/-!
# Reading JSON

The value of a document is built token by token. The arrays and objects that are open form a stack,
whose height is the depth of nesting and is bounded.
-/

namespace CallDepth.Json

/-- How deeply arrays and objects may be nested. -/
def maxDepth : Nat := 127

/-- An array or an object that is open, with its items or members so far, last first. -/
inductive Container where
  | array (items : List Json)
  /-- The value of `key` is still to come. -/
  | object (members : List (String × Json)) (key : String)

/-- What has been read of a document; the stack holds the open containers, innermost first. -/
inductive State where
  | value (stack : List Container)
  | firstItem (stack : List Container)
  | firstKey (stack : List Container)
  | nextKey (stack : List Container) (members : List (String × Json))
  | afterKey (stack : List Container) (members : List (String × Json)) (key : String)
  | complete (stack : List Container) (v : Json)

namespace State

def startValue? (stack : List Container) : Token → Option State
  | .null => some (complete stack .null)
  | .bool b => some (complete stack (.bool b))
  | .number n => some (complete stack (.number n))
  | .string s => some (complete stack (.string s))
  | .openArray => if stack.length < maxDepth then some (firstItem stack) else none
  | .openObject => if stack.length < maxDepth then some (firstKey stack) else none
  | _ => none

def afterValue? (stack : List Container) (v : Json) (token : Token) : Option State :=
  match stack, token with
  | .array items :: stack, .comma => some (value (.array (v :: items) :: stack))
  | .array items :: stack, .closeArray => some (complete stack (.array (v :: items).reverse))
  | .object members key :: stack, .comma => some (nextKey stack ((key, v) :: members))
  | .object members key :: stack, .closeObject =>
    some (complete stack (.object ((key, v) :: members).reverse))
  | _, _ => none

def step? (state : State) (token : Token) : Option State :=
  match state with
  | value stack => startValue? stack token
  | firstItem stack =>
    match token with
    | .closeArray => some (complete stack (.array []))
    | token => startValue? (.array [] :: stack) token
  | firstKey stack =>
    match token with
    | .closeObject => some (complete stack (.object []))
    | .string key => some (afterKey stack [] key)
    | _ => none
  | nextKey stack members =>
    match token with
    | .string key => some (afterKey stack members key)
    | _ => none
  | afterKey stack members key =>
    match token with
    | .colon => some (value (.object members key :: stack))
    | _ => none
  | complete stack v => afterValue? stack v token

def finish? : State → Option Json
  | complete [] v => some v
  | _ => none

end State

def ofTokens? (tokens : List Token) : Option Json :=
  (tokens.foldlM State.step? (.value [])).bind State.finish?

def parse? (cs : List Char) : Option Json := (tokens? cs).bind ofTokens?

/-- The value of a document given as bytes, which must be UTF-8. -/
def ofBytes? (bs : Bytes) : Option Json := (Text.Utf8.decode? bs).bind parse?

end CallDepth.Json
