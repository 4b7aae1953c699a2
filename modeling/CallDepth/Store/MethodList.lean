import CallDepth.Json.Reader
import CallDepth.Json.Writer
import CallDepth.Method.Grammar
import CallDepth.Store.Codec

/-!
# Lists of methods in files

A list of methods is kept as a JSON array of their canonical forms. An empty list is never kept, and
a file that holds one is refused.
-/

namespace CallDepth.MethodList

/-- Why a file holds no list of methods. -/
inductive Defect where
  | notJson
  | notArray
  | empty
  | notString (found : Json)
  | malformed (text : String)

/-- What is told of a defect. Where a text stops being JSON, and why, is not told with it. -/
def Defect.message : Defect → String
  | notJson => "not valid JSON"
  | notArray => "expected a JSON array of method strings"
  | empty => "expected a non-empty array of method strings"
  | notString found =>
    "expected a method string, found " ++ String.ofList found.sorted.compact
  | malformed text => (Failure.malformedMethod text).message

def toJson (ms : List Method) : Json := .array (ms.map fun m => .string m.canonical)

def encode (ms : List Method) : Bytes := Text.Utf8.encode (toJson ms).pretty

def ofItem : Json → Except Defect Method
  | .string text =>
    match Method.parse? text with
    | some m => .ok m
    | none => .error (.malformed text)
  | other => .error (.notString other)

def ofJson : Json → Except Defect (List Method)
  | .array [] => .error .empty
  | .array items => items.mapM ofItem
  | _ => .error .notArray

def decode (bs : Bytes) : Except Defect (List Method) :=
  match Json.ofBytes? bs with
  | none => .error .notJson
  | some v => ofJson v

def codec : Codec (List Method) where
  encode := encode
  decode bs := (decode bs).mapError Defect.message
  isStorable ms := !ms.isEmpty

end CallDepth.MethodList
