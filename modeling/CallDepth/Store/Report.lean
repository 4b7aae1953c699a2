import CallDepth.CallIndex
import CallDepth.Files.Disk
import CallDepth.Json.Writer
import CallDepth.Text.Utf8

/-!
# The report

An index as a JSON document for other tools: an object with a member for each root, whose value is
the array of its entries in the order of their discovery.
-/

namespace CallDepth.Report

def entryToJson (entry : CallEntry) : Json :=
  .object [("callee", .string entry.callee), ("level", .number (.natural entry.level))]

def toJson (index : CallIndex) : Json :=
  .object (index.toList.map fun row => (row.1, .array (row.2.map entryToJson)))

/-- The text of an index without the line feed that ends the document. -/
def text (index : CallIndex) : String := String.ofList (toJson index).pretty

def encode (index : CallIndex) : Bytes := Text.Utf8.encode ((toJson index).pretty ++ ['\n'])

def write {m : Type → Type} [Monad m] [Disk m] (index : CallIndex) (path : String) :
    Task m Unit := do
  Task.makeParents path
  Task.write path (encode index)
  Task.tell .info "call entries exported" [("path", path), ("tests", toString index.size)]

end CallDepth.Report
