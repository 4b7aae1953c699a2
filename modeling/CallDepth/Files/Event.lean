/-!
# Events

What an analysis tells about its course while it runs.
-/

namespace CallDepth

inductive Importance where
  | debug
  | info
  | warn
  deriving DecidableEq, Repr

def Importance.text : Importance → String
  | debug => "DEBUG"
  | info => "INFO"
  | warn => "WARN"

structure Event where
  importance : Importance
  message : String
  fields : List (String × String)
  deriving DecidableEq, Repr

namespace Event

def line (event : Event) : String :=
  " ".intercalate (event.importance.text :: event.message ::
    event.fields.map fun (name, value) => name ++ "=" ++ value)

/-- Whether an event is told; what only helps to find mistakes is told on request. -/
def isTold (verbose : Bool) (event : Event) : Bool := verbose || event.importance ≠ .debug

end Event

end CallDepth
