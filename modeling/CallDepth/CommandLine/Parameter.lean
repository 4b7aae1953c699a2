import CallDepth.Reach.Strategy

/-!
# Parameters of a command line

A parameter is given by its name after two dashes or by its letter after one. Several letters may
share a dash. A value follows as an argument of its own, or in the same argument, where an equals
sign may stand before it. The first thing that is wrong or that asks for an answer at once ends the
reading.
-/

namespace CallDepth.CommandLine

/-- Why a command line is not carried out. -/
inductive Stop where
  | usage
  | help
  | version
  deriving DecidableEq, Repr

/-- What a parameter takes. -/
inductive Operand where
  | nothing
  | text
  /-- A text that is not empty. -/
  | path
  | strategy
  /-- Nothing; the parameter asks for an answer at once. -/
  | answer (stop : Stop)
  deriving DecidableEq, Repr

def Operand.allows (operand : Operand) (value : String) : Bool :=
  match operand with
  | path => value ≠ ""
  | strategy => (Strategy.ofWord? value).isSome
  | _ => true

structure Parameter where
  name : String
  letter : Option Char
  operand : Operand
  deriving DecidableEq, Repr

/-- The names of parameters that are given, with their values. -/
abbrev Given := List (String × String)

/-- Adds a parameter, which may be given once. -/
def Parameter.accept (p : Parameter) (value : String) (given : Given) : Except Stop Given :=
  if (given.lookup p.name).isSome ∨ !p.operand.allows value then .error .usage
  else .ok ((p.name, value) :: given)

structure Progress where
  given : Given
  /-- The parameter whose value must follow. -/
  awaited : Option Parameter

/-! ### Single arguments -/

/-- Reads a name, with or without a value after an equals sign. -/
def readName (ps : List Parameter) (given : Given) (cs : List Char) : Except Stop Progress :=
  let name := String.ofList (cs.takeWhile (· ≠ '='))
  match ps.find? (·.name = name) with
  | none => .error .usage
  | some p =>
    match p.operand, cs.dropWhile (· ≠ '=') with
    | .answer stop, [] => .error stop
    | .answer _, _ => .error .usage
    | .nothing, [] => (p.accept "" given).map (⟨·, none⟩)
    | .nothing, _ => .error .usage
    | _, [] => .ok ⟨given, some p⟩
    | _, _ :: value => (p.accept (String.ofList value) given).map (⟨·, none⟩)

def dropEquals : List Char → List Char
  | '=' :: rest => rest
  | cs => cs

/-- Reads letters up to one that takes a value, which is what follows it. -/
def readLetters (ps : List Parameter) (given : Given) : List Char → Except Stop Progress
  | [] => .ok ⟨given, none⟩
  | c :: rest =>
    match ps.find? (·.letter = some c) with
    | none => .error .usage
    | some p =>
      match p.operand, rest with
      | .answer stop, _ => .error stop
      | .nothing, _ => do readLetters ps (← p.accept "" given) rest
      | _, [] => .ok ⟨given, some p⟩
      | _, _ => (p.accept (String.ofList (dropEquals rest)) given).map (⟨·, none⟩)

/-! ### Several arguments -/

/-- An argument that gives no parameter; a single dash is one. -/
def isWord (arg : String) : Bool := arg = "-" || !arg.startsWith "-"

/-- Reads parameters up to the first other word, and gives that word and the arguments after it. Two
dashes end the arguments. -/
def readParameters (ps : List Parameter) (given : Given) :
    Option Parameter → List String → Except Stop (Given × Option (String × List String))
  | none, [] => .ok (given, none)
  | some _, [] => .error .usage
  | some p, arg :: rest => do
    if isWord arg then readParameters ps (← p.accept arg given) none rest
    else .error .usage
  | none, arg :: rest =>
    match arg.toList with
    | ['-', '-'] => if rest = [] then .ok (given, none) else .error .usage
    | '-' :: '-' :: cs => do
      let progress ← readName ps given cs
      readParameters ps progress.given progress.awaited rest
    | '-' :: c :: cs => do
      let progress ← readLetters ps given (c :: cs)
      readParameters ps progress.given progress.awaited rest
    | _ => .ok (given, some (arg, rest))

end CallDepth.CommandLine
