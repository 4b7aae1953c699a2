/-!
# Failures

The ways in which reading a log, a setting or a stored result goes wrong, and the wording of each.
-/

namespace CallDepth

/-- Why the file system refused. -/
inductive Fault where
  | notFound
  | notDirectory
  | isDirectory
  | alreadyExists
  /-- A file was read as text and is not UTF-8. -/
  | notText
  | other (text : String)
  deriving DecidableEq, Repr

namespace Fault

def message : Fault → String
  | notFound => "No such file or directory (os error 2)"
  | notDirectory => "Not a directory (os error 20)"
  | isDirectory => "Is a directory (os error 21)"
  | alreadyExists => "File exists (os error 17)"
  | notText => "stream did not contain valid UTF-8"
  | other text => text

end Fault

/-- Why an operation of the library failed. -/
inductive Failure where
  /-- A line of the call log, with its number from one, that is no record of a call. -/
  | malformedRecord (lineNumber : Nat) (line : String)
  | malformedMethod (text : String)
  | callLog (path : String) (fault : Fault)
  | missingArtifact (path : String)
  | invalidCache (path reason : String)
  | invalidTestList (path reason : String)
  | io (fault : Fault)
  /-- A document of settings that cannot be read; which part of it is wrong is not kept. -/
  | invalidConfiguration
  deriving DecidableEq, Repr

namespace Failure

/-- What is told of every document that holds no settings, in place of what is wrong with this one. -/
def noSettings : String := "expected a TOML document of known settings"

def message : Failure → String
  | malformedRecord lineNumber line =>
    "Malformed call record at line " ++ toString lineNumber ++ ": " ++ line
  | malformedMethod text => "Malformed method identifier: '" ++ text ++ "'"
  | callLog path fault => "Cannot read call log " ++ path ++ ": " ++ fault.message
  | missingArtifact path =>
    "Artifact not found: " ++ path ++ ". Run `testreach analyze` first"
  | invalidCache path reason => "Invalid cache artifact " ++ path ++ ": " ++ reason
  | invalidTestList path reason => "Invalid test list " ++ path ++ ": " ++ reason
  | io fault => "I/O error: " ++ fault.message
  | invalidConfiguration => "Invalid configuration: " ++ noSettings

def fault? : Failure → Option Fault
  | callLog _ fault => some fault
  | io fault => some fault
  | _ => none

def causes (failure : Failure) : List String :=
  match failure with
  | invalidConfiguration => [failure.message, noSettings]
  | _ => failure.message :: (failure.fault?.map Fault.message).toList

end Failure

end CallDepth
