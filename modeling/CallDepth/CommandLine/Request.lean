import CallDepth.CommandLine.Parameter
import CallDepth.Settings

/-!
# Requests

What a user asks for: a command, with parameters of its own and others that may be given before or
after its name. What is given after it counts more.
-/

namespace CallDepth.CommandLine

/-! ### The parameters -/

def sharedParameters : List Parameter :=
  [⟨"config", some 'c', .path⟩, ⟨"work-dir", some 'w', .path⟩, ⟨"verbose", some 'v', .nothing⟩,
   ⟨"help", some 'h', .answer .help⟩]

def leadingParameters : List Parameter :=
  ⟨"version", some 'V', .answer .version⟩ :: sharedParameters

def analyzeParameters : List Parameter :=
  [⟨"call-log", some 'l', .path⟩, ⟨"test-list", some 't', .path⟩, ⟨"class-suffix", none, .text⟩,
   ⟨"method-prefix", none, .text⟩, ⟨"project-prefix", some 'p', .text⟩,
   ⟨"traversal", none, .strategy⟩, ⟨"refresh", none, .nothing⟩] ++ sharedParameters

/-! ### Commands -/

/-- What is given for an analysis in place of the settings. -/
structure Overrides where
  callLog : Option String
  testList : Option String
  classSuffix : Option String
  methodPrefix : Option String
  projectScope : Option String
  strategy : Option Strategy
  deriving DecidableEq, Repr

namespace Overrides

def ofGiven (given : Given) : Overrides where
  callLog := given.lookup "call-log"
  testList := given.lookup "test-list"
  classSuffix := given.lookup "class-suffix"
  methodPrefix := given.lookup "method-prefix"
  projectScope := given.lookup "project-prefix"
  strategy := (given.lookup "traversal").bind Strategy.ofWord?

def apply (o : Overrides) (s : Settings) : Settings where
  callLog := o.callLog.getD s.callLog
  workDir := s.workDir
  unitTestCache := s.unitTestCache
  entrySnapshot := s.entrySnapshot
  entryJson := s.entryJson
  testList := o.testList.or s.testList
  naming :=
    { classSuffix := o.classSuffix.getD s.naming.classSuffix
      methodPrefix := o.methodPrefix.getD s.naming.methodPrefix }
  projectScope := o.projectScope.or s.projectScope
  strategy := o.strategy.getD s.strategy

end Overrides

inductive Command where
  /-- Finds what the tests of a log reach; `refresh` says to remove first what is kept. -/
  | analyze (overrides : Overrides) (refresh : Bool)
  | writeReport
  deriving DecidableEq, Repr

structure Request where
  config : Option String
  workDir : Option String
  verbose : Bool
  command : Command
  deriving DecidableEq, Repr

namespace Request

def make (before after : Given) (command : Command) : Request where
  config := (after.lookup "config").or (before.lookup "config")
  workDir := (after.lookup "work-dir").or (before.lookup "work-dir")
  verbose := (after.lookup "verbose").isSome || (before.lookup "verbose").isSome
  command

def hasHelp : List String → Bool
  | [] => true
  | [name] => name = "analyze" || name = "export" || name = "help"
  | _ => false

/-- Reads the parameters after the name of a command, which no other word may follow. -/
def readAfter (ps : List Parameter) (args : List String) : Except Stop Given := do
  let (given, next) ← readParameters ps [] none args
  if next.isSome then .error .usage else .ok given

def read (args : List String) : Except Stop Request := do
  let (before, next) ← readParameters leadingParameters [] none args
  match next with
  | some ("analyze", args) =>
    let after ← readAfter analyzeParameters args
    .ok (make before after (.analyze (.ofGiven after) (after.lookup "refresh").isSome))
  | some ("export", args) =>
    let after ← readAfter sharedParameters args
    .ok (make before after .writeReport)
  | some ("help", args) => .error (if hasHelp args then .help else .usage)
  | _ => .error .usage

def settings (r : Request) (s : Settings) : Settings :=
  let s := { s with workDir := r.workDir.getD s.workDir }
  match r.command with
  | .analyze overrides _ => overrides.apply s
  | .writeReport => s

end Request

end CallDepth.CommandLine
