import CallDepth.Analysis
import CallDepth.CommandLine.Parameter
import CallDepth.Text.Quoted

/-!
# The wording of answers

What the program says of a run that came to its end, and of one that failed.
-/

namespace CallDepth.CommandLine

/-- Lines, each with the line feed that ends it. -/
def unlines (ls : List String) : String := String.join (ls.map (· ++ "\n"))

/-! ### Results -/

def sourceWord : CacheStatus → String
  | .hit => "cached"
  | .computed => "selected"

def detailLines (tests : Nat) (details : Analysis.Details) : List String :=
  ["Call graph: " ++ toString details.callers ++ " callers, " ++ toString details.edges ++ " edges",
   "Unit tests: " ++ toString tests ++ " (" ++ sourceWord details.unitTests ++ ")"] ++
  (if details.unmatched = 0 then []
    else ["Listed tests without recorded calls: " ++ toString details.unmatched]) ++
  ["Project prefix: " ++ Text.quoted details.scope]

def summaryLines (s : Settings) (summary : Analysis.Summary) : List String :=
  let entries := "Call entries: " ++ toString summary.totalEntries ++
    " (max level " ++ toString summary.maxLevel ++ ")"
  match summary.computed with
  | some details =>
    detailLines summary.tests details ++
      [entries, "Snapshot: " ++ s.snapshotPath, "Report: " ++ s.reportPath]
  | none =>
    ["Unit tests: " ++ toString summary.tests ++ " (from snapshot)", entries,
      "Snapshot: " ++ s.snapshotPath]

def reportLine (s : Settings) (index : CallIndex) : String :=
  "Exported " ++ toString index.size ++ " tests to " ++ s.reportPath

/-! ### Failures -/

/-- A text whose lines after the first start with a margin. -/
def withMargin (margin s : String) : String :=
  String.ofList (s.toList.flatMap fun c => if c = '\n' then '\n' :: margin.toList else [c])

/-- The causes of a failure, numbered if there are several. -/
def causeTexts : List String → List String
  | [cause] => ["    " ++ withMargin "    " cause]
  | causes => causes.mapIdx fun i cause => "    " ++ toString i ++ ": " ++ withMargin "       " cause

def failureText (context : String) (failure : Failure) : String :=
  unlines (["Error: " ++ context, "", "Caused by:"] ++ causeTexts failure.causes)

/-! ### Help -/

def versionText : String := unlines ["testreach 0.1.0"]

def helpText : String := unlines
  ["Finds which methods each unit test reaches, and how deep.",
   "",
   "Usage: testreach [OPTIONS] <COMMAND>",
   "",
   "Commands:",
   "  analyze  Build call entries for every unit test in a call log",
   "  export   Rewrite the JSON document from the stored snapshot",
   "",
   "Options:",
   "  -c, --config <PATH>    Configuration file (default: ./testreach.toml when present)",
   "  -w, --work-dir <PATH>  Directory for cached artifacts and outputs",
   "  -v, --verbose          Log debug details",
   "  -h, --help             Print help",
   "  -V, --version          Print version",
   "",
   "Options of analyze:",
   "  -l, --call-log <PATH>        Call log produced by the call-graph tool",
   "  -t, --test-list <PATH>       JSON list of tests to use instead of the naming convention",
   "      --class-suffix <TEXT>    Required suffix of test class names",
   "      --method-prefix <TEXT>   Required prefix of test method names",
   "  -p, --project-prefix <TEXT>  Restrict reachable methods to this prefix",
   "      --traversal <STRATEGY>   depth-first or shortest-depth",
   "      --refresh                Discard cached unit tests and call entries first"]

def usageText : String := unlines
  ["error: unknown command line", "", "For more information, try '--help'."]

end CallDepth.CommandLine
