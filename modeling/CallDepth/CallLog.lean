import CallDepth.CallGraph
import CallDepth.Text.Utf8

/-!
# Call logs

A call log is read line by line into a call graph. Every line must be UTF-8, and a line with the
marker of a record must be one; the first line that is neither stops the reading and is reported
with its number.
-/

namespace CallDepth.CallLog

/-! ### Lines -/

def lineFeed : UInt8 := 10

/-- Moves the lines that are complete to `done`, the last of them first; `line` is the line under
way, its last byte first. -/
def linesFrom (done : List Bytes) (line : Bytes) : Bytes → List Bytes
  | [] => if line = [] then done.reverse else (line.reverse :: done).reverse
  | b :: rest =>
    if b = lineFeed then linesFrom ((b :: line).reverse :: done) [] rest
    else linesFrom done (b :: line) rest

/-- The lines of a byte string, each with the line feed that ends it; the last may lack one. -/
def lines (bs : Bytes) : List Bytes := linesFrom [] [] bs

theorem flatten_linesFrom (done : List Bytes) (line bs : Bytes) :
    (linesFrom done line bs).flatten = done.reverse.flatten ++ line.reverse ++ bs := by
  induction bs generalizing done line with
  | nil =>
    simp only [linesFrom]
    split
    · rename_i h
      simp [h]
    · simp
  | cons b rest ih =>
    simp only [linesFrom]
    split
    · rw [ih]
      simp
    · rw [ih]
      simp

theorem flatten_lines (bs : Bytes) : (lines bs).flatten = bs := by
  simp [lines, flatten_linesFrom]

/-! ### Reading -/

/-- What has been read of a call log: the graph of its calls, and how many lines and records it took
to build it. -/
structure Reading where
  graph : CallGraph
  lines : Nat
  records : Nat

namespace Reading

def empty : Reading := ⟨CallGraph.empty, 0, 0⟩

def readLine (r : Reading) (line : Bytes) : Except Failure Reading :=
  let number := r.lines + 1
  match Text.Utf8.toString? line with
  | none =>
    .error (.malformedRecord number
      (String.ofList (Text.dropLineEnd (Text.Utf8.decodeLenient line))))
  | some text =>
    match CallRecord.parse text number with
    | .error failure => .error failure
    | .ok none => .ok { r with lines := number }
    | .ok (some record) =>
      .ok { graph := r.graph.addRecord record, lines := number, records := r.records + 1 }

end Reading

def read (bs : Bytes) : Except Failure Reading := (lines bs).foldlM Reading.readLine .empty

def graph (bs : Bytes) : Except Failure CallGraph := (read bs).map Reading.graph

end CallDepth.CallLog
