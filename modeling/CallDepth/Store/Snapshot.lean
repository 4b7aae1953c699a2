import CallDepth.CallIndex
import CallDepth.Method.Grammar
import CallDepth.Store.Codec
import CallDepth.Text.Utf8

/-!
# Snapshots

An index is kept as bytes: the number of its roots, then each root with the number of its entries
and the entries. A method is written as the length of its canonical form in bytes and the form, and
every number as a word. Bytes after the last entry are not looked at.
-/

namespace CallDepth.Snapshot

/-! ### Writing -/

def encodeString (s : String) : Bytes :=
  let bytes := Text.Utf8.ofString s
  word bytes.length ++ bytes

def encodeEntry (entry : CallEntry) : Bytes := encodeString entry.callee ++ word entry.level

def encodeRow (row : String × List CallEntry) : Bytes :=
  encodeString row.1 ++ word row.2.length ++ row.2.flatMap encodeEntry

def encode (index : CallIndex) : Bytes := word index.size ++ index.toList.flatMap encodeRow

/-! ### Reading -/

inductive Defect where
  /-- The bytes end within a number. -/
  | cutWord
  /-- The bytes end within the form of a method. -/
  | cutString
  | notUtf8
  | malformed (text : String)
  deriving DecidableEq, Repr

/-- What is told of a defect. Which bytes of a text are not UTF-8 is not told with it. -/
def Defect.message : Defect → String
  | cutWord => "snapshot does not decode: io error: unexpected end of file"
  | cutString => "snapshot does not decode: io error: "
  | notUtf8 => "snapshot does not decode: string is not valid utf8"
  | malformed text => "snapshot does not decode: " ++ (Failure.malformedMethod text).message

/-- Reads a value off the front of a byte string. -/
abbrev Decoder (α : Type) := Bytes → Except Defect (α × Bytes)

def decodeWord : Decoder Nat := fun bs =>
  match takeWord? bs with
  | some result => .ok result
  | none => .error .cutWord

def decodeString : Decoder String := fun bs => do
  let (length, bs) ← decodeWord bs
  match takeExactly? length bs with
  | none => .error .cutString
  | some (front, rest) =>
    match Text.Utf8.toString? front with
    | some s => .ok (s, rest)
    | none => .error .notUtf8

def decodeMethod : Decoder String := fun bs => do
  let (text, bs) ← decodeString bs
  match Method.parse? text with
  | some _ => .ok (text, bs)
  | none => .error (.malformed text)

/-- Reads as many values as `count` says; `done` holds those so far, last first. -/
def decodeManyFrom {α : Type} (decode : Decoder α) (done : List α) : Nat → Decoder (List α)
  | 0, bs => .ok (done.reverse, bs)
  | count + 1, bs =>
    match decode bs with
    | .error defect => .error defect
    | .ok (value, rest) => decodeManyFrom decode (value :: done) count rest

def decodeMany {α : Type} (decode : Decoder α) : Decoder (List α) := fun bs => do
  let (count, bs) ← decodeWord bs
  decodeManyFrom decode [] count bs

def decodeEntry : Decoder CallEntry := fun bs => do
  let (callee, bs) ← decodeMethod bs
  let (level, bs) ← decodeWord bs
  .ok (⟨callee, level⟩, bs)

def decodeRow : Decoder (String × List CallEntry) := fun bs => do
  let (root, bs) ← decodeMethod bs
  let (entries, bs) ← decodeMany decodeEntry bs
  .ok ((root, entries), bs)

def decode (bs : Bytes) : Except Defect CallIndex := do
  let (rows, _) ← decodeMany decodeRow bs
  .ok (CallIndex.ofList rows)

def codec : Codec CallIndex where
  encode := encode
  decode bs := (decode bs).mapError Defect.message
  isStorable _ := true

end CallDepth.Snapshot
