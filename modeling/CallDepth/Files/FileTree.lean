import CallDepth.Bytes
import CallDepth.Failure
import CallDepth.Files.Path

/-!
# File trees

Directories and files as a value, with the operations of a file system on it. Each operation says
why it is refused, as the system would; one that is refused half-way leaves what it had done. There is
room for every directory and, unless a limit is given to a write, for every file. Only directories and
plain files are there, and everything that is there may be read, written and removed.
-/

namespace CallDepth

/-- Where something lies: the names of the directories from the root to it, and its own. -/
abbrev Location := List String

inductive Node where
  | directory
  | file (bytes : Bytes)
  deriving DecidableEq, Repr

structure FileTree where
  /-- What lies where; of several nodes at one location the first counts. -/
  nodes : List (Location × Node)
  workingDirectory : Location

namespace FileTree

def empty : FileTree := ⟨[], ["work"]⟩

/-! ### Nodes -/

/-- What lies at a location; the working directory and those around it are always there. -/
def node? (t : FileTree) (loc : Location) : Option Node :=
  if loc.isPrefixOf t.workingDirectory then some .directory else t.nodes.lookup loc

def put (t : FileTree) (loc : Location) (node : Node) : FileTree :=
  { t with nodes := (loc, node) :: t.nodes.filter fun entry => entry.1 ≠ loc }

/-- Takes away what lies at a location and below it. -/
def erase (t : FileTree) (loc : Location) : FileTree :=
  { t with nodes := t.nodes.filter fun entry => !loc.isPrefixOf entry.1 }

theorem lookup_filter_fst (keep : Location → Bool) (loc : Location)
    (nodes : List (Location × Node)) :
    (nodes.filter fun entry => keep entry.1).lookup loc =
      if keep loc then nodes.lookup loc else none := by
  induction nodes with
  | nil => simp
  | cons entry rest ih =>
    obtain ⟨key, node⟩ := entry
    by_cases hloc : loc = key
    · subst hloc
      by_cases hkeep : keep loc = true <;> simp [hkeep, ih]
    · have hne : (loc == key) = false := beq_eq_false_iff_ne.mpr hloc
      by_cases hkeep : keep key = true <;> simp [hkeep, hne, ih, List.lookup_cons]

theorem node?_put (t : FileTree) (loc other : Location) (node : Node) :
    (t.put loc node).node? other =
      if other.isPrefixOf t.workingDirectory then some .directory
      else if other = loc then some node else t.node? other := by
  simp only [node?, put]
  by_cases haround : other.isPrefixOf t.workingDirectory = true
  · simp only [haround, if_true]
  · rw [List.lookup_cons, lookup_filter_fst fun key => decide (key ≠ loc)]
    by_cases hloc : other = loc
    · simp only [hloc, beq_self_eq_true, if_true]
    · have hne : (other == loc) = false := beq_eq_false_iff_ne.mpr hloc
      simp only [haround, hne, hloc, Bool.false_eq_true, if_false, ne_eq, not_false_eq_true,
        decide_true, if_true]

theorem node?_erase (t : FileTree) (loc other : Location) :
    (t.erase loc).node? other =
      if other.isPrefixOf t.workingDirectory then some .directory
      else if loc.isPrefixOf other then none else t.node? other := by
  simp only [node?, erase]
  by_cases haround : other.isPrefixOf t.workingDirectory = true
  · simp only [haround, if_true]
  · rw [lookup_filter_fst fun key => !loc.isPrefixOf key]
    by_cases hloc : loc.isPrefixOf other = true
    · simp only [haround, hloc, Bool.not_true, Bool.false_eq_true, if_false, if_true]
    · simp only [haround, hloc, Bool.not_false, Bool.false_eq_true, if_false, if_true]

/-! ### Following paths -/

/-- Where the steps lead from a location; every step is taken in a directory. -/
def walk (t : FileTree) (loc : Location) : List Path.Step → Except Fault Location
  | [] => .ok loc
  | step :: rest =>
    match t.node? loc with
    | none => .error .notFound
    | some (.file _) => .error .notDirectory
    | some .directory =>
      match step with
      | .here => t.walk loc rest
      | .up => t.walk loc.dropLast rest
      | .down name => t.walk (loc ++ [name]) rest

def origin (t : FileTree) (path : String) : Location :=
  if Path.isAbsolute path then [] else t.workingDirectory

/-- Where a path leads, whether or not something is there. -/
def locate (t : FileTree) (path : String) : Except Fault Location :=
  if path = "" then .error .notFound else t.walk (t.origin path) (Path.fullSteps path)

def find? (t : FileTree) (path : String) : Except Fault Node :=
  match t.locate path with
  | .error fault => .error fault
  | .ok loc =>
    match t.node? loc with
    | some node => .ok node
    | none => .error .notFound

/-! ### Files -/

def isFile (t : FileTree) (path : String) : Bool :=
  match t.find? path with
  | .ok (.file _) => true
  | _ => false

def read (t : FileTree) (path : String) : Except Fault Bytes :=
  match t.find? path with
  | .error fault => .error fault
  | .ok .directory => .error .isDirectory
  | .ok (.file bytes) => .ok bytes

/-- Where a file is written that a path names: the directory must be there, and no directory where
the file shall be. -/
def target (t : FileTree) (path : String) : Except Fault Location :=
  if path = "" then .error .notFound
  else
    match t.walk (t.origin path) (Path.steps path) with
    | .error fault => .error fault
    | .ok loc =>
      if Path.isClosed path then .error .isDirectory
      else
        match t.node? loc with
        | some .directory => .error .isDirectory
        | _ => .ok loc

/-- Writes a file on a disk that has room for it. -/
def write (t : FileTree) (path : String) (bytes : Bytes) : Except Fault Unit × FileTree :=
  match t.target path with
  | .error fault => (.error fault, t)
  | .ok loc => (.ok (), t.put loc (.file bytes))

/-- How far a disk goes with a write: how many bytes it takes if it opens the file at all, and why it
goes no further. -/
structure Limit where
  room : Option Nat
  fault : Fault
  deriving DecidableEq, Repr

/-- Writes a file as far as a limit allows. The file is emptied before the first byte is written, and
where the disk refuses the rest, the file stays with what was taken. -/
def writeWithin (t : FileTree) (limit : Limit) (path : String) (bytes : Bytes) :
    Except Fault Unit × FileTree :=
  match t.target path, limit.room with
  | .error fault, _ => (.error fault, t)
  | .ok _, none => (.error limit.fault, t)
  | .ok loc, some room =>
    if bytes.length ≤ room then (.ok (), t.put loc (.file bytes))
    else (.error limit.fault, t.put loc (.file (bytes.take room)))

/-- Removes what a path names, a directory with all that is in it. -/
def remove (t : FileTree) (path : String) : Except Fault Unit × FileTree :=
  match t.locate path with
  | .error fault => (.error fault, t)
  | .ok loc =>
    match t.node? loc with
    | none => (.error .notFound, t)
    | some _ => (.ok (), t.erase loc)

/-! ### Directories -/

/-- Makes one directory; `back` holds the steps to it, last first. -/
def makeDirectory (t : FileTree) (start : Location) (back : List Path.Step) :
    Except Fault Unit × FileTree :=
  match t.walk start back.reverse with
  | .error fault => (.error fault, t)
  | .ok loc =>
    match t.node? loc with
    | some _ => (.error .alreadyExists, t)
    | none => (.ok (), t.put loc .directory)

def isDirectoryAt (t : FileTree) (start : Location) (back : List Path.Step) : Bool :=
  match t.walk start back.reverse with
  | .ok loc => t.node? loc = some .directory
  | .error _ => false

def ensureDirectory (t : FileTree) (start : Location) (back : List Path.Step) :
    Except Fault Unit × FileTree :=
  match t.makeDirectory start back with
  | (.ok _, t) => (.ok (), t)
  | (.error fault, t) => if t.isDirectoryAt start back then (.ok (), t) else (.error fault, t)

/-- Makes a directory and those around it, as far as they are not there. -/
def ensureDirectories (t : FileTree) (start : Location) :
    List Path.Step → Except Fault Unit × FileTree
  | [] => (.ok (), t)
  | step :: above =>
    match t.ensureDirectory start (step :: above) with
    | (.error .notFound, t) =>
      match t.ensureDirectories start above with
      | (.ok _, t) => t.ensureDirectory start (step :: above)
      | refused => refused
    | result => result

def makeParents (t : FileTree) (path : String) : Except Fault Unit × FileTree :=
  t.ensureDirectories (t.origin path) (Path.moves path).reverse.tail

/-- Makes the directory that a path names, with those around it. A path that ends in a step that
stays names nothing new, so it leads to a directory only where one is. -/
def makeDirectories (t : FileTree) (path : String) : Except Fault Unit × FileTree :=
  let back := (Path.steps path).reverse
  match t.ensureDirectory (t.origin path) back with
  | (.error .notFound, t) =>
    match t.makeParents path with
    | (.ok _, t) => t.ensureDirectory (t.origin path) back
    | refused => refused
  | result => result

/-! ### Listing -/

/-- The paths of all that lies in the working directory, in order; those of directories end in a
slash. -/
def listing (t : FileTree) : List String :=
  let shown := t.nodes.filterMap fun (loc, node) =>
    if t.workingDirectory.isPrefixOf loc then
      let path := "/".intercalate (loc.drop t.workingDirectory.length)
      some (match node with
        | .directory => path ++ "/"
        | .file _ => path)
    else none
  shown.mergeSort fun a b => (compare a b).isLE

end FileTree

end CallDepth
