import Std.Data.ExtTreeMap
import CallDepth.Reach.Trail

/-!
# Indexes of reached methods

For each root, by its canonical form, the methods that it reaches with their levels, in the order of
their discovery. Roots come in canonical order.
-/

namespace CallDepth

structure CallIndex where
  byRoot : Std.ExtTreeMap String (List CallEntry)

namespace CallIndex

def empty : CallIndex := ⟨∅⟩

/-- The index with the entries of a root, which replace those that it had. -/
def insert (index : CallIndex) (root : String) (entries : List CallEntry) : CallIndex :=
  ⟨index.byRoot.insert root entries⟩

def ofList (rows : List (String × List CallEntry)) : CallIndex :=
  rows.foldl (fun index row => index.insert row.1 row.2) empty

def get? (index : CallIndex) (root : String) : Option (List CallEntry) := index.byRoot[root]?

def toList (index : CallIndex) : List (String × List CallEntry) := index.byRoot.toList

def size (index : CallIndex) : Nat := index.byRoot.size

def isEmpty (index : CallIndex) : Bool := index.byRoot.isEmpty

def totalEntries (index : CallIndex) : Nat := (index.toList.map (·.2.length)).foldr (· + ·) 0

def maxLevel (index : CallIndex) : Nat :=
  (index.toList.flatMap (·.2)).foldl (fun level entry => max level entry.level) 0

theorem get?_empty (root : String) : empty.get? root = none := by simp [get?, empty]

theorem get?_insert (index : CallIndex) (root other : String) (entries : List CallEntry) :
    (index.insert root entries).get? other =
      if root = other then some entries else index.get? other := by
  simp [get?, insert, Std.ExtTreeMap.getElem?_insert]

theorem length_toList (index : CallIndex) : index.toList.length = index.size := by
  simp [toList, size]

theorem mem_toList_iff {index : CallIndex} {root : String} {entries : List CallEntry} :
    (root, entries) ∈ index.toList ↔ index.get? root = some entries :=
  Std.ExtTreeMap.mem_toList_iff_getElem?_eq_some

theorem pairwise_toList (index : CallIndex) :
    index.toList.Pairwise fun a b => compare a.1 b.1 = .lt :=
  Std.ExtTreeMap.ordered_keys_toList

theorem ext_get? {i j : CallIndex} (h : ∀ root, i.get? root = j.get? root) : i = j := by
  obtain ⟨i⟩ := i
  obtain ⟨j⟩ := j
  obtain rfl : i = j := Std.ExtTreeMap.ext_getElem? h
  rfl

theorem toList_inj {i j : CallIndex} : i.toList = j.toList ↔ i = j := by
  obtain ⟨i⟩ := i
  obtain ⟨j⟩ := j
  simp [toList, Std.ExtTreeMap.toList_inj]

end CallIndex

end CallDepth
