import Std.Data.ExtTreeMap
import CallDepth.Method

/-!
# Sets of methods

Finite sets of methods in canonical order. Of several methods with one canonical form, the set keeps
the first that it was given.
-/

namespace CallDepth

/-- What is in canonical order is not repeated. -/
theorem nodup_of_pairwise_compare {names : List String}
    (h : names.Pairwise fun a b => compare a b = .lt) : names.Nodup := by
  refine h.imp fun {a b} hlt heq => ?_
  simp [heq] at hlt

structure MethodSet where
  byName : Std.ExtTreeMap String Method
  canonical_of_getElem? : ∀ {name : String} {m : Method},
    byName[name]? = some m → m.canonical = name

namespace MethodSet

def empty : MethodSet := ⟨∅, by simp⟩

def contains (s : MethodSet) (m : Method) : Bool := s.byName.contains m.canonical

def insert (s : MethodSet) (m : Method) : MethodSet where
  byName := s.byName.insertIfNew m.canonical m
  canonical_of_getElem? := by
    intro name n h
    rw [Std.ExtTreeMap.getElem?_insertIfNew] at h
    split at h
    · rename_i hname
      cases h
      exact Std.LawfulEqCmp.eq_of_compare hname.1
    · exact s.canonical_of_getElem? h

def ofList (ms : List Method) : MethodSet := ms.foldl insert empty

def toList (s : MethodSet) : List Method := s.byName.toList.map (·.2)

def names (s : MethodSet) : List String := s.byName.keys

def size (s : MethodSet) : Nat := s.byName.size

theorem length_toList (s : MethodSet) : s.toList.length = s.size := by simp [toList, size]

theorem map_canonical_toList (s : MethodSet) : s.toList.map Method.canonical = s.names := by
  rw [names, ← Std.ExtTreeMap.map_fst_toList_eq_keys, toList, List.map_map]
  apply List.map_congr_left
  intro entry hentry
  exact s.canonical_of_getElem? (Std.ExtTreeMap.mem_toList_iff_getElem?_eq_some.mp hentry)

theorem pairwise_names (s : MethodSet) : s.names.Pairwise fun a b => compare a b = .lt :=
  Std.ExtTreeMap.ordered_keys

theorem pairwise_toList (s : MethodSet) : s.toList.Pairwise fun m n => m.compare n = .lt := by
  have hnames := s.pairwise_names
  rw [← s.map_canonical_toList, List.pairwise_map] at hnames
  exact hnames

theorem mem_names_iff {s : MethodSet} {name : String} : name ∈ s.names ↔ name ∈ s.byName :=
  Std.ExtTreeMap.mem_keys

theorem ext_getElem? {s t : MethodSet} (h : ∀ name : String, s.byName[name]? = t.byName[name]?) :
    s = t := by
  obtain ⟨s, _⟩ := s
  obtain ⟨t, _⟩ := t
  obtain rfl : s = t := Std.ExtTreeMap.ext_getElem? h
  rfl

end MethodSet

end CallDepth
