import CallDepth.CallRecord
import CallDepth.MethodSet

/-!
# Call graphs

Who calls whom: each caller with the set of methods that it calls. Callers and callees come in
canonical order, so nothing that is read off a graph depends on the order of its edges.
-/

namespace CallDepth

structure CallGraph where
  /-- A caller and its callees, by the canonical form of the caller. -/
  rows : Std.ExtTreeMap String (Method × MethodSet)
  canonical_of_getElem? : ∀ {name : String} {row : Method × MethodSet},
    rows[name]? = some row → row.1.canonical = name

namespace CallGraph

def empty : CallGraph := ⟨∅, by simp⟩

/-- The row of a caller, which has no callees before its first call. -/
def row (g : CallGraph) (caller : Method) : Method × MethodSet :=
  g.rows[caller.canonical]?.getD (caller, MethodSet.empty)

theorem canonical_row (g : CallGraph) (caller : Method) :
    (g.row caller).1.canonical = caller.canonical := by
  unfold row
  cases h : g.rows[caller.canonical]? with
  | none => rfl
  | some row => exact g.canonical_of_getElem? h

/-- The graph with one more call; of equal methods the first is kept. -/
def addEdge (g : CallGraph) (caller callee : Method) : CallGraph where
  rows := g.rows.insert caller.canonical
    ((g.row caller).1, (g.row caller).2.insert callee)
  canonical_of_getElem? := by
    intro name row h
    rw [Std.ExtTreeMap.getElem?_insert] at h
    split at h
    · rename_i hname
      cases h
      exact (g.canonical_row caller).trans (Std.LawfulEqCmp.eq_of_compare hname)
    · exact g.canonical_of_getElem? h

def addRecord (g : CallGraph) (record : CallRecord) : CallGraph :=
  g.addEdge record.caller record.callee

def ofEdges (edges : List (Method × Method)) : CallGraph :=
  edges.foldl (fun g edge => g.addEdge edge.1 edge.2) empty

/-! ### Views -/

def callees? (g : CallGraph) (m : Method) : Option MethodSet :=
  g.rows[m.canonical]?.map (·.2)

def callees (g : CallGraph) (m : Method) : List Method :=
  ((g.callees? m).map MethodSet.toList).getD []

def callers (g : CallGraph) : List Method := g.rows.toList.map (·.2.1)

def callerNames (g : CallGraph) : List String := g.rows.keys

def callerCount (g : CallGraph) : Nat := g.rows.size

def edgeCount (g : CallGraph) : Nat := (g.rows.toList.map (·.2.2.size)).foldr (· + ·) 0

def isEmpty (g : CallGraph) : Bool := g.rows.isEmpty

theorem length_callers (g : CallGraph) : g.callers.length = g.callerCount := by
  simp [callers, callerCount]

theorem length_callerNames (g : CallGraph) : g.callerNames.length = g.callerCount :=
  Std.ExtTreeMap.length_keys

theorem isEmpty_eq (g : CallGraph) : g.isEmpty = (g.callerCount == 0) :=
  Std.ExtTreeMap.isEmpty_eq_size_beq_zero

theorem map_canonical_callers (g : CallGraph) : g.callers.map Method.canonical = g.callerNames := by
  rw [callerNames, ← Std.ExtTreeMap.map_fst_toList_eq_keys, callers, List.map_map]
  apply List.map_congr_left
  intro entry hentry
  exact g.canonical_of_getElem? (Std.ExtTreeMap.mem_toList_iff_getElem?_eq_some.mp hentry)

theorem pairwise_callerNames (g : CallGraph) :
    g.callerNames.Pairwise fun a b => compare a b = .lt :=
  Std.ExtTreeMap.ordered_keys

theorem pairwise_callers (g : CallGraph) :
    g.callers.Pairwise fun m n => m.compare n = .lt := by
  have hnames := g.pairwise_callerNames
  rw [← g.map_canonical_callers, List.pairwise_map] at hnames
  exact hnames

theorem mem_callerNames_iff {g : CallGraph} {m : Method} :
    m.canonical ∈ g.callerNames ↔ (g.callees? m).isSome := by
  simp only [callerNames, callees?, Std.ExtTreeMap.mem_keys, Option.isSome_map,
    Std.ExtTreeMap.isSome_getElem?_eq_contains, Std.ExtTreeMap.contains_iff_mem]

theorem callees_eq_toList {g : CallGraph} {m : Method} {s : MethodSet}
    (h : g.callees? m = some s) : g.callees m = s.toList := by
  simp [callees, h]

theorem callees_eq_nil_of_not_mem {g : CallGraph} {m : Method}
    (h : m.canonical ∉ g.callerNames) : g.callees m = [] := by
  rw [mem_callerNames_iff, Bool.not_eq_true, Option.isSome_eq_false_iff, Option.isNone_iff_eq_none] at h
  simp [callees, h]

theorem ext_getElem? {g h : CallGraph} (hrows : ∀ name : String, g.rows[name]? = h.rows[name]?) :
    g = h := by
  obtain ⟨g, _⟩ := g
  obtain ⟨h, _⟩ := h
  obtain rfl : g = h := Std.ExtTreeMap.ext_getElem? hrows
  rfl

end CallGraph

end CallDepth
