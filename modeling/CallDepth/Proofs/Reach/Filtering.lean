import CallDepth.Proofs.CallGraph
import CallDepth.Proofs.Method.Made
import CallDepth.Proofs.Reach.Layers
import CallDepth.Proofs.Reach.Roots
import CallDepth.Proofs.Reach.Walk
import CallDepth.Proofs.Scope

/-!
# Filtering before the traversal

A traversal passes over callees that are out of scope, wherever it meets them. So it gives what it
would give without a scope on the calls of methods in scope alone, and the calls that are made by
other methods than the root and those in scope do not matter to it at all. Both are read off the names
of the callees that are followed from each method that can be met.
-/

namespace CallDepth

/-! ### Names and scopes -/

namespace Method

theorem inScope_empty (m : Method) : m.inScope "" = true := inScope_iff.mpr List.nil_prefix

/-- A name that can be read has one declaring type in it. -/
theorem declaringType_eq_of_canonical_eq {m n : Method} (hm : (parse? m.canonical).isSome = true)
    (h : m.canonical = n.canonical) : m.declaringType = n.declaringType := by
  obtain ⟨m', hread⟩ := Option.isSome_iff_exists.mp hm
  obtain ⟨f, htext, -⟩ := parse?_eq_some_iff_form.mp hread
  have hform (n : Method) (hn : f.text = n.canonical.toList) :
      f.declaringType = n.declaringType.toList := by
    rw [← n.canonical_make_parts] at hn
    exact (Form.text_eq_canonical_make_iff.mp hn).1
  exact String.toList_inj.mp ((hform m htext).symm.trans (hform n (h ▸ htext)))

theorem inScope_congr {m n : Method} (hm : (parse? m.canonical).isSome = true)
    (h : m.canonical = n.canonical) (scope : String) : m.inScope scope = n.inScope scope := by
  rw [inScope, inScope, declaringType_eq_of_canonical_eq hm h]

end Method

namespace Reach

/-! ### Calls that are followed -/

/-- The callees of a method that a traversal follows. -/
def followed (g : CallGraph) (scope : String) (m : Method) : List Method :=
  (g.callees m).filter (Method.inScope scope)

/-- Whether methods of the same names are followed in two graphs, each with its scope, from every
method of a class of names that holds the root and what is followed from its members. -/
structure SameFollowed (met : String → Prop) (g g' : CallGraph) (scope scope' : String)
    (root : Method) : Prop where
  root : met root.canonical
  met_of_mem : ∀ m, met m.canonical → ∀ callee ∈ followed g scope m, met callee.canonical
  names_eq : ∀ m, met m.canonical →
    (followed g scope m).map Method.canonical = (followed g' scope' m).map Method.canonical

variable {met : String → Prop} {g g' : CallGraph} {scope scope' : String} {root u m n : Method}
  {level : Nat} {out : List CallEntry} {callees callees' ms ns : List Method}
  {seen : List String}

theorem admits_empty_iff (h : m.inScope scope = true) :
    Admits "" seen m ↔ Admits scope seen m := by
  rw [Admits, Admits, h, m.inScope_empty]

theorem admits_empty_congr (h : m.canonical = n.canonical) :
    Admits "" seen m ↔ Admits "" seen n := by
  rw [Admits, Admits, h, m.inScope_empty, n.inScope_empty]

theorem followed_congr (h : m.canonical = n.canonical) : followed g scope m = followed g scope n := by
  rw [followed, followed, g.callees_congr h]

/-! ### Depth first -/

theorem walk_eq_foldl_followed (g : CallGraph) (scope : String) (m : Method) (level : Nat)
    (out : List CallEntry) :
    walk g scope m level out =
      (followed g scope m).foldl (visit "" (walk g scope) level) out := by
  rw [walk, walkOver_eq_foldl, followed, List.foldl_filter]
  refine List.foldl_ext _ _ _ fun out callee _ => ?_
  by_cases hscope : callee.inScope scope = true
  · simp only [visit, admits_empty_iff hscope, if_pos hscope]
  · rw [if_neg hscope, visit, if_neg fun h => hscope h.2]

/-- Where the same names are followed, the walks over callees go the same way. -/
theorem SameFollowed.foldl_visit_eq (h : SameFollowed met g g' scope scope' root)
    (hmet : ∀ callee ∈ callees.filter (Method.inScope scope), met callee.canonical)
    (hnames : (callees.filter (Method.inScope scope)).map Method.canonical =
      callees'.map Method.canonical) :
    (callees.filter (Method.inScope scope)).foldl (visit "" (walk g scope) level) out =
      callees'.foldl (visit "" (walk g' scope') level) out := by
  induction level, callees, out using walkOver.induct g scope generalizing callees' with
  | case1 level out =>
    rw [List.map_eq_nil_iff.mp hnames.symm]
    rfl
  | case2 level m rest out hadmits inner ihinner ihafter =>
    rw [List.filter_cons_of_pos hadmits.2] at hmet hnames ⊢
    obtain ⟨hm, hrest⟩ := List.forall_mem_cons.mp hmet
    obtain ⟨n, rest', rfl, hname, hnames⟩ := List.map_eq_cons_iff.mp hnames.symm
    have hadmitsm : Admits "" (names out) m := (admits_empty_iff hadmits.2).mpr hadmits
    have hadmitsn : Admits "" (names out) n := (admits_empty_congr hname).mpr hadmitsm
    have hinner : inner.val = walk g' scope' n (level + 1) (out ++ [⟨n.canonical, level⟩]) := by
      show walk g scope m (level + 1) _ = _
      rw [walk_eq_foldl_followed, walk_eq_foldl_followed, followed_congr hname, hname]
      exact ihinner (h.met_of_mem m hm) (h.names_eq m hm)
    rw [List.foldl_cons, List.foldl_cons, visit, visit, if_pos hadmitsm, if_pos hadmitsn, ← hinner]
    exact ihafter hrest hnames.symm
  | case3 level m rest out hskip ih =>
    by_cases hscope : m.inScope scope = true
    · rw [List.filter_cons_of_pos hscope] at hmet hnames ⊢
      obtain ⟨n, rest', rfl, hname, hnames⟩ := List.map_eq_cons_iff.mp hnames.symm
      have hskipm : ¬ Admits "" (names out) m := mt (admits_empty_iff hscope).mp hskip
      have hskipn : ¬ Admits "" (names out) n := mt (admits_empty_congr hname).mp hskipm
      rw [List.foldl_cons, List.foldl_cons, visit, visit, if_neg hskipm, if_neg hskipn]
      exact ih (List.forall_mem_cons.mp hmet).2 hnames.symm
    · rw [List.filter_cons_of_neg hscope] at hmet hnames ⊢
      exact ih hmet hnames

theorem SameFollowed.depthFirst_eq (h : SameFollowed met g g' scope scope' root) :
    depthFirst g scope root = depthFirst g' scope' root := by
  rw [depthFirst_eq_walk, depthFirst_eq_walk, walk_eq_foldl_followed, walk_eq_foldl_followed]
  exact h.foldl_visit_eq (h.met_of_mem root h.root) (h.names_eq root h.root)

/-! ### Breadth first -/

theorem fresh_eq_fresh_filter (scope : String) (seen : List String) (ms : List Method) :
    fresh scope seen ms = fresh "" seen (ms.filter (Method.inScope scope)) := by
  induction ms generalizing seen with
  | nil => rfl
  | cons m rest ih =>
    by_cases hscope : m.inScope scope = true
    · simp only [List.filter_cons_of_pos hscope, fresh, admits_empty_iff hscope, ih]
    · rw [List.filter_cons_of_neg hscope, fresh, if_neg fun h => hscope h.2, ih]

theorem map_canonical_fresh_congr (h : ms.map Method.canonical = ns.map Method.canonical) :
    (fresh "" seen ms).map Method.canonical = (fresh "" seen ns).map Method.canonical := by
  induction ms generalizing ns seen with
  | nil => rw [List.map_eq_nil_iff.mp h.symm]
  | cons m ms ih =>
    obtain ⟨n, ns, rfl, hname, hrest⟩ := List.map_eq_cons_iff.mp h.symm
    by_cases hadmits : Admits "" seen m
    · rw [fresh, fresh, if_pos hadmits, if_pos ((admits_empty_congr hname).mpr hadmits),
        List.map_cons, List.map_cons, hname, ih hrest.symm]
    · rw [fresh, fresh, if_neg hadmits, if_neg (mt (admits_empty_congr hname).mp hadmits),
        ih hrest.symm]

theorem layer_succ_eq_followed (k : Nat) :
    layer g scope root (k + 1) =
      fresh "" ((placed g scope root k).map Method.canonical)
        ((layer g scope root k).flatMap (followed g scope)) := by
  rw [layer_succ, fresh_eq_fresh_filter, List.filter_flatMap]
  rfl

theorem SameFollowed.map_canonical_flatMap_eq (h : SameFollowed met g g' scope scope' root)
    (hmet : ∀ m ∈ ms, met m.canonical) (hnames : ms.map Method.canonical = ns.map Method.canonical) :
    (ms.flatMap (followed g scope)).map Method.canonical =
      (ns.flatMap (followed g' scope')).map Method.canonical := by
  induction ms generalizing ns with
  | nil =>
    rw [List.map_eq_nil_iff.mp hnames.symm]
    rfl
  | cons m ms ih =>
    obtain ⟨n, ns, rfl, hname, hrest⟩ := List.map_eq_cons_iff.mp hnames.symm
    obtain ⟨hm, hms⟩ := List.forall_mem_cons.mp hmet
    rw [List.flatMap_cons, List.flatMap_cons, List.map_append, List.map_append, ih hms hrest.symm,
      h.names_eq m hm, followed_congr hname]

theorem SameFollowed.names_layer_eq (h : SameFollowed met g g' scope scope' root) (k : Nat) :
    (layer g scope root k).map Method.canonical = (layer g' scope' root k).map Method.canonical ∧
      (placed g scope root k).map Method.canonical =
        (placed g' scope' root k).map Method.canonical ∧
      ∀ m ∈ layer g scope root k, met m.canonical := by
  induction k with
  | zero => exact ⟨rfl, rfl, fun m hm => List.mem_singleton.mp hm ▸ h.root⟩
  | succ k ih =>
    obtain ⟨hlayer, hplaced, hmet⟩ := ih
    have hnext : (layer g scope root (k + 1)).map Method.canonical =
        (layer g' scope' root (k + 1)).map Method.canonical := by
      rw [layer_succ_eq_followed, layer_succ_eq_followed, hplaced]
      exact map_canonical_fresh_congr (h.map_canonical_flatMap_eq hmet hlayer)
    refine ⟨hnext, ?_, fun m hm => ?_⟩
    · rw [placed_succ, placed_succ, List.map_append, List.map_append, hplaced, hnext]
    · rw [layer_succ_eq_followed] at hm
      obtain ⟨u, hu, hcallee⟩ := List.mem_flatMap.mp (mem_of_mem_fresh hm).1
      exact h.met_of_mem u (hmet u hu) m hcallee

theorem entriesAt_eq_map (level : Nat) (ms : List Method) :
    entriesAt level ms = (ms.map Method.canonical).map fun name => ⟨name, level⟩ := by
  rw [entriesAt, List.map_map]
  rfl

theorem SameFollowed.breadthFirst_eq (h : SameFollowed met g g' scope scope' root) :
    breadthFirst g scope root = breadthFirst g' scope' root := by
  obtain ⟨k, hk⟩ := exists_layer_eq_nil g scope root
  have hk' : layer g' scope' root (k + 1) = [] := by
    rw [← List.map_eq_nil_iff (f := Method.canonical), ← (h.names_layer_eq (k + 1)).1, hk]
    rfl
  rw [breadthFirst_eq_entriesUpTo hk, breadthFirst_eq_entriesUpTo hk', entriesUpTo, entriesUpTo]
  refine List.flatMap_congr fun i _ => ?_
  rw [entriesAt_eq_map, entriesAt_eq_map, (h.names_layer_eq (i + 1)).1]

theorem SameFollowed.entries_eq (h : SameFollowed met g g' scope scope' root)
    (strategy : Strategy) :
    Traversal.entries ⟨scope, strategy⟩ g root = Traversal.entries ⟨scope', strategy⟩ g' root := by
  cases strategy with
  | depthFirst => exact h.depthFirst_eq
  | shortestDepth => exact h.breadthFirst_eq

/-! ### Graphs of edges -/

/-- Whether the names of the methods that are called can be read. -/
def CalleesRead (edges : List (Method × Method)) : Prop :=
  ∀ edge ∈ edges, (Method.parse? edge.2.canonical).isSome = true

section

variable {edges edges' : List (Method × Method)}

theorem mem_names_followed_iff (hedges : CalleesRead edges) {name : String} :
    name ∈ (followed (.ofEdges edges) scope u).map Method.canonical ↔
      ∃ edge, (edge ∈ edges ∧ edge.2.inScope scope = true) ∧
        edge.1.canonical = u.canonical ∧ edge.2.canonical = name := by
  rw [List.mem_map]
  constructor
  · rintro ⟨v, hv, rfl⟩
    obtain ⟨hmem, hscope⟩ := List.mem_filter.mp hv
    obtain ⟨edge, hedge, hu, hname⟩ :=
      CallGraph.hasCall_ofEdges_iff.mp (CallGraph.hasCall_iff_mem_callees.mpr ⟨v, hmem, rfl⟩)
    rw [← Method.inScope_congr (hedges edge hedge) hname] at hscope
    exact ⟨edge, ⟨hedge, hscope⟩, hu, hname⟩
  · rintro ⟨edge, ⟨hedge, hscope⟩, hu, rfl⟩
    obtain ⟨v, hmem, hname⟩ := CallGraph.hasCall_iff_mem_callees.mp
      (CallGraph.hasCall_ofEdges_iff.mpr ⟨edge, hedge, hu, rfl⟩)
    rw [Method.inScope_congr (hedges edge hedge) hname.symm] at hscope
    exact ⟨v, List.mem_filter.mpr ⟨hmem, hscope⟩, hname⟩

/-- The names that are followed from a method are decided by those of its edges that lead into the
scope. -/
theorem names_followed_eq (hedges : CalleesRead edges) (hedges' : CalleesRead edges')
    (hsame : ∀ edge : Method × Method, edge.1.canonical = u.canonical →
      (edge ∈ edges ∧ edge.2.inScope scope = true ↔ edge ∈ edges' ∧ edge.2.inScope scope' = true)) :
    (followed (.ofEdges edges) scope u).map Method.canonical =
      (followed (.ofEdges edges') scope' u).map Method.canonical := by
  have hordered (g : CallGraph) (scope : String) :
      ((followed g scope u).map Method.canonical).Pairwise fun a b => compare a b = .lt :=
    (g.pairwise_callees u).sublist (List.filter_sublist.map Method.canonical)
  refine eq_of_pairwise_compare (hordered _ _) (hordered _ _) fun name => ?_
  rw [mem_names_followed_iff hedges, mem_names_followed_iff hedges']
  exact exists_congr fun edge => and_congr_left fun h => hsame edge h.1

theorem sameFollowed_filter (hedges : CalleesRead edges) (scope : String) (root : Method) :
    SameFollowed (fun _ => True) (.ofEdges edges)
      (.ofEdges (edges.filter fun edge => edge.2.inScope scope)) scope "" root where
  root := trivial
  met_of_mem _ _ _ _ := trivial
  names_eq u _ := by
    refine names_followed_eq hedges (fun edge hedge => hedges edge (List.mem_filter.mp hedge).1)
      fun edge _ => ?_
    rw [List.mem_filter]
    exact (and_iff_left edge.2.inScope_empty).symm

/-- Apart from the root, only names of methods in scope are met. -/
theorem sameFollowed_of_mem_iff (hedges : CalleesRead edges) (hedges' : CalleesRead edges')
    (hsame : ∀ edge : Method × Method,
      edge.1.canonical = root.canonical ∨ edge.1.inScope scope = true →
        (edge ∈ edges' ↔ edge ∈ edges)) :
    SameFollowed
      (fun name => name = root.canonical ∨
        ∀ m : Method, m.canonical = name → m.inScope scope = true)
      (.ofEdges edges') (.ofEdges edges) scope scope root where
  root := Or.inl rfl
  met_of_mem u _ callee hcallee := by
    obtain ⟨edge, ⟨hedge, hscope⟩, -, hname⟩ :=
      (mem_names_followed_iff hedges').mp (List.mem_map_of_mem hcallee)
    refine Or.inr fun m hm => ?_
    rwa [← Method.inScope_congr (hedges' edge hedge) (hname.trans hm.symm)]
  names_eq u hu := by
    refine names_followed_eq hedges' hedges fun edge hname => and_congr_left fun _ => hsame edge ?_
    rcases hu with hroot | hscope
    · exact Or.inl (hname.trans hroot)
    · exact Or.inr (hscope edge.1 hname)

/-- What a traversal with a scope gives is what one without a scope gives when only the calls of
methods in scope are kept. It stays the same when calls come and go whose callers are not in scope and
not the root. -/
theorem entries_eq_entries_of_calls_in_scope (hedges : CalleesRead edges) (t : Traversal)
    (root : Method) :
    t.entries (.ofEdges edges) root =
      Traversal.entries ⟨"", t.strategy⟩
        (.ofEdges (edges.filter fun edge => edge.2.inScope t.scope)) root ∧
    ∀ edges' : List (Method × Method), CalleesRead edges' →
      (∀ edge : Method × Method,
        edge.1.canonical = root.canonical ∨ edge.1.inScope t.scope = true →
          (edge ∈ edges' ↔ edge ∈ edges)) →
      t.entries (.ofEdges edges') root = t.entries (.ofEdges edges) root := by
  constructor
  · exact (sameFollowed_filter hedges t.scope root).entries_eq t.strategy
  · intro edges' hedges' hsame
    exact (sameFollowed_of_mem_iff hedges hedges' hsame).entries_eq t.strategy

end

/-- A test that calls a method of its project, which calls it back, and one of a library, with one
more call. -/
def callsOfTestAnd (call : Method × Method) : List (Method × Method) :=
  [(.make "p.T" "t" [], .make "p.A" "a" []), (.make "p.T" "t" [], .make "q.L" "l" []),
    (.make "p.A" "a" [], .make "p.T" "t" []), call]

/-- Which of the library's methods calls into the project does not matter. -/
theorem entries_of_library_calls_changed :
    let test : Method := .make "p.T" "t" []
    let edges := callsOfTestAnd (.make "q.L" "l" [], .make "p.B" "b" [])
    let edges' := callsOfTestAnd (.make "q.K" "k" [], .make "p.T" "t" [])
    let t : Traversal := ⟨"p.", .depthFirst⟩
    CalleesRead edges ∧ CalleesRead edges' ∧
    (∀ edge : Method × Method, edge.1.canonical = test.canonical ∨ edge.1.inScope "p." = true →
      (edge ∈ edges' ↔ edge ∈ edges)) ∧
    t.entries (.ofEdges edges) test =
      Traversal.entries ⟨"", .depthFirst⟩
        (.ofEdges (edges.filter fun edge => edge.2.inScope "p.")) test ∧
    t.entries (.ofEdges edges') test = t.entries (.ofEdges edges) test := by
  intro test edges edges' t
  have hedges : CalleesRead edges := by unfold CalleesRead; decide +kernel
  have hedges' : CalleesRead edges' := by unfold CalleesRead; decide +kernel
  have hsame : ∀ edge : Method × Method,
      edge.1.canonical = test.canonical ∨ edge.1.inScope "p." = true →
        (edge ∈ edges' ↔ edge ∈ edges) := by
    intro edge hmet
    have hcaller : edge ≠ (.make "q.L" "l" [], .make "p.B" "b" []) ∧
        edge ≠ (.make "q.K" "k" [], .make "p.T" "t" []) := by
      constructor
      all_goals
        rintro rfl
        exact absurd hmet (by decide +kernel)
    simp only [edges, edges', callsOfTestAnd, List.mem_cons, List.not_mem_nil, hcaller.1, hcaller.2]
  obtain ⟨hfiltered, hchanged⟩ := entries_eq_entries_of_calls_in_scope hedges t test
  exact ⟨hedges, hedges', hsame, hfiltered, hchanged edges' hedges' hsame⟩

end Reach

end CallDepth
