import Mathlib.Data.List.Perm.Subperm
import Mathlib.Order.Bounds.Defs
import CallDepth.Proofs.Reach.Chain
import CallDepth.Reach.BreadthFirst

/-!
# Layers

The breadth-first order, said by layers: the first layer are the callees of the root, and each later
one are the callees of the layer before it that no layer holds yet. The traversal with a queue
records layer after layer, and the number of a layer is the length of the shortest chains to its
methods.
-/

namespace CallDepth.Reach

/-! ### New callees -/

/-- The methods of a list that are in scope and not placed yet, each where it is first met. -/
def fresh (scope : String) (placed : List String) : List Method → List Method
  | [] => []
  | m :: rest =>
    if Admits scope placed m then m :: fresh scope (placed ++ [m.canonical]) rest
    else fresh scope placed rest

variable {g : CallGraph} {scope : String} {root : Method}

theorem fresh_append (placed : List String) (xs ys : List Method) :
    fresh scope placed (xs ++ ys) =
      fresh scope placed xs ++
        fresh scope (placed ++ (fresh scope placed xs).map Method.canonical) ys := by
  induction xs generalizing placed with
  | nil => simp [fresh]
  | cons m rest ih =>
    by_cases h : Admits scope placed m
    · simp only [List.cons_append, fresh, if_pos h, ih, List.map_cons, List.append_assoc,
        List.nil_append]
    · simp only [List.cons_append, fresh, if_neg h, ih]

theorem mem_of_mem_fresh {placed : List String} {ms : List Method} {m : Method}
    (h : m ∈ fresh scope placed ms) : m ∈ ms ∧ Admits scope placed m := by
  induction ms generalizing placed with
  | nil => simp [fresh] at h
  | cons x rest ih =>
    by_cases hx : Admits scope placed x
    · rw [fresh, if_pos hx] at h
      rcases List.mem_cons.mp h with rfl | h
      · exact ⟨List.mem_cons_self .., hx⟩
      · obtain ⟨hmem, hnew, hscope⟩ := ih h
        exact ⟨List.mem_cons_of_mem _ hmem, fun hm => hnew (List.mem_append_left _ hm), hscope⟩
    · rw [fresh, if_neg hx] at h
      obtain ⟨hmem, hadmits⟩ := ih h
      exact ⟨List.mem_cons_of_mem _ hmem, hadmits⟩

theorem nodup_fresh (placed : List String) (ms : List Method) :
    ((fresh scope placed ms).map Method.canonical).Nodup := by
  induction ms generalizing placed with
  | nil => simp [fresh]
  | cons x rest ih =>
    by_cases hx : Admits scope placed x
    · rw [fresh, if_pos hx, List.map_cons, List.nodup_cons]
      refine ⟨fun hmem => ?_, ih _⟩
      obtain ⟨m, hm, hname⟩ := List.mem_map.mp hmem
      exact (mem_of_mem_fresh hm).2.1 (by simp [hname])
    · rw [fresh, if_neg hx]
      exact ih _

theorem mem_placed_of_met {placed : List String} {ms : List Method} {m : Method} (hmem : m ∈ ms)
    (hscope : m.inScope scope = true) :
    m.canonical ∈ placed ++ (fresh scope placed ms).map Method.canonical := by
  induction ms generalizing placed with
  | nil => simp at hmem
  | cons x rest ih =>
    by_cases hx : Admits scope placed x
    · rw [fresh, if_pos hx, List.map_cons]
      rcases List.mem_cons.mp hmem with rfl | hmem
      · simp
      · rw [← List.singleton_append, ← List.append_assoc]
        exact ih hmem
    · rw [fresh, if_neg hx]
      rcases List.mem_cons.mp hmem with rfl | hmem
      · refine List.mem_append_left _ (Classical.byContradiction fun hnew => hx ⟨hnew, hscope⟩)
      · exact ih hmem

/-- Where no name is met twice and none is placed, the scope alone decides. -/
theorem fresh_eq_filter {placed : List String} {ms : List Method}
    (hnodup : (ms.map Method.canonical).Nodup) (hnew : ∀ m ∈ ms, m.canonical ∉ placed) :
    fresh scope placed ms = ms.filter (Method.inScope scope) := by
  induction ms generalizing placed with
  | nil => rfl
  | cons x rest ih =>
    rw [List.map_cons, List.nodup_cons] at hnodup
    have hx : x.canonical ∉ placed := hnew x (List.mem_cons_self ..)
    have hrest : ∀ m ∈ rest, m.canonical ∉ placed :=
      fun m hm => hnew m (List.mem_cons_of_mem _ hm)
    by_cases hscope : x.inScope scope = true
    · rw [fresh, if_pos ⟨hx, hscope⟩, List.filter_cons_of_pos hscope, ih hnodup.2]
      intro m hm hplaced
      rcases List.mem_append.mp hplaced with h | h
      · exact hrest m hm h
      · exact hnodup.1 (List.mem_singleton.mp h ▸ List.mem_map_of_mem hm)
    · rw [fresh, if_neg (fun h => hscope h.2), List.filter_cons_of_neg hscope, ih hnodup.2 hrest]

/-! ### The layers -/

/-- The methods that are placed in the layers so far, and the last of these layers. -/
structure Stage where
  placed : List Method
  layer : List Method

def Stage.next (g : CallGraph) (scope : String) (s : Stage) : Stage :=
  let next := fresh scope (s.placed.map Method.canonical) (s.layer.flatMap g.callees)
  ⟨s.placed ++ next, next⟩

/-- What is placed in the first `k` layers. The root stands for a layer before the first, but is not
placed in it. -/
def stage (g : CallGraph) (scope : String) (root : Method) : Nat → Stage
  | 0 => ⟨[], [root]⟩
  | k + 1 => (stage g scope root k).next g scope

def layer (g : CallGraph) (scope : String) (root : Method) (k : Nat) : List Method :=
  (stage g scope root k).layer

def placed (g : CallGraph) (scope : String) (root : Method) (k : Nat) : List Method :=
  (stage g scope root k).placed

theorem layer_succ (k : Nat) :
    layer g scope root (k + 1) =
      fresh scope ((placed g scope root k).map Method.canonical)
        ((layer g scope root k).flatMap g.callees) := rfl

theorem placed_succ (k : Nat) :
    placed g scope root (k + 1) = placed g scope root k ++ layer g scope root (k + 1) := rfl

theorem placed_eq_flatMap (k : Nat) :
    placed g scope root k = (List.range k).flatMap fun i => layer g scope root (i + 1) := by
  induction k with
  | zero => rfl
  | succ k ih => rw [placed_succ, ih, List.range_succ, List.flatMap_append, List.flatMap_singleton]

theorem mem_placed_iff {k : Nat} {m : Method} :
    m ∈ placed g scope root k ↔ ∃ i, 1 ≤ i ∧ i ≤ k ∧ m ∈ layer g scope root i := by
  rw [placed_eq_flatMap, List.mem_flatMap]
  constructor
  · rintro ⟨i, hi, hmem⟩
    exact ⟨i + 1, by omega, by rw [List.mem_range] at hi; omega, hmem⟩
  · rintro ⟨i, hpos, hle, hmem⟩
    refine ⟨i - 1, by rw [List.mem_range]; omega, ?_⟩
    rwa [Nat.sub_add_cancel hpos]

theorem layer_one :
    layer g scope root 1 = (g.callees root).filter (Method.inScope scope) := by
  have h : layer g scope root 1 = fresh scope [] (g.callees root) := by
    rw [layer_succ]
    simp [layer, placed, stage]
  rw [h]
  exact fresh_eq_filter (g.nodup_callees root) (by simp)

theorem layer_eq_nil_of_le {j k : Nat} (hj : layer g scope root j = []) (hle : j ≤ k) :
    layer g scope root k = [] := by
  induction k, hle using Nat.le_induction with
  | base => exact hj
  | succ k _ ih => rw [layer_succ, ih, List.flatMap_nil, fresh]

theorem nodup_placed (k : Nat) : ((placed g scope root k).map Method.canonical).Nodup := by
  induction k with
  | zero => simp [placed, stage]
  | succ k ih =>
    rw [placed_succ, List.map_append, List.nodup_append]
    refine ⟨ih, nodup_fresh _ _, ?_⟩
    intro name hplaced name' hlayer heq
    obtain ⟨m, hm, rfl⟩ := List.mem_map.mp hlayer
    exact (mem_of_mem_fresh hm).2.1 (heq ▸ hplaced)

theorem placed_subset_calleeNames (k : Nat) :
    (placed g scope root k).map Method.canonical ⊆ calleeNames g := by
  intro name hname
  obtain ⟨m, hm, rfl⟩ := List.mem_map.mp hname
  obtain ⟨i, hpos, -, hmem⟩ := mem_placed_iff.mp hm
  obtain ⟨i, rfl⟩ := Nat.exists_eq_add_of_le' hpos
  obtain ⟨u, -, hcallee⟩ := List.mem_flatMap.mp (mem_of_mem_fresh hmem).1
  exact mem_calleeNames hcallee

/-- The layers end: each one that is not empty takes names of callees that none before it took. -/
theorem exists_layer_eq_nil (g : CallGraph) (scope : String) (root : Method) :
    ∃ n, layer g scope root (n + 1) = [] := by
  apply Classical.byContradiction
  intro hnone
  have hne : ∀ k, layer g scope root (k + 1) ≠ [] := fun k hk => hnone ⟨k, hk⟩
  have hlen : ∀ k, k ≤ (placed g scope root k).length := by
    intro k
    induction k with
    | zero => exact Nat.zero_le _
    | succ k ih =>
      have hpos : 0 < (layer g scope root (k + 1)).length := List.length_pos_iff.mpr (hne k)
      rw [placed_succ, List.length_append]
      omega
  have hle : ((placed g scope root ((calleeNames g).length + 1)).map Method.canonical).length ≤
      (calleeNames g).length :=
    (List.subperm_of_subset (nodup_placed _) (placed_subset_calleeNames _)).length_le
  have hge := hlen ((calleeNames g).length + 1)
  rw [List.length_map] at hle
  omega

/-! ### The traversal with a queue -/

def entriesAt (level : Nat) (ms : List Method) : List CallEntry :=
  ms.map fun m => ⟨m.canonical, level⟩

theorem foldl_meet (scope : String) (level : Nat) (ms : List Method) (s : Sweep) :
    let news := fresh scope (names s.trail.toList) ms
    (ms.foldl (Sweep.meet scope level) s).trail.toList = s.trail.toList ++ entriesAt level news ∧
      waiting (ms.foldl (Sweep.meet scope level) s).queue =
        waiting s.queue ++ news.map fun m => (m, level + 1) := by
  induction ms generalizing s with
  | nil => simp [fresh, entriesAt]
  | cons m rest ih =>
    by_cases h : s.trail.accepts scope m = true
    · obtain ⟨htrail, hqueue⟩ := ih ⟨s.trail.record m level, s.queue.enqueue (m, level + 1)⟩
      have hnames : names (s.trail.record m level).toList = names s.trail.toList ++ [m.canonical] := by
        rw [Trail.toList_record, names_append]
        rfl
      simp only [List.foldl_cons, Sweep.meet, if_pos h, fresh, if_pos (accepts_iff_admits.mp h)]
      rw [hnames] at htrail hqueue
      refine ⟨htrail.trans ?_, hqueue.trans ?_⟩
      · simp [Trail.toList_record, entriesAt]
      · simp [waiting_enqueue]
    · have hskip : ¬ Admits scope (names s.trail.toList) m := fun hm => h (accepts_iff_admits.mpr hm)
      simp only [List.foldl_cons, Sweep.meet, if_neg h, fresh, if_neg hskip]
      exact ih s

theorem breadthFirstFrom_nil {s : Sweep} (h : waiting s.queue = []) :
    breadthFirstFrom g scope s = s.trail := by
  rw [breadthFirstFrom]
  split
  · rfl
  · rename_i hnext
    rw [waiting_eq_cons_of_dequeue? hnext] at h
    cases h

theorem breadthFirstFrom_cons (g : CallGraph) (scope : String) {s : Sweep} {m : Method}
    {level : Nat} {rest : List (Method × Nat)} (h : waiting s.queue = (m, level) :: rest) :
    ∃ queue, waiting queue = rest ∧ breadthFirstFrom g scope s =
      breadthFirstFrom g scope (Sweep.expand g scope ⟨s.trail, queue⟩ m level) := by
  rw [breadthFirstFrom]
  split
  · rename_i hnext
    rw [waiting_eq_nil_of_dequeue? hnext] at h
    cases h
  · rename_i m' level' queue hnext
    rw [waiting_eq_cons_of_dequeue? hnext] at h
    obtain ⟨hhead, htail⟩ := List.cons.inj h
    obtain ⟨rfl, rfl⟩ := Prod.mk.inj hhead
    exact ⟨queue, htail, rfl⟩

/-- The methods at the front of the queue that have one level are taken, and those that they lead to
are recorded and put behind the others. -/
theorem breadthFirstFrom_take (g : CallGraph) (scope : String) (level : Nat) (ms : List Method)
    (rest : List (Method × Nat)) (s : Sweep)
    (h : waiting s.queue = (ms.map fun m => (m, level)) ++ rest) :
    let news := fresh scope (names s.trail.toList) (ms.flatMap g.callees)
    ∃ s' : Sweep, breadthFirstFrom g scope s = breadthFirstFrom g scope s' ∧
      s'.trail.toList = s.trail.toList ++ entriesAt level news ∧
      waiting s'.queue = rest ++ news.map fun m => (m, level + 1) := by
  induction ms generalizing s rest with
  | nil => exact ⟨s, rfl, by simp [fresh, entriesAt], by simpa [fresh] using h⟩
  | cons m ms ih =>
    obtain ⟨queue, hqueue, hstep⟩ := breadthFirstFrom_cons g scope h
    obtain ⟨htrail, hwaiting⟩ := foldl_meet scope level (g.callees m) ⟨s.trail, queue⟩
    rw [hqueue, List.append_eq, List.append_assoc] at hwaiting
    obtain ⟨s', hrun, htrail', hwaiting'⟩ := ih _ _ hwaiting
    rw [htrail, names_append, entriesAt, names_map_entry] at htrail' hwaiting'
    refine ⟨s', hstep.trans hrun, ?_, ?_⟩
    · rw [htrail', List.flatMap_cons, fresh_append]
      simp [entriesAt]
    · rw [hwaiting', List.flatMap_cons, fresh_append]
      simp

def entriesUpTo (g : CallGraph) (scope : String) (root : Method) (k : Nat) : List CallEntry :=
  (List.range k).flatMap fun i => entriesAt (i + 1) (layer g scope root (i + 1))

theorem entriesUpTo_succ (k : Nat) :
    entriesUpTo g scope root (k + 1) =
      entriesUpTo g scope root k ++ entriesAt (k + 1) (layer g scope root (k + 1)) := by
  rw [entriesUpTo, List.range_succ, List.flatMap_append, List.flatMap_singleton, entriesUpTo]

theorem names_entriesUpTo (k : Nat) :
    names (entriesUpTo g scope root k) = (placed g scope root k).map Method.canonical := by
  induction k with
  | zero => rfl
  | succ k ih =>
    rw [entriesUpTo_succ, placed_succ, names_append, List.map_append, ih, entriesAt, names_map_entry]

/-- After `k` layers these are recorded, and the last of them waits. -/
theorem breadthFirstFrom_stage (g : CallGraph) (scope : String) (root : Method) (k : Nat) :
    ∃ s : Sweep,
      breadthFirstFrom g scope ⟨.empty, (∅ : Std.Queue _).enqueue (root, 1)⟩ =
        breadthFirstFrom g scope s ∧
      s.trail.toList = entriesUpTo g scope root k ∧
      waiting s.queue = (layer g scope root k).map fun m => (m, k + 1) := by
  induction k with
  | zero => exact ⟨_, rfl, Trail.toList_empty, by rw [waiting_enqueue, waiting_empty]; rfl⟩
  | succ k ih =>
    obtain ⟨s, hrun, htrail, hwaiting⟩ := ih
    rw [← List.append_nil (List.map _ _)] at hwaiting
    obtain ⟨s', hrun', htrail', hwaiting'⟩ :=
      breadthFirstFrom_take g scope (k + 1) _ _ s hwaiting
    rw [htrail, names_entriesUpTo, ← layer_succ] at htrail' hwaiting'
    refine ⟨s', hrun.trans hrun', ?_, ?_⟩
    · rw [htrail', entriesUpTo_succ]
    · rw [hwaiting', List.nil_append]

theorem breadthFirst_eq_entriesUpTo {n : Nat} (hn : layer g scope root n = []) :
    breadthFirst g scope root = entriesUpTo g scope root n := by
  obtain ⟨s, hrun, htrail, hwaiting⟩ := breadthFirstFrom_stage g scope root n
  rw [hn, List.map_nil] at hwaiting
  rw [breadthFirst, hrun, breadthFirstFrom_nil hwaiting, htrail]

/-! ### Layers and chains -/

theorem placed_subset_of_le {j k : Nat} (hle : j ≤ k) :
    placed g scope root j ⊆ placed g scope root k := by
  intro m hm
  obtain ⟨i, hpos, hi, hmem⟩ := mem_placed_iff.mp hm
  exact mem_placed_iff.mpr ⟨i, hpos, Nat.le_trans hi hle, hmem⟩

theorem chain_of_mem_layer {k : Nat} {m : Method} (h : m ∈ layer g scope root (k + 1)) :
    Chain g scope root (k + 1) m := by
  induction k generalizing m with
  | zero =>
    rw [layer_one, List.mem_filter] at h
    exact .call (allowed_of_mem h.1 h.2)
  | succ k ih =>
    obtain ⟨hmem, -, hscope⟩ := mem_of_mem_fresh h
    obtain ⟨u, hu, hcallee⟩ := List.mem_flatMap.mp hmem
    exact .snoc (ih hu) (allowed_of_mem hcallee hscope)

theorem mem_placed_succ {k : Nat} {u v : Method} (hu : u ∈ layer g scope root k)
    (h : Allowed g scope u v) :
    v.canonical ∈ (placed g scope root (k + 1)).map Method.canonical := by
  obtain ⟨stored, hmem, hname, hscope⟩ := h
  rw [placed_succ, List.map_append, layer_succ, ← hname]
  exact mem_placed_of_met (List.mem_flatMap.mpr ⟨u, hu, hmem⟩) hscope

theorem mem_placed_of_chain {n : Nat} {m : Method} (h : Chain g scope root n m) :
    m.canonical ∈ (placed g scope root n).map Method.canonical := by
  induction h with
  | call h => exact mem_placed_succ (List.mem_singleton.mpr rfl) h
  | @snoc n u v _ h ih =>
    obtain ⟨u', hu', hname⟩ := List.mem_map.mp ih
    obtain ⟨i, -, hi, hmem⟩ := mem_placed_iff.mp hu'
    have hv := mem_placed_succ hmem (h.congr_left hname.symm)
    exact List.map_subset Method.canonical (placed_subset_of_le (Nat.succ_le_succ hi)) hv

/-- The number of the layer of a method is the length of the shortest chains to it. -/
theorem isLeast_of_mem_layer {k : Nat} {m : Method} (h : m ∈ layer g scope root (k + 1)) :
    IsLeast {n | Chain g scope root n m} (k + 1) := by
  refine ⟨chain_of_mem_layer h, ?_⟩
  intro n hn
  by_contra hlt
  have hsub : (placed g scope root n).map Method.canonical ⊆
      (placed g scope root k).map Method.canonical :=
    List.map_subset _ (placed_subset_of_le (by omega))
  exact (mem_of_mem_fresh h).2.1 (hsub (mem_placed_of_chain hn))

theorem mem_entriesUpTo_iff {n : Nat} {entry : CallEntry} :
    entry ∈ entriesUpTo g scope root n ↔
      ∃ k < n, ∃ m ∈ layer g scope root (k + 1), entry = ⟨m.canonical, k + 1⟩ := by
  simp only [entriesUpTo, entriesAt, List.mem_flatMap, List.mem_range, List.mem_map]
  constructor
  · rintro ⟨k, hk, m, hm, rfl⟩
    exact ⟨k, hk, m, hm, rfl⟩
  · rintro ⟨k, hk, m, hm, rfl⟩
    exact ⟨k, hk, m, hm, rfl⟩

theorem mem_breadthFirst_iff {entry : CallEntry} :
    entry ∈ breadthFirst g scope root ↔
      ∃ k, ∃ m ∈ layer g scope root (k + 1), entry = ⟨m.canonical, k + 1⟩ := by
  obtain ⟨n, hn⟩ := exists_layer_eq_nil g scope root
  rw [breadthFirst_eq_entriesUpTo hn, mem_entriesUpTo_iff]
  constructor
  · rintro ⟨k, -, m, hm, rfl⟩
    exact ⟨k, m, hm, rfl⟩
  · rintro ⟨k, m, hm, rfl⟩
    refine ⟨k, ?_, m, hm, rfl⟩
    by_contra hle
    rw [layer_eq_nil_of_le hn (by omega : n + 1 ≤ k + 1)] at hm
    cases hm

/-- The level of a method is the length of the shortest chains to it. -/
theorem isLeast_of_mem_breadthFirst {entry : CallEntry} {m : Method}
    (h : entry ∈ breadthFirst g scope root) (hm : m.canonical = entry.callee) :
    IsLeast {n | Chain g scope root n m} entry.level := by
  obtain ⟨k, other, hother, rfl⟩ := mem_breadthFirst_iff.mp h
  obtain ⟨hchain, hleast⟩ := isLeast_of_mem_layer hother
  exact ⟨hchain.congr hm.symm, fun n hn => hleast (Chain.congr hn hm)⟩

theorem pairwise_level_entriesUpTo (n : Nat) :
    (entriesUpTo g scope root n).Pairwise fun a b => a.level ≤ b.level := by
  induction n with
  | zero => exact List.Pairwise.nil
  | succ n ih =>
    rw [entriesUpTo_succ, List.pairwise_append]
    refine ⟨ih, ?_, ?_⟩
    · rw [entriesAt, List.pairwise_map]
      exact List.pairwise_of_forall fun _ _ => Nat.le_refl _
    · intro a ha b hb
      obtain ⟨k, hk, m, -, rfl⟩ := mem_entriesUpTo_iff.mp ha
      obtain ⟨m', -, rfl⟩ := List.mem_map.mp hb
      show k + 1 ≤ n + 1
      omega

theorem mem_names_breadthFirst_iff {m : Method} :
    m.canonical ∈ names (breadthFirst g scope root) ↔ Reaches g scope root m := by
  constructor
  · intro h
    obtain ⟨entry, hentry, hname⟩ := List.mem_map.mp h
    obtain ⟨k, m', hm', rfl⟩ := mem_breadthFirst_iff.mp hentry
    exact ⟨k + 1, (chain_of_mem_layer hm').congr hname⟩
  · rintro ⟨n, hn⟩
    obtain ⟨m', hm', hname⟩ := List.mem_map.mp (mem_placed_of_chain hn)
    obtain ⟨i, hpos, -, hmem⟩ := mem_placed_iff.mp hm'
    obtain ⟨i, rfl⟩ := Nat.exists_eq_add_of_le' hpos
    exact List.mem_map.mpr ⟨_, mem_breadthFirst_iff.mpr ⟨i, m', hmem, rfl⟩, hname⟩

theorem nodup_names_breadthFirst (g : CallGraph) (scope : String) (root : Method) :
    (names (breadthFirst g scope root)).Nodup := by
  obtain ⟨n, hn⟩ := exists_layer_eq_nil g scope root
  rw [breadthFirst_eq_entriesUpTo hn, names_entriesUpTo]
  exact nodup_placed _

/-- The traversal with a queue records a method at a level exactly if that is the least length of a
chain of allowed calls to it, and what it gives are the layers one after the other: the callees of
the root in scope, and then, over the methods of each layer in turn, those of their callees that are
in no layer yet. -/
theorem breadthFirst_is_layers (g : CallGraph) (scope : String) (root : Method) :
    (∀ (m : Method) (level : Nat), (⟨m.canonical, level⟩ : CallEntry) ∈ breadthFirst g scope root ↔
      IsLeast {n | Chain g scope root n m} level) ∧
    (∃ layers : Nat → List Method,
      layers 1 = (g.callees root).filter (Method.inScope scope) ∧
      (∀ k, layers (k + 2) =
        fresh scope (((List.range (k + 1)).flatMap fun i => layers (i + 1)).map Method.canonical)
          ((layers (k + 1)).flatMap g.callees)) ∧
      ∃ n, (∀ k, layers (n + k + 1) = []) ∧
        breadthFirst g scope root =
          (List.range n).flatMap fun i => (layers (i + 1)).map fun m => ⟨m.canonical, i + 1⟩) ∧
    (breadthFirst g scope root).Pairwise fun a b => a.level ≤ b.level := by
  obtain ⟨n, hn⟩ := exists_layer_eq_nil g scope root
  have hentries := breadthFirst_eq_entriesUpTo hn
  refine ⟨fun m level => ⟨fun h => ?_, fun h => ?_⟩, ⟨layer g scope root, layer_one, fun k => ?_,
    n + 1, fun k => layer_eq_nil_of_le hn (by omega), hentries⟩, ?_⟩
  · obtain ⟨k, m', hm', heq⟩ := mem_breadthFirst_iff.mp h
    obtain ⟨hname, rfl⟩ := CallEntry.mk.inj heq
    obtain ⟨hchain, hleast⟩ := isLeast_of_mem_layer hm'
    exact ⟨hchain.congr hname.symm, fun n hn => hleast (Chain.congr hn hname)⟩
  · obtain ⟨m', hm', hname⟩ := List.mem_map.mp (mem_placed_of_chain h.1)
    obtain ⟨i, hpos, hle, hmem⟩ := mem_placed_iff.mp hm'
    obtain ⟨i, rfl⟩ := Nat.exists_eq_add_of_le' hpos
    -- the layer that holds the method is no later than the level, and the level is least
    have hlevel : level = i + 1 :=
      Nat.le_antisymm (h.2 ((chain_of_mem_layer hmem).congr hname)) hle
    exact mem_breadthFirst_iff.mpr ⟨i, m', hmem, by rw [hlevel, hname]⟩
  · rw [layer_succ, placed_eq_flatMap]
  · rw [hentries]
    exact pairwise_level_entriesUpTo _

end CallDepth.Reach
