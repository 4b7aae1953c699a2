import CallDepth.Proofs.Reach.Recorded

/-!
# Levels

A method is recorded at a level of at most one more than the number of methods before it, since the
one that it is first met from is among those. So no level exceeds the number of methods that the graph
has as callees.
-/

namespace CallDepth.Reach

variable {g : CallGraph} {scope : String}

/-- Whether entries are of callees in a graph, each at a level of at most its place in the list. -/
structure Grounded (g : CallGraph) (entries : List CallEntry) : Prop where
  level_le : ∀ (i : Nat) (h : i < entries.length), entries[i].level ≤ i + 1
  mem_calleeNames : ∀ entry ∈ entries, entry.callee ∈ calleeNames g

namespace Grounded

theorem nil (g : CallGraph) : Grounded g [] := ⟨nofun, nofun⟩

theorem append {entries more : List CallEntry} (h : Grounded g entries)
    (hmore : ∀ entry ∈ more, entry.level ≤ entries.length + 1 ∧ entry.callee ∈ calleeNames g) :
    Grounded g (entries ++ more) := by
  constructor
  · intro i hi
    rw [List.getElem_append]
    split
    · exact h.level_le i _
    · have hrest : i - entries.length < more.length := by
        rw [List.length_append] at hi
        omega
      exact Nat.le_trans (hmore _ (List.getElem_mem hrest)).1 (by omega)
  · intro entry hentry
    rcases List.mem_append.mp hentry with hentry | hentry
    · exact h.mem_calleeNames entry hentry
    · exact (hmore entry hentry).2

theorem level_le_length {entries : List CallEntry} (h : Grounded g entries) {entry : CallEntry}
    (hentry : entry ∈ entries) : entry.level ≤ entries.length := by
  obtain ⟨i, hi, rfl⟩ := List.getElem_of_mem hentry
  exact Nat.le_trans (h.level_le i hi) hi

end Grounded

/-! ### Depth first -/

theorem level_of_mem_frames {u : Method} {level : Nat} {frame : Frame}
    (h : frame ∈ frames g u level) : frame.level = level := by
  unfold frames at h
  split at h
  · cases h
  · rw [List.mem_singleton.mp h]

theorem depthFirstFrom_grounded (stack : List Frame) (t : Trail)
    (hstack : ∀ frame ∈ stack, frame.level ≤ t.toList.length + 1 ∧
      ∀ m ∈ frame.callees, m.canonical ∈ calleeNames g)
    (ht : Grounded g t.toList) : Grounded g (depthFirstFrom g scope stack t).toList := by
  induction stack, t using depthFirstFrom.induct g scope with
  | case1 t =>
    rw [depthFirstFrom]
    exact ht
  | case2 level stack t ih =>
    rw [depthFirstFrom]
    exact ih (fun frame hframe => hstack frame (List.mem_cons_of_mem _ hframe)) ht
  | case3 m rest level stack t haccepts ih =>
    rw [depthFirstFrom, if_pos haccepts]
    obtain ⟨hlevel, hcallees⟩ := hstack ⟨m :: rest, level⟩ (List.mem_cons_self ..)
    -- the new frames are one level deeper, and one more entry is recorded
    have hlength : (t.record m level).toList.length = t.toList.length + 1 := by
      rw [Trail.toList_record, List.length_append, List.length_singleton]
    apply ih
    · intro frame hframe
      rw [hlength]
      rcases List.mem_append.mp hframe with hframe | hframe
      · refine ⟨?_, fun x hx => mem_calleeNames (mem_callees_of_frame hframe hx).1⟩
        rw [level_of_mem_frames hframe]
        exact Nat.add_le_add_right hlevel 1
      · rcases List.mem_cons.mp hframe with rfl | hframe
        · exact ⟨Nat.le_succ_of_le hlevel, fun x hx => hcallees x (List.mem_cons_of_mem _ hx)⟩
        · obtain ⟨hlevel', hcallees'⟩ := hstack frame (List.mem_cons_of_mem _ hframe)
          exact ⟨Nat.le_succ_of_le hlevel', hcallees'⟩
    · rw [Trail.toList_record]
      apply ht.append
      rintro entry hentry
      obtain rfl := List.mem_singleton.mp hentry
      exact ⟨hlevel, hcallees m (List.mem_cons_self ..)⟩
  | case4 m rest level stack t haccepts ih =>
    rw [depthFirstFrom, if_neg haccepts]
    refine ih ?_ ht
    intro frame hframe
    rcases List.mem_cons.mp hframe with rfl | hframe
    · obtain ⟨hlevel, hcallees⟩ := hstack ⟨m :: rest, level⟩ (List.mem_cons_self ..)
      exact ⟨hlevel, fun x hx => hcallees x (List.mem_cons_of_mem _ hx)⟩
    · exact hstack frame (List.mem_cons_of_mem _ hframe)

/-! ### Breadth first -/

theorem breadthFirstFrom_grounded (s : Sweep)
    (hqueue : ∀ x ∈ waiting s.queue, x.2 ≤ s.trail.toList.length + 1)
    (ht : Grounded g s.trail.toList) : Grounded g (breadthFirstFrom g scope s).toList := by
  induction s using breadthFirstFrom.induct g scope with
  | case1 s hnext =>
    rw [breadthFirstFrom_nil (waiting_eq_nil_of_dequeue? hnext)]
    exact ht
  | case2 s m level queue hnext ih =>
    have hwaiting := waiting_eq_cons_of_dequeue? hnext
    have hlevel := hqueue (m, level) (by rw [hwaiting]; exact List.mem_cons_self ..)
    obtain ⟨htrail, hqueue'⟩ := foldl_meet scope level (g.callees m) ⟨s.trail, queue⟩
    rw [breadthFirstFrom, hnext]
    refine ih ?_ ?_
    · intro x hx
      rw [Sweep.expand] at hx ⊢
      rw [hqueue', List.mem_append] at hx
      rw [htrail, List.length_append, entriesAt, List.length_map]
      rcases hx with hx | hx
      · have hle := hqueue x (by rw [hwaiting]; exact List.mem_cons_of_mem _ hx)
        exact Nat.le_trans hle (Nat.add_le_add_right (Nat.le_add_right _ _) 1)
      · -- where something new waits, something was recorded
        have hpos := List.length_pos_of_mem hx
        obtain ⟨callee, -, rfl⟩ := List.mem_map.mp hx
        rw [List.length_map] at hpos
        dsimp only at hpos hlevel ⊢
        omega
    · rw [Sweep.expand, htrail]
      apply ht.append
      intro entry hentry
      obtain ⟨callee, hcallee, rfl⟩ := List.mem_map.mp hentry
      exact ⟨hlevel, mem_calleeNames (mem_of_mem_fresh hcallee).1⟩

/-! ### Either traversal -/

theorem entries_grounded (t : Traversal) (g : CallGraph) (root : Method) :
    Grounded g (t.entries g root) := by
  unfold Traversal.entries
  cases t.strategy with
  | depthFirst =>
    refine depthFirstFrom_grounded _ _ ?_ (.nil g)
    intro frame hframe
    refine ⟨Nat.le_of_eq (level_of_mem_frames hframe), fun m hm => ?_⟩
    exact mem_calleeNames (mem_callees_of_frame hframe hm).1
  | shortestDepth =>
    refine breadthFirstFrom_grounded _ ?_ (.nil g)
    intro x hx
    rw [waiting_enqueue, waiting_empty, List.nil_append, List.mem_singleton] at hx
    rw [hx]
    exact Nat.le_refl 1

theorem length_entries_le {t : Traversal} {g : CallGraph} {root : Method} {names' : List String}
    (h : calleeNames g ⊆ names') : (t.entries g root).length ≤ names'.length := by
  have hsub : names (t.entries g root) ⊆ names' := by
    intro name hname
    obtain ⟨entry, hentry, rfl⟩ := List.mem_map.mp hname
    exact h ((entries_grounded t g root).mem_calleeNames entry hentry)
  have hle := (List.subperm_of_subset (nodup_names_entries t g root) hsub).length_le
  rwa [names, List.length_map] at hle

end CallDepth.Reach
