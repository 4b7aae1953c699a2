import CallDepth.Proofs.Reach.Layers
import CallDepth.Reach.Strategy

/-!
# What is recorded

Either traversal records the methods that are reached from the root, each once. For the traversal
with a queue this follows from its layers. For the one with a stack it is read off a run from any
stack: what is on the stack will be met, and what is recorded on the way has its own callees met.
-/

namespace CallDepth.Reach

variable {g : CallGraph} {scope : String} {root : Method}

/-! ### Depth first -/

theorem mem_callees_of_frame {u m : Method} {level : Nat} {frame : Frame}
    (hframe : frame ∈ frames g u level) (hmem : m ∈ frame.callees) :
    m ∈ g.callees u ∧ frame.level = level := by
  unfold frames at hframe
  unfold CallGraph.callees
  cases hcallees : g.callees? u with
  | none => simp [hcallees] at hframe
  | some callees =>
    rw [hcallees] at hframe
    obtain rfl := List.mem_singleton.mp hframe
    exact ⟨hmem, rfl⟩

theorem exists_frame_of_mem_callees {u m : Method} (level : Nat) (h : m ∈ g.callees u) :
    ∃ frame ∈ frames g u level, m ∈ frame.callees := by
  unfold frames
  unfold CallGraph.callees at h
  cases hcallees : g.callees? u with
  | none => simp [hcallees] at h
  | some callees =>
    refine ⟨⟨callees.toList, level⟩, List.mem_singleton.mpr rfl, ?_⟩
    simpa [hcallees] using h

/-- What a run with a stack leaves behind: what was recorded before stays so, the methods on the
stack are recorded, and so are the callees of each method that was not recorded before. -/
structure Completes (g : CallGraph) (scope : String) (stack : List Frame)
    (before after : List CallEntry) : Prop where
  keeps : before <+: after
  stacked : ∀ frame ∈ stack, ∀ m ∈ frame.callees, m.inScope scope = true →
    m.canonical ∈ names after
  closed : ∀ entry ∈ after, entry ∈ before ∨ ∀ u v, u.canonical = entry.callee →
    Allowed g scope u v → v.canonical ∈ names after

theorem depthFirstFrom_completes (g : CallGraph) (scope : String) (stack : List Frame) (t : Trail) :
    Completes g scope stack t.toList (depthFirstFrom g scope stack t).toList := by
  induction stack, t using depthFirstFrom.induct g scope with
  | case1 t =>
    rw [depthFirstFrom]
    exact ⟨List.prefix_rfl, by simp, fun entry h => Or.inl h⟩
  | case2 level stack t ih =>
    rw [depthFirstFrom]
    refine ⟨ih.keeps, ?_, ih.closed⟩
    intro frame hframe m hm
    rcases List.mem_cons.mp hframe with rfl | hframe
    · cases hm
    · exact ih.stacked frame hframe m hm
  | case3 m rest level stack t haccepts ih =>
    rw [depthFirstFrom, if_pos haccepts]
    have hkeeps := ih.keeps
    rw [Trail.toList_record] at hkeeps
    have hm : (⟨m.canonical, level⟩ : CallEntry) ∈
        (depthFirstFrom g scope (frames g m (level + 1) ++ ⟨rest, level⟩ :: stack)
          (t.record m level)).toList := hkeeps.subset (by simp)
    refine ⟨(List.prefix_append _ _).trans hkeeps, ?_, ?_⟩
    · intro frame hframe x hx hscope
      rcases List.mem_cons.mp hframe with rfl | hframe
      · rcases List.mem_cons.mp hx with rfl | hx
        · exact List.mem_map_of_mem hm
        · exact ih.stacked ⟨rest, level⟩ (by simp) x hx hscope
      · exact ih.stacked frame (by simp [hframe]) x hx hscope
    · intro entry hentry
      rcases ih.closed entry hentry with hbefore | hclosed
      · rw [Trail.toList_record] at hbefore
        rcases List.mem_append.mp hbefore with hbefore | hnew
        · exact Or.inl hbefore
        · -- the entry made here: its callees are in the frame that goes on top
          obtain rfl := List.mem_singleton.mp hnew
          refine Or.inr fun u v hu h => ?_
          obtain ⟨stored, hmem, hname, hscope⟩ := h.congr_left hu
          obtain ⟨frame, hframe, hx⟩ := exists_frame_of_mem_callees (level + 1) hmem
          rw [← hname]
          exact ih.stacked frame (List.mem_append_left _ hframe) stored hx hscope
      · exact Or.inr hclosed
  | case4 m rest level stack t haccepts ih =>
    rw [depthFirstFrom, if_neg haccepts]
    refine ⟨ih.keeps, ?_, ih.closed⟩
    intro frame hframe x hx hscope
    rcases List.mem_cons.mp hframe with rfl | hframe
    · rcases List.mem_cons.mp hx with rfl | hx
      · have hseen : x.canonical ∈ names t.toList := by
          by_contra hnew
          exact haccepts (accepts_iff_admits.mpr ⟨hnew, hscope⟩)
        exact (ih.keeps.map CallEntry.callee).subset hseen
      · exact ih.stacked ⟨rest, level⟩ (List.mem_cons_self ..) x hx hscope
    · exact ih.stacked frame (List.mem_cons_of_mem _ hframe) x hx hscope

/-- Whether an entry is that of a method to which a chain as long as its level leads. -/
def HasChain (g : CallGraph) (scope : String) (root : Method) (entry : CallEntry) : Prop :=
  ∃ m : Method, m.canonical = entry.callee ∧ Chain g scope root entry.level m

theorem depthFirstFrom_hasChain (stack : List Frame) (t : Trail)
    (hstack : ∀ frame ∈ stack, ∀ m ∈ frame.callees, m.inScope scope = true →
      Chain g scope root frame.level m)
    (ht : ∀ entry ∈ t.toList, HasChain g scope root entry) :
    ∀ entry ∈ (depthFirstFrom g scope stack t).toList, HasChain g scope root entry := by
  induction stack, t using depthFirstFrom.induct g scope with
  | case1 t =>
    rw [depthFirstFrom]
    exact ht
  | case2 level stack t ih =>
    rw [depthFirstFrom]
    exact ih (fun frame hframe => hstack frame (List.mem_cons_of_mem _ hframe)) ht
  | case3 m rest level stack t haccepts ih =>
    rw [depthFirstFrom, if_pos haccepts]
    have hm : Chain g scope root level m :=
      hstack ⟨m :: rest, level⟩ (List.mem_cons_self ..) m (List.mem_cons_self ..)
        (accepts_iff_admits.mp haccepts).2
    apply ih
    · intro frame hframe x hx hscope
      rcases List.mem_append.mp hframe with hframe | hframe
      · -- a callee of the method that is recorded makes its chain longer by one call
        obtain ⟨hcallee, hlevel⟩ := mem_callees_of_frame hframe hx
        rw [hlevel]
        exact .snoc hm (allowed_of_mem hcallee hscope)
      · rcases List.mem_cons.mp hframe with rfl | hframe
        · exact hstack ⟨m :: rest, level⟩ (List.mem_cons_self ..) x (List.mem_cons_of_mem _ hx) hscope
        · exact hstack frame (List.mem_cons_of_mem _ hframe) x hx hscope
    · intro entry hentry
      rw [Trail.toList_record] at hentry
      rcases List.mem_append.mp hentry with hentry | hentry
      · exact ht entry hentry
      · obtain rfl := List.mem_singleton.mp hentry
        exact ⟨m, rfl, hm⟩
  | case4 m rest level stack t haccepts ih =>
    rw [depthFirstFrom, if_neg haccepts]
    refine ih ?_ ht
    intro frame hframe x hx hscope
    rcases List.mem_cons.mp hframe with rfl | hframe
    · exact hstack ⟨m :: rest, level⟩ (List.mem_cons_self ..) x (List.mem_cons_of_mem _ hx) hscope
    · exact hstack frame (List.mem_cons_of_mem _ hframe) x hx hscope

theorem depthFirstFrom_nodup (g : CallGraph) (scope : String) (stack : List Frame) (t : Trail)
    (ht : (names t.toList).Nodup) : (names (depthFirstFrom g scope stack t).toList).Nodup := by
  induction stack, t using depthFirstFrom.induct g scope with
  | case1 t =>
    rw [depthFirstFrom]
    exact ht
  | case2 level stack t ih =>
    rw [depthFirstFrom]
    exact ih ht
  | case3 m rest level stack t haccepts ih =>
    rw [depthFirstFrom, if_pos haccepts]
    apply ih
    rw [Trail.toList_record, names_append, List.nodup_append]
    refine ⟨ht, by simp [names], ?_⟩
    intro name hname name' hname' heq
    have hm : name = m.canonical := heq.trans (List.mem_singleton.mp hname')
    exact (accepts_iff_admits.mp haccepts).1 (hm ▸ hname)
  | case4 m rest level stack t haccepts ih =>
    rw [depthFirstFrom, if_neg haccepts]
    exact ih ht

theorem hasChain_of_mem_depthFirst {entry : CallEntry} (h : entry ∈ depthFirst g scope root) :
    HasChain g scope root entry := by
  refine depthFirstFrom_hasChain (frames g root 1) .empty ?_ (by simp [Trail.toList_empty]) entry h
  intro frame hframe m hm hscope
  obtain ⟨hcallee, hlevel⟩ := mem_callees_of_frame hframe hm
  rw [hlevel]
  exact .call (allowed_of_mem hcallee hscope)

theorem mem_names_depthFirst_iff {m : Method} :
    m.canonical ∈ names (depthFirst g scope root) ↔ Reaches g scope root m := by
  have hrun := depthFirstFrom_completes g scope (frames g root 1) .empty
  rw [← depthFirst] at hrun
  constructor
  · intro h
    obtain ⟨entry, hentry, hname⟩ := List.mem_map.mp h
    obtain ⟨m', hm', hchain⟩ := hasChain_of_mem_depthFirst hentry
    exact ⟨entry.level, hchain.congr (hm'.trans hname)⟩
  · rintro ⟨n, hn⟩
    induction hn with
    | call h =>
      obtain ⟨stored, hmem, hname, hscope⟩ := h
      obtain ⟨frame, hframe, hx⟩ := exists_frame_of_mem_callees 1 hmem
      rw [← hname]
      exact hrun.stacked frame hframe stored hx hscope
    | @snoc n u v _ h ih =>
      obtain ⟨entry, hentry, hname⟩ := List.mem_map.mp ih
      rcases hrun.closed entry hentry with hbefore | hclosed
      · simp [Trail.toList_empty] at hbefore
      · exact hclosed u v hname.symm h

theorem nodup_names_depthFirst (g : CallGraph) (scope : String) (root : Method) :
    (names (depthFirst g scope root)).Nodup :=
  depthFirstFrom_nodup g scope _ _ (by simp [names, Trail.toList_empty])

/-! ### Either traversal -/

theorem hasChain_of_mem_entries {t : Traversal} {entry : CallEntry}
    (h : entry ∈ t.entries g root) : HasChain g t.scope root entry := by
  unfold Traversal.entries at h
  split at h
  · exact hasChain_of_mem_depthFirst h
  · obtain ⟨k, m, hm, rfl⟩ := mem_breadthFirst_iff.mp h
    exact ⟨m, rfl, chain_of_mem_layer hm⟩

theorem mem_names_entries_iff (t : Traversal) {m : Method} :
    m.canonical ∈ names (t.entries g root) ↔ Reaches g t.scope root m := by
  unfold Traversal.entries
  cases t.strategy with
  | depthFirst => exact mem_names_depthFirst_iff
  | shortestDepth => exact mem_names_breadthFirst_iff

theorem nodup_names_entries (t : Traversal) (g : CallGraph) (root : Method) :
    (names (t.entries g root)).Nodup := by
  unfold Traversal.entries
  cases t.strategy with
  | depthFirst => exact nodup_names_depthFirst g t.scope root
  | shortestDepth => exact nodup_names_breadthFirst g t.scope root

/-- A traversal records a method exactly if a path of one or more calls leads to it from the root on
which every method after the root is in scope, and it records it once. So the strategy does not
matter to what is recorded, the root is recorded exactly if such a path leads back to it, whatever
its own type, and a method is not recorded if every path to it goes through one out of scope. -/
theorem entries_record_reached (t : Traversal) (g : CallGraph) (root : Method) :
    (∀ m : Method, m.canonical ∈ names (t.entries g root) ↔
      ∃ path, CallPath g root path m ∧ ∀ v ∈ path, v.inScope t.scope = true) ∧
    (names (t.entries g root)).Nodup ∧
    (∀ (strategy : Strategy) (m : Method),
      m.canonical ∈ names (Traversal.entries ⟨t.scope, strategy⟩ g root) ↔
        m.canonical ∈ names (t.entries g root)) ∧
    (root.canonical ∈ names (t.entries g root) ↔
      ∃ path, CallPath g root path root ∧ ∀ v ∈ path, v.inScope t.scope = true) ∧
    (∀ m : Method, (∀ path, CallPath g root path m → ∃ v ∈ path, v.inScope t.scope = false) →
      m.canonical ∉ names (t.entries g root)) := by
  have hrecords : ∀ m : Method, m.canonical ∈ names (t.entries g root) ↔
      ∃ path, CallPath g root path m ∧ ∀ v ∈ path, v.inScope t.scope = true :=
    fun m => (mem_names_entries_iff t).trans reaches_iff_exists_callPath
  refine ⟨hrecords, nodup_names_entries t g root, ?_, hrecords root, ?_⟩
  · intro strategy m
    exact (mem_names_entries_iff ⟨t.scope, strategy⟩).trans (mem_names_entries_iff t).symm
  · intro m hpaths hmem
    obtain ⟨path, hpath, hall⟩ := (hrecords m).mp hmem
    obtain ⟨v, hv, hout⟩ := hpaths path hpath
    rw [hall v hv] at hout
    cases hout

end CallDepth.Reach
