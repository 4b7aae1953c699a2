import CallDepth.Bytes
import CallDepth.Proofs.Reach.Levels
import CallDepth.Proofs.Reach.Walk

/-!
# Levels as depths of calls

Where the level of an entry comes from. A depth-first walk meets, at a level, the calls of the latest
entry of one level less, so each entry is called by that one; breadth first, a layer is called by the
layer before it. Levels are therefore the depths of chains of calls that end in the entries, they
start at one and leave no gaps, and none is greater than the number of methods.
-/

namespace CallDepth.Reach

/-- Whether a call is allowed between the methods of two canonical forms. -/
def CallAllowed (g : CallGraph) (scope : String) (caller callee : String) : Prop :=
  ∃ u v : Method, u.canonical = caller ∧ v.canonical = callee ∧ Allowed g scope u v

variable {g : CallGraph} {scope : String} {root u v m : Method} {level n : Nat}
  {callees : List Method} {out : List CallEntry} {entry : CallEntry}

theorem Allowed.callAllowed (h : Allowed g scope u v) :
    CallAllowed g scope u.canonical v.canonical := ⟨u, v, rfl, rfl, h⟩

theorem Chain.one_le (h : Chain g scope root n m) : 1 ≤ n := by
  cases h with
  | call h => exact Nat.le_refl 1
  | snoc hu h => exact Nat.le_add_left 1 _

theorem Chain.allowed_of_one (h : Chain g scope root 1 m) : Allowed g scope root m := by
  cases h with
  | call h => exact h
  | snoc hu h => exact absurd hu.one_le (by omega)

/-! ### What a walk adds -/

/-- A walk over callees adds entries at their level or deeper, and the first of them at their level. -/
theorem exists_walkOver_eq_append (g : CallGraph) (scope : String) (level : Nat)
    (callees : List Method) (out : List CallEntry) :
    ∃ added, (walkOver g scope level callees out).val = out ++ added ∧
      (∀ entry ∈ added, level ≤ entry.level) ∧ ∀ entry ∈ added.head?, entry.level = level := by
  induction level, callees, out using walkOver.induct g scope with
  | case1 level out => exact ⟨[], by rw [walkOver_nil, List.append_nil], by simp, by simp⟩
  | case2 level m rest out hadmits inner ihinner ihafter =>
    obtain ⟨below, hbelow, hdeeper, -⟩ := ihinner
    obtain ⟨next, hnext, hlevel, -⟩ := ihafter
    refine ⟨⟨m.canonical, level⟩ :: (below ++ next), ?_, ?_, by simp⟩
    · rw [walkOver_record hadmits]
      exact hnext.trans (by rw [hbelow]; simp)
    · intro entry hentry
      rcases List.mem_cons.mp hentry with rfl | hentry
      · exact Nat.le_refl level
      · rcases List.mem_append.mp hentry with hentry | hentry
        · exact Nat.le_of_succ_le (hdeeper entry hentry)
        · exact hlevel entry hentry
  | case3 level m rest out hskip ih =>
    rw [walkOver_skip hskip]
    exact ih

/-! ### The method whose calls are met -/

/-- Whether `m` is the method whose calls a depth-first walk meets at a level after some entries: the
root at the first level, at any other level the method of the latest entry that is not as deep. -/
inductive UnderWay (root : Method) (out : List CallEntry) : Nat → Method → Prop where
  | root (h : ∀ entry ∈ out, 1 ≤ entry.level) : UnderWay root out 1 root
  | entry {before after : List CallEntry} {level : Nat} {m : Method}
      (hout : out = before ++ ⟨m.canonical, level⟩ :: after)
      (h : ∀ entry ∈ after, level < entry.level) : UnderWay root out (level + 1) m

theorem UnderWay.append {more : List CallEntry} (h : UnderWay root out level m)
    (hmore : ∀ entry ∈ more, level ≤ entry.level) : UnderWay root (out ++ more) level m := by
  cases h with
  | root h => exact .root (List.forall_mem_append.mpr ⟨h, hmore⟩)
  | entry hout h =>
    rw [hout, List.append_assoc, List.cons_append]
    exact .entry rfl (List.forall_mem_append.mpr ⟨h, hmore⟩)

theorem UnderWay.level_le {last : CallEntry} (h : UnderWay root (out ++ [last]) level m) :
    level ≤ last.level + 1 := by
  cases h with
  | root h => exact Nat.le_add_left 1 _
  | @entry before after level m hout h =>
    -- the last entry is the one of the method, or one of the deeper entries after it
    have hlast : last ∈ (⟨m.canonical, level⟩ : CallEntry) :: after := by
      have hsuffix : [last] <:+ before ++ ⟨m.canonical, level⟩ :: after := ⟨out, hout⟩
      refine (List.suffix_of_suffix_length_le hsuffix (List.suffix_append _ _) ?_).subset
        (List.mem_singleton_self last)
      simp
    rcases List.mem_cons.mp hlast with rfl | hlast
    · exact Nat.le_refl _
    · exact Nat.succ_le_succ (Nat.le_of_lt (h last hlast))

/-- Entries each of which is that of an allowed callee of the method under way before it. -/
inductive Descent (g : CallGraph) (scope : String) (root : Method) : List CallEntry → Prop where
  | nil : Descent g scope root []
  | snoc {out : List CallEntry} {level : Nat} {u m : Method} (hout : Descent g scope root out)
      (hu : UnderWay root out level u) (h : Allowed g scope u m) :
      Descent g scope root (out ++ [⟨m.canonical, level⟩])

theorem Descent.exists_underWay {entries before after : List CallEntry}
    (hdescent : Descent g scope root entries) (h : entries = before ++ entry :: after) :
    ∃ u, UnderWay root before entry.level u ∧ CallAllowed g scope u.canonical entry.callee := by
  induction hdescent generalizing after with
  | nil => simp at h
  | @snoc out level u m hout hu hallowed ih =>
    rcases List.eq_nil_or_concat' after with rfl | ⟨init, last, rfl⟩
    · obtain ⟨rfl, rfl⟩ := List.append_inj' h rfl |>.imp_right List.singleton_inj.mp
      exact ⟨u, hu, hallowed.callAllowed⟩
    · rw [← List.cons_append, ← List.append_assoc] at h
      exact ih (List.append_inj' h rfl).1

theorem walkOver_descent (hout : Descent g scope root out) (hu : UnderWay root out level u)
    (hcallees : ∀ m ∈ callees, m ∈ g.callees u) :
    Descent g scope root (walkOver g scope level callees out).val := by
  induction level, callees, out using walkOver.induct g scope generalizing u with
  | case1 level out =>
    rw [walkOver_nil]
    exact hout
  | case2 level m rest out hadmits inner ihinner ihafter =>
    rw [walkOver_record hadmits]
    have hm : Descent g scope root (out ++ [⟨m.canonical, level⟩]) :=
      hout.snoc hu (allowed_of_mem (hcallees m (List.mem_cons_self ..)) hadmits.2)
    have hinner : Descent g scope root inner.val :=
      ihinner hm (.entry rfl (by simp)) fun x hx => hx
    -- what the inner walk adds is deeper, so the caller stays under way
    have hafter : UnderWay root inner.val level u := by
      obtain ⟨below, hbelow, hdeeper, -⟩ := exists_walkOver_eq_append g scope (level + 1)
        (g.callees m) (out ++ [⟨m.canonical, level⟩])
      have hinner : inner.val = out ++ (⟨m.canonical, level⟩ :: below) :=
        hbelow.trans (by simp)
      rw [hinner]
      exact hu.append (List.forall_mem_cons.mpr
        ⟨Nat.le_refl level, fun x hx => Nat.le_of_succ_le (hdeeper x hx)⟩)
    exact ihafter hinner hafter fun x hx => hcallees x (List.mem_cons_of_mem _ hx)
  | case3 level m rest out hskip ih =>
    rw [walkOver_skip hskip]
    exact ih hout hu fun x hx => hcallees x (List.mem_cons_of_mem _ hx)

theorem depthFirst_descent (g : CallGraph) (scope : String) (root : Method) :
    Descent g scope root (depthFirst g scope root) := by
  rw [depthFirst_eq_walk, walk]
  exact walkOver_descent .nil (.root (by simp)) fun m hm => hm

/-! ### Callers of entries -/

/-- Whether, if an entry is not at the first level, one before it has one level less and an allowed
call of it. -/
def HasCaller (g : CallGraph) (scope : String) (before : List CallEntry) (entry : CallEntry) : Prop :=
  1 < entry.level → ∃ caller ∈ before, caller.level + 1 = entry.level ∧
    CallAllowed g scope caller.callee entry.callee

/-- The caller of an entry of the depth-first order is the latest entry before it that has one level
less. -/
theorem exists_latest_caller {before after : List CallEntry}
    (h : depthFirst g scope root = before ++ entry :: after) (hlevel : 1 < entry.level) :
    ∃ (start between : List CallEntry) (caller : CallEntry),
      before = start ++ caller :: between ∧ caller.level + 1 = entry.level ∧
      (∀ other ∈ between, other.level + 1 ≠ entry.level) ∧
      CallAllowed g scope caller.callee entry.callee := by
  obtain ⟨u, hu, hallowed⟩ := (depthFirst_descent g scope root).exists_underWay h
  generalize entry.level = level at hu hlevel
  cases hu with
  | root h => omega
  | @entry start between level u hbefore h =>
    refine ⟨start, between, ⟨u.canonical, level⟩, hbefore, rfl, fun other hother => ?_, hallowed⟩
    have hdeeper := h other hother
    omega

theorem hasCaller_depthFirst {before after : List CallEntry}
    (h : depthFirst g scope root = before ++ entry :: after) : HasCaller g scope before entry := by
  intro hlevel
  obtain ⟨start, between, caller, rfl, hcaller, -, hallowed⟩ := exists_latest_caller h hlevel
  exact ⟨caller, List.mem_append_right _ (List.mem_cons_self ..), hcaller, hallowed⟩

theorem depthFirst_level_le {before after : List CallEntry} {last : CallEntry}
    (h : depthFirst g scope root = before ++ last :: entry :: after) :
    entry.level ≤ last.level + 1 := by
  rw [← List.singleton_append, ← List.append_assoc] at h
  obtain ⟨u, hu, -⟩ := (depthFirst_descent g scope root).exists_underWay h
  exact hu.level_le

theorem pairwise_level_breadthFirst (g : CallGraph) (scope : String) (root : Method) :
    (breadthFirst g scope root).Pairwise fun a b => a.level ≤ b.level := by
  obtain ⟨n, hn⟩ := exists_layer_eq_nil g scope root
  rw [breadthFirst_eq_entriesUpTo hn]
  exact pairwise_level_entriesUpTo _

/-- The caller of an entry of the breadth-first order is in the layer before it. -/
theorem hasCaller_breadthFirst {before after : List CallEntry}
    (h : breadthFirst g scope root = before ++ entry :: after) : HasCaller g scope before entry := by
  intro hlevel
  have hmem : entry ∈ breadthFirst g scope root := by simp [h]
  obtain ⟨k, m, hm, rfl⟩ := mem_breadthFirst_iff.mp hmem
  obtain ⟨k, rfl⟩ : ∃ j, k = j + 1 := Nat.exists_eq_add_of_le' (Nat.lt_of_succ_lt_succ hlevel)
  obtain ⟨hcallee, -, hscope⟩ := mem_of_mem_fresh hm
  obtain ⟨u, hu, hcallee⟩ := List.mem_flatMap.mp hcallee
  have hcaller : (⟨u.canonical, k + 1⟩ : CallEntry) ∈ breadthFirst g scope root :=
    mem_breadthFirst_iff.mpr ⟨k, u, hu, rfl⟩
  refine ⟨⟨u.canonical, k + 1⟩, ?_, rfl, (allowed_of_mem hcallee hscope).callAllowed⟩
  -- entries after this one are no less deep, so the caller is not among them
  have hpairwise := pairwise_level_breadthFirst g scope root
  rw [h] at hcaller hpairwise
  have hafter : ∀ other ∈ after, k + 2 ≤ other.level :=
    (List.pairwise_cons.mp (List.pairwise_append.mp hpairwise).2.1).1
  rcases List.mem_append.mp hcaller with hcaller | hcaller
  · exact hcaller
  · rcases List.mem_cons.mp hcaller with heq | hcaller
    · exact absurd (CallEntry.mk.inj heq).2 (by omega)
    · exact absurd (hafter _ hcaller) (by simp)

theorem hasCaller_entries {t : Traversal} {before after : List CallEntry}
    (h : t.entries g root = before ++ entry :: after) : HasCaller g t.scope before entry := by
  unfold Traversal.entries at h
  split at h
  · exact hasCaller_depthFirst h
  · exact hasCaller_breadthFirst h

/-! ### The levels of a root -/

theorem one_le_level_of_mem_entries {t : Traversal} (h : entry ∈ t.entries g root) :
    1 ≤ entry.level := by
  obtain ⟨m, -, hchain⟩ := hasChain_of_mem_entries h
  exact hchain.one_le

theorem callAllowed_of_level_eq_one {t : Traversal} (h : entry ∈ t.entries g root)
    (hlevel : entry.level = 1) : CallAllowed g t.scope root.canonical entry.callee := by
  obtain ⟨m, hm, hchain⟩ := hasChain_of_mem_entries h
  rw [hlevel] at hchain
  rw [← hm]
  exact hchain.allowed_of_one.callAllowed

/-- Below the level of an entry, each level from one on is that of some entry. -/
theorem exists_entry_of_level_le {t : Traversal} (h : entry ∈ t.entries g root) (hpos : 1 ≤ level)
    (hle : level ≤ entry.level) : ∃ other ∈ t.entries g root, other.level = level := by
  induction hdist : entry.level - level generalizing entry with
  | zero => exact ⟨entry, h, by omega⟩
  | succ dist ih =>
    obtain ⟨before, after, hsplit⟩ := List.append_of_mem h
    obtain ⟨caller, hcaller, hlevel, -⟩ := hasCaller_entries hsplit (by omega)
    have hmem : caller ∈ t.entries g root := by simp [hsplit, hcaller]
    exact ih hmem (by omega) (by omega)

theorem mem_levels_iff (t : Traversal) (g : CallGraph) (root : Method) (level : Nat) :
    level ∈ (t.entries g root).map CallEntry.level ↔
      1 ≤ level ∧ level ≤ ((t.entries g root).map CallEntry.level).max?.getD 0 := by
  cases hmax : ((t.entries g root).map CallEntry.level).max? with
  | none =>
    rw [List.max?_eq_none_iff.mp hmax, Option.getD_none]
    constructor
    · exact fun h => absurd h List.not_mem_nil
    · exact fun h => absurd h.2 (by omega)
  | some deepest =>
    obtain ⟨hmem, hle⟩ := List.max?_eq_some_iff.mp hmax
    rw [Option.getD_some]
    constructor
    · intro h
      obtain ⟨entry, hentry, rfl⟩ := List.mem_map.mp h
      exact ⟨one_le_level_of_mem_entries hentry, hle _ h⟩
    · rintro ⟨hpos, hdeep⟩
      obtain ⟨entry, hentry, rfl⟩ := List.mem_map.mp hmem
      obtain ⟨other, hother, rfl⟩ := exists_entry_of_level_le hentry hpos hdeep
      exact List.mem_map_of_mem hother

theorem level_le_of_calleeNames_subset {t : Traversal} {called : List String}
    (hcalled : calleeNames g ⊆ called) (h : entry ∈ t.entries g root) :
    entry.level ≤ called.length :=
  Nat.le_trans ((entries_grounded t g root).level_le_length h) (length_entries_le hcalled)

/-- Levels are the depths of chains of calls. The entry in place `i`, counted from zero, has a level
from one to `i + 1`; at level one it is called by the root, and at a deeper level by an earlier entry
of one level less. Depth first this is the latest such entry, levels rise by at most one from entry to
entry, and none is less than the one that the method has breadth first. So the levels are those from
one to the greatest. While fewer methods are called than there are words, the levels of the entries are
words; while these and the root are fewer, so is one more than a level, with which the calls of an entry
wait even if nothing is recorded for them. -/
theorem levels_are_call_depths (t : Traversal) (g : CallGraph) (root : Method) :
    (∀ (i : Nat) (h : i < (t.entries g root).length),
      1 ≤ (t.entries g root)[i].level ∧ (t.entries g root)[i].level ≤ i + 1) ∧
    (∀ (before after : List CallEntry) (entry : CallEntry),
      t.entries g root = before ++ entry :: after →
      (entry.level = 1 → CallAllowed g t.scope root.canonical entry.callee) ∧
      (1 < entry.level → ∃ caller ∈ before, caller.level + 1 = entry.level ∧
        CallAllowed g t.scope caller.callee entry.callee)) ∧
    (∀ (before after : List CallEntry) (entry : CallEntry),
      depthFirst g t.scope root = before ++ entry :: after →
      1 < entry.level → ∃ (start between : List CallEntry) (caller : CallEntry),
        before = start ++ caller :: between ∧
        caller.level + 1 = entry.level ∧ (∀ other ∈ between, other.level + 1 ≠ entry.level) ∧
        CallAllowed g t.scope caller.callee entry.callee) ∧
    (∀ (before after : List CallEntry) (last entry : CallEntry),
      depthFirst g t.scope root = before ++ last :: entry :: after →
      entry.level ≤ last.level + 1) ∧
    (∀ entry ∈ depthFirst g t.scope root, ∃ other ∈ breadthFirst g t.scope root,
      other.callee = entry.callee ∧ other.level ≤ entry.level) ∧
    (∀ level, level ∈ (t.entries g root).map CallEntry.level ↔
      1 ≤ level ∧ level ≤ ((t.entries g root).map CallEntry.level).max?.getD 0) ∧
    ∀ called : List String, calleeNames g ⊆ called →
      (called.length < wordCount → ∀ entry ∈ t.entries g root, entry.level < wordCount) ∧
      ((root.canonical :: called).length < wordCount →
        ∀ entry ∈ t.entries g root, entry.level + 1 < wordCount) := by
  refine ⟨fun i h => ⟨?_, (entries_grounded t g root).level_le i h⟩, ?_, ?_, ?_, ?_,
    mem_levels_iff t g root, fun called hcalled => ⟨?_, ?_⟩⟩
  · exact one_le_level_of_mem_entries (List.getElem_mem h)
  · intro before after entry h
    exact ⟨callAllowed_of_level_eq_one (by simp [h]), hasCaller_entries h⟩
  · exact fun before after entry h => exists_latest_caller h
  · exact fun before after last entry h => depthFirst_level_le h
  · intro entry hentry
    obtain ⟨m, hm, hchain⟩ := hasChain_of_mem_depthFirst hentry
    have hreached : entry.callee ∈ names (breadthFirst g t.scope root) := by
      rw [← hm]
      exact mem_names_breadthFirst_iff.mpr ⟨entry.level, hchain⟩
    obtain ⟨other, hother, hname⟩ := List.mem_map.mp hreached
    exact ⟨other, hother, hname, (isLeast_of_mem_breadthFirst hother (hm.trans hname.symm)).2 hchain⟩
  · intro hlength entry hentry
    exact Nat.lt_of_le_of_lt (level_le_of_calleeNames_subset hcalled hentry) hlength
  · intro hlength entry hentry
    exact Nat.lt_of_le_of_lt
      (Nat.succ_le_succ (level_le_of_calleeNames_subset hcalled hentry)) hlength

end CallDepth.Reach
