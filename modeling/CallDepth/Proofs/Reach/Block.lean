import CallDepth.Proofs.Reach.Descent

/-!
# Blocks of the depth-first order

The entries that follow an entry and are deeper are its block. They are what the walk from its method
records, and so the methods that are reached from it by calls that do not pass through a method that
was recorded before: when the walk sets out, these are the ones that it finds closed to it.
-/

namespace CallDepth

/-- The trail of given entries. -/
def Trail.ofEntries (entries : List CallEntry) : Trail where
  entries := entries.toArray
  seen := .ofList (entries.map CallEntry.callee)
  mem_seen_iff := by simp [Std.HashSet.mem_ofList]

theorem Trail.toList_ofEntries (entries : List CallEntry) : (ofEntries entries).toList = entries :=
  rfl

namespace Reach

variable {g : CallGraph} {scope : String} {root u v w m : Method} {level : Nat}
  {callees : List Method} {path : List Method} {out before after : List CallEntry}
  {entry : CallEntry}

/-! ### Paths -/

theorem CallPath.single (h : m ∈ g.callees u) : CallPath g u [m] m :=
  ⟨List.isChain_pair.mpr h, rfl⟩

theorem CallPath.cons (h : m ∈ g.callees u) (hpath : CallPath g m path w) :
    CallPath g u (m :: path) w := by
  refine ⟨List.isChain_cons_cons.mpr ⟨h, hpath.calls⟩, ?_⟩
  rw [List.getLast?_cons_of_ne_nil hpath.ne_nil]
  exact hpath.last

theorem CallPath.cases (h : CallPath g u (m :: path) w) :
    m ∈ g.callees u ∧ (m.canonical = w.canonical ∨ CallPath g m path w) := by
  obtain ⟨hcalls, hlast⟩ := h
  obtain ⟨hmem, hrest⟩ := List.isChain_cons_cons.mp hcalls
  refine ⟨hmem, ?_⟩
  cases path with
  | nil => exact Or.inl (by simpa using hlast)
  | cons next path => exact Or.inr ⟨hrest, by simpa using hlast⟩

theorem CallPath.exists_mem (h : CallPath g u path w) : ∃ m ∈ path, m.canonical = w.canonical := by
  obtain ⟨m, hm, hname⟩ := Option.map_eq_some_iff.mp h.last
  exact ⟨m, List.mem_of_getLast? hm, hname⟩

/-! ### What a walk reaches -/

theorem Admits.mono {placed more : List String} (h : placed ⊆ more) (hm : Admits scope more m) :
    Admits scope placed m := ⟨fun hmem => hm.1 (h hmem), hm.2⟩

theorem walk_congr (h : u.canonical = v.canonical) :
    walk g scope u level out = walk g scope v level out := by
  rw [walk, walk, g.callees_congr h]

theorem walkOver_completes (g : CallGraph) (scope : String) (level : Nat) (callees : List Method)
    (out : List CallEntry) :
    Completes g scope [⟨callees, level⟩] out (walkOver g scope level callees out).val := by
  have h := depthFirstFrom_completes g scope [⟨callees, level⟩] (.ofEntries out)
  rwa [toList_depthFirstFrom, Trail.toList_ofEntries] at h

theorem exists_path_of_mem_walkOver (hcallees : ∀ m ∈ callees, m ∈ g.callees u) :
    ∀ entry ∈ (walkOver g scope level callees out).val, entry ∈ out ∨
      ∃ path w, CallPath g u path w ∧ w.canonical = entry.callee ∧
        ∀ x ∈ path, Admits scope (names out) x := by
  induction level, callees, out using walkOver.induct g scope generalizing u with
  | case1 level out =>
    rw [walkOver_nil]
    exact fun entry h => Or.inl h
  | case2 level m rest out hadmits inner ihinner ihafter =>
    rw [walkOver_record hadmits]
    have hm : m ∈ g.callees u := hcallees m (List.mem_cons_self ..)
    have hinner : names out ⊆ names inner.val :=
      ((List.prefix_append _ _).trans inner.property).map CallEntry.callee |>.subset
    intro entry hentry
    rcases ihafter (fun x hx => hcallees x (List.mem_cons_of_mem _ hx)) entry hentry with
      hentry | ⟨path, w, hpath, hw, hadmitted⟩
    · rcases ihinner (fun x hx => hx) entry hentry with hentry | ⟨path, w, hpath, hw, hadmitted⟩
      · rcases List.mem_append.mp hentry with hentry | hentry
        · exact Or.inl hentry
        · obtain rfl := List.mem_singleton.mp hentry
          exact Or.inr ⟨[m], m, .single hm, rfl, by simpa using hadmits⟩
      · -- a path from the method that is recorded here begins with the call of it
        refine Or.inr ⟨m :: path, w, hpath.cons hm, hw, List.forall_mem_cons.mpr ⟨hadmits, ?_⟩⟩
        exact fun x hx => (hadmitted x hx).mono (by simp [names_append])
    · exact Or.inr ⟨path, w, hpath, hw, fun x hx => (hadmitted x hx).mono hinner⟩
  | case3 level m rest out hskip ih =>
    rw [walkOver_skip hskip]
    exact ih fun x hx => hcallees x (List.mem_cons_of_mem _ hx)

/-- What is closed under the calls of what it adds, and has the callees of a method, has all to which
a path leads from that method past nothing that was there before. -/
theorem Completes.mem_names_of_path {stack : List Frame} {result : List CallEntry}
    (h : Completes g scope stack out result)
    (hu : ∀ x ∈ g.callees u, x.inScope scope = true → x.canonical ∈ names result)
    (hpath : CallPath g u path w) (hadmitted : ∀ x ∈ path, Admits scope (names out) x) :
    w.canonical ∈ names result := by
  induction path generalizing u with
  | nil => exact absurd rfl hpath.ne_nil
  | cons m path ih =>
    obtain ⟨hm, hrest⟩ := hpath.cases
    obtain ⟨hmadmits, hadmitted⟩ := List.forall_mem_cons.mp hadmitted
    have hname : m.canonical ∈ names result := hu m hm hmadmits.2
    rcases hrest with heq | hrest
    · exact heq ▸ hname
    · obtain ⟨entry, hentry, hcallee⟩ := List.mem_map.mp hname
      rcases h.closed entry hentry with hbefore | hclosed
      · exact absurd (hcallee ▸ List.mem_map_of_mem hbefore) hmadmits.1
      · exact ih (fun x hx hscope => hclosed m x hcallee.symm (allowed_of_mem hx hscope)) hrest
          hadmitted

/-- A walk records the methods to which paths lead past what was recorded before. -/
theorem mem_names_walk_iff :
    w.canonical ∈ names (walk g scope v level out) ↔ w.canonical ∈ names out ∨
      ∃ path, CallPath g v path w ∧ ∀ x ∈ path, Admits scope (names out) x := by
  have hwalk := walkOver_completes g scope level (g.callees v) out
  constructor
  · intro h
    obtain ⟨entry, hentry, hname⟩ := List.mem_map.mp h
    rcases exists_path_of_mem_walkOver (fun m hm => hm) entry hentry with
      hout | ⟨path, w', hpath, hw', hadmitted⟩
    · exact Or.inl (hname ▸ List.mem_map_of_mem hout)
    · exact Or.inr ⟨path, ⟨hpath.calls, by rw [hpath.last, hw', hname]⟩, hadmitted⟩
  · rintro (h | ⟨path, hpath, hadmitted⟩)
    · exact (hwalk.keeps.map CallEntry.callee).subset h
    · exact hwalk.mem_names_of_path (hwalk.stacked _ (List.mem_singleton_self _)) hpath hadmitted

/-! ### Blocks -/

/-- The entries after one, up to the next that is not deeper. -/
def block (entry : CallEntry) (after : List CallEntry) : List CallEntry :=
  after.takeWhile fun next => entry.level < next.level

theorem block_append {below rest : List CallEntry} (hbelow : ∀ next ∈ below, entry.level < next.level)
    (hrest : ∀ next ∈ rest.head?, next.level ≤ entry.level) : block entry (below ++ rest) = below := by
  rw [block, List.takeWhile_append_of_pos (fun next hnext => decide_eq_true (hbelow next hnext))]
  cases rest with
  | nil => simp
  | cons next rest =>
    have hnext : ¬ entry.level < next.level := Nat.not_lt.mpr (hrest next rfl)
    simp [hnext]

theorem append_cons_eq_append {α : Type} {a : α} {xs ys us vs : List α}
    (h : xs ++ a :: ys = us ++ vs) :
    (∃ mid, us = xs ++ a :: mid ∧ ys = mid ++ vs) ∨ ∃ mid, xs = us ++ mid ∧ vs = mid ++ a :: ys := by
  rcases List.append_eq_append_iff.mp h with ⟨mid, hus, hmid⟩ | ⟨mid, hxs, hvs⟩
  · rcases List.cons_eq_append_iff.mp hmid with ⟨rfl, hvs⟩ | ⟨mid, rfl, hys⟩
    · exact Or.inr ⟨[], by simpa using hus.symm, hvs⟩
    · exact Or.inl ⟨mid, hus, hys⟩
  · exact Or.inr ⟨mid, hxs, hvs⟩

/-- Every entry that a walk adds is followed by what the walk from its method records, and that by
something that is not deeper. -/
theorem exists_walk_of_split
    (h : (walkOver g scope level callees out).val = out ++ before ++ entry :: after) :
    level ≤ entry.level ∧ ∃ m below rest, m.canonical = entry.callee ∧ after = below ++ rest ∧
      walk g scope m (entry.level + 1) (out ++ before ++ [entry]) =
        out ++ before ++ entry :: below ∧
      ∀ next ∈ rest.head?, next.level ≤ entry.level := by
  induction level, callees, out using walkOver.induct g scope generalizing before after with
  | case1 level out =>
    rw [walkOver_nil, List.append_assoc] at h
    simp at h
  | case2 level m rest out hadmits inner ihinner ihafter =>
    obtain ⟨below, hbelow, -⟩ := exists_walkOver_eq_append g scope (level + 1) (g.callees m)
      (out ++ [⟨m.canonical, level⟩])
    obtain ⟨next, hnext, -, hfirst⟩ := exists_walkOver_eq_append g scope level rest inner.val
    have hinner : inner.val = out ++ ⟨m.canonical, level⟩ :: below := hbelow.trans (by simp)
    rw [walkOver_record hadmits] at h
    have hlist : before ++ entry :: after = ⟨m.canonical, level⟩ :: (below ++ next) := by
      have hwhole := h.symm.trans hnext
      rw [hinner, List.append_assoc, List.append_assoc] at hwhole
      exact List.append_cancel_left hwhole
    cases before with
    | nil =>
      obtain ⟨rfl, rfl⟩ := List.cons.inj hlist
      rw [List.append_nil]
      exact ⟨Nat.le_refl level, m, below, next, rfl, rfl, hinner,
        fun x hx => Nat.le_of_eq (hfirst x hx)⟩
    | cons first before =>
      rw [List.cons_append, List.cons.injEq] at hlist
      obtain ⟨rfl, hlist⟩ := hlist
      rcases append_cons_eq_append hlist with ⟨mid, rfl, rfl⟩ | ⟨mid, rfl, rfl⟩
      · -- the entry is one that the inner walk adds, and what follows that is not deeper either
        rw [List.append_cons out ⟨m.canonical, level⟩ before]
        obtain ⟨hlevel, u, deeper, last, hu, rfl, hwalk, hlast⟩ :=
          ihinner (hbelow.trans (List.append_assoc ..).symm)
        refine ⟨Nat.le_of_succ_le hlevel, u, deeper, last ++ next, hu, List.append_assoc .., hwalk, ?_⟩
        cases last with
        | nil => exact fun x hx => hfirst x hx ▸ Nat.le_of_succ_le hlevel
        | cons x last => exact hlast
      · -- the entry is one of those after the inner walk
        have hfront : out ++ ⟨m.canonical, level⟩ :: (below ++ mid) = inner.val ++ mid := by
          rw [hinner, List.append_assoc, List.cons_append]
        rw [hfront]
        exact ihafter (hnext.trans (List.append_assoc ..).symm)
  | case3 level m rest out hskip ih =>
    rw [walkOver_skip hskip] at h
    exact ih h

theorem exists_walk_of_depthFirst (h : depthFirst g scope root = before ++ entry :: after)
    (hv : v.canonical = entry.callee) :
    walk g scope v (entry.level + 1) (before ++ [entry]) =
      before ++ [entry] ++ block entry after := by
  have hsplit : (walkOver g scope 1 (g.callees root) []).val = [] ++ before ++ entry :: after := by
    rw [← walk, ← depthFirst_eq_walk, h, List.nil_append]
  obtain ⟨-, m, below, rest, hm, rfl, hwalk, hrest⟩ := exists_walk_of_split hsplit
  rw [List.nil_append, walk_congr (hm.trans hv.symm), List.append_cons before entry below] at hwalk
  obtain ⟨added, hadded, hdeeper, -⟩ :=
    exists_walkOver_eq_append g scope (entry.level + 1) (g.callees v) (before ++ [entry])
  obtain rfl : below = added := List.append_cancel_left (hwalk.symm.trans hadded)
  rw [block_append hdeeper hrest, hwalk]

/-- The block of an entry, which are the entries after it up to the next that is not deeper, holds the
methods that are reached from its method by allowed calls of which none is of that method or of one
that was recorded before it. -/
theorem mem_block_iff_exists_path (h : depthFirst g scope root = before ++ entry :: after)
    (hv : v.canonical = entry.callee) (w : Method) :
    w.canonical ∈ names (block entry after) ↔
      ∃ path, CallPath g v path w ∧ ∀ x ∈ path,
        x.inScope scope = true ∧ x.canonical ≠ v.canonical ∧ x.canonical ∉ names before := by
  have hwalk := exists_walk_of_depthFirst h hv
  have hadmits : ∀ x : Method, Admits scope (names (before ++ [entry])) x ↔
      x.inScope scope = true ∧ x.canonical ≠ v.canonical ∧ x.canonical ∉ names before := by
    intro x
    rw [Admits, names_append, List.mem_append, not_or, hv]
    simp only [names, List.map_cons, List.map_nil, List.mem_singleton]
    tauto
  have hreached : w.canonical ∈ names (walk g scope v (entry.level + 1) (before ++ [entry])) ↔ _ :=
    mem_names_walk_iff
  simp only [hadmits] at hreached
  rw [hwalk, names_append, List.mem_append] at hreached
  constructor
  · intro hmem
    -- no method is recorded twice, so one in the block was not recorded before
    have hnodup := nodup_names_depthFirst g scope root
    rw [h, List.append_cons, names_append, List.nodup_append] at hnodup
    have hafter : w.canonical ∈ names after :=
      ((List.takeWhile_prefix _).map CallEntry.callee).subset hmem
    exact (hreached.mp (Or.inr hmem)).resolve_left fun hbefore =>
      hnodup.2.2 _ hbefore _ hafter rfl
  · rintro ⟨path, hpath, hopen⟩
    refine (hreached.mpr (Or.inr ⟨path, hpath, hopen⟩)).resolve_left fun hmem => ?_
    obtain ⟨x, hx, hname⟩ := hpath.exists_mem
    exact ((hadmits x).mpr (hopen x hx)).1 (hname ▸ hmem)

/-- A root with two callees, the first of which calls it back. -/
def callsBack : List (Method × Method) :=
  [(.make "T" "t" [], .make "A" "a" []), (.make "T" "t" [], .make "C" "c" []),
    (.make "A" "a" [], .make "T" "t" [])]

theorem depthFirst_callsBack :
    depthFirst (.ofEdges callsBack) "" (.make "T" "t" []) =
      [⟨"A:a()", 1⟩, ⟨"T:t()", 2⟩, ⟨"C:c()", 3⟩] := by
  have hroot : (CallGraph.ofEdges callsBack).callees (.make "T" "t" []) =
      [.make "A" "a" [], .make "C" "c" []] := rfl
  have hfirst : (CallGraph.ofEdges callsBack).callees (.make "A" "a" []) = [.make "T" "t" []] := rfl
  have hsecond : (CallGraph.ofEdges callsBack).callees (.make "C" "c" []) = [] := rfl
  have hagain : walk (.ofEdges callsBack) "" (.make "T" "t" []) 3 [⟨"A:a()", 1⟩, ⟨"T:t()", 2⟩] =
      [⟨"A:a()", 1⟩, ⟨"T:t()", 2⟩, ⟨"C:c()", 3⟩] := by
    rw [walk, hroot, walkOver_skip (by decide +kernel), walkOver_record (by decide +kernel), walk,
      hsecond, walkOver_nil, walkOver_nil]
    rfl
  have hback : walk (.ofEdges callsBack) "" (.make "A" "a" []) 2 [⟨"A:a()", 1⟩] =
      [⟨"A:a()", 1⟩, ⟨"T:t()", 2⟩, ⟨"C:c()", 3⟩] := by
    rw [walk, hfirst, walkOver_record (by decide +kernel)]
    exact walkOver_nil.trans hagain
  rw [depthFirst_eq_walk, walk, hroot, walkOver_record (by decide +kernel)]
  refine (congrArg (fun out => (walkOver _ "" 1 _ out).val) hback).trans ?_
  rw [walkOver_skip (by decide +kernel), walkOver_nil]

/-- The root is recorded from its first callee, and reaches only the second from there. -/
theorem mem_block_of_root_called_back :
    let root : Method := .make "T" "t" []
    let second : Method := .make "C" "c" []
    depthFirst (.ofEdges callsBack) "" root = [⟨"A:a()", 1⟩] ++ ⟨"T:t()", 2⟩ :: [⟨"C:c()", 3⟩] ∧
    root.canonical = "T:t()" ∧
    (second.canonical ∈ names (block ⟨"T:t()", 2⟩ [⟨"C:c()", 3⟩]) ↔
      ∃ path, CallPath (.ofEdges callsBack) root path second ∧ ∀ x ∈ path,
        x.inScope "" = true ∧ x.canonical ≠ root.canonical ∧
        x.canonical ∉ names [⟨"A:a()", 1⟩]) :=
  ⟨depthFirst_callsBack, rfl, mem_block_iff_exists_path depthFirst_callsBack rfl _⟩

end Reach

end CallDepth
