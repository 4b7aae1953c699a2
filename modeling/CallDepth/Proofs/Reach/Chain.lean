import Mathlib.Data.List.Chain
import Mathlib.Data.List.Induction
import CallDepth.CallGraph
import CallDepth.Reach.Trail

/-!
# Chains of calls

What it means that a method is reached: a chain of calls leads to it from the root, and every method
after the root is in scope. Chains are counted, since their lengths are what levels measure.
-/

namespace CallDepth

/-! ### Callees -/

namespace CallGraph

theorem callees?_congr (g : CallGraph) {m n : Method} (h : m.canonical = n.canonical) :
    g.callees? m = g.callees? n := by
  simp only [callees?, h]

theorem callees_congr (g : CallGraph) {m n : Method} (h : m.canonical = n.canonical) :
    g.callees m = g.callees n := by
  simp only [callees, g.callees?_congr h]

theorem pairwise_callees (g : CallGraph) (m : Method) :
    ((g.callees m).map Method.canonical).Pairwise fun a b => compare a b = .lt := by
  unfold callees
  cases g.callees? m with
  | none => exact List.Pairwise.nil
  | some s =>
    simp only [Option.map_some, Option.getD_some, MethodSet.map_canonical_toList]
    exact s.pairwise_names

theorem nodup_callees (g : CallGraph) (m : Method) :
    ((g.callees m).map Method.canonical).Nodup :=
  nodup_of_pairwise_compare (g.pairwise_callees m)

end CallGraph

namespace Reach

/-! ### Allowed calls -/

/-- Whether a traversal follows the call of `v` by `u`: the callee that the graph has stored is in
scope. -/
def Allowed (g : CallGraph) (scope : String) (u v : Method) : Prop :=
  ∃ stored ∈ g.callees u, stored.canonical = v.canonical ∧ stored.inScope scope = true

variable {g : CallGraph} {scope : String} {root u v m : Method} {n : Nat}

theorem allowed_of_mem (hmem : m ∈ g.callees u) (hscope : m.inScope scope = true) :
    Allowed g scope u m := ⟨m, hmem, rfl, hscope⟩

theorem Allowed.congr_left (h : Allowed g scope u v) (hu : u.canonical = m.canonical) :
    Allowed g scope m v := by
  obtain ⟨stored, hmem, hname, hscope⟩ := h
  exact ⟨stored, g.callees_congr hu ▸ hmem, hname, hscope⟩

theorem Allowed.congr_right (h : Allowed g scope u v) (hv : v.canonical = m.canonical) :
    Allowed g scope u m := by
  obtain ⟨stored, hmem, hname, hscope⟩ := h
  exact ⟨stored, hmem, hname.trans hv, hscope⟩

/-! ### Chains -/

/-- A chain of `n` allowed calls leads from the root to a method. -/
inductive Chain (g : CallGraph) (scope : String) (root : Method) : Nat → Method → Prop where
  | call {v : Method} (h : Allowed g scope root v) : Chain g scope root 1 v
  | snoc {n : Nat} {u v : Method} (hu : Chain g scope root n u) (h : Allowed g scope u v) :
      Chain g scope root (n + 1) v

theorem Chain.congr (h : Chain g scope root n u) (hu : u.canonical = v.canonical) :
    Chain g scope root n v := by
  cases h with
  | call h => exact .call (h.congr_right hu)
  | snoc hw h => exact .snoc hw (h.congr_right hu)

def Reaches (g : CallGraph) (scope : String) (root m : Method) : Prop :=
  ∃ n, Chain g scope root n m

def names (entries : List CallEntry) : List String := entries.map CallEntry.callee

theorem names_append (entries more : List CallEntry) :
    names (entries ++ more) = names entries ++ names more := List.map_append

theorem names_map_entry (level : Nat) (ms : List Method) :
    names (ms.map fun m => ⟨m.canonical, level⟩) = ms.map Method.canonical := by
  simp [names, Function.comp_def]

/-- Whether a traversal that has recorded the given names records a method that it meets. -/
def Admits (scope : String) (placed : List String) (m : Method) : Prop :=
  m.canonical ∉ placed ∧ m.inScope scope = true

instance (scope : String) (placed : List String) (m : Method) : Decidable (Admits scope placed m) :=
  inferInstanceAs (Decidable (_ ∧ _))

theorem accepts_iff_admits {t : Trail} :
    t.accepts scope m = true ↔ Admits scope (names t.toList) m := Trail.accepts_iff

/-! ### Chains as lists of methods -/

/-- A path of calls, in scope or not: from the root on, each method calls the next one, and the last
is `m`. -/
structure CallPath (g : CallGraph) (root : Method) (path : List Method) (m : Method) : Prop where
  calls : List.IsChain (fun u v => v ∈ g.callees u) (root :: path)
  last : path.getLast?.map Method.canonical = some m.canonical

theorem CallPath.ne_nil {path : List Method} (h : CallPath g root path m) : path ≠ [] := by
  rintro rfl
  have hlast := h.last
  simp at hlast

theorem exists_callPath_of_chain (h : Chain g scope root n m) :
    ∃ path, CallPath g root path m ∧ path.length = n ∧ ∀ v ∈ path, v.inScope scope = true := by
  induction h with
  | call h =>
    obtain ⟨stored, hmem, hname, hscope⟩ := h
    refine ⟨[stored], ⟨?_, by simp [hname]⟩, rfl, by simpa using hscope⟩
    simpa using hmem
  | @snoc n u v _ h ih =>
    obtain ⟨path, hpath, hlen, hall⟩ := ih
    obtain ⟨stored, hmem, hname, hscope⟩ := h
    refine ⟨path ++ [stored], ⟨?_, by simp [hname]⟩, by simp [hlen], ?_⟩
    · rw [← List.cons_append, List.isChain_append]
      refine ⟨hpath.calls, List.isChain_singleton _, ?_⟩
      intro last hlast next hnext
      have hnext' : stored = next := by simpa using hnext
      have hlast' : path.getLast? = some last := by
        rw [List.getLast?_cons] at hlast
        cases hp : path.getLast? with
        | none => exact absurd (List.getLast?_eq_none_iff.mp hp) hpath.ne_nil
        | some x => simpa [hp] using hlast
      have hcanon : last.canonical = u.canonical := by
        have h := hpath.last
        rw [hlast'] at h
        simpa using h
      rw [← hnext', g.callees_congr hcanon]
      exact hmem
    · intro w hw
      rcases List.mem_append.mp hw with hw | hw
      · exact hall w hw
      · rw [List.mem_singleton.mp hw]
        exact hscope

theorem chain_of_callPath {path : List Method} (h : CallPath g root path m)
    (hall : ∀ v ∈ path, v.inScope scope = true) : Chain g scope root path.length m := by
  induction path using List.reverseRecOn generalizing m with
  | nil => exact absurd rfl h.ne_nil
  | append_singleton path stored ih =>
    have hname : stored.canonical = m.canonical := by simpa using h.last
    have hscope : stored.inScope scope = true := hall stored (by simp)
    have hcalls := h.calls
    rw [← List.cons_append, List.isChain_append] at hcalls
    obtain ⟨hbefore, -, hlast⟩ := hcalls
    rw [List.length_append, List.length_singleton]
    cases hp : path.getLast? with
    | none =>
      obtain rfl := List.getLast?_eq_none_iff.mp hp
      have hmem : stored ∈ g.callees root := hlast root (by simp) stored (by simp)
      exact .call ⟨stored, hmem, hname, hscope⟩
    | some u =>
      have hmem : stored ∈ g.callees u := by
        refine hlast u ?_ stored (by simp)
        rw [List.getLast?_cons, hp]
        rfl
      have hu : Chain g scope root path.length u :=
        ih ⟨hbefore, by simp [hp]⟩ fun v hv => hall v (List.mem_append_left _ hv)
      exact .snoc hu ⟨stored, hmem, hname, hscope⟩

theorem reaches_iff_exists_callPath :
    Reaches g scope root m ↔
      ∃ path, CallPath g root path m ∧ ∀ v ∈ path, v.inScope scope = true := by
  constructor
  · rintro ⟨n, hn⟩
    obtain ⟨path, hpath, -, hall⟩ := exists_callPath_of_chain hn
    exact ⟨path, hpath, hall⟩
  · rintro ⟨path, hpath, hall⟩
    exact ⟨path.length, chain_of_callPath hpath hall⟩

end Reach

end CallDepth
