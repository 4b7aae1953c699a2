import Std.Data.HashSet
import CallDepth.Scope

/-!
# Trails

What a traversal has recorded so far: the methods in the order of their discovery, each with its
level. A trail only grows, and how many methods of a finite list it lacks bounds how often it still
can.
-/

namespace CallDepth

/-- A method that was reached, by its canonical form, and the level at which it was. -/
structure CallEntry where
  callee : String
  level : Nat
  deriving DecidableEq, Repr

structure Trail where
  entries : Array CallEntry
  seen : Std.HashSet String
  mem_seen_iff : ∀ name : String, name ∈ seen ↔ ∃ entry ∈ entries, entry.callee = name

namespace Trail

def empty : Trail := ⟨#[], ∅, by simp⟩

def contains (t : Trail) (m : Method) : Bool := t.seen.contains m.canonical

def accepts (t : Trail) (scope : String) (m : Method) : Bool := !t.contains m && m.inScope scope

def record (t : Trail) (m : Method) (level : Nat) : Trail where
  entries := t.entries.push ⟨m.canonical, level⟩
  seen := t.seen.insert m.canonical
  mem_seen_iff := by
    intro name
    rw [Std.HashSet.mem_insert, t.mem_seen_iff]
    simp only [beq_iff_eq, Array.mem_push]
    constructor
    · rintro (rfl | ⟨entry, hmem, hname⟩)
      · exact ⟨⟨m.canonical, level⟩, Or.inr rfl, rfl⟩
      · exact ⟨entry, Or.inl hmem, hname⟩
    · rintro ⟨entry, hmem | rfl, hname⟩
      · exact Or.inr ⟨entry, hmem, hname⟩
      · exact Or.inl hname

/-- The recorded methods in the order of their discovery. -/
def toList (t : Trail) : List CallEntry := t.entries.toList

theorem toList_empty : empty.toList = [] := rfl

theorem toList_record (t : Trail) (m : Method) (level : Nat) :
    (t.record m level).toList = t.toList ++ [⟨m.canonical, level⟩] := by
  simp [toList, record]

theorem contains_iff {t : Trail} {m : Method} :
    t.contains m = true ↔ ∃ entry ∈ t.toList, entry.callee = m.canonical := by
  rw [contains, Std.HashSet.contains_iff_mem, t.mem_seen_iff]
  simp [toList]

theorem accepts_iff {t : Trail} {scope : String} {m : Method} :
    t.accepts scope m = true ↔
      m.canonical ∉ t.toList.map CallEntry.callee ∧ m.inScope scope = true := by
  rw [accepts, Bool.and_eq_true, Bool.not_eq_true', ← Bool.not_eq_true, contains_iff, List.mem_map]

/-! ### What is left to record -/

/-- How many of the names a trail lacks. -/
def missing (names : List String) (t : Trail) : Nat :=
  names.countP fun name => !t.seen.contains name

theorem missing_record_le (names : List String) (t : Trail) (m : Method) (level : Nat) :
    (t.record m level).missing names ≤ t.missing names := by
  apply List.countP_mono_left
  intro name _ h
  simp only [record, Std.HashSet.contains_insert, Bool.not_or, Bool.and_eq_true] at h
  exact h.2

theorem missing_record_of_not_mem {names : List String} {m : Method} (t : Trail) (level : Nat)
    (h : m.canonical ∉ names) : (t.record m level).missing names = t.missing names := by
  apply List.countP_congr
  intro name hname
  have hne : (m.canonical == name) = false := by
    rw [beq_eq_false_iff_ne]
    rintro rfl
    exact h hname
  simp [record, Std.HashSet.contains_insert, hne]

theorem missing_record_lt {names : List String} {t : Trail} {m : Method} (level : Nat)
    (hmem : m.canonical ∈ names) (hnew : t.contains m = false) :
    (t.record m level).missing names < t.missing names := by
  obtain ⟨before, after, rfl⟩ := List.append_of_mem hmem
  have hbefore := missing_record_le before t m level
  have hafter := missing_record_le after t m level
  simp only [missing, contains] at hbefore hafter hnew ⊢
  simp only [List.countP_append, List.countP_cons, record, Std.HashSet.contains_insert, hnew,
    beq_self_eq_true, Bool.true_or, Bool.not_true, Bool.not_false, if_true]
  simp only [record, Std.HashSet.contains_insert] at hbefore hafter
  simp only [Bool.false_eq_true, if_false]
  omega

end Trail

end CallDepth
