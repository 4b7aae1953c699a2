import CallDepth.Method

/-!
# The scope of a project

The methods of a project share the start of their declaring types. Unless it is given, that start is
the longest one that the types of all tests have in common.
-/

namespace CallDepth

def commonStart : List Char → List Char → List Char
  | c :: cs, d :: ds => if c = d then c :: commonStart cs ds else []
  | _, _ => []

theorem commonStart_isPrefix_left (cs ds : List Char) : commonStart cs ds <+: cs := by
  induction cs generalizing ds with
  | nil => cases ds <;> simp [commonStart]
  | cons c cs ih =>
    cases ds with
    | nil => simp [commonStart]
    | cons d ds =>
      simp only [commonStart]
      split
      · exact (List.cons_prefix_cons).mpr ⟨rfl, ih ds⟩
      · exact List.nil_prefix

theorem commonStart_comm (cs ds : List Char) : commonStart cs ds = commonStart ds cs := by
  induction cs generalizing ds with
  | nil => cases ds <;> rfl
  | cons c cs ih =>
    cases ds with
    | nil => rfl
    | cons d ds =>
      simp only [commonStart]
      by_cases h : c = d
      · subst h
        simp [ih]
      · simp [h, Ne.symm h]

/-- The longest common start of several texts, empty for none. -/
def longestCommonStart : List String → String
  | [] => ""
  | first :: rest =>
    String.ofList (rest.foldl (fun cs s => commonStart cs s.toList) first.toList)

/-- The longest start that the declaring types of the tests have in common. -/
def projectScope (tests : List Method) : String :=
  longestCommonStart (tests.map Method.declaringType)

def Method.inScope (scope : String) (m : Method) : Bool := m.declaringType.startsWith scope

end CallDepth
