import Mathlib.Data.List.Basic
import CallDepth.Proofs.Method.Form
import CallDepth.Proofs.Text.Trim
import CallDepth.Selection

/-!
# Marks of runs

A run of a parameterized test is named by its test with a mark `(args)[n]` behind it. The marks as a
structure: a mark holds the characters of its arguments and of its number and that they are of their
classes. A text ends in at most one mark, which is what is cut off an identifier between its blanks,
and which a search from the front of the text finds as well as one from its end; so an identifier
comes to a key exactly if it is the key, or the key with a mark, between blanks.
-/

namespace CallDepth.TestId

/-- The characters of a mark, the arguments with the commas and blanks between them. -/
structure RunMark where
  arguments : List Char
  number : List Char
  arguments_ne_nil : arguments ≠ []
  number_ne_nil : number ≠ []
  isArgumentChar_of_mem : ∀ c ∈ arguments, isArgumentChar c = true
  isDigit_of_mem : ∀ c ∈ number, Text.isDigit c = true

theorem not_isDigit_bracket : Text.isDigit '[' = false := by decide

namespace RunMark

def text (mark : RunMark) : List Char :=
  '(' :: (mark.arguments ++ ')' :: '[' :: (mark.number ++ [']']))

theorem reverse_append_text (front : List Char) (mark : RunMark) :
    (front ++ mark.text).reverse =
      ']' :: (mark.number.reverse ++ '[' ::
        ')' :: (mark.arguments.reverse ++ '(' :: front.reverse)) := by
  simp [text]

theorem withoutRun?_append_text (front : List Char) (mark : RunMark) :
    withoutRun? (front ++ mark.text) = some front := by
  have hnumber := Text.takeRun?_append (')' :: (mark.arguments.reverse ++ '(' :: front.reverse))
    (fun c hc => mark.isDigit_of_mem c (List.mem_reverse.mp hc)) not_isDigit_bracket
  have harguments := Text.takeRun?_append front.reverse
    (fun c hc => mark.isArgumentChar_of_mem c (List.mem_reverse.mp hc)) not_isArgumentChar_paren
  obtain ⟨digit, digits, hdigits⟩ :=
    List.exists_cons_of_ne_nil (List.reverse_ne_nil_iff.mpr mark.number_ne_nil)
  rw [hdigits] at hnumber
  simp only [withoutRun?, reverse_append_text, hdigits, hnumber, harguments, bind, Option.bind,
    List.reverse_eq_nil_iff, mark.arguments_ne_nil, if_false, List.reverse_reverse]

end RunMark

/-- What is cut off the end of a text is a mark. -/
theorem withoutRun?_eq_some_iff {cs front : List Char} :
    withoutRun? cs = some front ↔ ∃ mark : RunMark, cs = front ++ mark.text := by
  constructor
  · intro h
    -- a mark is read from its end, so its parts are found in reverse
    unfold withoutRun? at h
    split at h
    · rename_i back hcs
      obtain ⟨⟨number, after⟩, hnumber, hrest⟩ := Option.bind_eq_some_iff.mp h
      obtain ⟨rfl, hdigits⟩ := Text.eq_of_takeRun? hnumber
      dsimp only at hrest
      split at hrest
      · rename_i digit digits back
        obtain ⟨⟨arguments, last⟩, harguments, hlast⟩ := Option.bind_eq_some_iff.mp hrest
        obtain ⟨rfl, hchars⟩ := Text.eq_of_takeRun? harguments
        dsimp only at hlast
        split at hlast
        · cases hlast
        · rename_i hne
          obtain rfl := Option.some.inj hlast
          refine ⟨⟨arguments.reverse, (digit :: digits).reverse, ?_, ?_, ?_, ?_⟩, ?_⟩
          · exact List.reverse_ne_nil_iff.mpr hne
          · exact List.reverse_ne_nil_iff.mpr (List.cons_ne_nil _ _)
          · exact fun c hc => hchars c (List.mem_reverse.mp hc)
          · exact fun c hc => hdigits c (List.mem_reverse.mp hc)
          · rw [← List.reverse_inj, hcs, RunMark.reverse_append_text]
            simp only [List.reverse_reverse]
      · cases hrest
    · cases h
  · rintro ⟨mark, rfl⟩
    exact mark.withoutRun?_append_text front

theorem withoutRun?_eq_none_of_getLast? {cs : List Char} (h : ']' ∉ cs.getLast?) :
    withoutRun? cs = none := by
  rw [Option.eq_none_iff_forall_ne_some]
  intro front hfront
  obtain ⟨mark, rfl⟩ := withoutRun?_eq_some_iff.mp hfront
  refine h ?_
  rw [List.getLast?_eq_head?_reverse, RunMark.reverse_append_text]
  exact Option.mem_some_self _

/-! ### The one mark of a text -/

theorem not_isArgumentChar_closing : isArgumentChar ')' = false := by decide

/-- A text ends in a mark in at most one way. -/
theorem RunMark.eq_of_append_text {front front' : List Char} {mark mark' : RunMark}
    (h : front ++ mark.text = front' ++ mark'.text) : front = front' ∧ mark = mark' := by
  have hfront : front = front' := by
    have hcut := mark.withoutRun?_append_text front
    rw [h, mark'.withoutRun?_append_text] at hcut
    exact (Option.some.inj hcut).symm
  subst hfront
  have htext := List.tail_eq_of_cons_eq (List.append_cancel_left h)
  -- the arguments of both end at the first closing parenthesis
  have htake := congrArg (Text.takeRun? isArgumentChar ')') htext
  rw [Text.takeRun?_append _ mark.isArgumentChar_of_mem not_isArgumentChar_closing,
    Text.takeRun?_append _ mark'.isArgumentChar_of_mem not_isArgumentChar_closing] at htake
  obtain ⟨harguments, hrest⟩ := Prod.mk.inj (Option.some.inj htake)
  have hnumber := List.append_cancel_right (List.tail_eq_of_cons_eq hrest)
  refine ⟨rfl, ?_⟩
  cases mark
  cases mark'
  cases harguments
  cases hnumber
  rfl

/-- Whether all of a text is a mark. -/
def IsRunMark (cs : List Char) : Prop := ∃ mark : RunMark, cs = mark.text

theorem isRunMark_iff {cs : List Char} : withoutRun? cs = some [] ↔ IsRunMark cs :=
  withoutRun?_eq_some_iff

instance (cs : List Char) : Decidable (IsRunMark cs) := decidable_of_iff _ isRunMark_iff

/-- A text up to the first place from which on all of it is a mark; all of it if there is none. -/
def beforeMark : List Char → List Char
  | [] => []
  | c :: cs => if IsRunMark (c :: cs) then [] else c :: beforeMark cs

theorem beforeMark_append_text (front : List Char) (mark : RunMark) :
    beforeMark (front ++ mark.text) = front := by
  induction front with
  | nil => exact if_pos ⟨mark, rfl⟩
  | cons c front ih =>
    have hlater : ¬ IsRunMark (c :: (front ++ mark.text)) := by
      rintro ⟨mark', h⟩
      have hfront : c :: front = [] := (RunMark.eq_of_append_text h).1
      cases hfront
    rw [List.cons_append, beforeMark, if_neg hlater, ih]

theorem beforeMark_eq_self {cs : List Char}
    (h : ∀ (front : List Char) (mark : RunMark), cs ≠ front ++ mark.text) : beforeMark cs = cs := by
  induction cs with
  | nil => rfl
  | cons c cs ih =>
    have hwhole : ¬ IsRunMark (c :: cs) := fun ⟨mark, hmark⟩ => h [] mark hmark
    rw [beforeMark, if_neg hwhole, ih]
    rintro front mark rfl
    exact h (c :: front) mark rfl

/-- Marks are found at the same place from the front of a text and from its end. -/
theorem getD_withoutRun? (cs : List Char) : (withoutRun? cs).getD cs = beforeMark cs := by
  cases hrun : withoutRun? cs with
  | none =>
    rw [Option.getD_none, beforeMark_eq_self]
    rintro front mark rfl
    rw [mark.withoutRun?_append_text] at hrun
    cases hrun
  | some front =>
    obtain ⟨mark, rfl⟩ := withoutRun?_eq_some_iff.mp hrun
    exact (beforeMark_append_text front mark).symm

/-! ### What identifiers name -/

/-- Whether an identifier is a key, or a key with the mark of a run behind it, between blanks. -/
def Names (id key : String) : Prop :=
  ∃ body, Text.TrimsTo id.toList body ∧
    (body = key.toList ∨ ∃ mark : RunMark, body = key.toList ++ mark.text)

theorem toList_normalize (id : String) :
    (normalize id).toList = (withoutRun? (Text.trim id.toList)).getD (Text.trim id.toList) := by
  rw [normalize, String.toList_ofList]

theorem toList_normalize_of_trimsTo {id : String} {body : List Char}
    (h : Text.TrimsTo id.toList body) : (normalize id).toList = beforeMark body := by
  rw [toList_normalize, h.trim_eq, getD_withoutRun?]

theorem names_normalize (id : String) : Names id (normalize id) := by
  refine ⟨_, Text.trimsTo_trim id.toList, ?_⟩
  rw [toList_normalize]
  cases hrun : withoutRun? (Text.trim id.toList) with
  | none => exact Or.inl rfl
  | some front => exact Or.inr (withoutRun?_eq_some_iff.mp hrun)

/-- An identifier is normalized to a key that ends in no mark exactly if it names the key. -/
theorem normalize_eq_iff {id key : String} (hkey : ']' ∉ key.toList.getLast?) :
    normalize id = key ↔ Names id key := by
  constructor
  · rintro rfl
    exact names_normalize id
  · rintro ⟨body, htrims, hbody⟩
    rw [← String.toList_inj, toList_normalize, htrims.trim_eq]
    rcases hbody with rfl | hmark
    · rw [withoutRun?_eq_none_of_getLast? hkey]
      rfl
    · rw [withoutRun?_eq_some_iff.mpr hmark]
      rfl

/-- Exactly one text is the identifier without the blanks around it. The identifier is normalized to
that text up to the first place from which on all of it is a mark. If the text ends in a mark, it does
so in one way only, and what is before the mark is left as it is, even if that ends in a blank or in
another mark; if it does not, all of it is left. -/
theorem normalize_drops_one_mark (id : String) :
    ∃ body, (∀ other, Text.TrimsTo id.toList other ↔ other = body) ∧
      (normalize id).toList = beforeMark body ∧
      (∀ (front : List Char) (mark : RunMark), body = front ++ mark.text →
        (normalize id).toList = front ∧
        ∀ (front' : List Char) (mark' : RunMark), body = front' ++ mark'.text →
          front' = front ∧ mark' = mark) ∧
      ((∀ (front : List Char) (mark : RunMark), body ≠ front ++ mark.text) →
        (normalize id).toList = body) := by
  have hbody := toList_normalize_of_trimsTo (Text.trimsTo_trim id.toList)
  refine ⟨Text.trim id.toList, fun other => ?_, hbody, ?_, ?_⟩
  · rw [← Text.trim_eq_iff, eq_comm]
  · intro front mark h
    refine ⟨?_, fun front' mark' h' => RunMark.eq_of_append_text (h'.symm.trans h)⟩
    rw [hbody, h, beforeMark_append_text]
  · intro h
    rw [hbody, beforeMark_eq_self h]

example : normalize "\tp.Test#t(a)[1] (b, c)[٢] " = "p.Test#t(a)[1] " := rfl

example : normalize "p.Test#t(a)[1]()[2]" = "p.Test#t(a)[1]()[2]" := rfl

end CallDepth.TestId

namespace CallDepth.Method

/-- The key of a method ends in its name, and so in no mark. -/
theorem Conforms.getLast?_overloadKey {m : Method} (h : m.Conforms) :
    ']' ∉ m.overloadKey.toList.getLast? := by
  obtain ⟨f, rfl⟩ := h
  have hkey : (Form.method f).overloadKey.toList = f.declaringType ++ '#' :: f.name := by
    simp [overloadKey, Form.method, make]
  rw [hkey, List.getLast?_append_of_ne_nil _ (List.cons_ne_nil _ _),
    List.getLast?_cons_of_ne_nil f.name_ne_nil]
  intro hlast
  exact absurd (f.isNameChar_of_mem _ (List.mem_of_mem_getLast? hlast)) (by decide)

end CallDepth.Method
