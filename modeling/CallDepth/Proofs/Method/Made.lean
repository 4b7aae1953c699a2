import Mathlib.Data.List.Basic
import CallDepth.Proofs.Method.Leading

/-!
# Methods made of parts

A method can be made of any texts, but its canonical form is read back only if the texts are of the
classes of the parts. No class holds a mark that comes later in the form, so the marks that are read
are the ones that the making put there, and what is inside a part cannot shift them. The parameters
come back as they were unless a comma inside one of them splits it.
-/

namespace CallDepth

namespace Text

theorem forall_mem_intercalate {p : Char → Prop} {mark : Char} (hmark : p mark)
    (pieces : List (List Char)) :
    (∀ c ∈ List.intercalate [mark] pieces, p c) ↔ ∀ piece ∈ pieces, ∀ c ∈ piece, p c := by
  induction pieces with
  | nil => simp
  | cons piece pieces ih =>
    cases pieces with
    | nil => simp
    | cons next more =>
      rw [List.intercalate_cons_cons, List.forall_mem_append, List.forall_mem_append, ih,
        List.forall_mem_cons (a := piece)]
      simp [hmark]

theorem eq_of_intercalate_eq_nil {mark : Char} {pieces : List (List Char)}
    (h : List.intercalate [mark] pieces = []) : pieces = [] ∨ pieces = [[]] := by
  cases pieces with
  | nil => exact Or.inl rfl
  | cons piece pieces =>
    cases pieces with
    | nil =>
      rw [List.intercalate_singleton] at h
      exact Or.inr (by rw [h])
    | cons next more => simp at h

end Text

namespace Method

open Text

/-- Whether parts are such that the method made of them can be written: the type and the name are not
empty, and each part is of its class of characters. -/
structure Writable (declaringType name : String) (params : List String) : Prop where
  declaringType_ne_nil : declaringType.toList ≠ []
  name_ne_nil : name.toList ≠ []
  isTypeChar_of_mem : ∀ c ∈ declaringType.toList, isTypeChar c = true
  isNameChar_of_mem : ∀ c ∈ name.toList, isNameChar c = true
  isParamChar_of_mem : ∀ param ∈ params, ∀ c ∈ param.toList, isParamChar c = true

section

variable {t n : String} {ps : List String} {f : Form}

theorem params_make_of_ne (h : ps ≠ [""]) : (make t n ps).params = ps := if_neg h

/-- The single empty parameter that is left out joins to nothing. -/
theorem canonical_make (t n : String) (ps : List String) :
    (make t n ps).canonical = t ++ ":" ++ n ++ "(" ++ ",".intercalate ps ++ ")" := by
  by_cases hempty : ps = [""]
  · rw [hempty]
    rfl
  · simp only [make, if_neg hempty]

theorem canonical_make_parts (m : Method) :
    (make m.declaringType m.name m.params).canonical = m.canonical := by
  rw [canonical_make, m.canonical_eq]

theorem toList_canonical_make (t n : String) (ps : List String) :
    (make t n ps).canonical.toList =
      t.toList ++ ':' ::
        (n.toList ++ '(' :: (List.intercalate [','] (ps.map String.toList) ++ [')'])) := by
  have hcomma : ",".toList = [','] := rfl
  rw [canonical_make]
  simp [String.toList_append, String.toList_intercalate, hcomma]

/-! ### The form of a made method -/

/-- A form is the canonical form of a made method only if it has the same parts: the first colon and
the first parenthesis are those between the parts on both sides. -/
theorem Form.text_eq_canonical_make_iff :
    f.text = (make t n ps).canonical.toList ↔
      f.declaringType = t.toList ∧ f.name = n.toList ∧
        f.params = List.intercalate [','] (ps.map String.toList) := by
  have hcolon : ':' ∉ f.declaringType ∧ ':' ∉ f.name ++ '(' :: (f.params ++ [')']) := by
    refine ⟨fun h => absurd (f.isTypeChar_of_mem _ h) (by decide +kernel), ?_⟩
    simp only [List.mem_append, List.mem_cons, List.not_mem_nil, or_false, not_or]
    exact ⟨fun h => absurd (f.isNameChar_of_mem _ h) (by decide +kernel), by decide,
      fun h => absurd (f.isParamChar_of_mem _ h) (by decide +kernel), by decide⟩
  have hparen : '(' ∉ f.name ∧ '(' ∉ f.params ++ [')'] := by
    refine ⟨fun h => absurd (f.isNameChar_of_mem _ h) (by decide +kernel), ?_⟩
    simp only [List.mem_append, List.mem_singleton, not_or]
    exact ⟨fun h => absurd (f.isParamChar_of_mem _ h) (by decide +kernel), by decide⟩
  rw [toList_canonical_make, Form.text, List.append_cons_inj_of_notMem hcolon.1 hcolon.2,
    List.append_cons_inj_of_notMem hparen.1 hparen.2, List.append_left_inj]
  simp

theorem writable_iff_exists_form :
    Writable t n ps ↔ ∃ f : Form, f.text = (make t n ps).canonical.toList := by
  simp only [Form.text_eq_canonical_make_iff]
  have hparams : (∀ c ∈ List.intercalate [','] (ps.map String.toList), isParamChar c = true) ↔
      ∀ param ∈ ps, ∀ c ∈ param.toList, isParamChar c = true := by
    rw [forall_mem_intercalate (by decide +kernel : isParamChar ',' = true), List.forall_mem_map]
  constructor
  · intro h
    exact ⟨⟨t.toList, n.toList, List.intercalate [','] (ps.map String.toList),
      h.declaringType_ne_nil, h.name_ne_nil, h.isTypeChar_of_mem, h.isNameChar_of_mem,
      hparams.mpr h.isParamChar_of_mem⟩, rfl, rfl, rfl⟩
  · rintro ⟨f, htype, hname, hjoined⟩
    exact ⟨htype ▸ f.declaringType_ne_nil, hname ▸ f.name_ne_nil, htype ▸ f.isTypeChar_of_mem,
      hname ▸ f.isNameChar_of_mem, hparams.mp (hjoined ▸ f.isParamChar_of_mem)⟩

/-- A form describes the made method whose canonical form it is, unless a comma that was inside a
parameter is read as one between parameters. -/
theorem Form.describes_make (h : f.text = (make t n ps).canonical.toList)
    (hcomma : ∀ param ∈ ps, ',' ∉ param.toList) : f.Describes (make t n ps) := by
  obtain ⟨htype, hname, hjoined⟩ := Form.text_eq_canonical_make_iff.mp h
  refine ⟨htype.symm, hname.symm, fun hnil => ?_, fun hne => ?_, h.symm⟩
  · rw [hnil] at hjoined
    rcases eq_of_intercalate_eq_nil hjoined.symm with hps | hps
    · rw [List.map_eq_nil_iff.mp hps]
      rfl
    · have hempty : ps = [""] := by
        obtain ⟨param, rfl, hparam⟩ := List.map_eq_singleton_iff.mp hps
        rw [String.toList_eq_nil_iff.mp hparam]
      rw [hempty]
      rfl
  · have hps : ps ≠ [] ∧ ps ≠ [""] := by
      refine ⟨?_, ?_⟩
      all_goals
        rintro rfl
        exact hne hjoined
    rw [params_make_of_ne hps.2, hjoined]
    exact ⟨mt List.map_eq_nil_iff.mp hps.1, List.forall_mem_map.mpr hcomma, rfl⟩

theorem Form.params_eq_params_make_iff (h : f.text = (make t n ps).canonical.toList) :
    f.method.params = (make t n ps).params ↔ ∀ param ∈ ps, ',' ∉ param.toList := by
  constructor
  · intro hparams param hparam hmem
    have hps : ps ≠ [""] := by
      rintro rfl
      rw [List.mem_singleton.mp hparam] at hmem
      exact absurd hmem (by decide)
    rw [params_make_of_ne hps] at hparams
    have hne : f.params ≠ [] := by
      intro hnil
      rw [params_method_of_nil hnil] at hparams
      rw [← hparams] at hparam
      cases hparam
    have hsplit := f.describes_method.params_of_ne_nil hne
    rw [hparams] at hsplit
    exact hsplit.not_mem _ (List.mem_map_of_mem hparam) hmem
  · intro hcomma
    rw [describes_iff.mp (describes_make h hcomma)]

end

/-- The canonical form of a method made of any parts is read as a method exactly if the type and the
name are not empty and each part is of its class, so that nothing inside an ill-formed part can make
up for it. What is read is then the same method, with the same type and name, and with the same
parameters exactly if none of them has a comma in it. -/
theorem parse_canonical_make (declaringType name : String) (params : List String) :
    ((∃ m, parse (make declaringType name params).canonical = .ok m) ↔
      Writable declaringType name params) ∧
    ∀ m, parse (make declaringType name params).canonical = .ok m →
      m.same (make declaringType name params) = true ∧
      m.declaringType = declaringType ∧ m.name = name ∧
      (m.params = (make declaringType name params).params ↔
        ∀ param ∈ params, ',' ∉ param.toList) := by
  simp only [parse_eq_ok_iff, parse?_eq_some_iff_form]
  constructor
  · rw [writable_iff_exists_form]
    constructor
    · rintro ⟨m, f, htext, -⟩
      exact ⟨f, htext⟩
    · rintro ⟨f, htext⟩
      exact ⟨f.method, f, htext, rfl⟩
  · rintro m ⟨f, htext, rfl⟩
    obtain ⟨htype, hname, -⟩ := Form.text_eq_canonical_make_iff.mp htext
    have hmethod := f.describes_method
    refine ⟨decide_eq_true ?_, ?_, ?_, Form.params_eq_params_make_iff htext⟩
    · exact String.toList_inj.mp (hmethod.canonical.trans htext)
    · exact String.toList_inj.mp (hmethod.declaringType.trans htype)
    · exact String.toList_inj.mp (hmethod.name.trans hname)

end Method

end CallDepth
