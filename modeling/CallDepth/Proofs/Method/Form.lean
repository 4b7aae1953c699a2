import CallDepth.Method.Grammar

/-!
# Written forms of methods

The texts that the grammar accepts, as a structure: a form holds the characters of the three parts
of a method and that they are of their classes. Scanning finds a form at the front of a text exactly
if there is one, there is at most one, and the canonical form of the method that it stands for is
its text.
-/

namespace CallDepth

namespace Text

theorem intercalate_splitOn (mark : Char) (cs : List Char) :
    List.intercalate [mark] (splitOn mark cs) = cs := by
  induction cs with
  | nil => rfl
  | cons c rest ih =>
    simp only [splitOn]
    split
    · rename_i hc
      rw [List.intercalate_cons_of_ne_nil (splitOn_ne_nil mark rest), ih, hc]
      rfl
    · split
      · rename_i hnil
        exact absurd hnil (splitOn_ne_nil mark rest)
      · rename_i piece pieces hsplit
        rw [hsplit] at ih
        cases pieces with
        | nil => simpa using ih
        | cons next more =>
          rw [List.intercalate_cons_cons] at ih ⊢
          rw [← ih]
          rfl

end Text

namespace Method

/-- The characters of a written method, the parameters with the commas between them. -/
structure Form where
  declaringType : List Char
  name : List Char
  params : List Char
  declaringType_ne_nil : declaringType ≠ []
  name_ne_nil : name ≠ []
  isTypeChar_of_mem : ∀ c ∈ declaringType, isTypeChar c = true
  isNameChar_of_mem : ∀ c ∈ name, isNameChar c = true
  isParamChar_of_mem : ∀ c ∈ params, isParamChar c = true

namespace Form

def text (f : Form) : List Char :=
  f.declaringType ++ ':' :: (f.name ++ '(' :: (f.params ++ [')']))

def method (f : Form) : Method :=
  make (String.ofList f.declaringType) (String.ofList f.name)
    ((Text.splitOn ',' f.params).map String.ofList)

theorem text_append (f : Form) (rest : List Char) :
    f.text ++ rest = f.declaringType ++ ':' :: (f.name ++ '(' :: (f.params ++ ')' :: rest)) := by
  simp [text]

theorem scan?_text_append (f : Form) (rest : List Char) :
    scan? (f.text ++ rest) = some (f.method, rest) := by
  have hne : ¬ (f.declaringType = [] ∨ f.name = []) := by
    simp [f.declaringType_ne_nil, f.name_ne_nil]
  rw [text_append]
  simp only [scan?, Text.takeRun?_append _ f.isTypeChar_of_mem not_isTypeChar_colon,
    Text.takeRun?_append _ f.isNameChar_of_mem not_isNameChar_paren,
    Text.takeRun?_append _ f.isParamChar_of_mem not_isParamChar_paren, bind, Option.bind,
    if_neg hne]
  rfl

/-- A text starts with at most one form. -/
theorem eq_of_text_append {f f' : Form} {rest rest' : List Char}
    (h : f.text ++ rest = f'.text ++ rest') : f = f' ∧ rest = rest' := by
  rw [text_append, text_append] at h
  have htype := congrArg (Text.takeRun? isTypeChar ':') h
  rw [Text.takeRun?_append _ f.isTypeChar_of_mem not_isTypeChar_colon,
    Text.takeRun?_append _ f'.isTypeChar_of_mem not_isTypeChar_colon] at htype
  obtain ⟨htype, hafter⟩ := Prod.mk.inj (Option.some.inj htype)
  have hname := congrArg (Text.takeRun? isNameChar '(') hafter
  rw [Text.takeRun?_append _ f.isNameChar_of_mem not_isNameChar_paren,
    Text.takeRun?_append _ f'.isNameChar_of_mem not_isNameChar_paren] at hname
  obtain ⟨hname, hafter⟩ := Prod.mk.inj (Option.some.inj hname)
  have hparams := congrArg (Text.takeRun? isParamChar ')') hafter
  rw [Text.takeRun?_append _ f.isParamChar_of_mem not_isParamChar_paren,
    Text.takeRun?_append _ f'.isParamChar_of_mem not_isParamChar_paren] at hparams
  obtain ⟨hparams, hrest⟩ := Prod.mk.inj (Option.some.inj hparams)
  refine ⟨?_, hrest⟩
  cases f
  cases f'
  cases htype
  cases hname
  cases hparams
  rfl

theorem toList_canonical (f : Form) : f.method.canonical.toList = f.text := by
  have hparams : (",".intercalate (if (Text.splitOn ',' f.params).map String.ofList = [""] then []
      else (Text.splitOn ',' f.params).map String.ofList)).toList = f.params := by
    split
    · rename_i hempty
      have hsplit : Text.splitOn ',' f.params = [[]] := by
        have h := congrArg (List.map String.toList) hempty
        simpa using h
      have h := Text.intercalate_splitOn ',' f.params
      rw [hsplit, List.intercalate_singleton] at h
      rw [← h]
      rfl
    · rw [String.toList_intercalate, List.map_map]
      simpa [Function.comp_def] using Text.intercalate_splitOn ',' f.params
  simp only [method, make, text, String.toList_append, String.toList_ofList, hparams]
  simp

end Form

theorem scan?_eq_some_iff {cs rest : List Char} {m : Method} :
    scan? cs = some (m, rest) ↔ ∃ f : Form, f.method = m ∧ cs = f.text ++ rest := by
  constructor
  · intro h
    simp only [scan?, bind, Option.bind_eq_some_iff] at h
    obtain ⟨⟨declaringType, cs₁⟩, htype, ⟨name, cs₂⟩, hname, ⟨params, cs₃⟩, hparams, h⟩ := h
    obtain ⟨rfl, htypes⟩ := Text.eq_of_takeRun? htype
    obtain ⟨rfl, hnames⟩ := Text.eq_of_takeRun? hname
    obtain ⟨rfl, hparamChars⟩ := Text.eq_of_takeRun? hparams
    split at h
    · cases h
    · rename_i hne
      rw [not_or] at hne
      obtain ⟨rfl, rfl⟩ := Prod.mk.inj (Option.some.inj h)
      let f : Form := ⟨declaringType, name, params, hne.1, hne.2, htypes, hnames, hparamChars⟩
      exact ⟨f, rfl, (f.text_append cs₃).symm⟩
  · rintro ⟨f, rfl, rfl⟩
    exact f.scan?_text_append rest

/-- Whether a method can be written, so that reading its canonical form gives it back. -/
def Conforms (m : Method) : Prop := ∃ f : Form, f.method = m

theorem conforms_of_scan? {cs rest : List Char} {m : Method} (h : scan? cs = some (m, rest)) :
    m.Conforms := by
  obtain ⟨f, hf, -⟩ := scan?_eq_some_iff.mp h
  exact ⟨f, hf⟩

/-- Methods that can be written agree in all their parts if their canonical forms agree. -/
theorem eq_of_canonical_eq {m n : Method} (hm : m.Conforms) (hn : n.Conforms)
    (h : m.canonical = n.canonical) : m = n := by
  obtain ⟨f, rfl⟩ := hm
  obtain ⟨f', rfl⟩ := hn
  have htext := congrArg String.toList h
  rw [f.toList_canonical, f'.toList_canonical] at htext
  rw [(Form.eq_of_text_append (congrArg (· ++ []) htext)).1]

theorem parse?_eq_some_iff {text : String} {m : Method} :
    parse? text = some m ↔ m.Conforms ∧ m.canonical = text := by
  unfold parse?
  constructor
  · intro h
    split at h
    · rename_i found hscan
      cases h
      obtain ⟨f, rfl, htext⟩ := scan?_eq_some_iff.mp hscan
      refine ⟨⟨f, rfl⟩, String.toList_inj.mp ?_⟩
      rw [f.toList_canonical, htext, List.append_nil]
    · cases h
  · rintro ⟨⟨f, rfl⟩, rfl⟩
    have hscan := f.scan?_text_append []
    rw [List.append_nil, ← f.toList_canonical] at hscan
    rw [hscan]

theorem isSome_parse?_canonical {m : Method} (h : m.Conforms) :
    (parse? m.canonical).isSome = true := by
  rw [parse?_eq_some_iff.mpr ⟨h, rfl⟩]
  rfl

end Method

end CallDepth
