import CallDepth.Proofs.Method.Form
import CallDepth.Proofs.Text.Utf8

/-!
# The method at the start of a text

What the parts of a written method say: the pieces between its commas are the parameters, none if
nothing stands between the parentheses. A text starts with a written method in at most one way, and
reading finds it with the number of its bytes; a text that is nothing else is read as a whole.
-/

namespace CallDepth

/-! ### Pieces between marks -/

namespace Text

/-- Whether pieces without a mark in them, put together with the mark in between, are a text. -/
structure IsSplit (mark : Char) (cs : List Char) (pieces : List (List Char)) : Prop where
  ne_nil : pieces ≠ []
  not_mem : ∀ piece ∈ pieces, mark ∉ piece
  intercalate : List.intercalate [mark] pieces = cs

theorem splitOn_eq_cons_of_ne {mark c : Char} (hc : c ≠ mark) (cs : List Char) :
    ∃ piece pieces, splitOn mark cs = piece :: pieces ∧
      splitOn mark (c :: cs) = (c :: piece) :: pieces := by
  obtain ⟨piece, pieces, hsplit⟩ := List.exists_cons_of_ne_nil (splitOn_ne_nil mark cs)
  exact ⟨piece, pieces, hsplit, by simp only [splitOn, if_neg hc, hsplit]⟩

theorem not_mem_of_mem_splitOn {mark : Char} {cs piece : List Char}
    (h : piece ∈ splitOn mark cs) : mark ∉ piece := by
  induction cs generalizing piece with
  | nil =>
    rw [List.mem_singleton.mp h]
    exact List.not_mem_nil
  | cons c cs ih =>
    by_cases hc : c = mark
    · rw [splitOn, if_pos hc] at h
      rcases List.mem_cons.mp h with rfl | h
      · exact List.not_mem_nil
      · exact ih h
    · obtain ⟨first, pieces, hsplit, hcons⟩ := splitOn_eq_cons_of_ne hc cs
      rw [hsplit] at ih
      rw [hcons] at h
      rcases List.mem_cons.mp h with rfl | h
      · exact List.not_mem_cons_of_ne_of_not_mem (Ne.symm hc) (ih (List.mem_cons_self ..))
      · exact ih (List.mem_cons_of_mem _ h)

theorem isSplit_splitOn (mark : Char) (cs : List Char) : IsSplit mark cs (splitOn mark cs) where
  ne_nil := splitOn_ne_nil mark cs
  not_mem _ h := not_mem_of_mem_splitOn h
  intercalate := intercalate_splitOn mark cs

theorem splitOn_append_mark {mark : Char} {piece : List Char} (h : mark ∉ piece) (cs : List Char) :
    splitOn mark (piece ++ mark :: cs) = piece :: splitOn mark cs := by
  induction piece with
  | nil => rw [List.nil_append, splitOn, if_pos rfl]
  | cons c piece ih =>
    rw [List.mem_cons, not_or] at h
    obtain ⟨hc, hpiece⟩ := h
    rw [List.cons_append, splitOn, if_neg (Ne.symm hc), ih hpiece]

theorem splitOn_eq_singleton {mark : Char} {piece : List Char} (h : mark ∉ piece) :
    splitOn mark piece = [piece] := by
  induction piece with
  | nil => rfl
  | cons c piece ih =>
    rw [List.mem_cons, not_or] at h
    obtain ⟨hc, hpiece⟩ := h
    rw [splitOn, if_neg (Ne.symm hc), ih hpiece]

/-- There is one way to split a text at a mark. -/
theorem IsSplit.splitOn_eq {mark : Char} {cs : List Char} {pieces : List (List Char)}
    (h : IsSplit mark cs pieces) : splitOn mark cs = pieces := by
  obtain ⟨hne, hnot, rfl⟩ := h
  induction pieces with
  | nil => exact absurd rfl hne
  | cons piece pieces ih =>
    obtain ⟨hpiece, hpieces⟩ := List.forall_mem_cons.mp hnot
    cases pieces with
    | nil => rw [List.intercalate_singleton, splitOn_eq_singleton hpiece]
    | cons next more =>
      rw [List.intercalate_cons_cons, List.append_assoc, List.singleton_append,
        splitOn_append_mark hpiece, ih (List.cons_ne_nil next more) hpieces]

end Text

namespace Method

open Text

/-! ### What a form says -/

namespace Form

/-- Whether a method is the one that a form writes: it has the parts of the form, its parameters are
the pieces between the commas, none if there is nothing to split, and the text of the form is its
canonical form. -/
structure Describes (f : Form) (m : Method) : Prop where
  declaringType : m.declaringType.toList = f.declaringType
  name : m.name.toList = f.name
  params_of_nil : f.params = [] → m.params = []
  params_of_ne_nil : f.params ≠ [] → IsSplit ',' f.params (m.params.map String.toList)
  canonical : m.canonical.toList = f.text

theorem params_method_of_nil {f : Form} (h : f.params = []) : f.method.params = [] := by
  simp only [method, make, h]
  rfl

theorem params_method_of_ne_nil {f : Form} (h : f.params ≠ []) :
    f.method.params = (splitOn ',' f.params).map String.ofList := by
  simp only [method, make]
  rw [if_neg]
  intro hempty
  have hsplit : splitOn ',' f.params = [[]] := by
    have hchars := congrArg (List.map String.toList) hempty
    simpa using hchars
  have hparams := intercalate_splitOn ',' f.params
  rw [hsplit, List.intercalate_singleton] at hparams
  exact h hparams.symm

theorem describes_method (f : Form) : f.Describes f.method where
  declaringType := String.toList_ofList
  name := String.toList_ofList
  params_of_nil := params_method_of_nil
  params_of_ne_nil h := by
    rw [params_method_of_ne_nil h, List.map_map]
    simpa [Function.comp_def] using isSplit_splitOn ',' f.params
  canonical := f.toList_canonical

theorem Describes.params_eq {f : Form} {m n : Method} (hm : f.Describes m) (hn : f.Describes n) :
    m.params = n.params := by
  by_cases hnil : f.params = []
  · rw [hm.params_of_nil hnil, hn.params_of_nil hnil]
  · have hpieces := (hm.params_of_ne_nil hnil).splitOn_eq.symm.trans
      (hn.params_of_ne_nil hnil).splitOn_eq
    exact (List.map_inj_right fun _ _ h => String.toList_inj.mp h).mp hpieces

theorem describes_iff {f : Form} {m : Method} : f.Describes m ↔ f.method = m := by
  constructor
  · intro h
    have hmethod := f.describes_method
    have htype : f.method.declaringType = m.declaringType :=
      String.toList_inj.mp (hmethod.declaringType.trans h.declaringType.symm)
    have hname : f.method.name = m.name := String.toList_inj.mp (hmethod.name.trans h.name.symm)
    have hparams : f.method.params = m.params := hmethod.params_eq h
    have hcanonical : f.method.canonical = m.canonical :=
      String.toList_inj.mp (hmethod.canonical.trans h.canonical.symm)
    cases m
    generalize f.method = n at htype hname hparams hcanonical
    cases n
    cases htype
    cases hname
    cases hparams
    cases hcanonical
    rfl
  · rintro rfl
    exact f.describes_method

end Form

/-! ### Reading a method -/

theorem leading?_eq_some_iff {text : String} {m : Method} {finish : Nat} :
    leading? text = some (m, finish) ↔
      ∃ f : Form, f.text <+: text.toList ∧ f.method = m ∧
        finish = (Utf8.encode f.text).length := by
  have hsize : ∀ (f : Form) (rest : List Char), text.toList = f.text ++ rest →
      text.utf8ByteSize - (String.ofList rest).utf8ByteSize = (Utf8.encode f.text).length := by
    intro f rest htext
    rw [← String.ofList_toList (s := text), htext, ← Utf8.length_encode, ← Utf8.length_encode,
      Utf8.encode_append, List.length_append, Nat.add_sub_cancel]
  rw [leading?, Option.map_eq_some_iff]
  constructor
  · rintro ⟨⟨found, rest⟩, hscan, heq⟩
    obtain ⟨f, rfl, htext⟩ := scan?_eq_some_iff.mp hscan
    obtain ⟨rfl, rfl⟩ := Prod.mk.inj heq
    exact ⟨f, ⟨rest, htext.symm⟩, rfl, hsize f rest htext⟩
  · rintro ⟨f, ⟨rest, htext⟩, rfl, rfl⟩
    refine ⟨(f.method, rest), scan?_eq_some_iff.mpr ⟨f, rfl, htext.symm⟩, ?_⟩
    dsimp only
    rw [hsize f rest htext.symm]

theorem conforms_of_leading? {text : String} {m : Method} {finish : Nat}
    (h : leading? text = some (m, finish)) : m.Conforms := by
  obtain ⟨f, -, hf, -⟩ := leading?_eq_some_iff.mp h
  exact ⟨f, hf⟩

theorem Form.eq_of_isPrefix {f f' : Form} {cs : List Char} (h : f.text <+: cs)
    (h' : f'.text <+: cs) : f = f' := by
  obtain ⟨rest, rfl⟩ := h
  obtain ⟨rest', hrest⟩ := h'
  exact (Form.eq_of_text_append hrest.symm).1

theorem parse?_eq_some_iff_form {text : String} {m : Method} :
    parse? text = some m ↔ ∃ f : Form, f.text = text.toList ∧ f.method = m := by
  rw [parse?_eq_some_iff]
  constructor
  · rintro ⟨⟨f, rfl⟩, rfl⟩
    exact ⟨f, f.toList_canonical.symm, rfl⟩
  · rintro ⟨f, htext, rfl⟩
    exact ⟨⟨f, rfl⟩, String.toList_inj.mp (f.toList_canonical.trans htext)⟩

theorem parse_eq_ok_iff {text : String} {m : Method} : parse text = .ok m ↔ parse? text = some m := by
  unfold parse
  cases parse? text <;> simp

theorem parse_eq_error_iff {text : String} {failure : Failure} :
    parse text = .error failure ↔ parse? text = none ∧ failure = .malformedMethod text := by
  unfold parse
  cases parse? text <;> simp [eq_comm]

theorem parse?_eq_none_iff {text : String} :
    parse? text = none ↔ ∀ f : Form, f.text ≠ text.toList := by
  constructor
  · intro h f hf
    rw [parse?_eq_some_iff_form.mpr ⟨f, hf, rfl⟩] at h
    cases h
  · intro h
    cases hparse : parse? text with
    | none => rfl
    | some m =>
      obtain ⟨f, hf, -⟩ := parse?_eq_some_iff_form.mp hparse
      exact absurd hf (h f)

theorem isSome_parse?_iff {text : String} :
    (parse? text).isSome = true ↔ ∃ f : Form, f.text = text.toList := by
  rw [Option.isSome_iff_ne_none, ne_eq, parse?_eq_none_iff]
  simp only [Classical.not_forall, Classical.not_not]

/-- A text is read as a whole if the method at its start takes all of its bytes. -/
theorem parse?_eq_some_iff_leading? {text : String} {m : Method} :
    parse? text = some m ↔ leading? text = some (m, (Utf8.ofString text).length) := by
  rw [parse?_eq_some_iff_form, leading?_eq_some_iff]
  constructor
  · rintro ⟨f, htext, hm⟩
    exact ⟨f, htext ▸ List.prefix_rfl, hm, by rw [Utf8.ofString, htext]⟩
  · rintro ⟨f, ⟨rest, htext⟩, hm, hlength⟩
    refine ⟨f, ?_, hm⟩
    rw [Utf8.ofString, ← htext, Utf8.encode_append, List.length_append] at hlength
    have hrest : Utf8.encode rest = Utf8.encode [] :=
      List.eq_nil_of_length_eq_zero (by omega)
    rw [← htext, Utf8.encode_injective hrest, List.append_nil]

/-- What is found at the start of a text. There is a method exactly if a written form starts the
text, which at most one does; the method is the one that the form writes, and its size is that of the
form in bytes, so its canonical form is made of these bytes. The whole text is read as a method
exactly if it is a written form, and is then the canonical form of the method; otherwise it is
malformed. Methods that have been read agree in their parts if they are the same. -/
theorem leading?_finds_form (text : String) :
    (∀ m finish, leading? text = some (m, finish) ↔
      ∃ f : Form, f.text <+: text.toList ∧ f.Describes m ∧
        finish = (Utf8.encode f.text).length) ∧
    (∀ f f' : Form, f.text <+: text.toList → f'.text <+: text.toList → f = f') ∧
    (∀ m finish, leading? text = some (m, finish) →
      Utf8.ofString m.canonical = (Utf8.ofString text).take finish) ∧
    (∀ m, parse text = .ok m ↔ ∃ f : Form, f.text = text.toList ∧ f.Describes m) ∧
    (∀ m, parse text = .ok m ↔ leading? text = some (m, (Utf8.ofString text).length)) ∧
    (∀ m, parse text = .ok m → m.canonical = text) ∧
    (∀ failure, parse text = .error failure ↔
      (∀ f : Form, f.text ≠ text.toList) ∧ failure = .malformedMethod text) ∧
    ∀ other m n finish finish', leading? text = some (m, finish) →
      leading? other = some (n, finish') → m.same n = true →
      m.declaringType = n.declaringType ∧ m.name = n.name ∧ m.params = n.params := by
  simp only [Form.describes_iff, parse_eq_ok_iff, parse_eq_error_iff]
  refine ⟨fun m finish => leading?_eq_some_iff, fun f f' => Form.eq_of_isPrefix, ?_,
    fun m => parse?_eq_some_iff_form, fun m => parse?_eq_some_iff_leading?,
    fun m h => (parse?_eq_some_iff.mp h).2, fun failure => by rw [parse?_eq_none_iff], ?_⟩
  · intro m finish h
    obtain ⟨f, ⟨rest, htext⟩, rfl, rfl⟩ := leading?_eq_some_iff.mp h
    rw [Utf8.ofString, Utf8.ofString, f.toList_canonical, ← htext, Utf8.encode_append,
      List.take_left]
  · intro other m n finish finish' hm hn hsame
    obtain rfl := eq_of_canonical_eq (conforms_of_leading? hm) (conforms_of_leading? hn)
      (of_decide_eq_true hsame)
    exact ⟨rfl, rfl, rfl⟩

end Method

end CallDepth
