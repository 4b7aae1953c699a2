import CallDepth.CallRecord
import CallDepth.Proofs.Method.Form

/-!
# Written forms of records

The lines that record a call, as a structure: the caller, a separator, the callee and any text after
it. A line is a record exactly if it has such a form, and then it has only one: the second character
of a method is no parenthesis, so a separator of two characters is never taken for a longer one.
-/

namespace CallDepth.CallRecord

/-- What stands between the caller and the callee. -/
inductive Separator where
  /-- A space, and the kind of the call between parentheses. -/
  | bracketed (kind : Char) (isAscii : kind.toNat < 128)
  /-- Two characters, which are the kind of the call. -/
  | pair (first second : Char)

namespace Separator

def text : Separator → List Char
  | bracketed kind _ => [' ', '(', kind, ')']
  | pair first second => [first, second]

def kind : Separator → List Char
  | bracketed kind _ => [kind]
  | pair first second => [first, second]

theorem text_injective {s s' : Separator} (h : s.text = s'.text) : s = s' := by
  cases s with
  | bracketed kind isAscii =>
    cases s' with
    | bracketed kind' isAscii' =>
      simp only [text, List.cons.injEq] at h
      obtain ⟨-, -, rfl, -⟩ := h
      rfl
    | pair first second => simp [text] at h
  | pair first second =>
    cases s' with
    | bracketed kind' isAscii' => simp [text] at h
    | pair first' second' =>
      simp only [text, List.cons.injEq] at h
      obtain ⟨rfl, rfl, -⟩ := h
      rfl

end Separator

/-! ### Finding the separator -/

theorem splitPair?_eq_some {cs kind rest : List Char} (h : splitPair? cs = some (kind, rest)) :
    ∃ s : Separator, s.kind = kind ∧ cs = s.text ++ rest := by
  unfold splitPair? at h
  split at h
  · rename_i first second c more
    cases h
    exact ⟨.pair first second, rfl, rfl⟩
  · cases h

theorem exists_separator_of_splitKind? {cs kind rest : List Char}
    (h : splitKind? cs = some (kind, rest)) :
    ∃ s : Separator, s.kind = kind ∧ cs = s.text ++ rest := by
  unfold splitKind? at h
  split at h
  · rename_i k c more
    split at h
    · rename_i hascii
      cases h
      exact ⟨.bracketed k hascii, rfl, rfl⟩
    · exact splitPair?_eq_some h
  · exact splitPair?_eq_some h

/-- A method goes on after its first character with another of its type, or with the colon. -/
theorem exists_text_eq_cons_cons (f : Method.Form) :
    ∃ c d rest, f.text = c :: d :: rest ∧ d ≠ ')' := by
  cases htype : f.declaringType with
  | nil => exact absurd htype f.declaringType_ne_nil
  | cons c more =>
    cases more with
    | nil => exact ⟨c, ':', _, by rw [Method.Form.text, htype]; rfl, by decide⟩
    | cons d more =>
      have hd : Method.isTypeChar d = true := f.isTypeChar_of_mem d (by simp [htype])
      refine ⟨c, d, _, by rw [Method.Form.text, htype]; rfl, ?_⟩
      rintro rfl
      exact absurd hd (by decide)

theorem splitKind?_text_append (s : Separator) (f : Method.Form) (tail : List Char) :
    splitKind? (s.text ++ (f.text ++ tail)) = some (s.kind, f.text ++ tail) := by
  obtain ⟨c, d, rest, htext, hd⟩ := exists_text_eq_cons_cons f
  rw [htext]
  cases s with
  | bracketed kind isAscii =>
    simp [Separator.text, Separator.kind, splitKind?, isAscii]
  | pair first second =>
    simp only [Separator.text, Separator.kind, splitKind?, List.cons_append, List.nil_append]
    split
    · rename_i heq
      simp only [List.cons.injEq] at heq
      exact absurd heq.2.2.2.1 hd
    · rfl

/-! ### Forms -/

structure Form where
  caller : Method.Form
  separator : Separator
  callee : Method.Form
  /-- What follows the callee, which means nothing. -/
  tail : List Char

namespace Form

/-- The characters after the marker. -/
def body (f : Form) : List Char :=
  f.caller.text ++ (f.separator.text ++ (f.callee.text ++ f.tail))

def text (f : Form) : List Char := marker ++ f.body

def record (f : Form) : CallRecord where
  caller := f.caller.method
  callee := f.callee.method
  callKind := String.ofList f.separator.kind

theorem body_injective {f f' : Form} (h : f.body = f'.body) : f = f' := by
  obtain ⟨hcaller, hafter⟩ := Method.Form.eq_of_text_append h
  have hsplit := congrArg splitKind? hafter
  rw [splitKind?_text_append, splitKind?_text_append] at hsplit
  obtain ⟨-, hrest⟩ := Prod.mk.inj (Option.some.inj hsplit)
  rw [hrest] at hafter
  have hseparator := Separator.text_injective (List.append_cancel_right hafter)
  obtain ⟨hcallee, htail⟩ := Method.Form.eq_of_text_append hrest
  cases f
  cases f'
  cases hcaller
  cases hseparator
  cases hcallee
  cases htail
  rfl

theorem text_injective {f f' : Form} (h : f.text = f'.text) : f = f' :=
  body_injective (List.append_cancel_left h)

end Form

theorem scan?_eq_some_iff {cs : List Char} {record : CallRecord} :
    scan? cs = some record ↔ ∃ f : Form, f.body = cs ∧ f.record = record := by
  constructor
  · intro h
    simp only [scan?, bind, Option.bind_eq_some_iff] at h
    obtain ⟨⟨caller, cs₁⟩, hcaller, ⟨kind, cs₂⟩, hkind, ⟨callee, tail⟩, hcallee, h⟩ := h
    obtain ⟨f, rfl, rfl⟩ := Method.scan?_eq_some_iff.mp hcaller
    obtain ⟨s, rfl, hs⟩ := exists_separator_of_splitKind? hkind
    obtain ⟨f', rfl, hf'⟩ := Method.scan?_eq_some_iff.mp hcallee
    dsimp only at hs hf'
    cases h
    refine ⟨⟨f, s, f', tail⟩, ?_, rfl⟩
    rw [Form.body, hs, hf']
  · -- each part is read off, whatever follows it
    rintro ⟨f, rfl, rfl⟩
    simp only [scan?, Form.body, Method.Form.scan?_text_append, splitKind?_text_append, bind,
      Option.bind]
    rfl

end CallDepth.CallRecord
