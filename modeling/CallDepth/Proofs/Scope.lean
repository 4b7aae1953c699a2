import CallDepth.Scope

/-!
# The longest common start

What starts the longest common start of some texts is exactly what starts each of them. So the scope of
more tests is no longer than that of fewer.
-/

namespace CallDepth

theorem isPrefix_commonStart_iff {cs ds start : List Char} :
    start <+: commonStart cs ds ↔ start <+: cs ∧ start <+: ds := by
  constructor
  · intro h
    have hright : commonStart cs ds <+: ds := by
      rw [commonStart_comm]
      exact commonStart_isPrefix_left ds cs
    exact ⟨h.trans (commonStart_isPrefix_left cs ds), h.trans hright⟩
  · rintro ⟨hcs, hds⟩
    induction start generalizing cs ds with
    | nil => exact List.nil_prefix
    | cons c start ih =>
      obtain ⟨cs', rfl⟩ := hcs
      obtain ⟨ds', rfl⟩ := hds
      simp only [List.cons_append, commonStart, if_true]
      exact List.cons_prefix_cons.mpr ⟨rfl, ih ⟨cs', rfl⟩ ⟨ds', rfl⟩⟩

theorem isPrefix_foldl_commonStart_iff {texts : List String} {cs start : List Char} :
    start <+: texts.foldl (fun cs s => commonStart cs s.toList) cs ↔
      start <+: cs ∧ ∀ text ∈ texts, start <+: text.toList := by
  induction texts generalizing cs with
  | nil => simp
  | cons text rest ih =>
    rw [List.foldl_cons, ih, isPrefix_commonStart_iff, List.forall_mem_cons, and_assoc]

theorem isPrefix_longestCommonStart_iff {texts : List String} (hne : texts ≠ [])
    {start : List Char} :
    start <+: (longestCommonStart texts).toList ↔ ∀ text ∈ texts, start <+: text.toList := by
  cases texts with
  | nil => exact absurd rfl hne
  | cons first rest =>
    rw [longestCommonStart, String.toList_ofList, isPrefix_foldl_commonStart_iff,
      List.forall_mem_cons]

/-! ### Scopes -/

theorem Method.inScope_iff {scope : String} {m : Method} :
    m.inScope scope = true ↔ scope.toList <+: m.declaringType.toList :=
  String.startsWith_string_iff

theorem Method.inScope_of_isPrefix {scope scope' : String} {m : Method}
    (h : scope'.toList <+: scope.toList) (hm : m.inScope scope = true) :
    m.inScope scope' = true :=
  inScope_iff.mpr (h.trans (inScope_iff.mp hm))

/-- The scope of more tests starts that of fewer, if these are any. -/
theorem projectScope_isPrefix {tests more : List Method} (hne : tests ≠ []) (h : tests ⊆ more) :
    (projectScope more).toList <+: (projectScope tests).toList := by
  have hne' : more ≠ [] := List.ne_nil_of_mem (h (List.head_mem hne))
  unfold projectScope
  rw [isPrefix_longestCommonStart_iff (mt List.map_eq_nil_iff.mp hne)]
  exact fun type htype => (isPrefix_longestCommonStart_iff (mt List.map_eq_nil_iff.mp hne')).mp
    List.prefix_rfl type (List.map_subset _ h htype)

end CallDepth
