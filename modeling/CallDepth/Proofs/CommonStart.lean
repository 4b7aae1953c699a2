import CallDepth.Proofs.Analysis.Stages
import CallDepth.Proofs.Scope
import CallDepth.Proofs.Text.Boundary

/-!
# The greatest common start

The longest common start of some texts is what is left of the first one after it has been
shortened, one character at a time, until it starts the others. It is the greatest of their common
starts, so it depends on nothing but which texts there are, and it never cuts a character.
-/

namespace CallDepth

open Text

/-! ### Shortening -/

/-- What is left of a candidate when it has lost as many characters at its end as it must to start a
text, byte by byte. -/
def shorten (text candidate : List Char) : List Char :=
  if Utf8.encode candidate <+: Utf8.encode text then candidate else shorten text candidate.dropLast
termination_by candidate.length
decreasing_by
  -- a candidate without characters starts every text
  rename_i hstart
  have hne : candidate ≠ [] := by
    rintro rfl
    exact hstart List.nil_prefix
  rw [List.length_dropLast]
  exact Nat.sub_lt (List.length_pos_of_ne_nil hne) Nat.one_pos

/-- What is left of a candidate when it has been shortened for one text after the other; the rest of
the texts is not looked at once nothing is left. -/
def shortenAll (candidate : List Char) : List (List Char) → List Char
  | [] => candidate
  | text :: rest =>
    let left := shorten text candidate
    if left = [] then left else shortenAll left rest

theorem eq_of_forall_isPrefix_iff {cs ds : List Char} (h : ∀ start, start <+: cs ↔ start <+: ds) :
    cs = ds :=
  ((h cs).mp List.prefix_rfl).eq_of_length_le ((h ds).mpr List.prefix_rfl).length_le

theorem commonStart_eq_left {cs ds : List Char} (h : cs <+: ds) : commonStart cs ds = cs := by
  refine eq_of_forall_isPrefix_iff fun start => ?_
  rw [isPrefix_commonStart_iff]
  exact ⟨fun hstart => hstart.1, fun hstart => ⟨hstart, hstart.trans h⟩⟩

/-- The last character of a candidate that does not start a text is in no common start of both. -/
theorem commonStart_dropLast {cs ds : List Char} (h : ¬ cs <+: ds) :
    commonStart cs.dropLast ds = commonStart cs ds := by
  refine eq_of_forall_isPrefix_iff fun start => ?_
  rw [isPrefix_commonStart_iff, isPrefix_commonStart_iff]
  refine and_congr_left fun hds => ⟨fun hcs => hcs.trans cs.dropLast_prefix, fun hcs => ?_⟩
  rcases List.eq_nil_or_concat cs with rfl | ⟨front, c, rfl⟩
  · exact hcs
  · rw [List.concat_eq_append] at h hcs ⊢
    rw [List.dropLast_concat]
    rcases List.prefix_concat_iff.mp hcs with rfl | hfront
    · exact absurd hds h
    · exact hfront

theorem shorten_eq_commonStart (text candidate : List Char) :
    shorten text candidate = commonStart candidate text := by
  induction candidate using shorten.induct text with
  | case1 candidate hstart =>
    rw [shorten, if_pos hstart, commonStart_eq_left (Utf8.encode_isPrefix_encode_iff.mp hstart)]
  | case2 candidate hstart ih =>
    rw [shorten, if_neg hstart, ih,
      commonStart_dropLast (mt Utf8.encode_isPrefix_encode_iff.mpr hstart)]

/-- Stopping early gives what going on would: nothing is left of nothing. -/
theorem foldl_commonStart_nil (texts : List String) :
    texts.foldl (fun cs s => commonStart cs s.toList) [] = [] :=
  List.prefix_nil.mp (isPrefix_foldl_commonStart_iff.mp List.prefix_rfl).1

theorem shortenAll_eq_foldl (candidate : List Char) (texts : List String) :
    shortenAll candidate (texts.map String.toList) =
      texts.foldl (fun cs s => commonStart cs s.toList) candidate := by
  induction texts generalizing candidate with
  | nil => rfl
  | cons text rest ih =>
    rw [List.map_cons, shortenAll, List.foldl_cons, shorten_eq_commonStart]
    split
    · rename_i hnil
      rw [hnil, foldl_commonStart_nil]
    · exact ih _

theorem toList_longestCommonStart_cons (first : String) (rest : List String) :
    (longestCommonStart (first :: rest)).toList =
      shortenAll first.toList (rest.map String.toList) := by
  rw [longestCommonStart, String.toList_ofList, shortenAll_eq_foldl]

/-! ### Which texts there are -/

theorem longestCommonStart_eq_iff {texts : List String} (hne : texts ≠ []) {common : String} :
    longestCommonStart texts = common ↔
      ∀ start : List Char, start <+: common.toList ↔ ∀ text ∈ texts, start <+: text.toList := by
  constructor
  · rintro rfl start
    exact isPrefix_longestCommonStart_iff hne
  · intro h
    refine String.toList_inj.mp (eq_of_forall_isPrefix_iff fun start => ?_)
    rw [isPrefix_longestCommonStart_iff hne, h]

theorem longestCommonStart_isPrefix {texts : List String} {text : String} (h : text ∈ texts) :
    (longestCommonStart texts).toList <+: text.toList :=
  (isPrefix_longestCommonStart_iff (List.ne_nil_of_mem h)).mp List.prefix_rfl text h

theorem longestCommonStart_congr {texts others : List String}
    (h : ∀ text, text ∈ others ↔ text ∈ texts) :
    longestCommonStart others = longestCommonStart texts := by
  cases texts with
  | nil =>
    have hnil : others = [] :=
      List.eq_nil_iff_forall_not_mem.mpr fun text htext => List.not_mem_nil ((h text).mp htext)
    rw [hnil]
  | cons first rest =>
    have hne : others ≠ [] := List.ne_nil_of_mem ((h first).mpr (List.mem_cons_self ..))
    refine (longestCommonStart_eq_iff hne).mpr fun start => ?_
    rw [isPrefix_longestCommonStart_iff (List.cons_ne_nil first rest)]
    simp only [h]

theorem longestCommonStart_append {texts more : List String} (hne : texts ≠ [])
    (hmore : more ≠ []) :
    longestCommonStart (texts ++ more) =
      longestCommonStart [longestCommonStart texts, longestCommonStart more] := by
  have happend : texts ++ more ≠ [] := List.append_ne_nil_of_left_ne_nil hne more
  refine (longestCommonStart_eq_iff happend).mpr fun start => ?_
  rw [isPrefix_longestCommonStart_iff (List.cons_ne_nil _ _), List.forall_mem_append,
    List.forall_mem_cons, List.forall_mem_singleton, isPrefix_longestCommonStart_iff hne,
    isPrefix_longestCommonStart_iff hmore]

/-! ### The greatest of the common starts -/

/-- The longest common start starts each of the texts, at a boundary between characters, and every
other text that starts all of them starts it too. It is found by shortening the first text, and is
the same in whatever order and however often the texts are given, and if it is taken of parts of
them. So unless a scope is given, the tests that it is resolved for are in scope. -/
theorem longestCommonStart_is_greatest (texts : List String) :
    (∀ text ∈ texts,
      Utf8.ofString (longestCommonStart texts) <+: Utf8.ofString text ∧
      Utf8.IsBoundary text.toList (Utf8.ofString (longestCommonStart texts)).length) ∧
    (texts ≠ [] → ∀ start : String, (∀ text ∈ texts, Utf8.ofString start <+: Utf8.ofString text) →
      Utf8.ofString start <+: Utf8.ofString (longestCommonStart texts)) ∧
    (∀ first rest, texts = first :: rest →
      (longestCommonStart texts).toList = shortenAll first.toList (rest.map String.toList)) ∧
    (∀ others, (∀ text, text ∈ others ↔ text ∈ texts) →
      longestCommonStart others = longestCommonStart texts) ∧
    (∀ more, texts ≠ [] → more ≠ [] → longestCommonStart (texts ++ more) =
      longestCommonStart [longestCommonStart texts, longestCommonStart more]) ∧
    longestCommonStart [] = "" ∧
    ∀ (s : Settings) (tests : List Method) (w : World), s.projectScope = none →
      ∃ t : Traversal, (w.run (Analysis.resolve s tests)).1 = .ok t ∧
        t.scope = projectScope tests ∧ ∀ m ∈ tests, m.inScope t.scope = true := by
  refine ⟨fun text htext => ?_, fun hne start hstart => ?_, ?_, fun _ => longestCommonStart_congr,
    fun _ => longestCommonStart_append, rfl, fun s tests w hscope => ?_⟩
  · have hprefix := longestCommonStart_isPrefix htext
    refine ⟨Utf8.encode_isPrefix_encode_iff.mpr hprefix, ?_⟩
    obtain ⟨rest, hrest⟩ := hprefix
    exact ⟨_, rest, hrest.symm, rfl⟩
  · refine Utf8.encode_isPrefix_encode_iff.mpr ((isPrefix_longestCommonStart_iff hne).mpr ?_)
    exact fun text htext => Utf8.encode_isPrefix_encode_iff.mp (hstart text htext)
  · rintro first rest rfl
    exact toList_longestCommonStart_cons first rest
  · refine ⟨s.traversal (projectScope tests), ((Analysis.reads_resolve s tests).run_world w).1, ?_, ?_⟩
    · rw [Settings.traversal, hscope]
      rfl
    · intro m hm
      rw [Settings.traversal, hscope]
      exact Method.inScope_iff.mpr (longestCommonStart_isPrefix (List.mem_map_of_mem hm))

end CallDepth
