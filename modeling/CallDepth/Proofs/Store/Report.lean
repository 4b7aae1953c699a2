import CallDepth.Proofs.Files.Triple
import CallDepth.Proofs.Json.Pretty
import CallDepth.Proofs.Store.Malformed
import CallDepth.Store.Report

/-!
# What a report denotes

A report is a JSON document and a line feed. What the document denotes holds the whole index, so no two
indexes have one report.
-/

namespace CallDepth.Report

open Text

variable {index other : CallIndex}

/-! ### The value of an index -/

theorem entryToJson_inj {entry entry' : CallEntry} :
    entryToJson entry = entryToJson entry' ↔ entry = entry' := by
  cases entry
  cases entry'
  simp [entryToJson]

theorem toJson_inj : toJson index = toJson other ↔ index = other := by
  rw [toJson, toJson, Json.object.injEq, ← CallIndex.toList_inj]
  refine List.map_inj_right fun row row' h => ?_
  obtain ⟨hroot, hentries⟩ := Prod.mk.inj h
  have hrows := (List.map_inj_right fun _ _ => entryToJson_inj.mp).mp (Json.array.inj hentries)
  exact Prod.ext hroot hrows

theorem plain_entryToJson {entry : CallEntry} (h : entry.level < wordCount) :
    (entryToJson entry).Plain := by
  have hlevel : entry.level ≤ Json.maxSignificand := Nat.le_sub_one_of_lt h
  simp [entryToJson, Json.plain_object_iff, Json.plain_string, Json.plain_natural hlevel]

theorem plain_toJson (h : Snapshot.HasWordLevels index) : (toJson index).Plain := by
  refine Json.plain_object_iff.mpr fun member hmember => ?_
  obtain ⟨row, hrow, rfl⟩ := List.mem_map.mp hmember
  refine Json.plain_array_iff.mpr fun item hitem => ?_
  obtain ⟨entry, hentry, rfl⟩ := List.mem_map.mp hitem
  exact plain_entryToJson (h row hrow entry hentry)

theorem depth_toJson_le (index : CallIndex) : (toJson index).depth ≤ 3 := by
  refine Nat.succ_le_succ (Json.membersDepth_le_iff.mpr fun member hmember => ?_)
  obtain ⟨row, -, rfl⟩ := List.mem_map.mp hmember
  refine Nat.succ_le_succ (Json.itemsDepth_le_iff.mpr fun item hitem => ?_)
  obtain ⟨entry, -, rfl⟩ := List.mem_map.mp hitem
  exact Nat.le_refl 1

theorem pairwise_members (index : CallIndex) :
    (index.toList.map fun row => (row.1, Json.array (row.2.map entryToJson))).Pairwise
      fun member next => compare member.1 next.1 = .lt :=
  List.pairwise_map.mpr index.pairwise_toList

theorem mem_members_iff {root : String} {v : Json} :
    (root, v) ∈ index.toList.map (fun row => (row.1, Json.array (row.2.map entryToJson))) ↔
      ∃ entries, index.get? root = some entries ∧ v = .array (entries.map entryToJson) := by
  simp only [List.mem_map, Prod.mk.injEq, Prod.exists, CallIndex.mem_toList_iff]
  constructor
  · rintro ⟨root, entries, hget, rfl, rfl⟩
    exact ⟨entries, hget, rfl⟩
  · rintro ⟨entries, hget, rfl⟩
    exact ⟨root, entries, hget, rfl, rfl⟩

/-! ### The document -/

theorem isValue_pretty (h : Snapshot.HasWordLevels index) :
    Json.IsValue (toJson index).pretty (toJson index) :=
  Json.isValue_indented _ (plain_toJson h) 0

theorem denotes_encode (h : Snapshot.HasWordLevels index) :
    Json.Denotes (encode index) (toJson index) := by
  have hfeed : Json.IsBlank ['\n'] := List.forall_mem_singleton.mpr rfl
  have hdepth : (toJson index).depth ≤ Json.maxDepth :=
    Nat.le_trans (depth_toJson_le index) (by decide)
  exact ⟨_, rfl, .mk Json.isBlank_nil (isValue_pretty h) hfeed, hdepth⟩

theorem encode_inj (h : Snapshot.HasWordLevels index) (hother : Snapshot.HasWordLevels other) :
    encode index = encode other ↔ index = other := by
  constructor
  · intro heq
    exact toJson_inj.mp ((denotes_encode h).eq (heq ▸ denotes_encode hother))
  · rintro rfl
    rfl

theorem read_of_write {w : World} {path : String} (h : (w.run (write index path)).1 = .ok ()) :
    (w.run (write index path)).2.files.read path = .ok (encode index) := by
  have htriple : Triple World (fun _ => True) (write index path)
      (fun _ t => t.read path = .ok (encode index)) (fun _ _ => True) :=
    .save (fun _ _ _ hwritten => hwritten.read) fun _ _ _ _ _ => trivial
  exact htriple.of_ok trivial h

/-- What is written of an index. It is the text of one value and a line feed, and is left in the file
where it can be written. The value is an object that has a member for each root of the index and no
other, in canonical order, each the array of the entries of its root in their order, with the canonical
form and the level of each. So what is written of two indexes is the same only if they are. -/
theorem encode_denotes_index (hlevels : Snapshot.HasWordLevels index) :
    (∃ text members, encode index = Utf8.encode (text ++ ['\n']) ∧
      Json.IsValue text (.object members) ∧ Json.Denotes (encode index) (.object members) ∧
      members.Pairwise (fun member next => compare member.1 next.1 = .lt) ∧
      ∀ root v, (root, v) ∈ members ↔ ∃ entries, index.get? root = some entries ∧
        v = .array (entries.map fun entry => .object
          [("callee", .string entry.callee), ("level", .number (.natural entry.level))])) ∧
    (∀ other, Snapshot.HasWordLevels other → (encode index = encode other ↔ index = other)) ∧
    (∀ (w : World) (path : String), (w.run (write index path)).1 = .ok () →
      (w.run (write index path)).2.files.read path = .ok (encode index)) := by
  refine ⟨⟨_, _, rfl, isValue_pretty hlevels, denotes_encode hlevels, pairwise_members index,
    fun root v => mem_members_iff⟩, fun other hother => encode_inj hlevels hother, ?_⟩
  exact fun w path => read_of_write

/-- A root that reaches nothing, and one with an entry at the greatest level that there is. -/
def atLimit : CallIndex :=
  .ofList [("a:b()", []), ("\"\n:c()", [⟨"é:d()", wordCount - 1⟩])]

theorem hasWordLevels_atLimit : Snapshot.HasWordLevels atLimit := by
  unfold Snapshot.HasWordLevels
  decide +kernel

theorem hasWordLevels_empty : Snapshot.HasWordLevels .empty := by
  unfold Snapshot.HasWordLevels
  decide +kernel

theorem encode_denotes_atLimit :
    Snapshot.HasWordLevels atLimit ∧ Snapshot.HasWordLevels .empty ∧
      atLimit.get? "a:b()" = some [] ∧ encode atLimit ≠ encode .empty ∧
      ((World.ofFiles .empty).run (write atLimit "out/report.json")).2.files.read "out/report.json" =
        .ok (encode atLimit) := by
  obtain ⟨-, hinj, hwrite⟩ := encode_denotes_index hasWordLevels_atLimit
  have hget : atLimit.get? "a:b()" = some [] := by decide +kernel
  have hne : atLimit ≠ .empty := by
    intro heq
    rw [heq, CallIndex.get?_empty] at hget
    cases hget
  exact ⟨hasWordLevels_atLimit, hasWordLevels_empty, hget,
    fun heq => hne ((hinj _ hasWordLevels_empty).mp heq), hwrite _ _ (by decide +kernel)⟩

end CallDepth.Report
