import CallDepth.Proofs.Except
import CallDepth.Proofs.Json.Pretty
import CallDepth.Proofs.Method.Form
import CallDepth.Proofs.Text.Utf8
import CallDepth.Store.MethodList

/-!
# Reading a list of methods back

A file that holds a list of methods holds some, and all of them can be written. Of such a list, what
is written is read back.
-/

namespace CallDepth.MethodList

open Text

variable {ms : List Method}

/-! ### What is read -/

theorem ofItem_eq_ok_iff {item : Json} {m : Method} :
    ofItem item = .ok m ↔ m.Conforms ∧ item = .string m.canonical := by
  cases item with
  | string text =>
    have hparse : ofItem (.string text) = .ok m ↔ Method.parse? text = some m := by
      cases hfound : Method.parse? text with
      | none => simp [ofItem, hfound]
      | some found => simp [ofItem, hfound]
    rw [hparse, Method.parse?_eq_some_iff, Json.string.injEq, eq_comm (a := text)]
  | _ => simp [ofItem]

theorem mapM_ofItem_eq_ok_iff {items : List Json} :
    items.mapM ofItem = .ok ms ↔
      (∀ m ∈ ms, m.Conforms) ∧ items = ms.map fun m => .string m.canonical := by
  simp only [mapM_eq_ok_iff, ofItem_eq_ok_iff]
  constructor
  · intro h
    induction h with
    | nil => exact ⟨nofun, rfl⟩
    | cons hitem _ ih =>
      refine ⟨List.forall_mem_cons.mpr ⟨hitem.1, ih.1⟩, ?_⟩
      rw [List.map_cons, hitem.2, ← ih.2]
  · rintro ⟨hconforms, rfl⟩
    rw [List.forall₂_map_left_iff, List.forall₂_same]
    exact fun m hm => ⟨hconforms m hm, rfl⟩

theorem ofJson_eq_ok_iff {v : Json} :
    ofJson v = .ok ms ↔ ms ≠ [] ∧ (∀ m ∈ ms, m.Conforms) ∧ v = toJson ms := by
  unfold ofJson toJson
  split
  · cases ms with
    | nil => simp
    | cons m ms => simp
  · rename_i items hne
    rw [mapM_ofItem_eq_ok_iff, Json.array.injEq]
    constructor
    · rintro ⟨hconforms, rfl⟩
      refine ⟨?_, hconforms, rfl⟩
      rintro rfl
      exact hne rfl
    · exact fun h => h.2
  · rename_i hne
    constructor
    · intro h
      cases h
    · rintro ⟨-, -, rfl⟩
      exact absurd rfl (hne _)

theorem decode_eq_ok_iff {bs : Bytes} :
    decode bs = .ok ms ↔
      ms ≠ [] ∧ (∀ m ∈ ms, m.Conforms) ∧ Json.ofBytes? bs = some (toJson ms) := by
  unfold decode
  cases Json.ofBytes? bs with
  | none => simp
  | some v => simp only [ofJson_eq_ok_iff, Option.some.injEq]

/-! ### What is written -/

theorem plain_toJson (ms : List Method) : (toJson ms).Plain := by
  refine Json.plain_array_iff.mpr fun item hitem => ?_
  obtain ⟨m, -, rfl⟩ := List.mem_map.mp hitem
  exact Json.plain_string _

theorem depth_toJson_le (ms : List Method) : (toJson ms).depth ≤ 1 := by
  refine Nat.succ_le_succ (Json.itemsDepth_le_iff.mpr fun item hitem => ?_)
  obtain ⟨m, -, rfl⟩ := List.mem_map.mp hitem
  exact Nat.le_refl 0

theorem isDocument_pretty (ms : List Method) : Json.IsDocument (toJson ms).pretty (toJson ms) :=
  Json.isDocument_pretty (plain_toJson ms) (Nat.le_trans (depth_toJson_le ms) (by decide))

theorem denotes_encode (ms : List Method) : Json.Denotes (encode ms) (toJson ms) :=
  ⟨_, rfl, isDocument_pretty ms⟩

theorem ofBytes?_encode (ms : List Method) : Json.ofBytes? (encode ms) = some (toJson ms) :=
  Json.ofBytes?_eq_some_iff.mpr (denotes_encode ms)

theorem decode_encode (hne : ms ≠ []) (hconforms : ∀ m ∈ ms, m.Conforms) :
    decode (encode ms) = .ok ms :=
  decode_eq_ok_iff.mpr ⟨hne, hconforms, ofBytes?_encode ms⟩

end CallDepth.MethodList
