import Mathlib.Tactic

/-!
What is kept of a stream when each key counts once: the first item under its
key. The keys kept do not depend on the order of the stream, and an item only on
the order of those under its own key.
-/

namespace Library.Firsts

variable {α κ : Type} [DecidableEq κ]

/-- An item is kept unless one under its key was. -/
def keep (key : α → κ) (kept : List α) (item : α) : List α :=
  if kept.any fun other => key other = key item then kept else kept ++ [item]

/-- The first item under each key. -/
def firsts (key : α → κ) (items : List α) : List α := items.foldl (keep key) []

variable (key : α → κ)

theorem firsts_concat (items : List α) (item : α) :
    firsts key (items ++ [item]) = keep key (firsts key items) item := by
  rw [firsts, List.foldl_append]
  rfl

theorem nodup_keep {key : α → κ} {kept : List α} (h : (kept.map key).Nodup) (item : α) :
    ((keep key kept item).map key).Nodup := by
  unfold keep
  split
  · exact h
  · rename_i hnew
    simp only [List.any_eq_true, decide_eq_true_eq, not_exists, not_and] at hnew
    rw [List.map_append, List.map_singleton, List.nodup_append]
    refine ⟨h, List.nodup_singleton _, ?_⟩
    intro first hfirst last hlast
    obtain ⟨other, hother, rfl⟩ := List.mem_map.mp hfirst
    rw [List.mem_singleton.mp hlast]
    exact hnew other hother

theorem nodup_firsts (items : List α) : ((firsts key items).map key).Nodup := by
  induction items using List.reverseRecOn with
  | nil => exact List.nodup_nil
  | append_singleton items item ih =>
    rw [firsts_concat]
    exact nodup_keep ih item

/-- Under each key, the item kept is the first of the stream. -/
theorem find?_firsts (items : List α) (wanted : κ) :
    (firsts key items).find? (fun item => key item = wanted) =
      items.find? fun item => key item = wanted := by
  induction items using List.reverseRecOn with
  | nil => rfl
  | append_singleton items item ih =>
    rw [firsts_concat, List.find?_append, ← ih, keep]
    split
    · rename_i hkept
      simp only [List.any_eq_true, decide_eq_true_eq] at hkept
      obtain ⟨other, hother, hkey⟩ := hkept
      by_cases hwanted : key item = wanted
      · have hsome : ((firsts key items).find? fun item => key item = wanted).isSome = true := by
          rw [List.find?_isSome]
          exact ⟨other, hother, by simpa [hkey] using hwanted⟩
        rw [Option.or_of_isSome hsome]
      · rw [List.find?_singleton, if_neg (by simpa using hwanted), Option.or_none]
    · rw [List.find?_append]

theorem mem_map_firsts (items : List α) (wanted : κ) :
    wanted ∈ (firsts key items).map key ↔ wanted ∈ items.map key := by
  have hfind : ((firsts key items).find? fun item => key item = wanted).isSome =
      (items.find? fun item => key item = wanted).isSome := by
    rw [find?_firsts]
  rw [Bool.eq_iff_iff, List.find?_isSome, List.find?_isSome] at hfind
  simpa [List.mem_map] using hfind

theorem length_firsts (items : List α) :
    (firsts key items).length = (items.map key).toFinset.card := by
  have hkeys : (items.map key).toFinset = ((firsts key items).map key).toFinset := by
    ext wanted
    rw [List.mem_toFinset, List.mem_toFinset, mem_map_firsts]
  rw [hkeys, List.toFinset_card_of_nodup (nodup_firsts key items), List.length_map]

/-- Two streams with the same first item under each key are reduced to the same items. -/
theorem perm_firsts {key : α → κ} {items others : List α}
    (h : ∀ wanted, items.find? (fun item => key item = wanted) =
      others.find? fun item => key item = wanted) :
    (firsts key items).Perm (firsts key others) := by
  have hsame : ∀ wanted, (firsts key items).find? (fun item => key item = wanted) =
      (firsts key others).find? fun item => key item = wanted := by
    intro wanted
    rw [find?_firsts, find?_firsts, h]
  have hfind : ∀ {kept : List α}, (kept.map key).Nodup → ∀ item,
      item ∈ kept ↔ kept.find? (fun other => key other = key item) = some item := by
    intro kept hnodup item
    refine ⟨fun hmem => ?_, fun hfound => List.mem_of_find?_eq_some hfound⟩
    cases hfound : kept.find? fun other => key other = key item with
    | none =>
      rw [List.find?_eq_none] at hfound
      simpa using hfound item hmem
    | some other =>
      have hkey : key other = key item := by simpa using List.find?_some hfound
      have hother := List.mem_of_find?_eq_some hfound
      rw [List.inj_on_of_nodup_map hnodup hother hmem hkey]
  rw [List.perm_ext_iff_of_nodup (List.Nodup.of_map key (nodup_firsts key items))
    (List.Nodup.of_map key (nodup_firsts key others))]
  intro item
  rw [hfind (nodup_firsts key items), hfind (nodup_firsts key others), hsame]

end Library.Firsts
