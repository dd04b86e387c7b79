import Mathlib.Tactic

/-!
Text cut at separators: at the first one, and into lines, where a carriage
return before the line feed belongs to the line's end.
-/

namespace Library.Lines

variable {α : Type*} [DecidableEq α]

/-- What stands before and after the first `sep`. -/
def splitOnce (sep : α) : List α → Option (List α × List α)
  | [] => none
  | a :: rest =>
    if a = sep then some ([], rest)
    else (splitOnce sep rest).map fun parts => (a :: parts.1, parts.2)

theorem splitOnce_append {sep : α} {before : List α} (h : sep ∉ before) (after : List α) :
    splitOnce sep (before ++ sep :: after) = some (before, after) := by
  induction before with
  | nil => simp [splitOnce]
  | cons a rest ih =>
    have ha : a ≠ sep := fun heq => h (heq ▸ List.mem_cons_self)
    have hrest : sep ∉ rest := fun hmem => h (List.mem_cons_of_mem _ hmem)
    rw [List.cons_append, splitOnce, if_neg ha, ih hrest]
    rfl

theorem splitOnce_eq_some {sep : α} {text before after : List α}
    (h : splitOnce sep text = some (before, after)) :
    text = before ++ sep :: after ∧ sep ∉ before := by
  induction text generalizing before with
  | nil => cases h
  | cons a rest ih =>
    rw [splitOnce] at h
    split at h
    · rename_i heq
      cases h
      exact ⟨by rw [heq]; rfl, by simp⟩
    · rename_i hne
      obtain ⟨⟨before', after'⟩, hsplit, heq⟩ := Option.map_eq_some_iff.mp h
      cases heq
      obtain ⟨rfl, hnone⟩ := ih hsplit
      refine ⟨rfl, ?_⟩
      rw [List.mem_cons, not_or]
      exact ⟨fun heq => hne heq.symm, hnone⟩

/-- A line without the carriage return at its end. -/
def stripReturn (cr : α) (line : List α) : List α :=
  if line.getLast? = some cr then line.dropLast else line

theorem stripReturn_of_not_mem {cr : α} {line : List α} (h : cr ∉ line) :
    stripReturn cr line = line := by
  rw [stripReturn, if_neg]
  exact fun hlast => h (List.mem_of_getLast? hlast)

/-- The lines of a text. A last line that no line feed ends keeps its carriage
return, and is none when it is empty. -/
def lines (lf cr : α) (text : List α) : List (List α) :=
  let parts := text.splitOn lf
  parts.dropLast.map (stripReturn cr) ++ if parts.getLastD [] = [] then [] else [parts.getLastD []]

/-- The lines one record of a text turns into. -/
def recordLines (lf cr : α) (record : List α) : List (List α) :=
  (record.splitOn lf).map (stripReturn cr)

theorem recordLines_of_not_mem {lf cr : α} {record : List α} (hlf : lf ∉ record)
    (hcr : cr ∉ record) : recordLines lf cr record = [record] := by
  rw [recordLines, List.splitOn_eq_singleton hlf, List.map_singleton, stripReturn_of_not_mem hcr]

theorem splitOn_records (lf : α) (records : List (List α)) :
    (records.flatMap (· ++ [lf])).splitOn lf = records.flatMap (·.splitOn lf) ++ [[]] := by
  induction records with
  | nil => simp
  | cons record rest ih =>
    rw [List.flatMap_cons, List.append_assoc, List.singleton_append,
      List.splitOn_append_cons_self, ih, List.flatMap_cons, List.append_assoc]

/-- A text of records, each ended by a line feed, has their lines one after another. -/
theorem lines_records (lf cr : α) (records : List (List α)) :
    lines lf cr (records.flatMap (· ++ [lf])) = records.flatMap (recordLines lf cr) := by
  simp only [lines, splitOn_records, List.dropLast_concat, List.getLastD_concat, if_pos,
    List.append_nil, List.map_flatMap]
  rfl

/-- What each element of a list may set anew is what the last one to set it says. -/
theorem foldl_last {σ τ β : Type*} (f : σ → β → σ) (part : σ → τ) (given : β → Option τ)
    (hstep : ∀ s b, part (f s b) = (given b).getD (part s)) (s : σ) (bs : List β) :
    part (bs.foldl f s) = (bs.filterMap given).getLast?.getD (part s) := by
  induction bs using List.reverseRecOn with
  | nil => rfl
  | append_singleton rest b ih =>
    rw [List.foldl_append, List.foldl_cons, List.foldl_nil, hstep, ih, List.filterMap_append]
    cases hb : given b with
    | none => simp [hb]
    | some t => simp [hb]

end Library.Lines
