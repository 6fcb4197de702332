import ProxyBroker.Lib.Text

/-!
# Tables as text

A table is written row by row, the fields of a row with one separator between them and the rows with another behind
each. A reader that cuts at the separators gets the table back exactly when no field has a separator in it
(`readTable_table_iff`): what the reader returns never has one.
-/

namespace ProxyBroker.Lib

section
variable {α : Type} [DecidableEq α] {c d : α}

/-- A row: the fields with the separator between them. -/
def row (c : α) (fields : List (List α)) : List α := [c].intercalate fields

/-- The rows, each with its terminator. -/
def table (c d : α) (rows : List (List (List α))) : List α := rows.flatMap fun r => row c r ++ [d]

/-- The pieces that a terminator ends. -/
def terminated (d : α) (t : List α) : List (List α) := (splitOn d t).dropLast

/-- The reader: the lines, and their fields. -/
def readTable (c d : α) (t : List α) : List (List (List α)) := (terminated d t).map (splitOn c)

/-- A piece has no separator. -/
theorem splitOn_free {t l : List α} (mem : l ∈ splitOn c t) : c ∉ l := by
  induction t generalizing l with
  | nil =>
    obtain rfl := List.mem_singleton.1 mem
    exact List.not_mem_nil
  | cons x t ih =>
    rw [splitOn] at mem
    split at mem
    · rcases List.mem_cons.1 mem with rfl | later
      · exact List.not_mem_nil
      · exact ih later
    · rename_i other
      split at mem
      · obtain rfl := List.mem_singleton.1 mem
        simp [Ne.symm other]
      · rename_i first rest pieces
        rw [pieces] at ih
        rcases List.mem_cons.1 mem with rfl | later
        · rw [List.mem_cons, not_or]
          exact ⟨Ne.symm other, ih List.mem_cons_self⟩
        · exact ih (List.mem_cons_of_mem first later)

/-- The pieces have nothing but what was cut. -/
theorem splitOn_subset {t l : List α} (mem : l ∈ splitOn c t) : l ⊆ t := by
  induction t generalizing l with
  | nil =>
    obtain rfl := List.mem_singleton.1 mem
    exact List.nil_subset _
  | cons x t ih =>
    rw [splitOn] at mem
    split at mem
    · rcases List.mem_cons.1 mem with rfl | later
      · exact List.nil_subset _
      · exact List.subset_cons_of_subset x (ih later)
    · split at mem
      · obtain rfl := List.mem_singleton.1 mem
        simp
      · rename_i first rest pieces
        rw [pieces] at ih
        rcases List.mem_cons.1 mem with rfl | later
        · exact List.cons_subset_cons x (ih List.mem_cons_self)
        · exact List.subset_cons_of_subset x (ih (List.mem_cons_of_mem first later))

/-- Fields without the separator come back from a row. -/
theorem splitOn_row {fields : List (List α)} (some : fields ≠ []) (free : ∀ f ∈ fields, c ∉ f) : splitOn c (row c fields) = fields := by
  induction fields with
  | nil => exact absurd rfl some
  | cons f fields ih =>
    have here := free f List.mem_cons_self
    cases fields with
    | nil =>
      have alone : row c [f] = f := by simp [row]
      rw [alone, splitOn_clean here]
    | cons g fields =>
      have cut : row c (f :: g :: fields) = f ++ c :: row c (g :: fields) := by simp [row, List.intercalate_cons_cons]
      rw [cut, splitOn_append here, ih (by simp) fun h mem => free h (List.mem_cons_of_mem f mem)]

omit [DecidableEq α] in
/-- A row of fields without a symbol does not have it, unless it separates them. -/
theorem row_free {fields : List (List α)} (other : d ≠ c) (free : ∀ f ∈ fields, d ∉ f) : d ∉ row c fields := by
  induction fields with
  | nil => exact List.not_mem_nil
  | cons f fields ih =>
    have here := free f List.mem_cons_self
    cases fields with
    | nil =>
      have alone : row c [f] = f := by simp [row]
      rwa [alone]
    | cons g fields =>
      have cut : row c (f :: g :: fields) = f ++ c :: row c (g :: fields) := by simp [row, List.intercalate_cons_cons]
      rw [cut, List.mem_append, List.mem_cons, not_or, not_or]
      exact ⟨here, other, ih fun h mem => free h (List.mem_cons_of_mem f mem)⟩

theorem splitOn_lines {ls : List (List α)} (free : ∀ l ∈ ls, d ∉ l) (t : List α) :
    splitOn d ((ls.flatMap fun l => l ++ [d]) ++ t) = ls ++ splitOn d t := by
  induction ls with
  | nil => rfl
  | cons l ls ih =>
    rw [List.flatMap_cons, List.append_assoc, List.append_assoc, List.singleton_append, splitOn_append (free l List.mem_cons_self),
      ih fun m mem => free m (List.mem_cons_of_mem l mem)]
    rfl

/-- Lines without the terminator are read back. -/
theorem terminated_flatMap {ls : List (List α)} (free : ∀ l ∈ ls, d ∉ l) : terminated d (ls.flatMap fun l => l ++ [d]) = ls := by
  have cut := splitOn_lines free []
  rw [List.append_nil] at cut
  rw [terminated, cut]
  exact List.dropLast_concat

/-- A line that is not complete is not read. -/
theorem terminated_part {ls : List (List α)} (free : ∀ l ∈ ls, d ∉ l) {l part : List α} (l_free : d ∉ l) (part_of : part <+: l ++ [d]) :
    terminated d ((ls.flatMap fun l => l ++ [d]) ++ part) = ls ∨ terminated d ((ls.flatMap fun l => l ++ [d]) ++ part) = ls ++ [l] := by
  unfold terminated
  rw [splitOn_lines free]
  rcases List.prefix_concat_iff.1 part_of with rfl | inside
  · right
    have pieces : ls ++ splitOn d (l ++ [d]) = ls ++ [l] ++ [[]] := by rw [splitOn_append l_free, splitOn, List.append_assoc]; rfl
    rw [pieces, List.dropLast_concat]
  · left
    rw [splitOn_clean fun mem => l_free (inside.subset mem)]
    exact List.dropLast_concat

/-- **A table is read back** exactly when no field has a separator. -/
theorem readTable_table_iff (other : d ≠ c) {rows : List (List (List α))} (some : ∀ r ∈ rows, r ≠ []) :
    readTable c d (table c d rows) = rows ↔ ∀ r ∈ rows, ∀ f ∈ r, c ∉ f ∧ d ∉ f := by
  constructor
  · -- a reader that cuts at the separators returns none
    intro same r in_rows f in_r
    rw [← same] at in_rows
    obtain ⟨l, in_lines, rfl⟩ := List.mem_map.1 in_rows
    have line := splitOn_free (List.dropLast_subset _ in_lines)
    exact ⟨splitOn_free in_r, fun mem => line (splitOn_subset in_r mem)⟩
  · intro free
    have lines : terminated d (table c d rows) = rows.map (row c) := by
      have text : table c d rows = (rows.map (row c)).flatMap fun l => l ++ [d] := by rw [table, List.flatMap_map]
      rw [text, terminated_flatMap]
      intro l mem
      obtain ⟨r, in_rows, rfl⟩ := List.mem_map.1 mem
      exact row_free other fun f in_r => (free r in_rows f in_r).2
    rw [readTable, lines, List.map_map]
    have each : ∀ r ∈ rows, (splitOn c ∘ row c) r = id r := fun r mem =>
      splitOn_row (some r mem) fun f in_r => (free r mem f in_r).1
    rw [List.map_congr_left each, List.map_id]

end

end ProxyBroker.Lib
