import Mathlib.Data.List.Induction
import Mathlib.Data.List.Nodup

/-! # Inserting or replacing

A list of rows in which a row that is put takes the place of the one with its key. After rows have been
put one after another, the row of a key is the one that was put last with this key. -/

namespace LogosFs

namespace Upsert

variable {Row Key : Type} [DecidableEq Key] (key : Row → Key)

/-- Put a row: it takes the place of the row with its key. -/
def put (rows : List Row) (row : Row) : List Row := (rows.filter fun old => key old ≠ key row) ++ [row]

/-- The last row with a key. -/
def last (rows : List Row) (k : Key) : Option Row := rows.reverse.find? fun row => key row = k

/-- `last` finds nothing among no rows. -/
@[simp] theorem last_nil (k : Key) : last key ([] : List Row) k = none := rfl

/-- `last` of two lists is that of the second one, if it finds any. -/
theorem last_append (rows rows' : List Row) (k : Key) :
    last key (rows ++ rows') k = (last key rows' k).or (last key rows k) := by
  rw [last, List.reverse_append, List.find?_append]
  rfl

/-- `last` of one row is this row, under its key. -/
theorem last_singleton (row : Row) (k : Key) :
    last key [row] k = if key row = k then some row else none := by
  by_cases h : key row = k <;> simp [last, h]

/-- The row that `last` finds is one of the rows, and has the key. -/
theorem mem_of_last {rows : List Row} {k : Key} {row : Row} (h : last key rows k = some row) :
    row ∈ rows ∧ key row = k :=
  ⟨List.mem_reverse.mp (List.mem_of_find?_eq_some h), by simpa using List.find?_some h⟩

/-- `last` finds a row under the key of each row. -/
theorem exists_last {rows : List Row} {row : Row} (h : row ∈ rows) :
    ∃ row', last key rows (key row) = some row' := by
  rw [← Option.isSome_iff_exists, last, List.find?_isSome]
  exact ⟨row, List.mem_reverse.mpr h, by simp⟩

/-- `last` finds the same under two keys that the same rows have. -/
theorem last_congr {Key' : Type} [DecidableEq Key'] {key' : Row → Key'} {rows : List Row} {k : Key}
    {k' : Key'} (h : ∀ row ∈ rows, key row = k ↔ key' row = k') :
    last key rows k = last key' rows k' := by
  induction rows using List.reverseRecOn with
  | nil => rfl
  | append_singleton rows row ih =>
    rw [last_append, last_append, last_singleton, last_singleton,
      ih fun row hrow => h row (List.mem_append_left _ hrow)]
    simp only [h row (List.mem_append_right _ (List.mem_singleton_self row))]

/-- Where the keys are distinct, `last` finds each row under its key. -/
theorem last_eq_some_iff {rows : List Row} (h : (rows.map key).Nodup) {k : Key} {row : Row} :
    last key rows k = some row ↔ row ∈ rows ∧ key row = k := by
  refine ⟨mem_of_last key, ?_⟩
  rintro ⟨hrow, rfl⟩
  obtain ⟨row', hrow'⟩ := exists_last key hrow
  obtain ⟨hmem, hkey⟩ := mem_of_last key hrow'
  rw [hrow', List.inj_on_of_nodup_map h hmem hrow hkey]

/-- Where the keys are distinct, `find?` and `last` find the same row from either end. -/
theorem find?_eq_last {rows : List Row} (h : (rows.map key).Nodup) (k : Key) :
    (rows.find? fun row => key row = k) = last key rows k := by
  cases hfound : rows.find? fun row => key row = k with
  | some row =>
    have hkey : key row = k := by simpa using List.find?_some hfound
    exact ((last_eq_some_iff key h).mpr ⟨List.mem_of_find?_eq_some hfound, hkey⟩).symm
  | none =>
    cases hlast : last key rows k with
    | none => rfl
    | some row =>
      obtain ⟨hrow, hkey⟩ := mem_of_last key hlast
      exact absurd hkey (by simpa using List.find?_eq_none.mp hfound row hrow)

/-! ## What putting does -/

/-- `put` keeps the keys distinct. -/
theorem nodup_put {rows : List Row} (h : (rows.map key).Nodup) (row : Row) :
    ((put key rows row).map key).Nodup := by
  rw [put, List.map_append, List.map_singleton, List.nodup_append]
  refine ⟨h.sublist (List.filter_sublist.map key), List.nodup_singleton _, ?_⟩
  intro k hk k' hk' heq
  obtain ⟨old, hold, rfl⟩ := List.mem_map.mp hk
  have hne := (List.mem_filter.mp hold).2
  simp [heq, List.mem_singleton.mp hk'] at hne

/-- `last` after `put` is the row that was put under its key, and as before under the others. -/
theorem last_put (rows : List Row) (row : Row) (k : Key) :
    last key (put key rows row) k = if key row = k then some row else last key rows k := by
  rw [put, last_append, last_singleton]
  by_cases hk : key row = k
  · rw [if_pos hk, if_pos hk, Option.some_or]
  · -- The filter only leaves out rows with another key than `k`.
    rw [if_neg hk, if_neg hk, Option.none_or, last, last, ← List.filter_reverse, List.find?_filter]
    congr 1
    funext old
    by_cases hold : key old = k
    · have hne : key old ≠ key row := fun heq => hk (heq.symm.trans hold)
      simp [hold, Ne.symm hk]
    · simp [hold]

/-- `put` never makes two rows with one key. -/
theorem nodup_foldl_put {rows : List Row} (h : (rows.map key).Nodup) (more : List Row) :
    ((more.foldl (put key) rows).map key).Nodup := by
  induction more generalizing rows with
  | nil => exact h
  | cons row more ih => exact ih (nodup_put key h row)

/-- **After some rows have been put**, `last` of a key is that of these rows, or the one that was
there. -/
theorem last_foldl_put (rows more : List Row) (k : Key) :
    last key (more.foldl (put key) rows) k = (last key more k).or (last key rows k) := by
  induction more generalizing rows with
  | nil => rw [List.foldl_nil, last_nil, Option.none_or]
  | cons row more ih =>
    rw [List.foldl_cons, ih, last_put, ← List.singleton_append, last_append, last_singleton,
      Option.or_assoc]
    by_cases hk : key row = k
    · rw [if_pos hk, if_pos hk, Option.some_or]
    · rw [if_neg hk, if_neg hk, Option.none_or]

end Upsert

end LogosFs
