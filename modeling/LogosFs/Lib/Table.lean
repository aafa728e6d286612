import Mathlib.Data.List.Nodup
import Mathlib.Order.Basic

/-! # Relational tables with a primary key

A `Table Row Key key` is a table of `Row`s, each under an ascending row number, in which no two rows
share a primary key. The operations are the ones a single SQL statement performs by primary key:
look up, insert (refused when the key is taken), update, delete. Both invariants are fields, so
every operation keeps them and no later proof has to. -/

namespace LogosFs

/-- A table: its rows under ascending row numbers, with pairwise distinct primary keys. -/
structure Table (Row Key : Type) (key : Row → Key) where
  /-- The rows, each with its row number, in the order of these. -/
  rows : List (Nat × Row)
  /-- No two rows share a primary key. -/
  keys_nodup : (rows.map fun entry => key entry.2).Nodup
  /-- The row numbers ascend. -/
  rowids_lt : (rows.map Prod.fst).Pairwise (· < ·)

namespace Table

variable {Row Key : Type} {key : Row → Key}

/-- Two tables with the same numbered `rows` are equal. -/
theorem ext {t t' : Table Row Key key} (h : t.rows = t'.rows) : t = t' := by
  cases t; cases t'; cases h; rfl

/-- The table without rows. -/
def empty : Table Row Key key := ⟨[], List.nodup_nil, List.Pairwise.nil⟩

/-- The rows in order, without their numbers. -/
def contents (t : Table Row Key key) : List Row := t.rows.map Prod.snd

/-- The `empty` table has no `contents`. -/
@[simp] theorem contents_empty : (empty : Table Row Key key).contents = [] := rfl

/-- A row is in the `contents` if it has some row number. -/
theorem mem_contents_iff {t : Table Row Key key} {r : Row} :
    r ∈ t.contents ↔ ∃ n, (n, r) ∈ t.rows := by
  simp [contents]

/-- The keys of the `contents` are pairwise distinct. -/
theorem contents_keys_nodup (t : Table Row Key key) : (t.contents.map key).Nodup := by
  have h := t.keys_nodup
  rwa [contents, List.map_map]

/-- Two rows of one table with the same `key` are the same row. -/
theorem eq_of_key_eq {t : Table Row Key key} {r r' : Row} (hr : r ∈ t.contents)
    (hr' : r' ∈ t.contents) (h : key r = key r') : r = r' :=
  List.inj_on_of_nodup_map t.contents_keys_nodup hr hr' h

/-- The number the next row gets: one more than the largest in use. -/
def nextRowid (t : Table Row Key key) : Nat := (t.rows.getLast?.elim 0 Prod.fst) + 1

/-- Every row number in use is below `nextRowid`. -/
theorem lt_nextRowid {t : Table Row Key key} {n : Nat} (h : n ∈ t.rows.map Prod.fst) :
    n < t.nextRowid := by
  rcases List.eq_nil_or_concat t.rows with hnil | ⟨init, last, hrows⟩
  · simp [hnil] at h
  · rw [List.concat_eq_append] at hrows
    have hlt := t.rowids_lt
    rw [hrows, List.map_append, List.pairwise_append] at hlt
    rw [hrows, List.map_append, List.mem_append] at h
    rw [nextRowid, hrows, List.getLast?_concat]
    show n < last.1 + 1
    rcases h with h | h
    · have := hlt.2.2 n h last.1 (by simp)
      omega
    · rw [List.map_singleton, List.mem_singleton] at h
      omega

variable [DecidableEq Key]

/-- The row with a given primary key. -/
def find? (t : Table Row Key key) (k : Key) : Option Row :=
  t.contents.find? fun r => key r = k

/-- `find?` returns exactly the row of the table that has the key. -/
theorem find?_eq_some_iff {t : Table Row Key key} {k : Key} {r : Row} :
    t.find? k = some r ↔ r ∈ t.contents ∧ key r = k := by
  constructor
  · intro h
    exact ⟨List.mem_of_find?_eq_some h, by simpa using List.find?_some h⟩
  · rintro ⟨hmem, hkey⟩
    cases hfind : t.find? k with
    | none =>
      have := List.find?_eq_none.mp hfind r hmem
      simp [hkey] at this
    | some r' =>
      have hmem' := List.mem_of_find?_eq_some hfind
      have hkey' : key r' = k := by simpa using List.find?_some hfind
      rw [eq_of_key_eq hmem hmem' (hkey.trans hkey'.symm)]

/-- `find?` fails exactly when no row has the key. -/
theorem find?_eq_none_iff {t : Table Row Key key} {k : Key} :
    t.find? k = none ↔ ∀ r ∈ t.contents, key r ≠ k := by
  simp [find?, List.find?_eq_none]

/-- `find?` finds nothing in the `empty` table. -/
@[simp] theorem find?_empty (k : Key) : (empty : Table Row Key key).find? k = none := rfl

/-- A row that `find?` finds has the key it was looked up by. -/
theorem key_of_find? {t : Table Row Key key} {k : Key} {r : Row} (h : t.find? k = some r) :
    key r = k := (find?_eq_some_iff.mp h).2

/-- A row that `find?` finds is in the `contents`. -/
theorem mem_of_find? {t : Table Row Key key} {k : Key} {r : Row} (h : t.find? k = some r) :
    r ∈ t.contents := (find?_eq_some_iff.mp h).1

/-- `find?` finds every row under its own key. -/
theorem find?_key {t : Table Row Key key} {r : Row} (h : r ∈ t.contents) :
    t.find? (key r) = some r := find?_eq_some_iff.mpr ⟨h, rfl⟩

/-- The row number of the row with a given primary key. -/
def rowid? (t : Table Row Key key) (k : Key) : Option Nat :=
  (t.rows.find? fun entry => key entry.2 = k).map Prod.fst

/-- Every row that `find?` finds has a `rowid?`. -/
theorem exists_rowid?_of_find?_some {t : Table Row Key key} {k : Key} {r : Row}
    (h : t.find? k = some r) : ∃ n, t.rowid? k = some n := by
  obtain ⟨entry, hentry, rfl⟩ := List.mem_map.mp (mem_of_find? h)
  have hsome : (t.rows.find? fun entry => key entry.2 = k).isSome :=
    List.find?_isSome.mpr ⟨entry, hentry, by simpa using key_of_find? h⟩
  obtain ⟨found, hfound⟩ := Option.isSome_iff_exists.mp hsome
  exact ⟨found.1, by rw [rowid?, hfound, Option.map_some]⟩

/-- `rowid?` answers the number that a row is stored under. -/
theorem rowid?_of_mem {t : Table Row Key key} {n : Nat} {r : Row} (h : (n, r) ∈ t.rows) :
    t.rowid? (key r) = some n := by
  cases hfind : t.rows.find? fun entry => key entry.2 = key r with
  | none => exact absurd (List.find?_eq_none.mp hfind (n, r) h) (by simp)
  | some entry =>
    have hmem : entry ∈ t.rows := List.mem_of_find?_eq_some hfind
    have hkey : key entry.2 = key r := by simpa using List.find?_some hfind
    have hsame : entry = (n, r) := List.inj_on_of_nodup_map t.keys_nodup hmem h hkey
    rw [rowid?, hfind, hsame, Option.map_some]

/-! ## Update -/

/-- Apply `f`, which may not change the key, to the row with a given primary key. -/
def update (t : Table Row Key key) (k : Key) (f : Row → Row)
    (hf : ∀ r, key (f r) = key r := by intro _; rfl) : Table Row Key key where
  rows := t.rows.map fun entry => if key entry.2 = k then (entry.1, f entry.2) else entry
  keys_nodup := by
    have hkeys : ((fun entry : Nat × Row => key entry.2) ∘
        fun entry => if key entry.2 = k then (entry.1, f entry.2) else entry)
          = fun entry => key entry.2 := by
      funext entry
      by_cases h : key entry.2 = k <;> simp [h, hf]
    rw [List.map_map, hkeys]
    exact t.keys_nodup
  rowids_lt := by
    have hids : (Prod.fst ∘
        fun entry : Nat × Row => if key entry.2 = k then (entry.1, f entry.2) else entry)
          = Prod.fst := by
      funext entry
      by_cases h : key entry.2 = k <;> simp [h]
    rw [List.map_map, hids]
    exact t.rowids_lt

section Update

variable {t : Table Row Key key} {k : Key} {f : Row → Row} {hf : ∀ r, key (f r) = key r}

/-- The `contents` after `update`: each row of the key is replaced by `f` of it, every other row
stays. -/
theorem contents_update :
    (t.update k f hf).contents = t.contents.map fun r => if key r = k then f r else r := by
  rw [contents, contents, update, List.map_map, List.map_map]
  apply List.map_congr_left
  rintro ⟨n, r⟩ -
  by_cases h : key r = k <;> simp [h]

/-- `update` keeps the keys, in their order. -/
theorem keys_update : (t.update k f hf).contents.map key = t.contents.map key := by
  rw [contents_update, List.map_map]
  apply List.map_congr_left
  intro r _
  by_cases h : key r = k <;> simp [h, hf]

/-- The numbered `rows` after `update` keep their numbers. -/
theorem mem_rows_update {n : Nat} {r' : Row} : (n, r') ∈ (t.update k f hf).rows ↔
    ∃ r, (n, r) ∈ t.rows ∧ r' = if key r = k then f r else r := by
  rw [update, List.mem_map]
  constructor
  · rintro ⟨⟨m, r⟩, hr, heq⟩
    by_cases h : key r = k
    · rw [if_pos h, Prod.mk.injEq] at heq
      exact ⟨r, heq.1 ▸ hr, by rw [if_pos h, heq.2]⟩
    · rw [if_neg h, Prod.mk.injEq] at heq
      exact ⟨r, heq.1 ▸ hr, by rw [if_neg h, heq.2]⟩
  · rintro ⟨r, hr, rfl⟩
    refine ⟨(n, r), hr, ?_⟩
    by_cases h : key r = k <;> simp [h]

/-- The contents after `update` are the rows with the key, changed by `f`, and the other ones. -/
theorem mem_contents_update {r' : Row} :
    r' ∈ (t.update k f hf).contents ↔
      ∃ r ∈ t.contents, (key r = k ∧ f r = r') ∨ (key r ≠ k ∧ r = r') := by
  rw [contents_update, List.mem_map]
  constructor
  · rintro ⟨r, hr, rfl⟩
    by_cases h : key r = k <;> exact ⟨r, hr, by simp [h]⟩
  · rintro ⟨r, hr, ⟨h, rfl⟩ | ⟨h, rfl⟩⟩ <;> exact ⟨r, hr, by simp [h]⟩

/-- `find?` of the updated key finds `f` of the row that was there. -/
@[simp] theorem find?_update_self : (t.update k f hf).find? k = (t.find? k).map f := by
  cases h : t.find? k with
  | none =>
    rw [find?_eq_none_iff] at h
    rw [Option.map_none, find?_eq_none_iff]
    intro r' hr'
    obtain ⟨r, hr, ⟨hk, -⟩ | ⟨hk, rfl⟩⟩ := mem_contents_update.mp hr'
    · exact absurd hk (h r hr)
    · exact hk
  | some r =>
    obtain ⟨hr, hk⟩ := find?_eq_some_iff.mp h
    rw [Option.map_some, find?_eq_some_iff]
    exact ⟨mem_contents_update.mpr ⟨r, hr, .inl ⟨hk, rfl⟩⟩, by rw [hf, hk]⟩

/-- `update` leaves what `find?` finds under every other key alone. -/
theorem find?_update_ne {k' : Key} (hne : k' ≠ k) :
    (t.update k f hf).find? k' = t.find? k' := by
  cases h : t.find? k' with
  | none =>
    rw [find?_eq_none_iff] at h ⊢
    intro r' hr'
    obtain ⟨r, hr, ⟨hk, rfl⟩ | ⟨-, rfl⟩⟩ := mem_contents_update.mp hr'
    · rw [hf, hk]; exact hne.symm
    · exact h r hr
  | some r =>
    obtain ⟨hr, hk⟩ := find?_eq_some_iff.mp h
    rw [find?_eq_some_iff]
    exact ⟨mem_contents_update.mpr ⟨r, hr, .inr ⟨by rw [hk]; exact hne, rfl⟩⟩, hk⟩

/-- An update changes nothing exactly when `f` fixes the row of the key, if there is one. -/
theorem update_eq_self_iff : t.update k f hf = t ↔ ∀ r, t.find? k = some r → f r = r := by
  constructor
  · intro h r hr
    have hrow : (t.update k f hf).find? k = some r := by rw [h]; exact hr
    rw [find?_update_self, hr, Option.map_some, Option.some_inj] at hrow
    exact hrow
  · intro h
    apply ext
    refine (List.map_congr_left ?_).trans (List.map_id _)
    rintro ⟨n, r⟩ hr
    by_cases hk : key r = k
    · have hfind : t.find? k = some r :=
        find?_eq_some_iff.mpr ⟨List.mem_map.mpr ⟨(n, r), hr, rfl⟩, hk⟩
      simp [hk, h r hfind]
    · simp [hk]

/-- `update` of a key that no row has changes nothing. -/
theorem update_of_find?_none (h : t.find? k = none) : t.update k f hf = t :=
  update_eq_self_iff.mpr fun r hr => by rw [h] at hr; cases hr

end Update

/-! ## Delete -/

/-- Delete the row with a given primary key. -/
def delete (t : Table Row Key key) (k : Key) : Table Row Key key where
  rows := t.rows.filter fun entry => key entry.2 ≠ k
  keys_nodup := t.keys_nodup.sublist (List.filter_sublist.map _)
  rowids_lt := t.rowids_lt.sublist (List.filter_sublist.map _)

section Delete

variable {t : Table Row Key key} {k : Key}

/-- `delete` keeps the contents with other keys, in order. -/
theorem contents_delete : (t.delete k).contents = t.contents.filter fun r => key r ≠ k := by
  rw [contents, contents, delete, List.filter_map]
  rfl

/-- `delete` keeps the row numbers of what it keeps. -/
theorem mem_rows_delete {entry : Nat × Row} :
    entry ∈ (t.delete k).rows ↔ entry ∈ t.rows ∧ key entry.2 ≠ k := by
  rw [delete, List.mem_filter, decide_eq_true_iff]

/-- A row is in the contents after `delete` if it was there and has another key. -/
theorem mem_contents_delete {r : Row} : r ∈ (t.delete k).contents ↔ r ∈ t.contents ∧ key r ≠ k := by
  rw [contents_delete, List.mem_filter, decide_eq_true_iff]

/-- Nothing is found under a key after `delete`. -/
@[simp] theorem find?_delete_self : (t.delete k).find? k = none :=
  find?_eq_none_iff.mpr fun _ hr => (mem_contents_delete.mp hr).2

/-- `delete` leaves what is found under other keys alone. -/
theorem find?_delete_ne {k' : Key} (hne : k' ≠ k) : (t.delete k).find? k' = t.find? k' := by
  apply Option.ext
  intro r
  rw [find?_eq_some_iff, find?_eq_some_iff, mem_contents_delete]
  constructor
  · rintro ⟨⟨hr, -⟩, hk⟩; exact ⟨hr, hk⟩
  · rintro ⟨hr, hk⟩; exact ⟨⟨hr, by rw [hk]; exact hne⟩, hk⟩

/-- `delete` changes nothing exactly when no row has the key. -/
theorem delete_eq_self_iff : t.delete k = t ↔ t.find? k = none := by
  constructor
  · intro h
    rw [← h]; exact find?_delete_self
  · intro h
    apply ext
    refine List.filter_eq_self.mpr fun entry hentry => ?_
    have := find?_eq_none_iff.mp h entry.2 (List.mem_map.mpr ⟨entry, hentry, rfl⟩)
    simp [this]

end Delete

/-! ## Insert -/

/-- Insert a row under the next row number, unless its primary key is taken. -/
def insert? (t : Table Row Key key) (r : Row) : Option (Table Row Key key) :=
  if h : t.find? (key r) = none then
    some {
      rows := t.rows ++ [(t.nextRowid, r)]
      keys_nodup := by
        rw [List.map_append, List.map_singleton, List.nodup_append]
        refine ⟨t.keys_nodup, List.nodup_singleton _, ?_⟩
        rintro k hk k' hk' rfl
        obtain ⟨entry, hentry, rfl⟩ := List.mem_map.mp hk
        exact find?_eq_none_iff.mp h entry.2 (List.mem_map.mpr ⟨entry, hentry, rfl⟩)
          (List.mem_singleton.mp hk')
      rowids_lt := by
        rw [List.map_append, List.map_singleton, List.pairwise_append]
        refine ⟨t.rowids_lt, List.pairwise_singleton _ _, fun n hn m hm => ?_⟩
        rw [List.mem_singleton.mp hm]
        exact lt_nextRowid hn }
  else none

section Insert

variable {t t' : Table Row Key key} {r : Row}

/-- `insert?` is refused exactly when the primary key is taken. -/
theorem insert?_eq_none_iff : t.insert? r = none ↔ ∃ r', t.find? (key r) = some r' := by
  rw [insert?]
  split
  · rename_i h; simp [h]
  · rename_i h; simp [Option.ne_none_iff_exists'.mp h]

/-- What a successful `insert?` does: the key was free and the row is appended to the `contents`. -/
theorem insert?_eq_some (h : t.insert? r = some t') :
    t.find? (key r) = none ∧ t'.contents = t.contents ++ [r] := by
  rw [insert?] at h
  split at h
  · rename_i hnone
    rw [Option.some_inj] at h
    subst h
    exact ⟨hnone, by simp [contents]⟩
  · cases h

/-- The row that `insert?` adds gets the `nextRowid`. -/
theorem rows_of_insert? (h : t.insert? r = some t') : t'.rows = t.rows ++ [(t.nextRowid, r)] := by
  rw [insert?] at h
  split at h
  · rw [Option.some_inj] at h
    rw [← h]
  · cases h

/-- `insert?` adds the row under the `nextRowid` and nothing else. -/
theorem mem_rows_insert? (h : t.insert? r = some t') {entry : Nat × Row} :
    entry ∈ t'.rows ↔ entry ∈ t.rows ∨ entry = (t.nextRowid, r) := by
  rw [rows_of_insert? h, List.mem_append, List.mem_singleton]

/-- `insert?` under a free key succeeds. -/
theorem exists_insert?_of_find?_none (h : t.find? (key r) = none) :
    ∃ t', t.insert? r = some t' := by
  rw [insert?, dif_pos h]; exact ⟨_, rfl⟩

/-- The row that `insert?` adds is found under its key. -/
theorem find?_insert?_self (h : t.insert? r = some t') : t'.find? (key r) = some r := by
  rw [find?_eq_some_iff, (insert?_eq_some h).2]
  exact ⟨List.mem_append_right _ (List.mem_singleton.mpr rfl), rfl⟩

/-- `insert?` leaves what is found under other keys alone. -/
theorem find?_insert?_ne (h : t.insert? r = some t') {k : Key} (hne : k ≠ key r) :
    t'.find? k = t.find? k := by
  apply Option.ext
  intro r'
  rw [find?_eq_some_iff, find?_eq_some_iff, (insert?_eq_some h).2, List.mem_append,
    List.mem_singleton]
  constructor
  · rintro ⟨hr' | rfl, hk⟩
    · exact ⟨hr', hk⟩
    · exact absurd hk.symm hne
  · rintro ⟨hr', hk⟩; exact ⟨.inl hr', hk⟩

end Insert

end Table

end LogosFs
