import Mathlib.Data.List.AList
import Mathlib.Data.List.MinMax

/-! # Hash maps with one value type

A hash map is an association list with distinct keys (`AList`), used through `get`, `insert` and
`remove`. It promises no order of iteration, so what a program does with one is stated about its
`values` up to permutation: removing a key takes its value out, inserting under an absent key adds
one. An `Iteration` is an order in which the entries of each map may come. -/

namespace LogosFs

variable {κ ν : Type}

/-- A hash map. -/
abbrev HashMap (κ ν : Type) : Type := AList fun _ : κ => ν

/-- An entry of a hash map. -/
abbrev Entry (κ ν : Type) : Type := Sigma fun _ : κ => ν

namespace HashMap

/-- The number of entries. -/
def len (m : HashMap κ ν) : Nat := m.entries.length

/-- The values. -/
def values (m : HashMap κ ν) : List ν := m.entries.map Sigma.snd

/-- The map without entries. -/
def empty : HashMap κ ν := ∅

/-- The `empty` map has no `values`. -/
@[simp] theorem values_empty : (empty : HashMap κ ν).values = [] := rfl

variable [DecidableEq κ]

/-- The value under a key. -/
def get (m : HashMap κ ν) (k : κ) : Option ν := m.lookup k

/-- The map with a value under a key, in the place of any that was there. -/
def insert (m : HashMap κ ν) (k : κ) (v : ν) : HashMap κ ν := AList.insert k v m

/-- The map without a key. -/
def remove (m : HashMap κ ν) (k : κ) : HashMap κ ν := m.erase k

/-- The map with those entries only whose value satisfies `p`. -/
def retain (m : HashMap κ ν) (p : ν → Bool) : HashMap κ ν :=
  ⟨m.entries.filter fun entry => p entry.2, m.nodupKeys.sublist List.filter_sublist⟩

variable {m : HashMap κ ν} {k k' : κ} {v v' : ν}

/-- `get` finds nothing in the `empty` map. -/
@[simp] theorem get_empty : (empty : HashMap κ ν).get k = none := rfl

/-- `get` finds the value of the entry with the key. -/
theorem get_eq_some_iff : m.get k = some v ↔ ⟨k, v⟩ ∈ m.entries := AList.mem_lookup_iff

/-- `get` after `insert`: the new value under its key, and what was there under every other one. -/
theorem get_insert : (m.insert k v).get k' = if k' = k then some v else m.get k' := by
  unfold get insert
  split_ifs with hk
  · rw [hk, AList.lookup_insert]
  · exact AList.lookup_insert_ne hk

/-- `get` after `remove`: nothing under the key, and what was there under every other one. -/
theorem get_remove : (m.remove k).get k' = if k' = k then none else m.get k' := by
  unfold get remove
  split_ifs with hk
  · rw [hk, AList.lookup_erase]
  · exact AList.lookup_erase_ne hk

/-- What `retain` leaves of what a key looks up. -/
theorem get_retain {p : ν → Bool} : (m.retain p).get k = (m.get k).filter p := by
  ext v
  rw [get_eq_some_iff, Option.filter_eq_some_iff, get_eq_some_iff]
  exact List.mem_filter

/-- What `insert` puts under a key is found there. -/
@[simp] theorem get_insert_self : (m.insert k v).get k = some v := by rw [get_insert, if_pos rfl]

/-- What `get` finds after a `remove` was there before, under another key. -/
theorem get_of_get_remove (h : (m.remove k).get k' = some v) : k' ≠ k ∧ m.get k' = some v := by
  rw [get_remove] at h
  split_ifs at h with hk
  exact ⟨hk, h⟩

/-- `remove` forgets an `insert` under the same key. -/
theorem remove_insert : (m.insert k v).remove k = m.remove k :=
  AList.ext (List.kerase_cons_eq rfl)

/-- `remove` of an absent key changes nothing. -/
theorem remove_of_get_eq_none (h : m.get k = none) : m.remove k = m :=
  AList.ext (List.kerase_of_notMem_keys (AList.lookup_eq_none.mp h))

/-- The `values` are what `get` finds under the keys. -/
theorem mem_values_iff : v ∈ m.values ↔ ∃ k, m.get k = some v := by
  simp only [values, List.mem_map, get_eq_some_iff]
  constructor
  · rintro ⟨⟨k, v⟩, hmem, rfl⟩
    exact ⟨k, hmem⟩
  · rintro ⟨k, hmem⟩
    exact ⟨⟨k, v⟩, hmem, rfl⟩

/-- What `get` finds is one of the `values`. -/
theorem mem_values_of_get (h : m.get k = some v) : v ∈ m.values := mem_values_iff.mpr ⟨k, h⟩

/-- Up to the order, the `entries` are that of a key and those that its `remove` leaves. -/
theorem perm_entries_of_get (h : m.get k = some v) :
    m.entries.Perm (⟨k, v⟩ :: (m.remove k).entries) := by
  have hkey : k ∈ m.entries.keys := by
    rw [← AList.keys, ← AList.mem_keys, ← AList.lookup_isSome]
    exact Option.isSome_of_eq_some h
  obtain ⟨v', before, after, -, hentries, herase⟩ := List.exists_of_kerase hkey
  have hv : v' = v := by
    have hmem : ⟨k, v'⟩ ∈ m.entries := by simp [hentries]
    exact Option.some_inj.mp ((get_eq_some_iff.mpr hmem).symm.trans h)
  subst hv
  show m.entries.Perm (_ :: m.entries.kerase k)
  rw [herase, hentries]
  exact List.perm_middle

/-- `remove` of a key takes its value out of the `values`, up to the order. -/
theorem perm_values_of_get (h : m.get k = some v) :
    m.values.Perm (v :: (m.remove k).values) := by
  simpa [values] using (perm_entries_of_get h).map fun entry => entry.2

/-- `remove` of a key that is there makes `len` smaller by one. -/
theorem len_of_get (h : m.get k = some v) : m.len = (m.remove k).len + 1 :=
  (perm_entries_of_get h).length_eq

/-- What `remove` leaves of the `values` comes in the same order. -/
theorem values_remove_sublist (m : HashMap κ ν) (k : κ) : (m.remove k).values.Sublist m.values :=
  (List.kerase_sublist k m.entries).map _

/-- `insert` never makes the map smaller. -/
theorem len_le_len_insert (m : HashMap κ ν) (k : κ) (v : ν) : m.len ≤ (m.insert k v).len := by
  have hinsert : (m.insert k v).len = (m.remove k).len + 1 := rfl
  cases h : m.get k with
  | none => rw [hinsert, remove_of_get_eq_none h]; exact Nat.le_succ _
  | some v' => rw [hinsert, len_of_get h]

/-- `insert` puts its value in front, in the place of the one that was under the key. -/
theorem values_insert : (m.insert k v).values = v :: (m.remove k).values := rfl

/-- `insert` under an absent key adds its value to the `values`. -/
theorem values_insert_of_get_eq_none (h : m.get k = none) :
    (m.insert k v).values = v :: m.values := by
  have hk : k ∉ m := AList.lookup_eq_none.mp h
  rw [values, insert, AList.entries_insert_of_notMem hk]
  rfl

end HashMap

/-- One way to iterate over any hash map: the entries in some order. -/
structure Iteration (κ ν : Type) where
  /-- The entries in the order they come. -/
  order : HashMap κ ν → List (Entry κ ν)
  /-- All of them come, each one once. -/
  perm : ∀ m, (order m).Perm m.entries

namespace Iteration

/-- The iteration in the order of the list. -/
def inOrder : Iteration κ ν := ⟨fun m => m.entries, fun _ => .refl _⟩

variable (it : Iteration κ ν) {f : ν → Int} {m : HashMap κ ν} {k : κ}

/-- The key of the first entry to come whose value is least by `f`. -/
def minByKey (f : ν → Int) (m : HashMap κ ν) : Option κ :=
  (@List.argmin _ _ Int.instLinearOrder.toPreorder Int.decLt (fun entry => f entry.2)
    (it.order m)).map Sigma.fst

/-- The key that `minByKey` chooses has a value, and `f` of no value is less. -/
theorem exists_of_minByKey [DecidableEq κ] (h : it.minByKey f m = some k) :
    ∃ v, m.get k = some v ∧ ∀ v' ∈ m.values, f v ≤ f v' := by
  obtain ⟨⟨k, v⟩, hmin, rfl⟩ := Option.map_eq_some_iff.mp h
  refine ⟨v, HashMap.get_eq_some_iff.mpr ?_, ?_⟩
  · exact (it.perm m).mem_iff.mp (List.argmin_mem hmin)
  · intro v' hv'
    obtain ⟨entry, hentry, rfl⟩ := List.mem_map.mp hv'
    have hcomes := (it.perm m).mem_iff.mpr hentry
    exact List.le_of_mem_argmin (f := fun entry : Entry κ ν => f entry.2) hcomes hmin

/-- `minByKey` chooses some key unless the map is empty. -/
theorem minByKey_eq_none_iff : it.minByKey f m = none ↔ m.len = 0 := by
  rw [minByKey, Option.map_eq_none_iff, List.argmin_eq_none, HashMap.len, List.length_eq_zero_iff]
  exact ⟨fun h => (h ▸ it.perm m).nil_eq.symm, fun h => (h ▸ it.perm m).eq_nil⟩

/-- The values in the order they come. -/
def values (m : HashMap κ ν) : List ν := (it.order m).map Sigma.snd

/-- An iteration meets the `values` of the map, in some order. -/
theorem mem_values {v : ν} : v ∈ it.values m ↔ v ∈ m.values :=
  ((it.perm m).map Sigma.snd).mem_iff

end Iteration

/-- The last to come of the values that are greatest by `f` (`max_by_key`). -/
def maxByKey (f : ν → Int) (values : List ν) : Option ν :=
  @List.argmax _ _ Int.instLinearOrder.toPreorder Int.decLt f values.reverse

/-- What `maxByKey` answers is one of the values. -/
theorem mem_of_maxByKey {f : ν → Int} {values : List ν} {v : ν} (h : maxByKey f values = some v) :
    v ∈ values := List.mem_reverse.mp (List.argmax_mem h)

/-! ## The order of recency -/

section NewestFirst

variable {f : ν → Int} {newer older : List ν}

/-- The values in the order of `f`, the greatest first. -/
def newestFirst (f : ν → Int) (values : List ν) : List ν :=
  values.mergeSort fun v v' => f v' ≤ f v

/-- `newestFirst` reorders the values. -/
theorem perm_newestFirst (values : List ν) : (newestFirst f values).Perm values :=
  List.mergeSort_perm values _

/-- Where no two values are equal by `f`, the order is strict. -/
theorem pairwise_newestFirst {values : List ν} (hdistinct : (values.map f).Nodup) :
    (newestFirst f values).Pairwise fun v v' => f v' < f v := by
  have hsorted : (newestFirst f values).Pairwise fun v v' => f v' ≤ f v := by
    have hle := @List.pairwise_mergeSort _ (fun v v' => decide (f v' ≤ f v))
      (fun a b c hab hbc => by simp only [decide_eq_true_eq] at hab hbc ⊢; omega)
      (fun a b => by simp only [Bool.or_eq_true, decide_eq_true_eq]; omega) values
    exact hle.imp fun h => of_decide_eq_true h
  have hne : (newestFirst f values).Pairwise fun v v' => f v ≠ f v' :=
    List.pairwise_map.mp (((perm_newestFirst values).map f).nodup_iff.mpr hdistinct)
  exact (hsorted.and hne).imp fun h => by omega

/-- Where every value of one list is newer than all of another one, `newestFirst` puts that list
first. -/
theorem newestFirst_append (hnewer : ∀ v ∈ newer, ∀ v' ∈ older, f v' < f v)
    (hdistinct : ((newer ++ older).map f).Nodup) :
    newestFirst f (newer ++ older) = newestFirst f newer ++ newestFirst f older := by
  have hsplit := hdistinct
  rw [List.map_append, List.nodup_append] at hsplit
  refine @List.Perm.eq_of_pairwise _ (fun v v' => f v' < f v) _ _ (fun v v' _ _ h h' => by omega)
    (pairwise_newestFirst hdistinct) (List.pairwise_append.mpr ⟨pairwise_newestFirst hsplit.1,
      pairwise_newestFirst hsplit.2.1, fun v hv v' hv' => ?_⟩) ?_
  · exact hnewer v ((perm_newestFirst _).mem_iff.mp hv) v' ((perm_newestFirst _).mem_iff.mp hv')
  · exact (perm_newestFirst _).trans
      ((perm_newestFirst newer).symm.append (perm_newestFirst older).symm)

/-- Where the newer list has `capacity` values, unless the older one is empty, the two are what
`newestFirst` puts first and the rest. -/
theorem perm_take_drop_newestFirst {capacity : Nat}
    (hnewer : ∀ v ∈ newer, ∀ v' ∈ older, f v' < f v) (hdistinct : ((newer ++ older).map f).Nodup)
    (hle : newer.length ≤ capacity) (hfull : older ≠ [] → capacity ≤ newer.length) :
    newer.Perm ((newestFirst f (newer ++ older)).take capacity) ∧
      older.Perm ((newestFirst f (newer ++ older)).drop capacity) := by
  have hlength : (newestFirst f newer).length = newer.length := (perm_newestFirst newer).length_eq
  rw [newestFirst_append hnewer hdistinct]
  by_cases hempty : older = []
  · subst hempty
    have hnil : newestFirst f ([] : List ν) = [] := (perm_newestFirst []).eq_nil
    rw [hnil, List.append_nil, List.take_of_length_le (by omega), List.drop_of_length_le (by omega)]
    exact ⟨(perm_newestFirst newer).symm, .refl _⟩
  · have hcapacity : (newestFirst f newer).length = capacity := by
      have := hfull hempty
      omega
    rw [List.take_left' hcapacity, List.drop_left' hcapacity]
    exact ⟨(perm_newestFirst newer).symm, (perm_newestFirst older).symm⟩

end NewestFirst

end LogosFs
