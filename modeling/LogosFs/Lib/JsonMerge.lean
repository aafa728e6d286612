import LogosFs.Lib.Json

/-! # Ordered values and their merge

A JSON library keeps the members of an object in the order of their keys, each key once. Such values
are equal when they have the same members, so a merge is determined by what it does under each key
(`get?_deepMerge`). -/

namespace LogosFs.Json

/-- The members of every object in a value are in the order of their keys. -/
inductive Ordered : Json → Prop
  /-- `null` -/
  | null : Ordered .null
  /-- A boolean. -/
  | bool (b : Bool) : Ordered (.bool b)
  /-- A number. -/
  | number (n : JsonNumber) : Ordered (.number n)
  /-- A string. -/
  | string (s : Str) : Ordered (.string s)
  /-- An array of ordered elements. -/
  | array {items : List Json} (ordered : ∀ item ∈ items, Ordered item) : Ordered (.array items)
  /-- An object of ordered members in key order. -/
  | object {fields : List (Str × Json)} (sorted : Sorted fields)
      (ordered : ∀ field ∈ fields, Ordered field.2) : Ordered (.object fields)

/-- A value with `ReadableAt`, as a JSON library reads it, is `Ordered`. -/
theorem ReadableAt.ordered {float : Str → Prop} {depth : Nat} {value : Json}
    (h : value.ReadableAt float depth) : value.Ordered := by
  induction h with
  | null => exact .null
  | bool => exact .bool _
  | int => exact .number _
  | float => exact .number _
  | string => exact .string _
  | array _ ih => exact .array ih
  | object sorted _ ih => exact .object sorted ih

/-! ## Members -/

/-- A member that `lookup` finds is there. -/
theorem mem_of_lookup {key : Str} {value : Json} {fields : List (Str × Json)}
    (h : lookup key fields = some value) : (key, value) ∈ fields := by
  obtain ⟨field, hfind, rfl⟩ := Option.map_eq_some_iff.mp h
  have hkey : field.1 = key := by simpa using List.find?_some hfind
  exact hkey ▸ List.mem_of_find?_eq_some hfind

/-- The members of an `Ordered` object are `Ordered`. -/
theorem Ordered.of_get? {value member : Json} (h : value.Ordered) {key : Str}
    (hmember : value.get? key = some member) : member.Ordered := by
  cases h with
  | object sorted ordered => exact ordered _ (mem_of_lookup hmember)
  | _ => cases hmember

/-- `lookup` finds no member under a key below all the others. -/
theorem lookup_eq_none_of_forall_lt {key : Str} {fields : List (Str × Json)}
    (h : ∀ field ∈ fields, key < field.1) : lookup key fields = none := by
  rw [lookup, Option.map_eq_none_iff, List.find?_eq_none]
  intro field hfield heq
  have hlt := h field hfield
  rw [of_decide_eq_true heq] at hlt
  exact List.lt_irrefl _ hlt

/-- The first key of `Sorted` fields is below those of the others. -/
theorem Sorted.forall_lt {member : Str × Json} {rest : List (Str × Json)}
    (h : Sorted (member :: rest)) : ∀ field ∈ rest, member.1 < field.1 := fun field hfield =>
  (List.pairwise_cons.mp h).1 field.1 (List.mem_map_of_mem hfield)

/-- `lookup` finds no member of `Sorted` fields under a key below the first one. -/
theorem Sorted.lookup_eq_none_of_lt {key : Str} {member : Str × Json} {rest : List (Str × Json)}
    (h : Sorted (member :: rest)) (hlt : key < member.1) : lookup key (member :: rest) = none := by
  refine lookup_eq_none_of_forall_lt fun field hfield => ?_
  rcases List.mem_cons.mp hfield with rfl | hfield
  · exact hlt
  · exact List.lt_trans hlt (h.forall_lt field hfield)

/-- **Objects in key order with the same members** are the same: `Sorted` fields are decided by
`lookup`. -/
theorem Sorted.ext {fields fields' : List (Str × Json)} (h : Sorted fields) (h' : Sorted fields')
    (hlookup : ∀ key, lookup key fields = lookup key fields') : fields = fields' := by
  induction fields generalizing fields' with
  | nil =>
    cases fields' with
    | nil => rfl
    | cons member' rest' =>
      have hfirst := hlookup member'.1
      rw [lookup_nil, lookup_cons, if_pos rfl] at hfirst
      cases hfirst
  | cons member rest ih =>
    cases fields' with
    | nil =>
      have hfirst := hlookup member.1
      rw [lookup_nil, lookup_cons, if_pos rfl] at hfirst
      cases hfirst
    | cons member' rest' =>
      have hkey : member.1 = member'.1 := by
        by_cases heq : member.1 = member'.1
        · exact heq
        by_cases hlt : member.1 < member'.1
        · -- the smaller key is missing on the other side
          have hfirst := hlookup member.1
          rw [h'.lookup_eq_none_of_lt hlt, lookup_cons, if_pos rfl] at hfirst
          cases hfirst
        · have hgt : member'.1 < member.1 :=
            (List.le_iff_lt_or_eq.mp (List.not_lt.mp hlt)).resolve_right (Ne.symm heq)
          have hfirst := hlookup member'.1
          rw [h.lookup_eq_none_of_lt hgt, lookup_cons, if_pos rfl] at hfirst
          cases hfirst
      have hvalue : member.2 = member'.2 := by
        have hfirst := hlookup member.1
        rwa [lookup_cons, if_pos rfl, lookup_cons, if_pos hkey.symm, Option.some_inj] at hfirst
      have hrest : rest = rest' := by
        refine ih (List.pairwise_cons.mp h).2 (List.pairwise_cons.mp h').2 fun key => ?_
        by_cases hkey' : member.1 = key
        · rw [← hkey', lookup_eq_none_of_sorted h, hkey, lookup_eq_none_of_sorted h']
        · have hother := hlookup key
          rwa [lookup_cons, if_neg hkey', lookup_cons, if_neg (hkey ▸ hkey')] at hother
      rw [hrest, Prod.ext hkey hvalue]

/-! ## Merging -/

/-- `deepMerge` into `null` is the patch. -/
@[simp] theorem deepMerge_null (patch : Json) : deepMerge .null patch = patch := by
  cases patch <;> rfl

/-- `lookup` in `mergeFields`: the merge with the member of the patch, or the member that was there.
-/
theorem lookup_mergeFields (key : Str) {patch : List (Str × Json)} (h : Sorted patch)
    (fields : List (Str × Json)) : lookup key (mergeFields fields patch)
      = match lookup key patch with
        | some value => some (deepMerge ((lookup key fields).getD .null) value)
        | none => lookup key fields := by
  induction patch generalizing fields with
  | nil => rw [mergeFields]; rfl
  | cons member rest ih =>
    rw [mergeFields, ih (List.pairwise_cons.mp h).2, lookup_cons]
    by_cases hkey : member.1 = key
    · subst hkey
      rw [lookup_eq_none_of_sorted h, lookup_insert_self, if_pos rfl]
    · rw [lookup_insert_ne (Ne.symm hkey), if_neg hkey]

/-- `mergeFields` keeps fields `Sorted`. -/
theorem sorted_mergeFields {fields patch : List (Str × Json)} (h : Sorted fields) :
    Sorted (mergeFields fields patch) := by
  induction patch generalizing fields with
  | nil => rw [mergeFields]; exact h
  | cons member rest ih =>
    rw [mergeFields]
    exact ih (h.insert _ _)

/-- **A merge with an object, key by key**: `get?` of `deepMerge` is the merge of the members of
both, or the one that is there. -/
theorem get?_deepMerge (base : Json) {patch : List (Str × Json)} (h : Sorted patch) (key : Str) :
    (deepMerge base (.object patch)).get? key = match lookup key patch with
      | some value => some (deepMerge ((base.get? key).getD .null) value)
      | none => base.get? key := by
  cases base with
  | object fields => exact lookup_mergeFields key h fields
  | _ =>
    show lookup key patch = _
    cases lookup key patch with
    | none => rfl
    | some value => exact congrArg some (deepMerge_null value).symm

/-- `deepMerge` with an object is an object. -/
theorem exists_deepMerge_object (base : Json) (patch : List (Str × Json)) :
    ∃ fields, deepMerge base (.object patch) = .object fields := by
  cases base <;> exact ⟨_, rfl⟩

/-- What holds of the members of an object and of their merges holds of the members of
`mergeFields`. -/
theorem forall_mem_mergeFields {P : Json → Prop} (hnull : P .null) {patch : List (Str × Json)}
    (hmerge : ∀ field ∈ patch, ∀ {base : Json}, P base → P (deepMerge base field.2))
    {fields : List (Str × Json)} (hfields : ∀ field ∈ fields, P field.2) :
    ∀ field ∈ mergeFields fields patch, P field.2 := by
  induction patch generalizing fields with
  | nil =>
    rw [mergeFields]
    exact hfields
  | cons member rest ih =>
    rw [mergeFields]
    refine ih (fun field hfield => hmerge field (List.mem_cons_of_mem _ hfield)) fun field hfield => ?_
    rcases mem_insert hfield with rfl | hfield
    · refine hmerge member List.mem_cons_self ?_
      cases hlookup : lookup member.1 fields with
      | none => exact hnull
      | some value => exact hfields _ (mem_of_lookup hlookup)
    · exact hfields field hfield

/-- `deepMerge` of `Ordered` values is `Ordered`. -/
theorem Ordered.deepMerge {base patch : Json} (hbase : base.Ordered) (hpatch : patch.Ordered) :
    (deepMerge base patch).Ordered := by
  induction hpatch generalizing base with
  | null => exact .null
  | bool b => exact .bool b
  | number n => exact .number n
  | string s => exact .string s
  | array ordered => exact .array ordered
  | object sorted ordered ih =>
    cases hbase with
    | object hsorted hordered =>
      exact .object (sorted_mergeFields hsorted) (forall_mem_mergeFields .null ih hordered)
    | _ => exact .object sorted ordered

/-- `deepMerge` of values with `ReadableAt` has it: it does not nest deeper than both. -/
theorem ReadableAt.deepMerge {float : Str → Prop} {depth : Nat} {base patch : Json}
    (hbase : base.ReadableAt float depth) (hpatch : patch.ReadableAt float depth) :
    (deepMerge base patch).ReadableAt float depth := by
  induction hpatch generalizing base with
  | null => exact .null
  | bool => exact .bool
  | int low high => exact .int low high
  | float form => exact .float form
  | string => exact .string
  | array readable => exact .array readable
  | object sorted readable ih =>
    cases hbase with
    | object hsorted hreadable =>
      exact .object (sorted_mergeFields hsorted) (forall_mem_mergeFields .null ih hreadable)
    | _ => exact .object sorted readable

/-- `Ordered` objects for which `get?` finds the same members are the same. -/
theorem ext_of_get? {fields fields' : List (Str × Json)} (h : Ordered (.object fields))
    (h' : Ordered (.object fields')) (hget : ∀ key, (object fields).get? key
      = (object fields').get? key) : object fields = object fields' := by
  cases h with
  | object sorted =>
    cases h' with
    | object sorted' => exact congrArg object (sorted.ext sorted' hget)

end LogosFs.Json
