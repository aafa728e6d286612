import LogosFs.Lib.JsonMerge

/-! # Deep merge

A patch of a JSON document is merged into what is stored: objects member by member, anything else is
replaced. `deepMergeLaws` says what the users of the merge rely on: merging twice is merging once,
what the patch sets is set and what it does not mention stays, and patches that do not contradict each
other may come in either order. -/

namespace LogosFs.Vfs

/-- A value as the code holds it: the members of objects are in the order of their keys. -/
abbrev Value : Type := {value : Json // value.Ordered}

/-- Merge a patch into a value. -/
def jsonDeepMerge (base patch : Value) : Value :=
  ⟨Json.deepMerge base.1 patch.1, base.2.deepMerge patch.2⟩

/-- The value at a path of keys. -/
def valueAt (value : Json) : (path : List Str) → Option Json
  | [] => some value
  | key :: path => (value.get? key).bind fun member => valueAt member path

/-- A value that is not an object. -/
def NotObject (value : Json) : Prop := ∀ fields, value ≠ .object fields

/-- The path leaves what the patch mentions: at some point on it the base and the patch are objects,
and the patch does not have the next key. -/
def Diverges (base patch : Json) (path : List Str) : Prop :=
  ∃ before key after fields fields', path = before ++ key :: after ∧
    valueAt base before = some (.object fields) ∧ valueAt patch before = some (.object fields') ∧
    Json.lookup key fields' = none

/-- Two patches that do not contradict each other: they are the same, or they are objects and the
values of each key that they share do not contradict each other. -/
inductive Compatible : Json → Json → Prop
  /-- The same value. -/
  | same (value : Json) : Compatible value value
  /-- Objects with compatible members. -/
  | objects {fields fields' : List (Str × Json)}
    (shared : ∀ key value value', Json.lookup key fields = some value →
      Json.lookup key fields' = some value' → Compatible value value') :
    Compatible (.object fields) (.object fields')

section Laws

open Json (Ordered deepMerge)

/-- Merging the same `patch` into `deepMerge base patch` changes nothing. -/
theorem deepMerge_deepMerge {patch : Json} (hpatch : patch.Ordered) {base : Json}
    (hbase : base.Ordered) : deepMerge (deepMerge base patch) patch = deepMerge base patch := by
  induction hpatch generalizing base with
  | null => rfl
  | bool b => rfl
  | number n => rfl
  | string s => rfl
  | array ordered => rfl
  | @object patch sorted ordered ih =>
    have hobject : Ordered (.object patch) := .object sorted ordered
    obtain ⟨fields, hfields⟩ := Json.exists_deepMerge_object base patch
    obtain ⟨fields', hfields'⟩ := Json.exists_deepMerge_object (deepMerge base (.object patch)) patch
    have hordered := hbase.deepMerge hobject
    have hordered' := hordered.deepMerge hobject
    rw [hfields] at hordered
    rw [hfields'] at hordered'
    rw [hfields', hfields]
    refine Json.ext_of_get? hordered' hordered fun key => ?_
    rw [← hfields', ← hfields, Json.get?_deepMerge _ sorted, Json.get?_deepMerge _ sorted]
    cases hmember : Json.lookup key patch with
    | none => rfl
    | some value =>
      -- the member of the first merge is a merge with the same value
      have hbasemember : Ordered ((base.get? key).getD .null) := by
        cases hget : base.get? key with
        | none => exact .null
        | some member => exact hbase.of_get? hget
      simp only [Option.getD_some]
      rw [ih _ (Json.mem_of_lookup hmember) hbasemember]

/-- What the `patch` sets at a path is what `deepMerge` has there. -/
theorem valueAt_deepMerge_of_patch {path : List Str} {base patch value : Json}
    (hpatch : patch.Ordered) (hvalue : valueAt patch path = some value) (hleaf : NotObject value) :
    valueAt (deepMerge base patch) path = some value := by
  induction path generalizing base patch with
  | nil =>
    cases hvalue
    cases value with
    | object fields => exact absurd rfl (hleaf fields)
    | _ => rfl
  | cons key path ih =>
    obtain ⟨member, hmember, hrest⟩ := Option.bind_eq_some_iff.mp hvalue
    have hordered := hpatch.of_get? hmember
    cases hpatch with
    | @object patch sorted ordered =>
      have hlookup : Json.lookup key patch = some member := hmember
      rw [valueAt, Json.get?_deepMerge _ sorted, hlookup]
      exact ih hordered hrest
    | _ => cases hmember

/-- What the `patch` does not mention stays: where it `Diverges`, `deepMerge` has the value of
`base`. -/
theorem valueAt_deepMerge_of_diverges {path : List Str} {base patch value : Json}
    (hpatch : patch.Ordered) (hvalue : valueAt base path = some value)
    (hdiverges : Diverges base patch path) : valueAt (deepMerge base patch) path = some value := by
  obtain ⟨before, key, after, fields, fields', rfl, hbase, hpath, hmissing⟩ := hdiverges
  induction before generalizing base patch with
  | nil =>
    cases hpath
    cases hpatch with
    | object sorted =>
      rw [List.nil_append, valueAt] at hvalue ⊢
      rw [Json.get?_deepMerge _ sorted, hmissing]
      exact hvalue
  | cons first before ih =>
    obtain ⟨baseMember, hbaseMember, hbaseRest⟩ := Option.bind_eq_some_iff.mp hbase
    obtain ⟨patchMember, hpatchMember, hpatchRest⟩ := Option.bind_eq_some_iff.mp hpath
    have hordered := hpatch.of_get? hpatchMember
    rw [List.cons_append, valueAt, hbaseMember, Option.bind_some] at hvalue
    cases hpatch with
    | @object patch sorted ordered =>
      have hlookup : Json.lookup first patch = some patchMember := hpatchMember
      rw [List.cons_append, valueAt, Json.get?_deepMerge _ sorted, hlookup, hbaseMember]
      exact ih hordered hvalue hbaseRest hpatchRest
    | _ => cases hpatchMember

/-- **Patches that are `Compatible` commute** under `deepMerge`. -/
theorem deepMerge_comm {patch patch' : Json} (hcompatible : Compatible patch patch')
    (hpatch : patch.Ordered) (hpatch' : patch'.Ordered) {base : Json} (hbase : base.Ordered) :
    deepMerge (deepMerge base patch) patch' = deepMerge (deepMerge base patch') patch := by
  -- Along `Compatible`: two objects agree on the members that they share.
  induction hcompatible generalizing base with
  | same value => rfl
  | @objects fields fields' shared ih =>
    obtain ⟨merged, hmerged⟩ :=
      Json.exists_deepMerge_object (deepMerge base (.object fields)) fields'
    obtain ⟨merged', hmerged'⟩ :=
      Json.exists_deepMerge_object (deepMerge base (.object fields')) fields
    have hordered := (hbase.deepMerge hpatch).deepMerge hpatch'
    have hordered' := (hbase.deepMerge hpatch').deepMerge hpatch
    rw [hmerged] at hordered
    rw [hmerged'] at hordered'
    rw [hmerged, hmerged']
    -- Both results are ordered, so they are equal if they have the same members.
    refine Json.ext_of_get? hordered hordered' fun key => ?_
    rw [← hmerged, ← hmerged']
    have hmemberOrdered := fun value (h : Json.lookup key fields = some value) =>
      hpatch.of_get? (show (Json.object fields).get? key = some value from h)
    have hmemberOrdered' := fun value (h : Json.lookup key fields' = some value) =>
      hpatch'.of_get? (show (Json.object fields').get? key = some value from h)
    cases hpatch with
    | object sorted =>
      cases hpatch' with
      | object sorted' =>
        rw [Json.get?_deepMerge _ sorted', Json.get?_deepMerge _ sorted,
          Json.get?_deepMerge _ sorted, Json.get?_deepMerge _ sorted']
        cases hvalue : Json.lookup key fields with
        | none => cases Json.lookup key fields' <;> rfl
        | some value =>
          cases hvalue' : Json.lookup key fields' with
          | none => rfl
          | some value' =>
            have hbasemember : Ordered ((base.get? key).getD .null) := by
              cases hget : base.get? key with
              | none => exact .null
              | some member => exact hbase.of_get? hget
            simp only [Option.getD_some]
            rw [ih key value value' hvalue hvalue' (hmemberOrdered value hvalue)
              (hmemberOrdered' value' hvalue') hbasemember]

end Laws

/-- What the users of the merge rely on. -/
structure DeepMergeLaws (base patch patch' : Value) : Prop where
  /-- Merging twice is merging once. -/
  idempotent : jsonDeepMerge (jsonDeepMerge base patch) patch = jsonDeepMerge base patch
  /-- The result holds what the patch holds at a path, unless this is an object. -/
  sets : ∀ path value, valueAt patch.1 path = some value → NotObject value →
    valueAt (jsonDeepMerge base patch).1 path = some value
  /-- The result holds what the base holds at a path that leaves what the patch mentions. -/
  keeps : ∀ path value, valueAt base.1 path = some value → Diverges base.1 patch.1 path →
    valueAt (jsonDeepMerge base patch).1 path = some value
  /-- Compatible patches may come in either order. -/
  commutes : Compatible patch.1 patch'.1 →
    jsonDeepMerge (jsonDeepMerge base patch) patch'
      = jsonDeepMerge (jsonDeepMerge base patch') patch

/-- **The laws of the deep merge**, `DeepMergeLaws`, hold for all values. -/
theorem deepMergeLaws (base patch patch' : Value) : DeepMergeLaws base patch patch' where
  idempotent := Subtype.ext (deepMerge_deepMerge patch.2 base.2)
  sets _ _ hvalue hleaf := valueAt_deepMerge_of_patch patch.2 hvalue hleaf
  keeps _ _ hvalue hdiverges := valueAt_deepMerge_of_diverges patch.2 hvalue hdiverges
  commutes hcompatible := Subtype.ext (deepMerge_comm hcompatible patch.2 patch'.2 base.2)

end LogosFs.Vfs
