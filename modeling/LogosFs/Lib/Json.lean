import LogosFs.Lib.Text

/-! # JSON values

The values a JSON library works with, as trees: an object is the list of its members in ascending
order of their keys, as a sorted map prints them. Reading a member of something that is not an
object answers `null`, and every `as…` view answers `none` on a value of another kind.

Printing and parsing belong to a `JsonCodec`. Its laws are the round trip of **exact** values (those
without a floating point number, with integers of 64 bits, objects in key order and a nesting depth
within the parser's limit) and, for all values that it reads, that a round trip changes nothing but
numbers. -/

namespace LogosFs

/-- A JSON number: an integer, or a floating point number by its printed form. -/
inductive JsonNumber where
  /-- An integer. -/
  | int (i : Int)
  /-- A number that is not an integer, by its decimal text. -/
  | float (text : Str)
deriving DecidableEq, Repr

/-- A JSON value. -/
inductive Json where
  /-- `null` -/
  | null
  /-- `true` or `false` -/
  | bool (b : Bool)
  /-- A number. -/
  | number (n : JsonNumber)
  /-- A string. -/
  | string (s : Str)
  /-- An array. -/
  | array (items : List Json)
  /-- An object: its members in the order of their keys. -/
  | object (fields : List (Str × Json))

namespace Json

/-! ## Objects -/

/-- The member of an object with a given key. -/
def lookup (key : Str) (fields : List (Str × Json)) : Option Json :=
  (fields.find? fun field => field.1 = key).map Prod.snd

/-- Set the member of an object with a given key, keeping the keys in order. -/
def insert (key : Str) (value : Json) : List (Str × Json) → List (Str × Json)
  | [] => [(key, value)]
  | field :: fields =>
    if key = field.1 then (key, value) :: fields
    else if key < field.1 then (key, value) :: field :: fields
    else field :: insert key value fields

/-- An object from its members, in any order. -/
def ofPairs (pairs : List (Str × Json)) : Json :=
  .object (pairs.foldl (fun fields pair => insert pair.1 pair.2 fields) [])

/-- `lookup` finds nothing among no fields. -/
@[simp] theorem lookup_nil (key : Str) : lookup key [] = none := rfl

/-- `lookup` takes the first field with the key. -/
theorem lookup_cons (key : Str) (field : Str × Json) (fields : List (Str × Json)) :
    lookup key (field :: fields) = if field.1 = key then some field.2 else lookup key fields := by
  by_cases h : field.1 = key <;> simp [lookup, h]

/-- What `insert` puts under a key is found there. -/
@[simp] theorem lookup_insert_self (key : Str) (value : Json) (fields : List (Str × Json)) :
    lookup key (insert key value fields) = some value := by
  induction fields with
  | nil => simp [insert, lookup_cons]
  | cons field fields ih =>
    rw [insert]
    split
    · simp [lookup_cons]
    · rename_i hne
      split
      · simp [lookup_cons]
      · rw [lookup_cons, if_neg (Ne.symm hne), ih]

/-- `insert` leaves what is under other keys alone. -/
theorem lookup_insert_ne {key key' : Str} (hne : key' ≠ key) (value : Json)
    (fields : List (Str × Json)) :
    lookup key' (insert key value fields) = lookup key' fields := by
  induction fields with
  | nil => simp [insert, lookup_cons, hne.symm]
  | cons field fields ih =>
    rw [insert]
    split
    · rename_i heq
      rw [lookup_cons, lookup_cons, if_neg hne.symm, if_neg (heq ▸ hne.symm)]
    · split
      · rw [lookup_cons, if_neg hne.symm]
      · rw [lookup_cons, ih, ← lookup_cons]

/-- The keys of an object ascend. -/
def Sorted (fields : List (Str × Json)) : Prop := (fields.map Prod.fst).Pairwise (· < ·)

instance (fields : List (Str × Json)) : Decidable (Sorted fields) :=
  inferInstanceAs (Decidable (List.Pairwise _ _))

/-- A field after `insert` is the inserted one, or was there. -/
theorem mem_insert {key : Str} {value : Json} {field : Str × Json} {fields : List (Str × Json)}
    (h : field ∈ insert key value fields) : field = (key, value) ∨ field ∈ fields := by
  induction fields with
  | nil => simpa [insert] using h
  | cons first fields ih =>
    rw [insert] at h
    split at h
    · rcases List.mem_cons.mp h with h | h
      · exact .inl h
      · exact .inr (List.mem_cons_of_mem _ h)
    · split at h
      · rcases List.mem_cons.mp h with h | h
        · exact .inl h
        · exact .inr h
      · rcases List.mem_cons.mp h with h | h
        · exact .inr (h ▸ List.mem_cons_self)
        · exact (ih h).imp_right (List.mem_cons_of_mem _)

/-- `insert` keeps fields `Sorted`. -/
theorem Sorted.insert {fields : List (Str × Json)} (h : Sorted fields) (key : Str) (value : Json) :
    Sorted (Json.insert key value fields) := by
  induction fields with
  | nil => exact List.pairwise_singleton _ _
  | cons field fields ih =>
    have hhead := (List.pairwise_cons.mp h).1
    have htail := (List.pairwise_cons.mp h).2
    rw [Json.insert]
    split
    · rename_i heq
      exact List.pairwise_cons.mpr ⟨heq ▸ hhead, htail⟩
    · rename_i hne
      split
      · rename_i hlt
        refine List.pairwise_cons.mpr ⟨?_, h⟩
        intro key' hkey'
        rcases List.mem_cons.mp hkey' with rfl | hkey'
        · exact hlt
        · exact List.lt_trans hlt (hhead key' hkey')
      · rename_i hnlt
        refine List.pairwise_cons.mpr ⟨?_, ih htail⟩
        intro key' hkey'
        obtain ⟨field', hfield', rfl⟩ := List.mem_map.mp hkey'
        rcases mem_insert hfield' with rfl | hold
        · exact (List.le_iff_lt_or_eq.mp (List.not_lt.mp hnlt)).resolve_right (Ne.symm hne)
        · exact hhead _ (List.mem_map.mpr ⟨field', hold, rfl⟩)

/-- Fields built by one `insert` after another are `Sorted`. -/
theorem sorted_foldl_insert (pairs fields : List (Str × Json)) (h : Sorted fields) :
    Sorted (pairs.foldl (fun fields pair => insert pair.1 pair.2 fields) fields) := by
  induction pairs generalizing fields with
  | nil => exact h
  | cons pair pairs ih => exact ih _ (h.insert _ _)

/-- A field after several `insert`s is one of the inserted ones, or was there. -/
theorem mem_foldl_insert {pairs fields : List (Str × Json)} {field : Str × Json}
    (h : field ∈ pairs.foldl (fun fields pair => insert pair.1 pair.2 fields) fields) :
    field ∈ pairs ∨ field ∈ fields := by
  induction pairs generalizing fields with
  | nil => exact .inr h
  | cons pair pairs ih =>
    rcases ih h with h | h
    · exact .inl (List.mem_cons_of_mem _ h)
    · exact (mem_insert h).imp (fun heq => List.mem_cons.mpr (.inl heq)) id

/-- `insert` under a key above all others appends the field. -/
theorem insert_of_forall_lt {key : Str} {value : Json} {fields : List (Str × Json)}
    (h : ∀ field ∈ fields, field.1 < key) : insert key value fields = fields ++ [(key, value)] := by
  induction fields with
  | nil => rfl
  | cons field fields ih =>
    have hlt := h field List.mem_cons_self
    have hne : key ≠ field.1 := fun heq => List.lt_irrefl _ (heq ▸ hlt)
    rw [insert, if_neg hne, if_neg (List.not_lt.mpr (List.le_of_lt hlt)),
      ih fun field hfield => h field (List.mem_cons_of_mem _ hfield), List.cons_append]

/-- `ofPairs` of fields that are `Sorted` already keeps them. -/
theorem Sorted.ofPairs_eq {fields : List (Str × Json)} (h : Sorted fields) :
    ofPairs fields = .object fields := by
  have hgeneral : ∀ (later earlier : List (Str × Json)), Sorted (earlier ++ later) →
      later.foldl (fun fields pair => Json.insert pair.1 pair.2 fields) earlier
        = earlier ++ later := by
    intro later
    induction later with
    | nil => intro earlier _; simp
    | cons field later ih =>
      intro earlier hsorted
      have hlt : ∀ field' ∈ earlier, field'.1 < field.1 := by
        intro field' hfield'
        rw [Sorted, List.map_append, List.pairwise_append] at hsorted
        exact hsorted.2.2 _ (List.mem_map.mpr ⟨_, hfield', rfl⟩) _ (by simp)
      rw [List.foldl_cons, insert_of_forall_lt hlt, ih _ (by simpa using hsorted)]
      simp
  exact congrArg Json.object (hgeneral fields [] h)

/-! ## Views -/

/-- The member of a value with a given key, if the value is an object that has it. -/
def get? (value : Json) (key : Str) : Option Json :=
  match value with
  | .object fields => lookup key fields
  | _ => none

/-- The member of a value with a given key, or `null`. -/
def get (value : Json) (key : Str) : Json := (value.get? key).getD .null

/-- The text of a string. -/
def asStr : Json → Option Str
  | .string s => some s
  | _ => none

/-- The value of a boolean. -/
def asBool : Json → Option Bool
  | .bool b => some b
  | _ => none

/-- The elements of an array. -/
def asArray : Json → Option (List Json)
  | .array items => some items
  | _ => none

/-- The members of an object. -/
def asObject : Json → Option (List (Str × Json))
  | .object fields => some fields
  | _ => none

/-- An integer of 64 bits with sign. -/
def asI64 : Json → Option Int
  | .number (.int i) => if -2 ^ 63 ≤ i ∧ i < 2 ^ 63 then some i else none
  | _ => none

/-- The array of strings with the given texts. -/
def strings (texts : List Str) : Json := .array (texts.map .string)

/-- The texts of an array all of whose elements are strings. -/
def asStrings (value : Json) : Option (List Str) := value.asArray.bind fun items => items.mapM asStr

/-- `asStrings` undoes `strings`. -/
@[simp] theorem asStrings_strings (texts : List Str) : (strings texts).asStrings = some texts := by
  show (texts.map Json.string).mapM asStr = some texts
  induction texts with
  | nil => rfl
  | cons text texts ih => simp only [List.map_cons, List.mapM_cons, asStr, ih]; rfl

/-- `ofPairs` takes the last of the pairs with a key. -/
theorem get?_ofPairs (pairs : List (Str × Json)) (key : Str) :
    (ofPairs pairs).get? key = lookup key pairs.reverse := by
  have hgeneral : ∀ (pairs fields : List (Str × Json)),
      lookup key (pairs.foldl (fun fields pair => insert pair.1 pair.2 fields) fields)
        = (lookup key pairs.reverse).or (lookup key fields) := by
    intro pairs
    induction pairs with
    | nil => intro fields; rfl
    | cons pair pairs ih =>
      intro fields
      rw [List.foldl_cons, ih, List.reverse_cons]
      have happend : lookup key (pairs.reverse ++ [pair])
          = (lookup key pairs.reverse).or (lookup key [pair]) := by
        rw [lookup, List.find?_append, Option.map_or]; rfl
      rw [happend, Option.or_assoc]
      congr 1
      by_cases hkey : pair.1 = key
      · simp [← hkey, lookup_cons]
      · rw [lookup_insert_ne (Ne.symm hkey), lookup_cons, if_neg hkey, lookup_nil, Option.none_or]
  have h := hgeneral pairs []
  rwa [lookup_nil, Option.or_none] at h

/-! ## Deep merge -/

mutual

/-- Deep-merge two values: objects member by member, anything else is replaced. -/
def deepMerge (base : Json) : (patch : Json) → Json
  | .object patchFields => match base with
    | .object baseFields => .object (mergeFields baseFields patchFields)
    | _ => .object patchFields
  | patch => patch

/-- Merge the members of a patch into the members of an object, one by one. -/
def mergeFields (fields : List (Str × Json)) : (patch : List (Str × Json)) → List (Str × Json)
  | [] => fields
  | (key, value) :: rest =>
    mergeFields (insert key (deepMerge ((lookup key fields).getD .null) value) fields) rest

end

/-- `asStr` of a member is that of what `get?` finds, if it finds anything. -/
theorem asStr_get (value : Json) (key : Str) : (value.get key).asStr = (value.get? key).bind asStr := by
  rw [get]
  cases value.get? key <;> rfl

/-- `deepMerge` leaves a text exactly when the patch is one. -/
theorem asStr_deepMerge (base patch : Json) : (deepMerge base patch).asStr = patch.asStr := by
  cases patch with
  | object patchFields => cases base <;> simp [deepMerge, asStr]
  | _ => simp [deepMerge]

/-- The key of the first of `Sorted` fields has no member among the others. -/
theorem lookup_eq_none_of_sorted {member : Str × Json} {rest : List (Str × Json)}
    (h : Sorted (member :: rest)) : lookup member.1 rest = none := by
  rw [lookup, Option.map_eq_none_iff, List.find?_eq_none]
  intro other hother heq
  have hlt : member.1 < other.1 :=
    (List.pairwise_cons.mp h).1 other.1 (List.mem_map_of_mem hother)
  rw [of_decide_eq_true heq] at hlt
  exact List.lt_irrefl _ hlt

/-- `mergeFields` leaves, under each key, the text of the patch, or the old one. -/
theorem asStr_lookup_mergeFields (key : Str) {patch : List (Str × Json)} (h : Sorted patch)
    (fields : List (Str × Json)) :
    ((lookup key (mergeFields fields patch)).bind asStr)
      = match lookup key patch with
        | some value => value.asStr
        | none => (lookup key fields).bind asStr := by
  induction patch generalizing fields with
  | nil => rw [mergeFields]; rfl
  | cons member rest ih =>
    rw [mergeFields, ih (List.pairwise_cons.mp h).2, lookup_cons]
    by_cases hkey : member.1 = key
    · subst hkey
      rw [lookup_eq_none_of_sorted h, lookup_insert_self, if_pos rfl]
      exact asStr_deepMerge _ _
    · rw [lookup_insert_ne (Ne.symm hkey), if_neg hkey]

/-! ## Values up to their floating point numbers -/

/-- A number without its digits, if it is a floating point number. -/
def numberSkeleton : JsonNumber → JsonNumber
  | .int i => .int i
  | .float _ => .float []

mutual

/-- A value with the digits of every floating point number in it left out. -/
def skeleton : Json → Json
  | .null => .null
  | .bool b => .bool b
  | .number n => .number (numberSkeleton n)
  | .string s => .string s
  | .array items => .array (skeletonItems items)
  | .object fields => .object (skeletonFields fields)

/-- The elements of an array, each as its `skeleton`. -/
def skeletonItems : List Json → List Json
  | [] => []
  | item :: items => skeleton item :: skeletonItems items

/-- The members of an object, each value as its `skeleton`. -/
def skeletonFields : List (Str × Json) → List (Str × Json)
  | [] => []
  | (key, value) :: fields => (key, skeleton value) :: skeletonFields fields

end

/-- `skeletonItems` goes through a list as `List.map` does. -/
theorem skeletonItems_eq (items : List Json) : skeletonItems items = items.map skeleton := by
  induction items with
  | nil => rfl
  | cons item items ih => rw [skeletonItems, ih, List.map_cons]

/-- Under a key there is the `skeleton` of what was there. -/
theorem lookup_skeletonFields (key : Str) (fields : List (Str × Json)) :
    lookup key (skeletonFields fields) = (lookup key fields).map skeleton := by
  induction fields with
  | nil => rfl
  | cons field fields ih =>
    obtain ⟨key', value⟩ := field
    rw [skeletonFields, lookup_cons, lookup_cons, ih]
    split <;> rfl

/-- A member of a `skeleton` is the `skeleton` of the member. -/
theorem get?_skeleton (value : Json) (key : Str) :
    value.skeleton.get? key = (value.get? key).map skeleton := by
  cases value with
  | object fields => exact lookup_skeletonFields key fields
  | _ => rfl

/-- Texts are left as they are by `skeleton`. -/
@[simp] theorem asStr_skeleton (value : Json) : value.skeleton.asStr = value.asStr := by
  cases value <;> rfl

/-- An array stays one under `skeleton`, with the elements taken one by one. -/
theorem asArray_skeleton (value : Json) :
    value.skeleton.asArray = value.asArray.map (List.map skeleton) := by
  cases value with
  | array items => exact congrArg some (skeletonItems_eq items)
  | _ => rfl

/-- Values with the same `skeleton` have the same texts as members. -/
theorem asStr_get?_of_skeleton_eq {value value' : Json} (h : value'.skeleton = value.skeleton)
    (key : Str) : (value'.get? key).bind asStr = (value.get? key).bind asStr := by
  have hmember := congrArg (fun v : Json => (v.get? key).bind asStr) h
  simp only [get?_skeleton, Option.bind_map, Function.comp_def, asStr_skeleton] at hmember
  exact hmember

/-- A value that nests at most `depth` arrays and objects, with floating point numbers of the printed
form `float`, integers in the range of 64 bits, and objects in key order. -/
inductive ReadableAt (float : Str → Prop) : (depth : Nat) → Json → Prop
  /-- `null` is readable. -/
  | null {depth : Nat} : ReadableAt float depth .null
  /-- Booleans are readable. -/
  | bool {depth : Nat} {b : Bool} : ReadableAt float depth (.bool b)
  /-- Integers that fit 64 bits, with or without sign, are readable. -/
  | int {depth : Nat} {i : Int} (low : -2 ^ 63 ≤ i) (high : i < 2 ^ 64) :
      ReadableAt float depth (.number (.int i))
  /-- Floating point numbers are readable. -/
  | float {depth : Nat} {text : Str} (form : float text) :
      ReadableAt float depth (.number (.float text))
  /-- Strings are readable. -/
  | string {depth : Nat} {s : Str} : ReadableAt float depth (.string s)
  /-- An array of readable elements is readable. -/
  | array {depth : Nat} {items : List Json} (readable : ∀ item ∈ items, ReadableAt float depth item) :
      ReadableAt float (depth + 1) (.array items)
  /-- An object of readable members in key order is readable. -/
  | object {depth : Nat} {fields : List (Str × Json)} (sorted : Sorted fields)
      (readable : ∀ field ∈ fields, ReadableAt float depth field.2) :
      ReadableAt float (depth + 1) (.object fields)

/-- The elements of an array with `ReadableAt` have it one level deeper. -/
theorem ReadableAt.of_array {float : Str → Prop} {depth : Nat} {items : List Json}
    (h : ReadableAt float (depth + 1) (.array items)) {item : Json} (hitem : item ∈ items) :
    ReadableAt float depth item := by
  cases h with
  | array readable => exact readable item hitem

/-- `ReadableAt` of an object is kept when a text is set in it. -/
theorem ReadableAt.insert_string {float : Str → Prop} {depth : Nat} {fields : List (Str × Json)}
    (h : ReadableAt float depth (.object fields)) (key text : Str) :
    ReadableAt float depth (.object (insert key (.string text) fields)) := by
  cases h with
  | object sorted readable =>
    refine .object (sorted.insert key _) fun field hfield => ?_
    rcases mem_insert hfield with rfl | hold
    · exact .string
    · exact readable field hold

/-! ## Exact values -/

/-- A value that nests at most `depth` arrays and objects and survives printing and parsing: no
floating point number, integers in the range of 64 bits, objects in key order. -/
inductive ExactAt : (depth : Nat) → Json → Prop
  /-- `null` is exact. -/
  | null {depth : Nat} : ExactAt depth .null
  /-- Booleans are exact. -/
  | bool {depth : Nat} {b : Bool} : ExactAt depth (.bool b)
  /-- Integers that fit 64 bits, with or without sign, are exact. -/
  | int {depth : Nat} {i : Int} (low : -2 ^ 63 ≤ i) (high : i < 2 ^ 64) :
      ExactAt depth (.number (.int i))
  /-- Strings are exact. -/
  | string {depth : Nat} {s : Str} : ExactAt depth (.string s)
  /-- An array of exact elements is exact. -/
  | array {depth : Nat} {items : List Json} (exact : ∀ item ∈ items, ExactAt depth item) :
      ExactAt (depth + 1) (.array items)
  /-- An object of exact members in key order is exact. -/
  | object {depth : Nat} {fields : List (Str × Json)} (sorted : Sorted fields)
      (exact : ∀ field ∈ fields, ExactAt depth field.2) : ExactAt (depth + 1) (.object fields)

/-- The parser accepts at most this many nested arrays and objects. -/
def maxDepth : Nat := 127

/-- A value that survives printing and parsing. -/
def Exact (value : Json) : Prop := ExactAt maxDepth value

/-- An exact value is its own `skeleton`. -/
theorem ExactAt.skeleton_eq {depth : Nat} {value : Json} (h : value.ExactAt depth) :
    value.skeleton = value := by
  induction h with
  | null => rfl
  | bool => rfl
  | int => rfl
  | string => rfl
  | @array depth items _ ih =>
    rw [skeleton, skeletonItems_eq, List.map_congr_left ih, List.map_id']
  | @object depth fields _ _ ih =>
    have hfields : skeletonFields fields = fields := by
      clear * - ih
      induction fields with
      | nil => rfl
      | cons field fields ihfields =>
        rw [skeletonFields, ih field List.mem_cons_self,
          ihfields fun other hother => ih other (List.mem_cons_of_mem _ hother)]
    rw [skeleton, hfields]

mutual

/-- **What has an exact skeleton is this skeleton**: a value whose `skeleton` is `ExactAt` some
depth has no floating point number in it. -/
theorem skeleton_eq_of_exactAt {depth : Nat} : ∀ {value : Json}, value.skeleton.ExactAt depth →
    value.skeleton = value
  | .null, _ => rfl
  | .bool _, _ => rfl
  | .number (.int _), _ => rfl
  | .number (.float _), h => nomatch h
  | .string _, _ => rfl
  | .array items, h => by
    rw [skeleton] at h
    cases h with
    | array exact => rw [skeleton, skeletonItems_eq_of_exactAt exact]
  | .object fields, h => by
    rw [skeleton] at h
    cases h with
    | object _ exact => rw [skeleton, skeletonFields_eq_of_exactAt exact]

/-- `skeleton_eq_of_exactAt`, element by element. -/
theorem skeletonItems_eq_of_exactAt {depth : Nat} : ∀ {items : List Json},
    (∀ item ∈ skeletonItems items, ExactAt depth item) → skeletonItems items = items
  | [], _ => rfl
  | item :: items, h => by
    rw [skeletonItems] at h ⊢
    rw [skeleton_eq_of_exactAt (h _ List.mem_cons_self),
      skeletonItems_eq_of_exactAt fun other hother => h other (List.mem_cons_of_mem _ hother)]

/-- `skeleton_eq_of_exactAt`, member by member. -/
theorem skeletonFields_eq_of_exactAt {depth : Nat} : ∀ {fields : List (Str × Json)},
    (∀ field ∈ skeletonFields fields, ExactAt depth field.2) → skeletonFields fields = fields
  | [], _ => rfl
  | (key, value) :: fields, h => by
    rw [skeletonFields] at h ⊢
    rw [skeleton_eq_of_exactAt (h _ List.mem_cons_self),
      skeletonFields_eq_of_exactAt fun other hother => h other (List.mem_cons_of_mem _ hother)]

end

/-- A value with the `skeleton` of an exact one is this one. -/
theorem ExactAt.eq_of_skeleton_eq {depth : Nat} {value value' : Json} (h : value.ExactAt depth)
    (hskeleton : value'.skeleton = value.skeleton) : value' = value := by
  rw [h.skeleton_eq] at hskeleton
  rw [← hskeleton] at h ⊢
  exact (skeleton_eq_of_exactAt h).symm

/-- A list of `strings` is `ExactAt` every depth that admits it. -/
theorem exactAt_strings (depth : Nat) (texts : List Str) : ExactAt (depth + 1) (strings texts) := by
  refine .array fun item hitem => ?_
  obtain ⟨text, -, rfl⟩ := List.mem_map.mp hitem
  exact .string

/-- Where no text is a `float`, a value with `ReadableAt` has `ExactAt`. -/
theorem ReadableAt.exactAt {float : Str → Prop} (hfloat : ∀ text, ¬float text) {depth : Nat}
    {value : Json} (h : value.ReadableAt float depth) : value.ExactAt depth := by
  induction h with
  | null => exact .null
  | bool => exact .bool
  | int low high => exact .int low high
  | float form => exact absurd form (hfloat _)
  | string => exact .string
  | array _ ih => exact .array ih
  | object sorted _ ih => exact .object sorted ih

/-- A list of texts has no numbers in it, so it is `Exact`. -/
theorem exact_strings (texts : List Str) : Exact (strings texts) := exactAt_strings _ texts

/-- `ofPairs` of members with `ExactAt` has it one level higher. -/
theorem exactAt_ofPairs {depth : Nat} {pairs : List (Str × Json)}
    (h : ∀ pair ∈ pairs, ExactAt depth pair.2) : ExactAt (depth + 1) (ofPairs pairs) := by
  refine .object (sorted_foldl_insert pairs [] List.Pairwise.nil) fun field hfield => ?_
  rcases mem_foldl_insert hfield with hfield | hfield
  · exact h field hfield
  · cases hfield

end Json

/-! ## Printing and parsing -/

/-- A JSON library: how it prints a value and what it reads a text as. -/
structure JsonCodec where
  /-- Parse a text, or say why it is not JSON. -/
  fromStr : Str → Except Str Json
  /-- Print a value on one line. -/
  toStr : Json → Str
  /-- Print a value on several lines, indented. -/
  toStrPretty : Json → Str
  /-- The message for a value of which a sequence was expected. -/
  notSequence : Json → Str
  /-- The printed forms of the floating point numbers that the library can hold. -/
  isFloat : Str → Prop
  /-- What was parsed is readable. -/
  fromStr_readable : ∀ {text : Str} {value : Json},
    fromStr text = .ok value → value.ReadableAt isFloat Json.maxDepth
  /-- Exact values survive printing and parsing. -/
  fromStr_toStr : ∀ value : Json, value.Exact → fromStr (toStr value) = .ok value
  /-- A readable value that is printed and parsed changes its floating point numbers at most. -/
  skeleton_of_fromStr_toStr : ∀ {value value' : Json}, value.ReadableAt isFloat Json.maxDepth →
    fromStr (toStr value) = .ok value' → value'.skeleton = value.skeleton
  /-- The empty array is printed without white space. -/
  toStr_nil : toStr (.array []) = "[]".toList

namespace JsonCodec

variable (codec : JsonCodec)

/-- The fields of an object that `fromStr` answers are `Sorted`. -/
theorem fromStr_sorted {text : Str} {fields : List (Str × Json)}
    (h : codec.fromStr text = .ok (.object fields)) : Json.Sorted fields := by
  cases codec.fromStr_readable h with
  | object sorted => exact sorted

/-- Parse a text as a list of strings. -/
def stringsFromStr (text : Str) : Option (List Str) :=
  match codec.fromStr text with
  | .ok value => value.asStrings
  | .error _ => none

/-- Parse a text as an array of any values. -/
def arrayFromStr (text : Str) : Option (List Json) :=
  match codec.fromStr text with
  | .ok value => value.asArray
  | .error _ => none

/-- `stringsFromStr` undoes printing a list of `strings`. -/
@[simp] theorem stringsFromStr_strings (texts : List Str) :
    codec.stringsFromStr (codec.toStr (.strings texts)) = some texts := by
  rw [stringsFromStr, codec.fromStr_toStr _ (Json.exact_strings texts)]
  exact Json.asStrings_strings texts

end JsonCodec

end LogosFs
