import LogosFs.Lib.Replace

/-! # Escaping by a table, and decoding one entity after the other

`escapeWith` writes an entity for each character of a table, in a single pass. `decodeAll` undoes it by
replacing one entity after the other in the whole text, so that what one replacement gives may be taken
up by the next. Each replacement does its part on what is escaped (`replace_escapeWith_mark`,
`replace_escapeWith`), and it does it on what merely looks like an entity as well
(`length_decodeAll_lt`). -/

namespace LogosFs.Str

/-- Write an entity for each character that is in the table. -/
def escapeWith (table : List (Char × Str)) (s : Str) : Str :=
  s.flatMap fun c => (table.lookup c).getD [c]

/-- Replace one entity after the other. -/
def decodeAll (entities : List (Str × Str)) (s : Str) : Str :=
  entities.foldl (fun s entity => replace entity.1 entity.2 s) s

/-! ## Lengths -/

section Length

variable {pattern new s : Str}

/-- `replace` goes through a text step by step: it replaces the pattern in front, or keeps the first
character. -/
theorem replace_cases (hne : pattern ≠ []) (c : Char) (s : Str) :
    (∃ rest, c :: s = pattern ++ rest ∧
        replace pattern new (c :: s) = new ++ replace pattern new rest) ∨
      ¬pattern <+: c :: s ∧ replace pattern new (c :: s) = c :: replace pattern new s := by
  by_cases hstart : pattern <+: c :: s
  · obtain ⟨rest, hrest⟩ := hstart
    exact .inl ⟨rest, hrest.symm, by rw [← hrest, replace_append hne]⟩
  · exact .inr ⟨hstart, replace_cons hstart⟩

/-- `replace` makes no text longer if what it puts in is not longer than the pattern. -/
theorem length_replace_le (hne : pattern ≠ []) (hle : new.length ≤ pattern.length) (s : Str) :
    (replace pattern new s).length ≤ s.length := by
  induction hn : s.length using Nat.strongRecOn generalizing s with
  | ind n ih =>
    subst hn
    cases s with
    | nil => exact Nat.le_refl 0
    | cons c s =>
      rcases replace_cases hne c s with ⟨rest, hs, hreplace⟩ | ⟨-, hreplace⟩
      · have hpos := List.length_pos_iff.mpr hne
        have hlength : (c :: s).length = pattern.length + rest.length := by
          rw [hs, List.length_append]
        have hrest := ih rest.length (by omega) rest rfl
        rw [hreplace, List.length_append]
        omega
      · rw [hreplace, List.length_cons, List.length_cons]
        exact Nat.succ_le_succ (ih s.length (Nat.lt_succ_self _) s rfl)

/-- `replace` by something shorter makes a text shorter in which the pattern occurs. -/
theorem length_replace_lt (hlt : new.length < pattern.length) (h : pattern <:+: s) :
    (replace pattern new s).length < s.length := by
  have hne : pattern ≠ [] := List.ne_nil_of_length_pos (by omega)
  induction s with
  | nil => exact absurd (List.infix_nil.mp h) hne
  | cons c s ih =>
    rcases replace_cases hne c s with ⟨rest, hs, hreplace⟩ | ⟨hstart, hreplace⟩
    · have hlength : (c :: s).length = pattern.length + rest.length := by
        rw [hs, List.length_append]
      have hrest := length_replace_le hne (Nat.le_of_lt hlt) rest
      rw [hreplace, List.length_append]
      omega
    · rw [hreplace, List.length_cons, List.length_cons]
      exact Nat.succ_lt_succ (ih ((List.infix_cons_iff.mp h).resolve_left hstart))

variable {entities : List (Str × Str)}

/-- `decodeAll` makes no text longer if every entity is longer than what it stands for. -/
theorem length_decodeAll_le (h : ∀ entity ∈ entities, entity.2.length < entity.1.length) (s : Str) :
    (decodeAll entities s).length ≤ s.length := by
  induction entities generalizing s with
  | nil => exact Nat.le_refl _
  | cons entity entities ih =>
    rw [List.forall_mem_cons] at h
    have hne : entity.1 ≠ [] := List.ne_nil_of_length_pos (by omega)
    exact (ih h.2 _).trans (length_replace_le hne (Nat.le_of_lt h.1) s)

/-- **What looks like an entity is decoded**: `decodeAll` makes the text shorter. -/
theorem length_decodeAll_lt (h : ∀ entity ∈ entities, entity.2.length < entity.1.length)
    (hs : ∃ entity ∈ entities, entity.1 <:+: s) : (decodeAll entities s).length < s.length := by
  induction entities with
  | nil =>
    obtain ⟨_, hmem, -⟩ := hs
    cases hmem
  | cons entity entities ih =>
    rw [List.forall_mem_cons] at h
    by_cases hfirst : entity.1 <:+: s
    · exact Nat.lt_of_le_of_lt (length_decodeAll_le h.2 _) (length_replace_lt h.1 hfirst)
    · have hsame : decodeAll (entity :: entities) s = decodeAll entities s := by
        rw [decodeAll, List.foldl_cons, replace_of_not_infix hfirst, decodeAll]
      obtain ⟨other, hmem, hother⟩ := hs
      rw [hsame]
      refine ih h.2 ⟨other, (List.mem_cons.mp hmem).resolve_left ?_, hother⟩
      rintro rfl
      exact hfirst hother

/-- `decodeAll` leaves a text without anything that looks like an entity. -/
theorem decodeAll_of_not_infix (hs : ∀ entity ∈ entities, ¬entity.1 <:+: s) :
    decodeAll entities s = s := by
  induction entities with
  | nil => rfl
  | cons entity entities ih =>
    rw [List.forall_mem_cons] at hs
    rw [decodeAll, List.foldl_cons, replace_of_not_infix hs.1]
    exact ih hs.2

end Length

/-! ## Decoding what was escaped -/

section Escape

variable {mark : Char} {table : List (Char × Str)} {entity : Str}

/-- Every entity begins with a mark, and has it nowhere else. -/
def Marked (mark : Char) (entity : Str) : Prop := ∃ body, entity = mark :: body ∧ mark ∉ body

/-- An entity can be told from those of a table: neither begins with the other. -/
def Apart (entity : Str) (table : List (Char × Str)) : Prop :=
  ∀ entry ∈ table, ¬entity <+: entry.2 ∧ ¬entry.2 <+: entity

/-- An entity that `lookup` finds is in the table. -/
theorem mem_of_lookup {c : Char} (h : table.lookup c = some entity) : (c, entity) ∈ table := by
  obtain ⟨front, back, rfl, -⟩ := List.lookup_eq_some_iff.mp h
  exact List.mem_append_right _ List.mem_cons_self

/-- `lookup` of a character passes the entries of other ones. -/
theorem lookup_cons_of_ne {c d : Char} (h : c ≠ d) :
    ((d, entity) :: table).lookup c = table.lookup c := by
  rw [List.lookup_cons, beq_eq_false_iff_ne.mpr h]

/-- `escapeWith` escapes character by character, by the table where it has an entry. -/
theorem escapeWith_cons (table : List (Char × Str)) (c : Char) (s : Str) :
    escapeWith table (c :: s) = (table.lookup c).getD [c] ++ escapeWith table s :=
  List.flatMap_cons ..

/-- `escapeWith` keeps characters that are not in the table. -/
theorem escapeWith_append_of_none {front : Str} (h : ∀ c ∈ front, table.lookup c = none) (s : Str) :
    escapeWith table (front ++ s) = front ++ escapeWith table s := by
  induction front with
  | nil => rfl
  | cons c front ih =>
    rw [List.forall_mem_cons] at h
    rw [List.cons_append, escapeWith_cons, h.1, ih h.2]
    rfl

/-- A text without the mark begins what `escapeWith` writes only if it begins the text itself. -/
theorem prefix_of_prefix_escapeWith (hmarked : ∀ entry ∈ table, Marked mark entry.2) {body s : Str}
    (hbody : mark ∉ body) (h : body <+: escapeWith table s) : body <+: s := by
  induction body generalizing s with
  | nil => exact List.nil_prefix
  | cons b body ih =>
    rw [List.mem_cons, not_or] at hbody
    cases s with
    | nil => cases List.prefix_nil.mp h
    | cons c s =>
      rw [escapeWith_cons] at h
      cases hlookup : table.lookup c with
      | none =>
        rw [hlookup, Option.getD_none, List.singleton_append, List.cons_prefix_cons] at h
        exact List.cons_prefix_cons.mpr ⟨h.1, ih hbody.2 h.2⟩
      | some f =>
        obtain ⟨rest, hrest, -⟩ := hmarked _ (mem_of_lookup hlookup)
        dsimp only at hrest
        rw [hlookup, Option.getD_some, hrest, List.cons_append, List.cons_prefix_cons] at h
        exact absurd h.1.symm hbody.1

/-- `replace` of one `Marked` entity leaves another one alone that it is apart from. -/
theorem replace_append_of_apart {new other : Str} (hentity : Marked mark entity)
    (hother : Marked mark other) (hapart : ¬entity <+: other ∧ ¬other <+: entity) (s : Str) :
    replace entity new (other ++ s) = other ++ replace entity new s := by
  obtain ⟨body, hbody, hmark⟩ := hother
  obtain ⟨ebody, hebody, -⟩ := hentity
  refine replace_append_of_no_start fun first back hfirst hback hstart => ?_
  cases first with
  | nil =>
    rw [List.nil_append] at hfirst
    rw [← hfirst] at hstart
    rcases List.prefix_or_prefix_of_prefix hstart (List.prefix_append other s) with h | h
    · exact hapart.1 h
    · exact hapart.2 h
  | cons c first =>
    -- The entity would start with the mark inside of the other one.
    obtain ⟨d, back, rfl⟩ := List.exists_cons_of_ne_nil hback
    rw [hbody, List.cons_append] at hfirst
    rw [hebody, List.cons_append, List.cons_prefix_cons] at hstart
    refine hmark ?_
    rw [(List.cons.inj hfirst).2, hstart.1]
    exact List.mem_append_right _ List.mem_cons_self

/-- **Decoding the mark** undoes escaping it: `replace` takes its entry off the table of
`escapeWith`. -/
theorem replace_escapeWith_mark (hentity : Marked mark entity)
    (hmarked : ∀ entry ∈ table, Marked mark entry.2) (hapart : Apart entity table)
    (hnone : table.lookup mark = none) (s : Str) :
    replace entity [mark] (escapeWith ((mark, entity) :: table) s) = escapeWith table s := by
  obtain ⟨body, hbody, -⟩ := id hentity
  have hne : entity ≠ [] := by rw [hbody]; exact List.cons_ne_nil _ _
  induction s with
  | nil => rfl
  | cons c s ih =>
    rw [escapeWith_cons, escapeWith_cons]
    by_cases hc : c = mark
    · rw [hc, List.lookup_cons_self, hnone, Option.getD_some, replace_append hne, ih]
      rfl
    · rw [lookup_cons_of_ne hc]
      cases hlookup : table.lookup c with
      | none =>
        have hstart : ¬entity <+: c :: escapeWith ((mark, entity) :: table) s := by
          rw [hbody, List.cons_prefix_cons]
          exact fun h => hc h.1.symm
        rw [Option.getD_none, List.singleton_append, replace_cons hstart, ih]
        rfl
      | some f =>
        have hmem := mem_of_lookup hlookup
        rw [Option.getD_some, replace_append_of_apart hentity (hmarked _ hmem) (hapart _ hmem), ih]

/-- **Decoding another character** by `replace` undoes escaping it, and decodes what looked like its
entity before. -/
theorem replace_escapeWith {c : Char} (hentity : Marked mark entity)
    (hmarked : ∀ entry ∈ table, Marked mark entry.2) (hapart : Apart entity table)
    (hkey : ∀ d ∈ entity, ((c, entity) :: table).lookup d = none) (hnone : table.lookup c = none)
    (s : Str) : replace entity [c] (escapeWith ((c, entity) :: table) s)
      = escapeWith table (replace entity [c] s) := by
  obtain ⟨body, hbody, hmark⟩ := id hentity
  have hne : entity ≠ [] := by rw [hbody]; exact List.cons_ne_nil _ _
  have hall : ∀ entry ∈ (c, entity) :: table, Marked mark entry.2 :=
    List.forall_mem_cons.mpr ⟨hentity, hmarked⟩
  -- By the length of the text, as a replacement skips a whole entity.
  induction hn : s.length using Nat.strongRecOn generalizing s with
  | ind n ih =>
    subst hn
    cases s with
    | nil => rfl
    | cons d s =>
      rcases replace_cases hne d s with ⟨rest, hs, hreplace⟩ | ⟨hstart, hreplace⟩
      · -- The text has looked like the entity before.
        have hlength : (d :: s).length = entity.length + rest.length := by
          rw [hs, List.length_append]
        have hpos := List.length_pos_iff.mpr hne
        rw [hreplace, hs, escapeWith_append_of_none hkey, replace_append hne,
          ih rest.length (by omega) rest rfl, List.singleton_append, List.singleton_append,
          escapeWith_cons, hnone]
        rfl
      · have hrest := ih s.length (Nat.lt_succ_self _) s rfl
        rw [hreplace, escapeWith_cons, escapeWith_cons]
        -- Either the character is the one that this entity stands for, or one of the others, or
        -- none.
        by_cases hd : d = c
        · rw [hd, List.lookup_cons_self, hnone, Option.getD_some, replace_append hne, hrest]
          rfl
        · rw [lookup_cons_of_ne hd]
          cases hlookup : table.lookup d with
          | none =>
            have hescaped : ¬entity <+: d :: escapeWith ((c, entity) :: table) s := by
              rw [hbody, List.cons_prefix_cons] at hstart ⊢
              exact fun h => hstart ⟨h.1, prefix_of_prefix_escapeWith (hbody ▸ hall) hmark (hbody ▸ h.2)⟩
            rw [Option.getD_none, List.singleton_append, replace_cons hescaped, hrest]
            rfl
          | some f =>
            have hmem := mem_of_lookup hlookup
            rw [Option.getD_some, replace_append_of_apart hentity (hmarked _ hmem) (hapart _ hmem),
              hrest]

/-! ## Decoding a whole table -/

/-- `Marked` can be checked by the head and the tail. -/
theorem marked_iff : Marked mark entity ↔ entity.head? = some mark ∧ mark ∉ entity.tail := by
  constructor
  · rintro ⟨body, rfl, hbody⟩
    exact ⟨rfl, hbody⟩
  · rintro ⟨hhead, htail⟩
    cases entity with
    | nil => cases hhead
    | cons c body =>
      obtain rfl := Option.some_inj.mp hhead
      exact ⟨body, rfl, htail⟩

instance : Decidable (Marked mark entity) := decidable_of_iff _ marked_iff.symm

instance : Decidable (Apart entity table) := List.decidableBAll _ _

/-- The entities of a table can be decoded one after the other. -/
inductive Decodable (mark : Char) : List (Char × Str) → Prop
  /-- There is none. -/
  | nil : Decodable mark []
  /-- The first one can be told from the others, and has none of the characters in it. -/
  | cons {c : Char} {entity : Str} {table : List (Char × Str)} (marked : Marked mark entity)
      (apart : Apart entity table) (key : ∀ d ∈ entity, ((c, entity) :: table).lookup d = none)
      (fresh : table.lookup c = none) (rest : Decodable mark table) :
      Decodable mark ((c, entity) :: table)

/-- Every entity of a `Decodable` table is `Marked`. -/
theorem Decodable.marked (h : Decodable mark table) : ∀ entry ∈ table, Marked mark entry.2 := by
  induction h with
  | nil => exact fun _ h => nomatch h
  | cons marked _ _ _ _ ih => exact List.forall_mem_cons.mpr ⟨marked, ih⟩

/-- The replacements that decode a table. -/
def decoders (table : List (Char × Str)) : List (Str × Str) :=
  table.map fun entry => (entry.2, [entry.1])

/-- **Decoding what was escaped**: `decodeAll` after `escapeWith` does what it does to the text
itself. -/
theorem decodeAll_escapeWith (h : Decodable mark table) (s : Str) :
    decodeAll (decoders table) (escapeWith table s) = decodeAll (decoders table) s := by
  induction h generalizing s with
  | nil => exact List.flatMap_singleton' s
  | cons marked apart key fresh rest ih =>
    rw [decoders, List.map_cons, decodeAll, List.foldl_cons, decodeAll, List.foldl_cons,
      replace_escapeWith marked rest.marked apart key fresh]
    exact ih _

end Escape

end LogosFs.Str
