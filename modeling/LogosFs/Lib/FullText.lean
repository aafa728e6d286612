import Mathlib.Data.List.Basic

/-! # Full-text indices over external content

Such an index holds **postings** for each row number: which token stands in which column at which
position. It does not hold the texts themselves. It is kept by token: `delete` removes, for each token
of the texts that it is given, whatever is held of this token, and `insert` replaces it by the places
where the token stands in the texts. A phrase matches where its tokens stand one after the other in
one column (`Matches`). -/

namespace LogosFs.FullText

variable {Token : Type}

/-- A posting: a column, a position in it, and the token there. -/
abbrev Posting (Token : Type) : Type := Nat × Nat × Token

/-- The postings of a row that is given by the tokens of its columns. -/
def postings (columns : List (List Token)) : List (Posting Token) :=
  columns.zipIdx.flatMap fun column => column.1.zipIdx.map fun token =>
    (column.2, token.2, token.1)

/-- A posting is one of `postings columns` if its token stands in its column at its position. -/
theorem mem_postings {columns : List (List Token)} {column position : Nat} {token : Token} :
    (column, position, token) ∈ postings columns ↔
      ∃ tokens, columns[column]? = some tokens ∧ tokens[position]? = some token := by
  simp only [postings, List.mem_flatMap, List.mem_map, Prod.exists, Prod.mk.injEq,
    List.mk_mem_zipIdx_iff_getElem?]
  constructor
  · rintro ⟨tokens, _, hcolumn, _, _, htoken, rfl, rfl, rfl⟩
    exact ⟨tokens, hcolumn, htoken⟩
  · rintro ⟨tokens, hcolumn, htoken⟩
    exact ⟨tokens, column, hcolumn, token, position, htoken, rfl, rfl, rfl⟩

/-- A text without tokens has no `postings`. -/
@[simp] theorem postings_nil : postings [([] : List Token)] = [] := rfl

/-- The tokens of a phrase are held one after the other, in one column. -/
def Matches (held : List (Posting Token)) (phrase : List Token) : Prop :=
  phrase ≠ [] ∧ ∃ first ∈ held, ∀ entry ∈ phrase.zipIdx,
    (first.1, first.2.1 + entry.2, entry.1) ∈ held

instance [DecidableEq Token] (held : List (Posting Token)) (phrase : List Token) :
    Decidable (Matches held phrase) := inferInstanceAs (Decidable (_ ∧ _))

/-- The tokens of a phrase stand one after the other in one of the columns. -/
def Contains (columns : List (List Token)) (phrase : List Token) : Prop :=
  phrase ≠ [] ∧ ∃ tokens ∈ columns, phrase <:+: tokens

/-- `Matches` depends on which postings are held only, not on how often. -/
theorem matches_congr {held held' : List (Posting Token)} (h : ∀ p, p ∈ held ↔ p ∈ held')
    (phrase : List Token) : Matches held phrase ↔ Matches held' phrase := by
  simp only [Matches, h]

/-- **The postings of a row** match the phrases that the row `Contains`. -/
theorem matches_postings_iff (columns : List (List Token)) (phrase : List Token) :
    Matches (postings columns) phrase ↔ Contains columns phrase := by
  refine and_congr_right fun hne => ?_
  have hlength : 0 < phrase.length := List.length_pos_iff.mpr hne
  constructor
  · rintro ⟨⟨column, start, token⟩, hfirst, hall⟩
    obtain ⟨tokens, hcolumn, -⟩ := mem_postings.mp hfirst
    have hat : ∀ i (hi : i < phrase.length), tokens[i + start]? = some phrase[i] := by
      intro i hi
      have hentry := hall (phrase[i], i) (List.mk_mem_zipIdx_iff_getElem?.mpr
        (List.getElem?_eq_getElem hi))
      obtain ⟨tokens', hcolumn', htoken⟩ := mem_postings.mp hentry
      rw [hcolumn, Option.some_inj] at hcolumn'
      rw [hcolumn', Nat.add_comm]
      exact htoken
    refine ⟨tokens, List.mem_of_getElem? hcolumn, List.infix_iff_getElem?.mpr ⟨start, ?_, hat⟩⟩
    have hlast := hat (phrase.length - 1) (by omega)
    have hbound := (List.getElem?_eq_some_iff.mp hlast).1
    omega
  · rintro ⟨tokens, htokens, hinfix⟩
    obtain ⟨column, hcolumn⟩ := List.mem_iff_getElem?.mp htokens
    obtain ⟨start, -, hat⟩ := List.infix_iff_getElem?.mp hinfix
    have hposting : ∀ i (hi : i < phrase.length),
        (column, start + i, phrase[i]) ∈ postings columns := by
      intro i hi
      exact mem_postings.mpr ⟨tokens, hcolumn, Nat.add_comm i start ▸ hat i hi⟩
    refine ⟨(column, start, phrase[0]), hposting 0 hlength, fun entry hentry => ?_⟩
    obtain ⟨hi, htoken⟩ := List.getElem?_eq_some_iff.mp
      (List.mk_mem_zipIdx_iff_getElem?.mp (show (entry.1, entry.2) ∈ phrase.zipIdx from hentry))
    rw [← htoken]
    exact hposting entry.2 hi

/-! ## Inserting and deleting -/

variable {held : List (Posting Token)} {columns : List (List Token)} {posting : Posting Token}

/-- The token of one of the `postings` of a row is a token of the row. -/
theorem token_mem_of_mem_postings (h : posting ∈ postings columns) :
    posting.2.2 ∈ columns.flatten := by
  obtain ⟨tokens, hcolumn, htoken⟩ := mem_postings.mp h
  exact List.mem_flatten_of_mem (List.mem_of_getElem? hcolumn) (List.mem_of_getElem? htoken)

variable [DecidableEq Token]

/-- Remove what is held of the tokens of a row. -/
def delete (held : List (Posting Token)) (columns : List (List Token)) : List (Posting Token) :=
  held.filter fun posting => posting.2.2 ∉ columns.flatten

/-- Replace what is held of the tokens of a row by the postings of the row. -/
def insert (held : List (Posting Token)) (columns : List (List Token)) : List (Posting Token) :=
  delete held columns ++ postings columns

/-- What `delete` leaves are the postings of other tokens. -/
theorem mem_delete : posting ∈ delete held columns ↔
    posting ∈ held ∧ posting.2.2 ∉ columns.flatten := by
  rw [delete, List.mem_filter, decide_eq_true_iff]

/-- What an index holds after `insert` is of other tokens, or one of `postings columns`. -/
theorem mem_insert : posting ∈ insert held columns ↔
    (posting ∈ held ∧ posting.2.2 ∉ columns.flatten) ∨ posting ∈ postings columns := by
  rw [insert, List.mem_append, mem_delete]

/-- Where nothing is held of other tokens, `insert` leaves exactly `postings columns`. -/
theorem mem_insert_of_tokens (h : ∀ p ∈ held, p.2.2 ∈ columns.flatten) :
    posting ∈ insert held columns ↔ posting ∈ postings columns := by
  rw [mem_insert]
  exact or_iff_right fun hold => hold.2 (h posting hold.1)

end LogosFs.FullText
