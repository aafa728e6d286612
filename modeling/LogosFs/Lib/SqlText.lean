import LogosFs.Lib.Text

/-! # Literals in the text of a predicate

A string literal of SQL stands between single quotes, and a doubled quote in it stands for one.
`readLiteral` reads a literal from the front of a text and `readComparison` a whole text of the form
`column = 'value'`. What is read back is what was written, if the quotes were doubled
(`readBody_eq_some_iff`); a value that is written as it is reads back exactly if it has no quote in
it (`readComparison_verbatim_iff`). -/

namespace LogosFs.SqlText

/-- A value with its quotes doubled. -/
def escape (value : Str) : Str := value.flatMap fun c => if c = '\'' then ['\'', '\''] else [c]

/-- `escape` leaves the empty text. -/
@[simp] theorem escape_nil : escape [] = [] := rfl

/-- `escape` doubles a quote. -/
theorem escape_quote_cons (value : Str) : escape ('\'' :: value) = '\'' :: '\'' :: escape value := rfl

/-- `escape` keeps a character other than the quote. -/
theorem escape_cons_of_ne {c : Char} (hc : c ≠ '\'') (value : Str) :
    escape (c :: value) = c :: escape value := by
  rw [escape, List.flatMap_cons, if_neg hc]
  rfl

/-- `escape` makes a value longer by one for each quote. -/
theorem length_escape (value : Str) :
    (escape value).length = value.length + value.count '\'' := by
  induction value with
  | nil => rfl
  | cons c value ih =>
    by_cases hc : c = '\''
    · subst hc
      rw [escape_quote_cons, List.count_cons_self]
      simp only [List.length_cons]
      omega
    · rw [escape_cons_of_ne hc, List.count_cons_of_ne hc]
      simp only [List.length_cons]
      omega

/-- `escape` leaves the values without quotes, and no other. -/
theorem escape_eq_self_iff {value : Str} : escape value = value ↔ '\'' ∉ value := by
  constructor
  · intro h hmem
    have hlength := length_escape value
    have hcount := List.count_pos_iff.mpr hmem
    rw [h] at hlength
    omega
  · intro h
    induction value with
    | nil => rfl
    | cons c value ih =>
      rw [List.mem_cons, not_or] at h
      rw [escape_cons_of_ne (Ne.symm h.1), ih h.2]

/-- Read a literal after its opening quote: the value, and the text after the closing quote. -/
def readBody : Str → Option (Str × Str)
  | [] => none
  | c :: text =>
    if c = '\'' then
      match text with
      | [] => some ([], [])
      | d :: text' =>
        if d = '\'' then (readBody text').map fun (value, rest) => ('\'' :: value, rest)
        else some ([], d :: text')
    else (readBody text).map fun (value, rest) => (c :: value, rest)

/-- **What `readBody` reads** is the value of which `escape` comes first in the text, up to the
first single quote. -/
theorem readBody_eq_some_iff {text value rest : Str} :
    readBody text = some (value, rest) ↔
      text = escape value ++ '\'' :: rest ∧ ¬['\''] <+: rest := by
  have hstart : ∀ c tail, ['\''] <+: (c :: tail : Str) ↔ c = '\'' := fun c tail => by
    rw [List.cons_prefix_cons]
    exact ⟨fun h => h.1.symm, fun h => ⟨h.symm, List.nil_prefix⟩⟩
  fun_induction readBody text generalizing value with
  | case1 =>
    refine iff_of_false (fun h => nomatch h) fun h => ?_
    exact List.append_ne_nil_of_right_ne_nil _ (List.cons_ne_nil _ _) h.1.symm
  | case2 =>
    -- A quote at the end closes the literal.
    constructor
    · rintro ⟨⟩
      exact ⟨rfl, fun h => nomatch List.prefix_nil.mp h⟩
    · rintro ⟨htext, -⟩
      cases value with
      | nil => cases htext; rfl
      | cons c value =>
        have hlength := congrArg List.length htext
        have hescape := length_escape (c :: value)
        simp only [List.length_cons, List.length_append, List.length_nil] at hlength hescape
        omega
  | case3 text' ih =>
    -- A doubled quote is a part of the value.
    rw [Option.map_eq_some_iff]
    constructor
    · rintro ⟨⟨value', rest'⟩, hread, heq⟩
      cases heq
      obtain ⟨rfl, hrest⟩ := ih.mp hread
      exact ⟨rfl, hrest⟩
    · rintro ⟨htext, hrest⟩
      cases value with
      | nil =>
        cases htext
        exact absurd ((hstart ..).mpr rfl) hrest
      | cons c value =>
        by_cases hc : c = '\''
        · subst hc
          rw [escape_quote_cons] at htext
          cases htext
          exact ⟨(value, rest), ih.mpr ⟨rfl, hrest⟩, rfl⟩
        · rw [escape_cons_of_ne hc] at htext
          exact absurd (List.cons.inj htext).1.symm hc
  | case4 d text' hd =>
    -- A quote before another character closes the literal.
    constructor
    · rintro ⟨⟩
      exact ⟨rfl, fun h => hd ((hstart ..).mp h)⟩
    · rintro ⟨htext, -⟩
      cases value with
      | nil => cases htext; rfl
      | cons c value =>
        by_cases hc : c = '\''
        · subst hc
          rw [escape_quote_cons] at htext
          exact absurd (List.cons.inj (List.cons.inj htext).2).1 hd
        · rw [escape_cons_of_ne hc] at htext
          exact absurd (List.cons.inj htext).1.symm hc
  | case5 c text hc ih =>
    rw [Option.map_eq_some_iff]
    constructor
    · rintro ⟨⟨value', rest'⟩, hread, heq⟩
      cases heq
      obtain ⟨rfl, hrest⟩ := ih.mp hread
      exact ⟨by rw [escape_cons_of_ne hc, List.cons_append], hrest⟩
    · rintro ⟨htext, hrest⟩
      cases value with
      | nil => exact absurd (List.cons.inj htext).1 hc
      | cons c' value =>
        by_cases hc' : c' = '\''
        · subst hc'
          exact absurd (List.cons.inj htext).1 hc
        · rw [escape_cons_of_ne hc'] at htext
          cases htext
          exact ⟨(value, rest), ih.mpr ⟨rfl, hrest⟩, rfl⟩

/-- Read a literal: the value, and the text after it. -/
def readLiteral (text : Str) : Option (Str × Str) :=
  (Str.stripPrefix ['\''] text).bind readBody

/-- A character of the name of a column. -/
def isWordChar (c : Char) : Bool := c.isAlpha || c == '_'

/-- Read a text `column = 'value'`, with blanks around its three parts: the column, and the value. -/
def readComparison (text : Str) : Option (Str × Str) :=
  let column := text.takeWhile isWordChar
  match Str.stripPrefix ['='] ((text.drop column.length).dropWhile (· = ' ')) with
  | some right => match readLiteral (right.dropWhile (· = ' ')) with
    | some (value, rest) => if rest.all (· = ' ') then some (column, value) else none
    | none => none
  | none => none

/-- `readComparison` reads a value back that was put between quotes as it is exactly if it has no
quote in it. -/
theorem readComparison_verbatim_iff {column value : Str} (hcolumn : ∀ c ∈ column, isWordChar c) :
    readComparison (column ++ " = '".toList ++ value ++ ['\'']) = some (column, value) ↔
      '\'' ∉ value := by
  have htext : column ++ " = '".toList ++ value ++ ['\'']
      = column ++ (" = '".toList ++ (value ++ ['\''])) := by
    simp only [List.append_assoc]
  have htake : (column ++ (" = '".toList ++ (value ++ ['\'']))).takeWhile isWordChar = column := by
    rw [List.takeWhile_append_of_pos hcolumn]
    exact List.append_nil column
  have hright : Str.stripPrefix ['='] ((" = '".toList ++ (value ++ ['\''])).dropWhile (· = ' '))
      = some (' ' :: '\'' :: (value ++ ['\''])) := rfl
  have hliteral : readLiteral ((' ' :: '\'' :: (value ++ ['\''])).dropWhile (· = ' '))
      = readBody (value ++ ['\'']) := rfl
  unfold readComparison
  rw [htext, htake]
  dsimp only
  rw [List.drop_left, hright]
  dsimp only
  rw [hliteral]
  constructor
  · intro h
    cases hread : readBody (value ++ ['\'']) with
    | none =>
      rw [hread] at h
      cases h
    | some result =>
      obtain ⟨value', rest⟩ := result
      rw [hread] at h
      dsimp only at h
      split at h
      · rename_i hrest
        cases h
        obtain ⟨htext, -⟩ := readBody_eq_some_iff.mp hread
        -- Both texts end in a quote, and nothing but blanks follows the one that was read.
        have hlength := congrArg List.length htext
        have hescape := length_escape value
        simp only [List.length_append, List.length_cons, List.length_nil] at hlength
        intro hmem
        have hcount := List.count_pos_iff.mpr hmem
        omega
      · cases h
  · intro h
    have hread : readBody (value ++ ['\'']) = some (value, []) := by
      rw [readBody_eq_some_iff, escape_eq_self_iff.mpr h]
      exact ⟨rfl, fun h => nomatch List.prefix_nil.mp h⟩
    rw [hread]
    rfl

end LogosFs.SqlText
