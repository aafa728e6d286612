import LogosFs.Lib.Text

/-! # Patterns of `LIKE`

In a pattern `%` stands for any text, `_` for any character, and every other character for itself;
ASCII letters match in either case. -/

namespace LogosFs.Like

/-- The text matches the pattern. -/
def matchesPattern : (pattern text : Str) → Bool
  | [], text => text.isEmpty
  | c :: pattern, text =>
    if c = '%' then text.tails.any fun rest => matchesPattern pattern rest
    else match text with
      | [] => false
      | d :: rest => (c = '_' || c.toLower = d.toLower) && matchesPattern pattern rest

/-- A `%` stands for any text, a `_` for any character, and a letter for itself in either case. -/
theorem matchesPattern_cons (c : Char) (pattern text : Str) : matchesPattern (c :: pattern) text =
    if c = '%' then text.tails.any fun rest => matchesPattern pattern rest
    else match text with
      | [] => false
      | d :: rest => (c = '_' || c.toLower = d.toLower) && matchesPattern pattern rest := rfl

/-- The pattern of the texts that start with a given text, as it is made: the text and `%`. -/
def startingWith (start : Str) : Str := start ++ ['%']

example : matchesPattern (startingWith "2026-03") "2026-03-20" = true := by decide

example : matchesPattern (startingWith "2026_03") "2026-03-20" = true := by decide

/-- The pattern `%` matches everything. -/
@[simp] theorem matchesPattern_percent (text : Str) : matchesPattern ['%'] text = true := by
  rw [matchesPattern_cons, if_pos rfl, List.any_eq_true]
  exact ⟨[], (List.mem_tails _ _).mpr (List.nil_suffix), rfl⟩

/-- What starts with a text matches the pattern `startingWith` it. -/
theorem matchesPattern_startingWith (start rest : Str) :
    matchesPattern (startingWith start) (start ++ rest) = true := by
  induction start with
  | nil => exact matchesPattern_percent rest
  | cons c start ih =>
    rw [startingWith, List.cons_append, matchesPattern_cons]
    by_cases hc : c = '%'
    · -- the `%` of the text may stand for itself
      rw [if_pos hc, List.any_eq_true]
      exact ⟨start ++ rest, (List.mem_tails _ _).mpr (List.suffix_cons c _), ih⟩
    · rw [if_neg hc, List.cons_append]
      simp only [decide_true, Bool.or_true, Bool.true_and]
      exact ih

/-- A text matches the pattern `startingWith` itself. -/
theorem matchesPattern_startingWith_self (text : Str) :
    matchesPattern (startingWith text) text = true := by
  have h := matchesPattern_startingWith text []
  rwa [List.append_nil] at h

end LogosFs.Like
