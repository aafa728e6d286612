import LogosFs.Lib.Text

/-! # The lexer of full-text queries

The tokens of a query of FTS5: strings between quotes, in which a quote is written twice; barewords, of
which three are operators; and symbols. White space separates tokens, the null character ends the query,
and anything else is an error. A text between quotes, with its own quotes doubled, is one string token
(`lex_quote`). -/

namespace LogosFs.Fts5

/-- A token of a query. -/
inductive Token where
  /-- A string between quotes, and what it stands for. -/
  | string (value : Str)
  /-- A bareword. -/
  | bareword (text : Str)
  /-- `AND`, `OR` or `NOT`. -/
  | operator (text : Str)
  /-- A symbol of the syntax. -/
  | symbol (c : Char)
deriving DecidableEq, Repr

/-- White space between tokens. -/
def isSpace (c : Char) : Bool := c = ' ' || c = '\t' || c = '\n' || c = '\r'

/-- The symbols. -/
def symbols : List Char := ['(', ')', '{', '}', ':', ',', '+', '*', '-', '^']

/-- A character of a bareword. -/
def isBareword (c : Char) : Bool := c.isAlphanum || c = '_' || c = '\x1a' || 0x80 ≤ c.toNat

/-- The operators. -/
def operators : List Str := ["AND", "OR", "NOT"]

/-- Read a string after its opening quote: its value, and what comes after it; nothing if it does not
end. -/
def lexString : Str → Option (Str × Str)
  | '\x22' :: '\x22' :: s => (lexString s).map fun read => ('\x22' :: read.1, read.2)
  | '\x22' :: s => some ([], s)
  | [] => none
  | c :: s => if c = '\x00' then none else (lexString s).map fun read => (c :: read.1, read.2)

/-- Read a token that starts with a character, and what comes after it. -/
def lexToken (c : Char) (s : Str) : Option (Token × Str) :=
  if c = '\x22' then (lexString s).map fun read => (.string read.1, read.2)
  else if c ∈ symbols then some (.symbol c, s)
  else if isBareword c then
    let text := c :: s.takeWhile isBareword
    some (if text ∈ operators then .operator text else .bareword text, s.dropWhile isBareword)
  else none

/-- Read the tokens of a query; nothing if there is an error. -/
def lex (s : Str) : Option (List Token) := go s.length s
where
  /-- At most `fuel` steps; each takes a character at least. -/
  go : Nat → Str → Option (List Token)
    | _, [] => some []
    | 0, _ :: _ => none
    | fuel + 1, c :: s =>
      if c = '\x00' then some []
      else if isSpace c then go fuel s
      else (lexToken c s).bind fun read => (go fuel read.2).map (read.1 :: ·)

example : lex "a \"b\"\"\" OR c*" = some
    [.bareword "a", .string "b\"", .operator "OR", .bareword "c", .symbol '*'] := by decide +kernel

/-! ## Quoting -/

/-- A text with its quotes doubled. -/
def double (s : Str) : Str := s.flatMap fun c => if c = '\x22' then ['\x22', '\x22'] else [c]

/-- A text between quotes. -/
def quote (s : Str) : Str := ['\x22'] ++ double s ++ ['\x22']

/-- **The string ends where it was made to end**: `lexString` reads what `double` wrote, however
many quotes are in it. -/
theorem lexString_double {s : Str} (hnull : '\x00' ∉ s) :
    lexString (double s ++ ['\x22']) = some (s, []) := by
  induction s with
  | nil => rfl
  | cons c s ih =>
    rw [List.mem_cons, not_or] at hnull
    rw [double, List.flatMap_cons]
    by_cases hc : c = '\x22'
    · rw [if_pos hc, hc]
      show (lexString (double s ++ ['\x22'])).map _ = _
      rw [ih hnull.2]
      rfl
    · rw [if_neg hc, List.singleton_append, List.cons_append, lexString]
      · rw [if_neg fun h => hnull.1 h.symm]
        show (lexString (double s ++ ['\x22'])).map _ = _
        rw [ih hnull.2]
        rfl
      · exact fun s h _ => hc h
      · exact hc

/-- `lex` finds no tokens in the empty text, whatever the fuel. -/
theorem lex_go_nil (fuel : Nat) : lex.go fuel [] = some [] := by
  cases fuel <;> rfl

/-- **A quoted text is one string token**: `lex` of `quote s` is the string `s`. -/
theorem lex_quote {s : Str} (hnull : '\x00' ∉ s) : lex (quote s) = some [.string s] := by
  have hquote : quote s = '\x22' :: (double s ++ ['\x22']) := rfl
  have htoken : lexToken '\x22' (double s ++ ['\x22']) = some (.string s, []) := by
    rw [lexToken, if_pos rfl, lexString_double hnull]
    rfl
  rw [lex, hquote, List.length_cons, lex.go, if_neg (by decide), if_neg (by decide), htoken,
    Option.bind_some, lex_go_nil]
  rfl

end LogosFs.Fts5
