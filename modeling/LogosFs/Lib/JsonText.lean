import LogosFs.Lib.Json

/-! # JSON text

A printer and a parser for JSON without floating point numbers, and the codec they form. The parser
refuses a text that nests more than `Json.maxDepth` arrays and objects, integers outside the range
of 64 bits and floating point numbers; of two members of one object with the same key the later one
counts. `parseValue_print` is the round trip of exact values, by induction on the value, with one
lemma for the tail of an array and one for the tail of an object. -/

namespace LogosFs

namespace JsonText

/-! ## Printing -/

/-- A character of a string between quotes. -/
def escape (c : Char) : Str :=
  if c = '\x22' then ['\x5c', '\x22']
  else if c = '\x5c' then ['\x5c', '\x5c']
  else if c = '\x08' then ['\x5c', 'b']
  else if c = '\x09' then ['\x5c', 't']
  else if c = '\x0a' then ['\x5c', 'n']
  else if c = '\x0c' then ['\x5c', 'f']
  else if c = '\x0d' then ['\x5c', 'r']
  else if c.toNat < 32 then
    ['\x5c', 'u', '0', '0', Nat.digitChar (c.toNat / 16), Nat.digitChar (c.toNat % 16)]
  else [c]

/-- A string and its closing quote. -/
def printChars (s : Str) : Str := s.flatMap escape ++ ['\x22']

mutual

/-- Print a value. -/
def print : Json → Str
  | .null => "null".toList
  | .bool true => "true".toList
  | .bool false => "false".toList
  | .number (.int i) => Str.ofInt i
  | .number (.float text) => text
  | .string s => '\x22' :: printChars s
  | .array [] => "[]".toList
  | .array (item :: items) => '[' :: (print item ++ printItems items)
  | .object [] => ['\x7b', '\x7d']
  | .object ((key, value) :: fields) =>
    '\x7b' :: '\x22' :: (printChars key ++ ':' :: (print value ++ printFields fields))

/-- Print the elements of an array after its first one, and the closing bracket. -/
def printItems : List Json → Str
  | [] => [']']
  | item :: items => ',' :: (print item ++ printItems items)

/-- Print the members of an object after its first one, and the closing brace. -/
def printFields : List (Str × Json) → Str
  | [] => ['\x7d']
  | (key, value) :: fields =>
    ',' :: '\x22' :: (printChars key ++ ':' :: (print value ++ printFields fields))

end

/-! ## Parsing -/

/-- White space between tokens. -/
def isSpace (c : Char) : Bool := c = ' ' || c = '\x09' || c = '\x0a' || c = '\x0d'

/-- The text from its first character that is not white space. -/
def skipSpace (s : Str) : Str := s.dropWhile isSpace

/-- The value of a hexadecimal digit. -/
def hexVal (c : Char) : Option Nat :=
  if '0' ≤ c ∧ c ≤ '9' then some (c.toNat - 48)
  else if 'a' ≤ c ∧ c ≤ 'f' then some (c.toNat - 87)
  else if 'A' ≤ c ∧ c ≤ 'F' then some (c.toNat - 55)
  else none

/-- Read four hexadecimal digits. -/
def hex4 : Str → Option (Nat × Str)
  | a :: b :: c :: d :: rest => do
    return (16 * (16 * (16 * (← hexVal a) + (← hexVal b)) + (← hexVal c)) + (← hexVal d), rest)
  | _ => none

/-- Read what follows `\u`: one code point, or a pair of surrogates. -/
def unescapeUnicode (s : Str) : Option (Char × Str) := do
  let (high, rest) ← hex4 s
  if high < 0xD800 ∨ 0xDFFF < high then return (Char.ofNat high, rest)
  guard (high < 0xDC00)
  let (low, rest) ← hex4 (← Str.stripPrefix ['\x5c', 'u'] rest)
  guard (0xDC00 ≤ low ∧ low ≤ 0xDFFF)
  return (Char.ofNat (0x10000 + (high - 0xD800) * 0x400 + (low - 0xDC00)), rest)

/-- The character an escape with one letter stands for. -/
def unescapeLetter (c : Char) : Option Char :=
  if c = '\x22' ∨ c = '\x5c' ∨ c = '/' then some c
  else if c = 'b' then some '\x08'
  else if c = 't' then some '\x09'
  else if c = 'n' then some '\x0a'
  else if c = 'f' then some '\x0c'
  else if c = 'r' then some '\x0d'
  else none

/-- Read one character of a string. -/
def unescape : Str → Option (Char × Str)
  | [] => none
  | c :: rest =>
    if c = '\x5c' then match rest with
      | [] => none
      | e :: rest => if e = 'u' then unescapeUnicode rest else (unescapeLetter e).map (·, rest)
    else if c.toNat < 32 then none
    else some (c, rest)

/-- Read the characters of a string up to its closing quote. -/
def parseChars : (fuel : Nat) → Str → Option (Str × Str)
  | 0, _ => none
  | fuel + 1, s =>
    if s.head? = some '\x22' then some ([], s.tail)
    else do
      let (c, rest) ← unescape s
      let (cs, rest) ← parseChars fuel rest
      return (c :: cs, rest)

/-- Read a run of digits without a leading zero. -/
def parseNat (s : Str) : Option (Nat × Str) :=
  let digits := s.takeWhile Char.isDigit
  if digits = [] ∨ (digits.head? = some '0' ∧ digits ≠ ['0']) then none
  else some (Nat.ofDigitChars 10 digits 0, s.dropWhile Char.isDigit)

/-- What may not follow an integer: the rest of a floating point number. -/
def isFraction (s : Str) : Bool := s.head?.any fun c => c = '.' || c = 'e' || c = 'E'

/-- Read an integer with or without sign; `-0` is a floating point number. -/
def parseSigned (s : Str) : Option (Int × Str) :=
  if s.head? = some '-' then
    (parseNat s.tail).bind fun (n, rest) => if n = 0 then none else some (-(n : Int), rest)
  else (parseNat s).map fun (n, rest) => ((n : Int), rest)

/-- Read an integer of 64 bits, with or without sign. -/
def parseInt (s : Str) : Option (Int × Str) :=
  (parseSigned s).bind fun (i, rest) =>
    if isFraction rest = false ∧ -2 ^ 63 ≤ i ∧ i < 2 ^ 64 then some (i, rest) else none

/-- Read the key of an object's member and the colon after it. -/
def parseKey (s : Str) : Option (Str × Str) := do
  let rest ← Str.stripPrefix ['\x22'] (skipSpace s)
  let (key, rest) ← parseChars (rest.length + 1) rest
  let rest ← Str.stripPrefix [':'] (skipSpace rest)
  return (key, rest)

mutual

/-- Read a value that nests at most `depth` arrays and objects. -/
def parseValue : (fuel depth : Nat) → Str → Option (Json × Str)
  | 0, _, _ => none
  | fuel + 1, depth, s => match skipSpace s with
    | [] => none
    | c :: rest =>
      if c = 'n' then (Str.stripPrefix "ull".toList rest).map (Json.null, ·)
      else if c = 't' then (Str.stripPrefix "rue".toList rest).map (Json.bool true, ·)
      else if c = 'f' then (Str.stripPrefix "alse".toList rest).map (Json.bool false, ·)
      else if c = '\x22' then
        (parseChars (rest.length + 1) rest).map fun (s, rest) => (.string s, rest)
      else if c = '[' then match depth with
        | 0 => none
        | depth + 1 =>
          if (skipSpace rest).head? = some ']' then some (.array [], (skipSpace rest).tail)
          else do
            let (item, rest) ← parseValue fuel depth rest
            let (items, rest) ← parseItems fuel depth rest
            return (.array (item :: items), rest)
      else if c = '\x7b' then match depth with
        | 0 => none
        | depth + 1 =>
          if (skipSpace rest).head? = some '\x7d' then some (.object [], (skipSpace rest).tail)
          else do
            let (key, rest) ← parseKey rest
            let (value, rest) ← parseValue fuel depth rest
            let (fields, rest) ← parseFields fuel depth rest
            return (.ofPairs ((key, value) :: fields), rest)
      else (parseInt (c :: rest)).map fun (i, rest) => (.number (.int i), rest)

/-- Read the elements of an array after its first one, up to the closing bracket. -/
def parseItems : (fuel depth : Nat) → Str → Option (List Json × Str)
  | 0, _, _ => none
  | fuel + 1, depth, s => match skipSpace s with
    | [] => none
    | c :: rest =>
      if c = ']' then some ([], rest)
      else if c = ',' then do
        let (item, rest) ← parseValue fuel depth rest
        let (items, rest) ← parseItems fuel depth rest
        return (item :: items, rest)
      else none

/-- Read the members of an object after its first one, up to the closing brace. -/
def parseFields : (fuel depth : Nat) → Str → Option (List (Str × Json) × Str)
  | 0, _, _ => none
  | fuel + 1, depth, s => match skipSpace s with
    | [] => none
    | c :: rest =>
      if c = '\x7d' then some ([], rest)
      else if c = ',' then do
        let (key, rest) ← parseKey rest
        let (value, rest) ← parseValue fuel depth rest
        let (fields, rest) ← parseFields fuel depth rest
        return ((key, value) :: fields, rest)
      else none

end

/-- Read a text as one value, with nothing but white space around it. -/
def parse (text : Str) : Except Str Json :=
  match parseValue (text.length + 1) Json.maxDepth text with
  | some (value, rest) =>
    if skipSpace rest = [] then .ok value else .error "trailing characters".toList
  | none => .error "expected value".toList

/-- An integer that `parseInt` reads fits 64 bits. -/
theorem range_of_parseInt {s rest : Str} {i : Int} (h : parseInt s = some (i, rest)) :
    -2 ^ 63 ≤ i ∧ i < 2 ^ 64 := by
  rw [parseInt, Option.bind_eq_some_iff] at h
  obtain ⟨⟨i', rest'⟩, -, h⟩ := h
  dsimp only at h
  split at h
  · rename_i hrange
    cases h
    exact hrange.2
  · cases h

/-- `ofPairs` of members with `ReadableAt` has it one level higher. -/
theorem readableAt_ofPairs {float : Str → Prop} {depth : Nat} {pairs : List (Str × Json)}
    (h : ∀ pair ∈ pairs, pair.2.ReadableAt float depth) :
    (Json.ofPairs pairs).ReadableAt float (depth + 1) := by
  refine .object (Json.sorted_foldl_insert _ _ List.Pairwise.nil) fun field hfield => ?_
  rcases Json.mem_foldl_insert hfield with hmem | hmem
  · exact h field hmem
  · exact nomatch hmem

/-- **What is read is readable**: `parseValue`, `parseItems` and `parseFields` answer values with
`ReadableAt`, and no floating point number. -/
theorem readable_of_parse (fuel : Nat) : ∀ (depth : Nat) (s rest : Str),
    (∀ value, parseValue fuel depth s = some (value, rest) →
        value.ReadableAt (fun _ => False) depth) ∧
      (∀ items, parseItems fuel depth s = some (items, rest) →
        ∀ item ∈ items, item.ReadableAt (fun _ => False) depth) ∧
      ∀ fields, parseFields fuel depth s = some (fields, rest) →
        ∀ field ∈ fields, field.2.ReadableAt (fun _ => False) depth := by
  induction fuel with
  | zero => exact fun depth s rest => ⟨nofun, nofun, nofun⟩
  | succ fuel ih =>
    intro depth s rest
    refine ⟨fun value h => ?_, fun items h => ?_, fun fields h => ?_⟩
    · rw [parseValue] at h
      split at h
      · cases h
      rename_i c tail _
      split at h
      · obtain ⟨_, -, h⟩ := Option.map_eq_some_iff.mp h
        cases h
        exact .null
      split at h
      · obtain ⟨_, -, h⟩ := Option.map_eq_some_iff.mp h
        cases h
        exact .bool
      split at h
      · obtain ⟨_, -, h⟩ := Option.map_eq_some_iff.mp h
        cases h
        exact .bool
      split at h
      · obtain ⟨_, -, h⟩ := Option.map_eq_some_iff.mp h
        cases h
        exact .string
      split at h
      -- an array
      · cases depth with
        | zero => cases h
        | succ depth =>
          dsimp only at h
          split at h
          · cases h
            exact .array fun _ h => nomatch h
          · simp only [Option.bind_eq_bind, Option.bind_eq_some_iff, Prod.exists, Option.pure_def,
              Option.some_inj, Prod.mk.injEq] at h
            obtain ⟨item, rest', hitem, items, rest'', hitems, rfl, -⟩ := h
            refine .array fun item' hitem' => ?_
            rcases List.mem_cons.mp hitem' with rfl | hmem
            · exact (ih depth tail rest').1 _ hitem
            · exact (ih depth rest' rest'').2.1 items hitems item' hmem
      split at h
      -- an object: its members are inserted one by one
      · cases depth with
        | zero => cases h
        | succ depth =>
          dsimp only at h
          split at h
          · cases h
            exact .object List.Pairwise.nil fun _ h => nomatch h
          · simp only [Option.bind_eq_bind, Option.bind_eq_some_iff, Prod.exists, Option.pure_def,
              Option.some_inj, Prod.mk.injEq] at h
            obtain ⟨key, rest₁, -, value, rest₂, hvalue, members, rest₃, hmembers, rfl, -⟩ := h
            refine readableAt_ofPairs fun pair hpair => ?_
            rcases List.mem_cons.mp hpair with rfl | hmem
            · exact (ih depth rest₁ rest₂).1 _ hvalue
            · exact (ih depth rest₂ rest₃).2.2 members hmembers pair hmem
      · obtain ⟨⟨i, rest'⟩, hint, h⟩ := Option.map_eq_some_iff.mp h
        cases h
        exact .int (range_of_parseInt hint).1 (range_of_parseInt hint).2
    · rw [parseItems] at h
      split at h
      · cases h
      rename_i c tail _
      split at h
      · cases h
        exact fun _ h => nomatch h
      split at h
      · simp only [Option.bind_eq_bind, Option.bind_eq_some_iff, Prod.exists, Option.pure_def,
          Option.some_inj, Prod.mk.injEq] at h
        obtain ⟨item, rest', hitem, items', rest'', hitems, rfl, -⟩ := h
        intro item' hitem'
        rcases List.mem_cons.mp hitem' with rfl | hmem
        · exact (ih depth tail rest').1 _ hitem
        · exact (ih depth rest' rest'').2.1 items' hitems item' hmem
      · cases h
    · rw [parseFields] at h
      split at h
      · cases h
      rename_i c tail _
      split at h
      · cases h
        exact fun _ h => nomatch h
      split at h
      · simp only [Option.bind_eq_bind, Option.bind_eq_some_iff, Prod.exists, Option.pure_def,
          Option.some_inj, Prod.mk.injEq] at h
        obtain ⟨key, rest₁, -, value, rest₂, hvalue, members, rest₃, hmembers, rfl, -⟩ := h
        intro field hfield
        rcases List.mem_cons.mp hfield with rfl | hmem
        · exact (ih depth rest₁ rest₂).1 _ hvalue
        · exact (ih depth rest₂ rest₃).2.2 members hmembers field hmem
      · cases h

/-! ## Strings survive -/

/-- `hexVal` undoes `Nat.digitChar` for hexadecimal digits. -/
theorem hexVal_digitChar : ∀ n < 16, hexVal (Nat.digitChar n) = some n := by decide

/-- `hex4` reads an escaped control character back. -/
theorem hex4_control : ∀ n < 32, ∀ rest,
    hex4 ('0' :: '0' :: Nat.digitChar (n / 16) :: Nat.digitChar (n % 16) :: rest)
      = some (n, rest) := by
  intro n hn rest
  rw [hex4, hexVal_digitChar _ (by omega), hexVal_digitChar _ (by omega),
    show hexVal '0' = some 0 from rfl]
  show some (16 * (16 * (16 * 0 + 0) + n / 16) + n % 16, rest) = some (n, rest)
  congr 2
  omega

/-- `unescape` undoes `escape`, and leaves the rest. -/
theorem unescape_escape (c : Char) (rest : Str) : unescape (escape c ++ rest) = some (c, rest) := by
  rw [escape]
  split_ifs with hquote hslash hb ht hn hf hr hcontrol
  · subst hquote; rfl
  · subst hslash; rfl
  · subst hb; rfl
  · subst ht; rfl
  · subst hn; rfl
  · subst hf; rfl
  · subst hr; rfl
  · show unescapeUnicode ('0' :: '0' :: Nat.digitChar _ :: Nat.digitChar _ :: rest) = _
    have hlow : c.toNat < 55296 ∨ 57343 < c.toNat := by omega
    rw [unescapeUnicode, hex4_control _ hcontrol, Option.bind_eq_bind, Option.bind_some]
    dsimp only
    rw [if_pos hlow, Char.ofNat_toNat]
    rfl
  · show (if c = '\x5c' then _ else if c.toNat < 32 then none else some (c, rest)) = _
    rw [if_neg hslash, if_neg hcontrol]

/-- What `escape` writes never starts with a quote, and is not empty. -/
theorem head?_escape (c : Char) (rest : Str) : (escape c ++ rest).head? ≠ some '\x22' := by
  rw [escape]
  split_ifs with hquote hslash hb ht hn hf hr hcontrol <;>
    simp only [List.cons_append, List.head?_cons, ne_eq, Option.some_inj, List.nil_append]
  all_goals first | exact hquote | decide

/-- `escape` writes at least one character. -/
theorem one_le_length_escape (c : Char) : 1 ≤ (escape c).length := by
  rw [escape]; split_ifs <;> simp

/-- `parseChars` undoes `printChars`, with any fuel that covers the characters. -/
theorem parseChars_printChars (s : Str) (rest : Str) (fuel : Nat)
    (hfuel : (printChars s).length ≤ fuel) :
    parseChars fuel (printChars s ++ rest) = some (s, rest) := by
  induction s generalizing fuel with
  | nil =>
    obtain ⟨fuel, rfl⟩ := Nat.exists_eq_succ_of_ne_zero (n := fuel) (by
      rintro rfl; simp [printChars] at hfuel)
    rfl
  | cons c s ih =>
    have hcons : printChars (c :: s) = escape c ++ printChars s := by
      simp [printChars, List.flatMap_cons]
    have hescape := one_le_length_escape c
    rw [hcons, List.length_append] at hfuel
    obtain ⟨fuel, rfl⟩ := Nat.exists_eq_succ_of_ne_zero (n := fuel) (by omega)
    rw [hcons, List.append_assoc, parseChars, if_neg (head?_escape c _), unescape_escape]
    simp only [Option.bind_eq_bind, Option.bind_some]
    rw [ih fuel (by omega)]
    rfl

/-! ## Integers survive -/

/-- What may follow a printed value: nothing, or a token that ends it. -/
def Delimited (rest : Str) : Prop :=
  rest.head?.all (fun c => !c.isDigit && c ≠ '.' && c ≠ 'e' && c ≠ 'E') = true

/-- The end of the text is `Delimited`. -/
@[simp] theorem delimited_nil : Delimited [] := rfl

/-- What is `Delimited` does not go on with a fraction. -/
theorem Delimited.not_isFraction {rest : Str} (h : Delimited rest) : isFraction rest = false := by
  cases rest with
  | nil => rfl
  | cons c rest =>
    simp only [Delimited, List.head?_cons, Option.all_some, Bool.and_eq_true, decide_eq_true_eq,
      ne_eq] at h
    simp [isFraction, h.1.1.2, h.1.2, h.2]

/-- `takeWhile` reads the digits up to the end of a number that is `Delimited`. -/
theorem takeWhile_isDigit {digits rest : Str} (hdigits : ∀ c ∈ digits, c.isDigit)
    (hrest : Delimited rest) :
    (digits ++ rest).takeWhile Char.isDigit = digits ∧
      (digits ++ rest).dropWhile Char.isDigit = rest := by
  have hstop : rest.takeWhile Char.isDigit = [] ∧ rest.dropWhile Char.isDigit = rest := by
    cases rest with
    | nil => exact ⟨rfl, rfl⟩
    | cons c rest =>
      simp only [Delimited, List.head?_cons, Option.all_some, Bool.and_eq_true,
        Bool.not_eq_true'] at hrest
      simp [hrest.1.1.1]
  rw [List.takeWhile_append_of_pos hdigits, List.dropWhile_append_of_pos hdigits, hstop.1, hstop.2,
    List.append_nil]
  exact ⟨rfl, rfl⟩

/-- `Str.ofNat` of a positive number has no leading zero. -/
theorem head?_ofNat_ne_zero {n : Nat} (hn : 0 < n) : (Str.ofNat n).head? ≠ some '0' := by
  induction n using Nat.strong_induction_on with
  | _ n ih =>
    rw [Str.ofNat, Nat.toDigits_eq_if (by decide)]
    split
    · rename_i hlt
      have hall : ∀ m < 10, 0 < m → Nat.digitChar m ≠ '0' := by decide
      simpa using hall n hlt hn
    · rename_i hge
      rw [List.head?_append_of_ne_nil _ Nat.toDigits_ne_nil]
      exact ih (n / 10) (by omega) (by omega)

/-- `parseNat` undoes `Str.ofNat`, if what follows is `Delimited`. -/
theorem parseNat_ofNat (n : Nat) {rest : Str} (hrest : Delimited rest) :
    parseNat (Str.ofNat n ++ rest) = some (n, rest) := by
  have hdigits : ∀ c ∈ Str.ofNat n, c.isDigit := fun c hc => Str.isDigit_of_mem_ofNat hc
  obtain ⟨htake, hdrop⟩ := takeWhile_isDigit hdigits hrest
  rw [parseNat]
  simp only [htake, hdrop]
  rw [if_neg]
  · rw [show Nat.ofDigitChars 10 (Str.ofNat n) 0 = n from Nat.ofDigitChars_ten_toDigits]
  · rintro (hnil | ⟨hzero, hne⟩)
    · exact Str.ofNat_ne_nil n hnil
    · rcases Nat.eq_zero_or_pos n with rfl | hn
      · exact hne rfl
      · exact head?_ofNat_ne_zero hn hzero

/-- `parseSigned` undoes `Str.ofInt`, if what follows is `Delimited`. -/
theorem parseSigned_ofInt (i : Int) {rest : Str} (hrest : Delimited rest) :
    parseSigned (Str.ofInt i ++ rest) = some (i, rest) := by
  cases i with
  | ofNat n =>
    have hhead : (Str.ofNat n ++ rest).head? ≠ some '-' := by
      rw [List.head?_append_of_ne_nil _ (Str.ofNat_ne_nil n)]
      intro hminus
      exact absurd (Str.isDigit_of_mem_ofNat (List.mem_of_mem_head? hminus)) (by decide)
    rw [Str.ofInt, parseSigned, if_neg hhead, parseNat_ofNat n hrest]
    rfl
  | negSucc n =>
    rw [Str.ofInt, parseSigned, List.cons_append, if_pos List.head?_cons, List.tail_cons,
      parseNat_ofNat (n + 1) hrest]
    rfl

/-- `parseInt` undoes `Str.ofInt` for the integers of 64 bits, if what follows is `Delimited`. -/
theorem parseInt_ofInt {i : Int} (hlow : -2 ^ 63 ≤ i) (hhigh : i < 2 ^ 64) {rest : Str}
    (hrest : Delimited rest) : parseInt (Str.ofInt i ++ rest) = some (i, rest) := by
  rw [parseInt, parseSigned_ofInt i hrest]
  exact if_pos ⟨hrest.not_isFraction, hlow, hhigh⟩

/-! ## Values survive -/

/-- `skipSpace` leaves a text that does not start with white space. -/
theorem skipSpace_of_head {c : Char} {s : Str} (h : isSpace c = false) :
    skipSpace (c :: s) = c :: s := by
  rw [skipSpace, List.dropWhile_cons_of_neg (by simp [h])]

/-- `parseKey` reads a printed key, and the colon after it, back. -/
theorem parseKey_printChars (key rest : Str) :
    parseKey ('\x22' :: (printChars key ++ ':' :: rest)) = some (key, rest) := by
  rw [parseKey, skipSpace_of_head rfl,
    show Str.stripPrefix ['\x22'] ('\x22' :: (printChars key ++ ':' :: rest))
      = some (printChars key ++ ':' :: rest) from rfl]
  simp only [Option.bind_eq_bind, Option.bind_some]
  rw [parseChars_printChars _ _ _ (by rw [List.length_append]; omega)]
  rfl

/-- `Str.ofInt` starts with a sign or a digit. -/
theorem ofInt_eq_cons (i : Int) : ∃ c digits, Str.ofInt i = c :: digits ∧
    (c = '-' ∨ c.isDigit = true) := by
  cases i with
  | negSucc n => exact ⟨_, _, rfl, .inl rfl⟩
  | ofNat n =>
    obtain ⟨c, digits, h⟩ := List.exists_cons_of_ne_nil (Str.ofNat_ne_nil n)
    exact ⟨c, digits, h, .inr (Str.isDigit_of_mem_ofNat (by rw [h]; exact List.mem_cons_self))⟩

/-- A sign or a digit starts no other kind of value, and is no `isSpace`. -/
theorem ne_of_isDigit {c : Char} (h : c = '-' ∨ c.isDigit = true) : isSpace c = false ∧
    c ∉ ['n', 't', 'f', '\x22', '[', '\x7b', ']'] := by
  rcases h with rfl | h
  · decide
  · refine ⟨?_, ?_⟩
    · by_contra hspace
      simp only [isSpace, Bool.or_eq_false_iff, decide_eq_false_iff_not, not_and_or,
        not_not] at hspace
      rcases hspace with ((rfl | rfl) | rfl) | rfl <;> exact absurd h (by decide)
    · intro hmem
      simp only [List.mem_cons, List.not_mem_nil, or_false] at hmem
      rcases hmem with rfl | rfl | rfl | rfl | rfl | rfl | rfl <;> exact absurd h (by decide)

/-- What `print` writes starts with a character that is neither white space nor a closing bracket.
-/
theorem print_eq_cons {depth : Nat} {value : Json} (h : value.ExactAt depth) :
    ∃ c s, print value = c :: s ∧ isSpace c = false ∧ c ≠ ']' := by
  cases h with
  | null => exact ⟨'n', _, rfl, rfl, by decide⟩
  | @bool _ b => cases b <;> exact ⟨_, _, rfl, rfl, by decide⟩
  | @int _ i =>
    obtain ⟨c, digits, hprint, hc⟩ := ofInt_eq_cons i
    exact ⟨c, digits, hprint, (ne_of_isDigit hc).1, fun heq => (ne_of_isDigit hc).2 (by simp [heq])⟩
  | string => exact ⟨'\x22', _, rfl, rfl, by decide⟩
  | @array _ items => cases items <;> exact ⟨'[', _, rfl, rfl, by decide⟩
  | @object _ fields => cases fields <;> exact ⟨'\x7b', _, rfl, rfl, by decide⟩

/-- The round trip of one value, at a given nesting depth. -/
def Survives (depth : Nat) (value : Json) : Prop :=
  ∀ fuel rest, (print value).length ≤ fuel → Delimited rest →
    parseValue fuel depth (print value ++ rest) = some (value, rest)

/-- `parseItems` undoes `printItems` when the elements have `Survives`. -/
theorem parseItems_printItems {depth : Nat} (items : List Json)
    (hitems : ∀ item ∈ items, item.ExactAt depth ∧ Survives depth item) (fuel : Nat) (rest : Str)
    (hfuel : (printItems items).length ≤ fuel) :
    parseItems fuel depth (printItems items ++ rest) = some (items, rest) := by
  induction items generalizing fuel with
  | nil =>
    obtain ⟨fuel, rfl⟩ := Nat.exists_eq_succ_of_ne_zero (n := fuel) (by
      rintro rfl; simp [printItems] at hfuel)
    rfl
  | cons item items ih =>
    obtain ⟨hexact, hitem⟩ := hitems item List.mem_cons_self
    obtain ⟨c, s, hprint, -, -⟩ := print_eq_cons hexact
    rw [printItems, List.length_cons, List.length_append] at hfuel
    obtain ⟨fuel, rfl⟩ := Nat.exists_eq_succ_of_ne_zero (n := fuel) (by omega)
    have hpos : 0 < (print item).length := by rw [hprint]; exact Nat.succ_pos _
    have hrest : Delimited (printItems items ++ rest) := by cases items <;> rfl
    rw [printItems, List.cons_append, List.append_assoc, parseItems, skipSpace_of_head rfl]
    simp only [if_neg (show ',' ≠ ']' by decide), if_true, Option.bind_eq_bind]
    rw [hitem fuel _ (by omega) hrest]
    simp only [Option.bind_some]
    rw [ih (fun item hitem => hitems item (List.mem_cons_of_mem _ hitem)) fuel (by omega)]
    rfl

/-- `parseFields` undoes `printFields` when the values of the members have `Survives`. -/
theorem parseFields_printFields {depth : Nat} (fields : List (Str × Json))
    (hfields : ∀ field ∈ fields, field.2.ExactAt depth ∧ Survives depth field.2) (fuel : Nat)
    (rest : Str) (hfuel : (printFields fields).length ≤ fuel) :
    parseFields fuel depth (printFields fields ++ rest) = some (fields, rest) := by
  induction fields generalizing fuel with
  | nil =>
    obtain ⟨fuel, rfl⟩ := Nat.exists_eq_succ_of_ne_zero (n := fuel) (by
      rintro rfl; simp [printFields] at hfuel)
    rfl
  | cons field fields ih =>
    obtain ⟨key, value⟩ := field
    have hvalue : Survives depth value := (hfields (key, value) List.mem_cons_self).2
    rw [printFields] at hfuel
    simp only [List.length_cons, List.length_append] at hfuel
    obtain ⟨fuel, rfl⟩ := Nat.exists_eq_succ_of_ne_zero (n := fuel) (by omega)
    have hrest : Delimited (printFields fields ++ rest) := by cases fields <;> rfl
    have hsplit : printFields ((key, value) :: fields) ++ rest
        = ',' :: '\x22' :: (printChars key ++ ':' :: (print value
          ++ (printFields fields ++ rest))) := by
      simp [printFields]
    rw [hsplit, parseFields, skipSpace_of_head rfl]
    simp only [if_neg (show ',' ≠ '\x7d' by decide), if_true, Option.bind_eq_bind,
      parseKey_printChars, Option.bind_some]
    rw [hvalue fuel _ (by omega) hrest]
    simp only [Option.bind_some]
    rw [ih (fun field hfield => hfields field (List.mem_cons_of_mem _ hfield)) fuel (by omega)]
    rfl

/-- **Round trip**: a value that is `ExactAt` a depth `Survives` being printed and parsed there. -/
theorem parseValue_print {depth : Nat} {value : Json} (h : value.ExactAt depth) :
    Survives depth value := by
  -- Along `ExactAt`; `parseItems` and `parseFields` take the hypotheses for all members at once.
  induction h with
  | null =>
    intro fuel rest hfuel _
    obtain ⟨fuel, rfl⟩ := Nat.exists_eq_succ_of_ne_zero (n := fuel) (by rintro rfl; cases hfuel)
    rfl
  | @bool _ b =>
    intro fuel rest hfuel _
    obtain ⟨fuel, rfl⟩ := Nat.exists_eq_succ_of_ne_zero (n := fuel) (by
      rintro rfl; cases b <;> cases hfuel)
    cases b <;> rfl
  | @int depth i low high =>
    intro fuel rest hfuel hrest
    obtain ⟨c, digits, hprint, hc⟩ := ofInt_eq_cons i
    obtain ⟨hspace, hne⟩ := ne_of_isDigit hc
    simp only [List.mem_cons, not_or] at hne
    obtain ⟨fuel, rfl⟩ := Nat.exists_eq_succ_of_ne_zero (n := fuel) (by
      rintro rfl; simp [print, hprint] at hfuel)
    have hparse := parseInt_ofInt low high hrest
    rw [print, hprint, List.cons_append, parseValue, skipSpace_of_head hspace]
    rw [hprint, List.cons_append] at hparse
    simp only [hne, if_false, hparse]
    rfl
  | @string depth s =>
    intro fuel rest hfuel _
    obtain ⟨fuel, rfl⟩ := Nat.exists_eq_succ_of_ne_zero (n := fuel) (by rintro rfl; cases hfuel)
    rw [print, List.cons_append, parseValue, skipSpace_of_head rfl]
    have hchars := parseChars_printChars s rest ((printChars s ++ rest).length + 1)
      (by rw [List.length_append]; omega)
    simp only [show ('\x22' = 'n') = False by decide, show ('\x22' = 't') = False by decide,
      show ('\x22' = 'f') = False by decide, if_false, if_true, hchars]
    rfl
  | @array depth items exact ih =>
    intro fuel rest hfuel hrest
    cases items with
    | nil =>
      obtain ⟨fuel, rfl⟩ := Nat.exists_eq_succ_of_ne_zero (n := fuel) (by rintro rfl; cases hfuel)
      rfl
    | cons item items =>
      obtain ⟨c, s, hprint, hspace, hclose⟩ := print_eq_cons (exact item List.mem_cons_self)
      rw [print, List.length_cons, List.length_append] at hfuel
      obtain ⟨fuel, rfl⟩ := Nat.exists_eq_succ_of_ne_zero (n := fuel) (by omega)
      have hfirst := ih item List.mem_cons_self fuel (printItems items ++ rest) (by omega)
        (by cases items <;> rfl)
      have hitems := parseItems_printItems items (fun item hitem =>
        ⟨exact item (List.mem_cons_of_mem _ hitem), ih item (List.mem_cons_of_mem _ hitem)⟩)
        fuel rest (by omega)
      -- The first item does not look like the end of an empty array,
      have hhead : (skipSpace (print item ++ (printItems items ++ rest))).head? ≠ some ']' := by
        rw [hprint, List.cons_append, skipSpace_of_head hspace]
        simpa using hclose
      rw [print, List.cons_append, List.append_assoc, parseValue, skipSpace_of_head rfl]
      simp only [show ('[' = 'n') = False by decide, show ('[' = 't') = False by decide,
        show ('[' = 'f') = False by decide, show ('[' = '\x22') = False by decide, if_false, if_true,
        if_neg hhead, hfirst, hitems, Option.bind_eq_bind, Option.bind_some]
      rfl
  | @object depth fields sorted exact ih =>
    intro fuel rest hfuel hrest
    cases fields with
    | nil =>
      obtain ⟨fuel, rfl⟩ := Nat.exists_eq_succ_of_ne_zero (n := fuel) (by rintro rfl; cases hfuel)
      rfl
    | cons field fields =>
      obtain ⟨key, value⟩ := field
      rw [print] at hfuel
      simp only [List.length_cons, List.length_append] at hfuel
      obtain ⟨fuel, rfl⟩ := Nat.exists_eq_succ_of_ne_zero (n := fuel) (by omega)
      have hfirst : parseValue fuel depth (print value ++ (printFields fields ++ rest))
          = some (value, printFields fields ++ rest) :=
        ih (key, value) List.mem_cons_self fuel _ (by show (print value).length ≤ fuel; omega)
          (by cases fields <;> rfl)
      have hfields := parseFields_printFields fields (fun field hfield =>
        ⟨exact field (List.mem_cons_of_mem _ hfield), ih field (List.mem_cons_of_mem _ hfield)⟩)
        fuel rest (by omega)
      have hsplit : print (.object ((key, value) :: fields)) ++ rest
          = '\x7b' :: '\x22' :: (printChars key ++ ':' :: (print value
            ++ (printFields fields ++ rest))) := by
        simp [print]
      -- nor the first key like the end of an empty object.
      have hhead : (skipSpace ('\x22' :: (printChars key ++ ':' :: (print value
          ++ (printFields fields ++ rest))))).head? ≠ some '\x7d' := by
        rw [skipSpace_of_head rfl]; simp
      rw [hsplit, parseValue, skipSpace_of_head rfl]
      simp only [show ('\x7b' = 'n') = False by decide, show ('\x7b' = 't') = False by decide,
        show ('\x7b' = 'f') = False by decide, show ('\x7b' = '\x22') = False by decide,
        show ('\x7b' = '[') = False by decide, if_false, if_true, if_neg hhead,
        parseKey_printChars, hfirst, hfields, Option.bind_eq_bind, Option.bind_some]
      -- The members come in the order of their keys already.
      rw [sorted.ofPairs_eq]
      rfl

/-! ## Several lines -/

/-- A new line with two spaces for each level of nesting. -/
def newLine (depth : Nat) : Str := '\n' :: List.replicate (2 * depth) ' '

mutual

/-- Print a value on several lines, at a level of nesting. -/
def printPretty (depth : Nat) : Json → Str
  | .array [] => "[]".toList
  | .array (item :: items) => '[' :: (newLine (depth + 1) ++ printPretty (depth + 1) item
    ++ printPrettyItems depth items)
  | .object [] => ['\x7b', '\x7d']
  | .object ((key, value) :: fields) => '\x7b' :: (newLine (depth + 1) ++ '\x22' :: (printChars key
    ++ ':' :: ' ' :: (printPretty (depth + 1) value ++ printPrettyFields depth fields)))
  | value => print value

/-- The remaining elements of an array. -/
def printPrettyItems (depth : Nat) : List Json → Str
  | [] => newLine depth ++ [']']
  | item :: items => ',' :: (newLine (depth + 1) ++ printPretty (depth + 1) item
    ++ printPrettyItems depth items)

/-- The remaining members of an object. -/
def printPrettyFields (depth : Nat) : List (Str × Json) → Str
  | [] => newLine depth ++ ['\x7d']
  | (key, value) :: fields => ',' :: (newLine (depth + 1) ++ '\x22' :: (printChars key
    ++ ':' :: ' ' :: (printPretty (depth + 1) value ++ printPrettyFields depth fields)))

end

/-- What kind of value was found. -/
def kind : Json → Str
  | .null => "null"
  | .bool b => "boolean " ++ print (.bool b)
  | .number n => "number " ++ print (.number n)
  | .string s => "string " ++ print (.string s)
  | .array _ => "sequence"
  | .object _ => "map"

/-- `parse` undoes `print` for values that are `Exact`, within the parser's limit. -/
theorem parse_print {value : Json} (h : value.Exact) : parse (print value) = .ok value := by
  have hround := parseValue_print h ((print value).length + 1) [] (Nat.le_succ _) delimited_nil
  rw [List.append_nil] at hround
  rw [parse, hround]
  rfl

/-- The codec of this module's printer and parser. -/
def codec : JsonCodec where
  fromStr := parse
  toStr := print
  isFloat _ := False
  fromStr_readable := by
    intro text value h
    rw [parse] at h
    split at h
    · rename_i value' rest hvalue
      split at h
      · cases h
        exact (readable_of_parse _ _ _ _).1 _ hvalue
      · cases h
    · cases h
  fromStr_toStr _ := parse_print
  skeleton_of_fromStr_toStr := by
    intro value value' hreadable h
    rw [parse_print (hreadable.exactAt fun _ => id)] at h
    cases h
    rfl
  toStr_nil := rfl
  toStrPretty := printPretty 0
  notSequence value := "invalid type: " ++ kind value ++ ", expected a sequence"

end JsonText

end LogosFs
