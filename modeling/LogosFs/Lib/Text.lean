import Mathlib.Algebra.Group.Int.Defs
import Mathlib.Algebra.Group.Nat.Defs
import Mathlib.Data.List.Basic
import Mathlib.Data.List.Infix

/-! # Text as character lists

Strings are lists of characters, with the few string functions the code calls: stripping a prefix
(`List.isPrefixOf?`), trimming repetitions of a pattern, splitting at a separator (`List.splitOn`),
joining, and printing integers. The lemmas say how splitting and joining undo each other and that a
prefix test only looks at the pieces it covers. -/

namespace LogosFs

/-- A string. -/
abbrev Str : Type := List Char

instance : Coe String Str := ⟨String.toList⟩

instance : LawfulBEq Str := List.instLawfulBEq

-- Texts are compared as lists, and what holds of all characters of one is decided character by
-- character, whatever else there are instances for.
attribute [instance (high)] List.instLE List.decidableBAll

namespace Str

/-- The rest of `s` after `pre`, if `s` starts with `pre`. -/
def stripPrefix (pre s : Str) : Option Str := pre.isPrefixOf? s

/-- `stripPrefix` answers the rest after the prefix, exactly if there is one. -/
theorem stripPrefix_eq_some_iff {pre s rest : Str} :
    stripPrefix pre s = some rest ↔ s = pre ++ rest := by
  rw [stripPrefix, List.isPrefixOf?_eq_some_iff_append_eq, eq_comm]

/-- `stripPrefix` of a prefix and a rest is the rest. -/
theorem stripPrefix_append (pre rest : Str) : stripPrefix pre (pre ++ rest) = some rest :=
  stripPrefix_eq_some_iff.mpr rfl

/-- `stripPrefix` answers nothing exactly where the text does not start so. -/
theorem stripPrefix_eq_none_iff {pre s : Str} : stripPrefix pre s = none ↔ ¬pre <+: s := by
  rw [Option.eq_none_iff_forall_ne_some]
  constructor
  · rintro h ⟨rest, rfl⟩
    exact h rest (stripPrefix_append pre rest)
  · intro h rest hrest
    exact h ⟨rest, (stripPrefix_eq_some_iff.mp hrest).symm⟩

/-- The text starts with `pre`. -/
def startsWith (s pre : Str) : Bool := pre.isPrefixOf s

/-- `startsWith` decides the prefix relation. -/
@[simp] theorem startsWith_iff {s pre : Str} : s.startsWith pre = true ↔ pre <+: s :=
  List.isPrefixOf_iff_prefix

/-- Remove repetitions of the non-empty `pattern` from the front. -/
def trimStartMatches (pattern s : Str) : Str := go s.length s
where
  /-- At most `fuel` removals; the length of the text is always enough. -/
  go : Nat → Str → Str
    | 0, s => s
    | fuel + 1, s => match stripPrefix pattern s with
      | some rest => go fuel rest
      | none => s

/-- `trimStartMatches` leaves what begins where the repetitions of the pattern end. -/
theorem trimStartMatches_spec {pattern : Str} (hne : pattern ≠ []) (s : Str) :
    ∃ n, s = (List.replicate n pattern).flatten ++ trimStartMatches pattern s ∧
      ¬pattern <+: trimStartMatches pattern s := by
  have hgo : ∀ fuel (s : Str), s.length ≤ fuel →
      ∃ n, s = (List.replicate n pattern).flatten ++ trimStartMatches.go pattern fuel s ∧
        ¬pattern <+: trimStartMatches.go pattern fuel s := by
    intro fuel
    induction fuel with
    | zero =>
      intro s hs
      obtain rfl : s = [] := List.eq_nil_of_length_eq_zero (by omega)
      exact ⟨0, rfl, fun h => hne (List.prefix_nil.mp h)⟩
    | succ fuel ih =>
      intro s hs
      unfold trimStartMatches.go
      cases hstrip : stripPrefix pattern s with
      | none => exact ⟨0, rfl, stripPrefix_eq_none_iff.mp hstrip⟩
      | some rest =>
        rw [stripPrefix_eq_some_iff] at hstrip
        have hlength : s.length = pattern.length + rest.length := by
          rw [hstrip, List.length_append]
        have hpos := List.length_pos_iff.mpr hne
        obtain ⟨n, hrest, hend⟩ := ih rest (by omega)
        refine ⟨n + 1, ?_, hend⟩
        rw [List.replicate_succ, List.flatten_cons, List.append_assoc, ← hrest]
        exact hstrip
  exact hgo s.length s le_rfl

/-- `dropWhile` leaves what begins where the copies of the character end. -/
theorem dropWhile_spec (c : Char) (s : Str) :
    ∃ n, s = List.replicate n c ++ s.dropWhile (· = c) ∧ ¬[c] <+: s.dropWhile (· = c) := by
  induction s with
  | nil => exact ⟨0, rfl, fun h => nomatch List.prefix_nil.mp h⟩
  | cons first s ih =>
    by_cases hfirst : first = c
    · obtain ⟨n, hs, hend⟩ := ih
      have hdrop : (first :: s).dropWhile (· = c) = s.dropWhile (· = c) :=
        List.dropWhile_cons_of_pos (by simpa using hfirst)
      rw [hdrop]
      refine ⟨n + 1, ?_, hend⟩
      rw [List.replicate_succ, List.cons_append, ← hs, hfirst]
    · have hdrop : (first :: s).dropWhile (· = c) = first :: s :=
        List.dropWhile_cons_of_neg (by simpa using hfirst)
      rw [hdrop]
      refine ⟨0, rfl, ?_⟩
      rintro ⟨rest, hrest⟩
      exact hfirst (List.cons.inj hrest).1.symm

/-! ## Separators -/

variable {sep : Char} {s : Str}

/-- No piece of `splitOn` contains the separator. -/
theorem notMem_of_mem_splitOn {piece : Str} (h : piece ∈ s.splitOn sep) : sep ∉ piece := by
  induction s generalizing piece with
  | nil =>
    rw [List.splitOn_nil, List.mem_singleton] at h
    simp [h]
  | cons c s ih =>
    rw [List.splitOn_cons_eq_if_modifyHead] at h
    split at h
    · rcases List.mem_cons.mp h with rfl | h
      · exact List.not_mem_nil
      · exact ih h
    · rename_i hc
      obtain ⟨first, rest, hsplit⟩ := List.exists_cons_of_ne_nil (List.splitOn_ne_nil sep s)
      rw [hsplit, List.modifyHead_cons] at h
      rcases List.mem_cons.mp h with rfl | h
      · rw [List.mem_cons, not_or]
        exact ⟨fun heq => hc (by simp [heq]), ih (by simp [hsplit])⟩
      · exact ih (by simp [hsplit, h])

/-- `splitOn` at an explicit separator splits both sides. -/
theorem splitOn_append_cons (s t : Str) :
    (s ++ sep :: t).splitOn sep = s.splitOn sep ++ t.splitOn sep :=
  List.splitOn_append_cons_self s t

/-- `splitOn` of a text without the separator is one piece. -/
theorem splitOn_of_notMem (h : sep ∉ s) : s.splitOn sep = [s] := List.splitOn_eq_singleton h

/-- A text `s ++ sep :: piece`, with no `sep` in the piece, ends in one such piece only. -/
theorem append_sep_inj {s t piece piece' : Str} (hpiece : sep ∉ piece) (hpiece' : sep ∉ piece')
    (h : s ++ sep :: piece = t ++ sep :: piece') : s = t ∧ piece = piece' := by
  rcases List.append_eq_append_iff.mp h with ⟨rest, rfl, hrest⟩ | ⟨rest, rfl, hrest⟩
  · cases rest with
    | nil => exact ⟨(List.append_nil _).symm, (List.cons.inj hrest).2⟩
    | cons c rest =>
      have htail : piece = rest ++ sep :: piece' := (List.cons.inj hrest).2
      exact absurd (htail ▸ List.mem_append_right rest List.mem_cons_self) hpiece
  · cases rest with
    | nil => exact ⟨List.append_nil _, ((List.cons.inj hrest).2).symm⟩
    | cons c rest =>
      have htail : piece' = rest ++ sep :: piece := (List.cons.inj hrest).2
      exact absurd (htail ▸ List.mem_append_right rest List.mem_cons_self) hpiece'

/-- The pieces of a path joined with `/`. -/
def join (segments : List Str) : Str := ['/'].intercalate segments

/-- `join` of no segments is the empty text. -/
@[simp] theorem join_nil : join [] = [] := rfl

/-- `join` of one segment is the segment. -/
@[simp] theorem join_singleton (segment : Str) : join [segment] = segment := by simp [join]

/-- `join` puts one separator between the first segment and the others. -/
theorem join_cons_cons (first second : Str) (rest : List Str) :
    join (first :: second :: rest) = first ++ '/' :: join (second :: rest) := by
  simp [join, List.intercalate, List.intersperse]

/-- `splitOn` undoes `join`, for segments that do not contain the separator. -/
theorem splitOn_join {segments : List Str} (h : ∀ segment ∈ segments, '/' ∉ segment)
    (hne : segments ≠ []) : (join segments).splitOn '/' = segments :=
  List.splitOn_intercalate '/' h hne

/-- The non-empty pieces of a path. -/
def segments (s : Str) : List Str := (s.splitOn '/').filter fun piece => !piece.isEmpty

/-- The empty text has no `segments`. -/
@[simp] theorem segments_nil : segments [] = [] := rfl

/-- A segment in `segments` is non-empty and has no separator in it. -/
theorem mem_segments {segment : Str} (h : segment ∈ s.segments) :
    segment ≠ [] ∧ '/' ∉ segment := by
  rw [segments, List.mem_filter] at h
  exact ⟨by simpa using h.2, notMem_of_mem_splitOn h.1⟩

/-- `segments` of a concatenation at a separator are those of the one side and then those of the
other. -/
theorem segments_append_cons (s t : Str) :
    segments (s ++ '/' :: t) = segments s ++ segments t := by
  rw [segments, splitOn_append_cons, List.filter_append]; rfl

/-- A leading separator adds nothing to the `segments`. -/
@[simp] theorem segments_slash_cons (t : Str) : segments ('/' :: t) = segments t :=
  segments_append_cons [] t

/-- A non-empty text without separator is the only one of its `segments`. -/
theorem segments_of_notMem (hs : s ≠ []) (h : '/' ∉ s) : segments s = [s] := by
  simp [segments, splitOn_of_notMem h, hs]

/-- A text in front of a separator, if it has none itself, is the first of the `segments`. -/
theorem segments_cons_of_notMem {first : Str} (hne : first ≠ []) (h : '/' ∉ first) (t : Str) :
    segments (first ++ '/' :: t) = first :: segments t := by
  rw [segments_append_cons, segments_of_notMem hne h, List.singleton_append]

/-- `segments` undoes `join`, for segments that are not empty and have no separator. -/
theorem segments_join {pieces : List Str}
    (h : ∀ piece ∈ pieces, piece ≠ [] ∧ '/' ∉ piece) :
    (join pieces).segments = pieces := by
  rcases eq_or_ne pieces [] with rfl | hne
  · rfl
  · rw [segments, splitOn_join (fun piece hpiece => (h piece hpiece).2) hne]
    refine List.filter_eq_self.mpr fun piece hpiece => ?_
    simpa using (h piece hpiece).1

/-- The piece before the first separator. -/
def firstPiece (s : Str) : Str := (s.splitOn '/').head (List.splitOn_ne_nil '/' s)

/-- `firstPiece` has no separator in it. -/
theorem notMem_firstPiece (s : Str) : '/' ∉ s.firstPiece :=
  notMem_of_mem_splitOn (List.head_mem _)

/-- A text is its `firstPiece` alone, or its `firstPiece`, a separator, and the rest. -/
theorem eq_firstPiece_or (s : Str) : s = s.firstPiece ∨ ∃ rest, s = s.firstPiece ++ '/' :: rest := by
  have hjoin : join (s.splitOn '/') = s := List.intercalate_splitOn '/'
  obtain ⟨first, rest, hsplit⟩ := List.exists_cons_of_ne_nil (List.splitOn_ne_nil '/' s)
  have hfirst : s.firstPiece = first := by simp [firstPiece, hsplit]
  rw [hfirst]
  rw [hsplit] at hjoin
  cases rest with
  | nil => left; rw [← hjoin, join_singleton]
  | cons second rest => right; exact ⟨join (second :: rest), by rw [← hjoin, join_cons_cons]⟩

/-- `firstPiece` is what is in front of the first separator. -/
theorem firstPiece_append_cons {first : Str} (h : '/' ∉ first) (t : Str) :
    (first ++ '/' :: t).firstPiece = first := by
  simp [firstPiece, splitOn_append_cons, splitOn_of_notMem h]

/-- A `firstPiece` that is not empty is the first of the `segments`. -/
theorem segments_of_firstPiece_ne_nil (h : s.firstPiece ≠ []) :
    s = s.firstPiece ∧ s.segments = [s.firstPiece] ∨
      ∃ rest : Str, s = s.firstPiece ++ '/' :: rest ∧
        s.segments = s.firstPiece :: rest.segments := by
  rcases eq_firstPiece_or s with hs | ⟨rest, hs⟩
  · left
    refine ⟨hs, ?_⟩
    conv_lhs => rw [hs]
    exact segments_of_notMem h (notMem_firstPiece s)
  · right
    refine ⟨rest, hs, ?_⟩
    conv_lhs => rw [hs]
    exact segments_cons_of_notMem h (notMem_firstPiece s) rest

/-- The first of the `segments` is the `firstPiece`, unless the text starts with a separator. -/
theorem firstPiece_of_segments {first : Str} {rest : List Str} (hs : s.segments = first :: rest)
    (hslash : ∀ t, s ≠ '/' :: t) : s.firstPiece = first := by
  have hne : s.firstPiece ≠ [] := by
    intro hnil
    rcases eq_firstPiece_or s with h | ⟨t, h⟩ <;> rw [hnil] at h
    · rw [h] at hs; cases hs
    · exact hslash t h
  rcases segments_of_firstPiece_ne_nil hne with ⟨-, h⟩ | ⟨t, -, h⟩ <;>
    exact (List.cons.inj (h.symm.trans hs)).1

/-- A text with two or more `segments` that does not start with a separator is the first of them, a
separator, and a text with the others. -/
theorem exists_tail_of_segments {first second : Str} {rest : List Str}
    (hs : s.segments = first :: second :: rest) (hslash : ∀ t, s ≠ '/' :: t) :
    ∃ tail : Str, s = first ++ '/' :: tail ∧ tail.segments = second :: rest := by
  have hfirst := firstPiece_of_segments hs hslash
  have hne : s.firstPiece ≠ [] := by
    rw [hfirst]
    exact (mem_segments (hs ▸ List.mem_cons_self)).1
  rcases segments_of_firstPiece_ne_nil hne with ⟨-, h⟩ | ⟨tail, htail, h⟩
  · rw [hs] at h; cases h
  · rw [hs, hfirst] at h
    exact ⟨tail, hfirst ▸ htail, (List.cons.inj h).2.symm⟩

/-- Every text ends in a `piece` without separator: it is that piece alone, or a text, a separator,
and that piece. -/
theorem exists_lastPiece (s : Str) :
    ∃ piece : Str, '/' ∉ piece ∧ (s = piece ∨ ∃ front : Str, s = front ++ '/' :: piece) := by
  induction s with
  | nil => exact ⟨[], List.not_mem_nil, .inl rfl⟩
  | cons c s ih =>
    obtain ⟨piece, hpiece, rfl | ⟨front, rfl⟩⟩ := ih
    · by_cases hc : c = '/'
      · exact ⟨s, hpiece, .inr ⟨[], by rw [hc, List.nil_append]⟩⟩
      · refine ⟨c :: s, ?_, .inl rfl⟩
        rw [List.mem_cons, not_or]
        exact ⟨fun h => hc h.symm, hpiece⟩
    · exact ⟨piece, hpiece, .inr ⟨c :: front, rfl⟩⟩

/-- After a separator, a text ends in a separator and a word exactly if the word is the last of the
`segments` and no separator follows it. -/
theorem slash_suffix_iff {word : Str} (hne : word ≠ []) (hword : '/' ∉ word) (front rest : Str) :
    '/' :: word <:+ front ++ '/' :: rest ↔
      rest.segments.getLast? = some word ∧ ¬['/'] <:+ front ++ '/' :: rest := by
  -- The last piece of `rest` decides: it is the word, another one, or empty.
  have hlast : ∃ (before : List Str) (front' piece : Str), '/' ∉ piece ∧
      front ++ '/' :: rest = front' ++ '/' :: piece ∧
      rest.segments = before ++ piece.segments := by
    obtain ⟨piece, hpiece, rfl | ⟨middle, rfl⟩⟩ := exists_lastPiece rest
    · exact ⟨[], front, rest, hpiece, rfl, rfl⟩
    · refine ⟨middle.segments, front ++ '/' :: middle, piece, hpiece, ?_, segments_append_cons ..⟩
      rw [List.append_assoc, List.cons_append]
  obtain ⟨before, front', piece, hpiece, htext, hsegments⟩ := hlast
  rw [htext, hsegments]
  have hends : ∀ last : Str, '/' ∉ last →
      ('/' :: last <:+ front' ++ '/' :: piece ↔ last = piece) := by
    intro last hnotMem
    constructor
    · rintro ⟨t, ht⟩
      exact (append_sep_inj hnotMem hpiece ht).2
    · rintro rfl
      exact List.suffix_append ..
  rw [hends word hword, hends [] List.not_mem_nil]
  by_cases hnil : piece = []
  · exact iff_of_false (fun h => hne (h.trans hnil)) fun h => h.2 hnil.symm
  · rw [segments_of_notMem hnil hpiece, List.getLast?_concat, Option.some_inj]
    exact ⟨fun h => ⟨h.symm, fun h => hnil h.symm⟩, fun h => h.1.symm⟩

/-! ## Numbers -/

/-- The decimal digits of a natural number. -/
def ofNat (n : Nat) : Str := Nat.toDigits 10 n

/-- Decimal notation of an integer. -/
def ofInt : Int → Str
  | .ofNat n => ofNat n
  | .negSucc n => '-' :: ofNat (n + 1)

/-- `ofNat` writes at least one digit. -/
theorem ofNat_ne_nil (n : Nat) : ofNat n ≠ [] := Nat.toDigits_ne_nil

/-- `ofNat` writes digits only. -/
theorem isDigit_of_mem_ofNat {n : Nat} {c : Char} (h : c ∈ ofNat n) : c.isDigit :=
  Nat.isDigit_of_mem_toDigits (by decide) (by decide) h

/-- `ofNat` is injective: the decimal notation tells the number. -/
theorem ofNat_injective : Function.Injective ofNat := by
  intro m n h
  rw [← Nat.ofDigitChars_ten_toDigits (n := m), ← Nat.ofDigitChars_ten_toDigits (n := n)]
  exact congrArg (Nat.ofDigitChars 10 · 0) h

/-- `ofInt` writes digits and a sign only. -/
theorem isDigit_or_of_mem_ofInt {i : Int} {c : Char} (h : c ∈ ofInt i) : c.isDigit ∨ c = '-' := by
  cases i with
  | ofNat n => exact .inl (isDigit_of_mem_ofNat h)
  | negSucc n =>
    rcases List.mem_cons.mp h with h | h
    · exact .inr h
    · exact .inl (isDigit_of_mem_ofNat h)

/-- `ofInt` is injective: only a negative number starts with a sign. -/
theorem ofInt_injective : Function.Injective ofInt := by
  have hsign : ∀ m n : Nat, ofNat m ≠ '-' :: ofNat n := by
    intro m n h
    have hdigit : ('-').isDigit := isDigit_of_mem_ofNat (h ▸ List.mem_cons_self)
    exact absurd hdigit (by decide)
  intro i j h
  cases i with
  | ofNat m => cases j with
    | ofNat n => exact congrArg Int.ofNat (ofNat_injective h)
    | negSucc n => exact absurd h (hsign m (n + 1))
  | negSucc m => cases j with
    | ofNat n => exact absurd h.symm (hsign n (m + 1))
    | negSucc n =>
      have hsucc := ofNat_injective (List.cons.inj h).2
      exact congrArg Int.negSucc (Nat.succ.inj hsucc)

end Str

end LogosFs
