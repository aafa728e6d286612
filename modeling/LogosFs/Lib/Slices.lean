import LogosFs.Lib.Text

/-! # Byte positions in a text

A position in a text is a number of bytes. Slicing a text at a position works only where a character
ends; searching a text gives such a position, that of the first or the last occurrence of a pattern.
Everything is said in terms of `Occurs`: how the occurrences in a slice are those of the text
(`occurs_sliceFrom?`, `occurs_sliceTo?`), and which one a search gives (`find?_eq_some_iff`,
`rfind?_eq_some_iff`). -/

namespace LogosFs.Str

/-! ## Slices -/

/-- The number of bytes of a text. -/
def byteLen (s : Str) : Nat := s.foldr (fun c length => c.utf8Size + length) 0

/-- `byteLen` of the empty text is 0. -/
@[simp] theorem byteLen_nil : byteLen [] = 0 := rfl

/-- `byteLen` adds the bytes of the first character to those of the rest. -/
@[simp] theorem byteLen_cons (c : Char) (s : Str) : byteLen (c :: s) = c.utf8Size + byteLen s := rfl

/-- `byteLen` of a concatenation is the sum of the two. -/
@[simp] theorem byteLen_append (s t : Str) : byteLen (s ++ t) = byteLen s + byteLen t := by
  induction s with
  | nil => rw [List.nil_append, byteLen_nil, Nat.zero_add]
  | cons c s ih => rw [List.cons_append, byteLen_cons, byteLen_cons, ih, Nat.add_assoc]

/-- `byteLen` is 0 for the empty text only. -/
theorem eq_nil_of_byteLen {s : Str} (h : byteLen s = 0) : s = [] := by
  cases s with
  | nil => rfl
  | cons c s =>
    have hpos := c.utf8Size_pos
    rw [byteLen_cons] at h
    omega

/-- Of two beginnings of a text the one with the smaller `byteLen` is the beginning of the other. -/
theorem prefix_of_byteLen_le {s t text : Str} (hs : s <+: text) (ht : t <+: text)
    (h : byteLen s ≤ byteLen t) : s <+: t := by
  rcases List.prefix_or_prefix_of_prefix hs ht with hprefix | ⟨rest, rfl⟩
  · exact hprefix
  · rw [byteLen_append] at h
    rw [eq_nil_of_byteLen (s := rest) (by omega), List.append_nil]

/-- The text from a position on, if a character ends there. -/
def sliceFrom? : Str → Nat → Option Str
  | s, 0 => some s
  | [], _ + 1 => none
  | c :: s, n + 1 => if c.utf8Size ≤ n + 1 then sliceFrom? s (n + 1 - c.utf8Size) else none

/-- The text up to a position, if a character ends there. -/
def sliceTo? : Str → Nat → Option Str
  | _, 0 => some []
  | [], _ + 1 => none
  | c :: s, n + 1 =>
    if c.utf8Size ≤ n + 1 then (sliceTo? s (n + 1 - c.utf8Size)).map (c :: ·) else none

/-- The text between two positions. -/
def slice? (s : Str) (start stop : Nat) : Option Str :=
  if start ≤ stop then (s.sliceFrom? start).bind (·.sliceTo? (stop - start)) else none

/-- `sliceFrom? n` answers the rest after a front of `n` bytes, exactly if there is one. -/
theorem sliceFrom?_eq_some_iff {s rest : Str} {n : Nat} :
    s.sliceFrom? n = some rest ↔ ∃ front, s = front ++ rest ∧ byteLen front = n := by
  induction s, n using sliceFrom?.induct with
  | case1 s =>
    rw [sliceFrom?.eq_def, Option.some_inj]
    constructor
    · rintro rfl
      exact ⟨[], rfl, rfl⟩
    · rintro ⟨front, rfl, hfront⟩
      rw [eq_nil_of_byteLen hfront, List.nil_append]
  | case2 n =>
    refine iff_of_false nofun ?_
    rintro ⟨front, hfront, hlength⟩
    rw [(List.append_eq_nil_iff.mp hfront.symm).1] at hlength
    cases hlength
  | case3 c s n hle ih =>
    rw [sliceFrom?, if_pos hle, ih]
    constructor
    · rintro ⟨front, rfl, hfront⟩
      have hlength : byteLen (c :: front) = n + 1 := by
        rw [byteLen_cons, hfront, Nat.add_sub_of_le hle]
      exact ⟨c :: front, rfl, hlength⟩
    · rintro ⟨_ | ⟨d, front⟩, hfront, hlength⟩
      · cases hlength
      · obtain ⟨rfl, rfl⟩ := List.cons.inj hfront
        rw [byteLen_cons] at hlength
        exact ⟨front, rfl, by omega⟩
  | case4 c s n hlt =>
    rw [sliceFrom?, if_neg hlt]
    refine iff_of_false nofun ?_
    rintro ⟨_ | ⟨d, front⟩, hfront, hlength⟩
    · cases hlength
    · obtain ⟨rfl, -⟩ := List.cons.inj hfront
      rw [byteLen_cons] at hlength
      omega

/-- `sliceTo? n` answers the front of `n` bytes, exactly if there is one. -/
theorem sliceTo?_eq_some_iff {s front : Str} {n : Nat} :
    s.sliceTo? n = some front ↔ ∃ rest, s = front ++ rest ∧ byteLen front = n := by
  -- Along the recursion: the front is complete, the text is over, or a character fits or does not.
  induction s, n using sliceTo?.induct generalizing front with
  | case1 s =>
    rw [sliceTo?.eq_def, Option.some_inj]
    constructor
    · rintro rfl
      exact ⟨s, rfl, rfl⟩
    · rintro ⟨rest, -, hfront⟩
      exact (eq_nil_of_byteLen hfront).symm
  | case2 n =>
    refine iff_of_false nofun ?_
    rintro ⟨rest, hfront, hlength⟩
    rw [(List.append_eq_nil_iff.mp hfront.symm).1] at hlength
    cases hlength
  | case3 c s n hle ih =>
    rw [sliceTo?, if_pos hle, Option.map_eq_some_iff]
    constructor
    · rintro ⟨front, hfront, rfl⟩
      obtain ⟨rest, rfl, hlength⟩ := ih.mp hfront
      refine ⟨rest, rfl, ?_⟩
      rw [byteLen_cons, hlength, Nat.add_sub_of_le hle]
    · rintro ⟨rest, hfront, hlength⟩
      rcases front with _ | ⟨d, front⟩
      · cases hlength
      · obtain ⟨rfl, rfl⟩ := List.cons.inj hfront
        rw [byteLen_cons] at hlength
        exact ⟨front, ih.mpr ⟨rest, rfl, by omega⟩, rfl⟩
  | case4 c s n hlt =>
    rw [sliceTo?, if_neg hlt]
    refine iff_of_false nofun ?_
    rintro ⟨rest, hfront, hlength⟩
    rcases front with _ | ⟨d, front⟩
    · cases hlength
    · obtain ⟨rfl, -⟩ := List.cons.inj hfront
      rw [byteLen_cons] at hlength
      omega

/-- A character ends at the position. -/
def IsBoundary (s : Str) (n : Nat) : Prop := ∃ front rest, s = front ++ rest ∧ byteLen front = n

/-- `IsBoundary` is that the text can be sliced there. -/
theorem isBoundary_iff {s : Str} {n : Nat} : IsBoundary s n ↔ (s.sliceFrom? n).isSome := by
  rw [Option.isSome_iff_exists]
  constructor
  · rintro ⟨front, rest, h⟩
    exact ⟨rest, sliceFrom?_eq_some_iff.mpr ⟨front, h⟩⟩
  · rintro ⟨rest, h⟩
    obtain ⟨front, hfront⟩ := sliceFrom?_eq_some_iff.mp h
    exact ⟨front, rest, hfront⟩

instance (s : Str) (n : Nat) : Decidable (IsBoundary s n) :=
  decidable_of_iff _ isBoundary_iff.symm

/-- An `IsBoundary` position lies within the `byteLen` of the text. -/
theorem IsBoundary.le_byteLen {s : Str} {n : Nat} (h : IsBoundary s n) : n ≤ byteLen s := by
  obtain ⟨front, rest, rfl, rfl⟩ := h
  rw [byteLen_append]
  exact Nat.le_add_right _ _

/-- `IsBoundary` holds in front of every text. -/
theorem isBoundary_zero (s : Str) : IsBoundary s 0 := ⟨[], s, rfl, rfl⟩

/-! ## Occurrences -/

/-- The pattern is in the text, from the position `n` on. -/
def Occurs (pattern s : Str) (n : Nat) : Prop :=
  ∃ front rest, s = front ++ (pattern ++ rest) ∧ byteLen front = n

section Occurs

variable {pattern s : Str} {n : Nat}

/-- An occurrence starts where `IsBoundary` holds. -/
theorem Occurs.isBoundary (h : Occurs pattern s n) : IsBoundary s n := by
  obtain ⟨front, rest, hs, hfront⟩ := h
  exact ⟨front, pattern ++ rest, hs, hfront⟩

/-- An occurrence ends, `byteLen pattern` further, where `IsBoundary` holds. -/
theorem Occurs.isBoundary_end (h : Occurs pattern s n) : IsBoundary s (n + byteLen pattern) := by
  obtain ⟨front, rest, hs, hfront⟩ := h
  refine ⟨front ++ pattern, rest, ?_, ?_⟩
  · rw [hs, List.append_assoc]
  · rw [byteLen_append, hfront]

/-- A non-empty pattern never `Occurs` in the empty text. -/
theorem not_occurs_nil (hne : pattern ≠ []) : ¬Occurs pattern [] n := by
  rintro ⟨front, rest, hs, -⟩
  exact hne (List.append_eq_nil_iff.mp (List.append_eq_nil_iff.mp hs.symm).2).1

/-- An occurrence in `c :: s` is in front, or is one in `s` moved by the bytes of `c`. -/
theorem occurs_cons_iff {c : Char} : Occurs pattern (c :: s) n ↔
    n = 0 ∧ pattern <+: c :: s ∨ ∃ m, n = c.utf8Size + m ∧ Occurs pattern s m := by
  constructor
  · rintro ⟨_ | ⟨d, front⟩, rest, hs, rfl⟩
    · exact .inl ⟨rfl, rest, hs.symm⟩
    · obtain ⟨rfl, hrest⟩ := List.cons.inj hs
      exact .inr ⟨byteLen front, byteLen_cons .., front, rest, hrest, rfl⟩
  · rintro (⟨rfl, rest, hs⟩ | ⟨m, rfl, front, rest, rfl, rfl⟩)
    · exact ⟨[], rest, hs.symm, rfl⟩
    · exact ⟨c :: front, rest, rfl, byteLen_cons ..⟩

/-- **The occurrences in what comes after a position**: at `n` of `sliceFrom? start` those at
`start + n` of the text. -/
theorem occurs_sliceFrom? {rest : Str} {start : Nat} (h : s.sliceFrom? start = some rest) :
    Occurs pattern rest n ↔ Occurs pattern s (start + n) := by
  obtain ⟨front, rfl, rfl⟩ := sliceFrom?_eq_some_iff.mp h
  constructor
  · rintro ⟨middle, tail, rfl, rfl⟩
    exact ⟨front ++ middle, tail, (List.append_assoc ..).symm, byteLen_append ..⟩
  · rintro ⟨longer, tail, hs, hlonger⟩
    have hprefix : front <+: longer := by
      refine prefix_of_byteLen_le (List.prefix_append front rest) ?_ ?_
      · rw [hs]
        exact List.prefix_append _ _
      · omega
    obtain ⟨middle, rfl⟩ := hprefix
    rw [List.append_assoc] at hs
    rw [byteLen_append] at hlonger
    exact ⟨middle, tail, List.append_cancel_left hs, by omega⟩

/-- **The occurrences in what comes before a position**: those of the text that end at `stop` or
before. -/
theorem occurs_sliceTo? {front : Str} {stop : Nat} (h : s.sliceTo? stop = some front) :
    Occurs pattern front n ↔ Occurs pattern s n ∧ n + byteLen pattern ≤ stop := by
  obtain ⟨rest, rfl, rfl⟩ := sliceTo?_eq_some_iff.mp h
  constructor
  · rintro ⟨before, tail, rfl, rfl⟩
    refine ⟨⟨before, tail ++ rest, ?_, rfl⟩, ?_⟩
    · simp only [List.append_assoc]
    · simp only [byteLen_append]
      omega
  · rintro ⟨⟨before, tail, hs, rfl⟩, hle⟩
    have hprefix : before ++ pattern <+: front := by
      refine prefix_of_byteLen_le ?_ (List.prefix_append front rest) ?_
      · rw [hs, ← List.append_assoc]
        exact List.prefix_append _ _
      · rw [byteLen_append]
        exact hle
    obtain ⟨middle, hmiddle⟩ := hprefix
    exact ⟨before, middle, by rw [← hmiddle, List.append_assoc], rfl⟩

end Occurs

/-! ## Searching -/

/-- The position of the first occurrence of a pattern. -/
def find? (pattern : Str) : Str → Option Nat
  | [] => if pattern = [] then some 0 else none
  | c :: s =>
    if pattern.isPrefixOf (c :: s) then some 0 else (find? pattern s).map (c.utf8Size + ·)

/-- The position of the last one. -/
def rfind? (pattern : Str) : Str → Option Nat
  | [] => if pattern = [] then some 0 else none
  | c :: s => match rfind? pattern s with
    | some n => some (c.utf8Size + n)
    | none => if pattern.isPrefixOf (c :: s) then some 0 else none

/-- The positions of all occurrences of a non-empty pattern. -/
def occurrences (pattern : Str) : Str → List Nat
  | [] => []
  | c :: s =>
    let later := (occurrences pattern s).map (c.utf8Size + ·)
    if pattern.isPrefixOf (c :: s) then 0 :: later else later

section Searching

variable {pattern : Str} (hne : pattern ≠ [])

include hne in

/-- `find?` finds nothing exactly if the pattern does not occur. -/
theorem find?_eq_none_iff {s : Str} : find? pattern s = none ↔ ∀ n, ¬Occurs pattern s n := by
  induction s with
  | nil =>
    rw [find?, if_neg hne]
    exact iff_of_true rfl fun n => not_occurs_nil hne
  | cons c s ih =>
    rw [find?]
    split
    · rename_i hp
      refine iff_of_false nofun fun h => h 0 (occurs_cons_iff.mpr (.inl ⟨rfl, ?_⟩))
      exact List.isPrefixOf_iff_prefix.mp hp
    · rename_i hp
      rw [Option.map_eq_none_iff, ih]
      constructor
      · intro h n hn
        rcases occurs_cons_iff.mp hn with ⟨-, hprefix⟩ | ⟨m, -, hm⟩
        · exact hp (List.isPrefixOf_iff_prefix.mpr hprefix)
        · exact h m hm
      · intro h n hn
        exact h _ (occurs_cons_iff.mpr (.inr ⟨n, rfl, hn⟩))

include hne in
/-- `find?` finds the first position at which the pattern `Occurs`. -/
theorem find?_eq_some_iff {s : Str} {n : Nat} :
    find? pattern s = some n ↔ Occurs pattern s n ∧ ∀ m, Occurs pattern s m → n ≤ m := by
  induction s generalizing n with
  | nil =>
    rw [find?, if_neg hne]
    exact iff_of_false nofun fun h => not_occurs_nil hne h.1
  | cons c s ih =>
    rw [find?]
    split
    · rename_i hp
      have hzero : Occurs pattern (c :: s) 0 :=
        occurs_cons_iff.mpr (.inl ⟨rfl, List.isPrefixOf_iff_prefix.mp hp⟩)
      rw [Option.some_inj]
      constructor
      · rintro rfl
        exact ⟨hzero, fun m _ => Nat.zero_le m⟩
      · rintro ⟨-, hfirst⟩
        exact (Nat.le_zero.mp (hfirst 0 hzero)).symm
    · rename_i hp
      -- Without an occurrence at the front all of them are behind the first character.
      have hlater : ∀ m, Occurs pattern (c :: s) m ↔ ∃ k, m = c.utf8Size + k ∧ Occurs pattern s k :=
        fun m => occurs_cons_iff.trans (or_iff_right fun h =>
          hp (List.isPrefixOf_iff_prefix.mpr h.2))
      rw [Option.map_eq_some_iff]
      constructor
      · rintro ⟨k, hk, rfl⟩
        obtain ⟨hoccurs, hfirst⟩ := ih.mp hk
        refine ⟨(hlater _).mpr ⟨k, rfl, hoccurs⟩, fun m hm => ?_⟩
        obtain ⟨j, rfl, hj⟩ := (hlater m).mp hm
        exact Nat.add_le_add_left (hfirst j hj) _
      · rintro ⟨hoccurs, hfirst⟩
        obtain ⟨k, rfl, hk⟩ := (hlater n).mp hoccurs
        refine ⟨k, ih.mpr ⟨hk, fun m hm => ?_⟩, rfl⟩
        exact Nat.le_of_add_le_add_left (hfirst _ ((hlater _).mpr ⟨m, rfl, hm⟩))

include hne in

/-- `rfind?` finds nothing exactly if the pattern does not occur. -/
theorem rfind?_eq_none_iff {s : Str} : rfind? pattern s = none ↔ ∀ n, ¬Occurs pattern s n := by
  induction s with
  | nil =>
    rw [rfind?, if_neg hne]
    exact iff_of_true rfl fun n => not_occurs_nil hne
  | cons c s ih =>
    rw [rfind?]
    split
    · rename_i k hk
      refine iff_of_false nofun fun h => ?_
      have hnone := ih.mpr fun n hn => h _ (occurs_cons_iff.mpr (.inr ⟨n, rfl, hn⟩))
      rw [hnone] at hk
      cases hk
    · rename_i hnone
      have hlater := ih.mp hnone
      split
      · rename_i hp
        refine iff_of_false nofun fun h => h 0 (occurs_cons_iff.mpr (.inl ⟨rfl, ?_⟩))
        exact List.isPrefixOf_iff_prefix.mp hp
      · rename_i hp
        refine iff_of_true rfl fun n hn => ?_
        rcases occurs_cons_iff.mp hn with ⟨-, hprefix⟩ | ⟨m, -, hm⟩
        · exact hp (List.isPrefixOf_iff_prefix.mpr hprefix)
        · exact hlater m hm

include hne in
/-- `rfind?` finds the last position at which the pattern `Occurs`. -/
theorem rfind?_eq_some_iff {s : Str} {n : Nat} :
    rfind? pattern s = some n ↔ Occurs pattern s n ∧ ∀ m, Occurs pattern s m → m ≤ n := by
  have hunique : ∀ {k n}, Occurs pattern s k → (∀ m, Occurs pattern s m → m ≤ k) →
      (Occurs pattern s n ∧ ∀ m, Occurs pattern s m → m ≤ n) → k = n := fun hk hlast h =>
    Nat.le_antisymm (h.2 _ hk) (hlast _ h.1)
  -- It is enough to see where the search ends, as there is one last occurrence at most.
  suffices hspec : ∀ k, rfind? pattern s = some k →
      Occurs pattern s k ∧ ∀ m, Occurs pattern s m → m ≤ k by
    constructor
    · exact hspec n
    · intro h
      cases hfind : rfind? pattern s with
      | none => exact absurd h.1 ((rfind?_eq_none_iff hne).mp hfind n)
      | some k => rw [hunique (hspec k hfind).1 (hspec k hfind).2 h]
  clear hunique
  induction s with
  | nil =>
    rw [rfind?, if_neg hne]
    exact nofun
  | cons c s ih =>
    intro k hk
    rw [rfind?] at hk
    split at hk
    · rename_i j hj
      obtain rfl := Option.some_inj.mp hk
      obtain ⟨hoccurs, hlast⟩ := ih j hj
      refine ⟨occurs_cons_iff.mpr (.inr ⟨j, rfl, hoccurs⟩), fun m hm => ?_⟩
      rcases occurs_cons_iff.mp hm with ⟨rfl, -⟩ | ⟨i, rfl, hi⟩
      · exact Nat.zero_le _
      · exact Nat.add_le_add_left (hlast i hi) _
    · rename_i hnone
      split at hk
      · rename_i hp
        obtain rfl := Option.some_inj.mp hk
        refine ⟨occurs_cons_iff.mpr (.inl ⟨rfl, List.isPrefixOf_iff_prefix.mp hp⟩), fun m hm => ?_⟩
        rcases occurs_cons_iff.mp hm with ⟨rfl, -⟩ | ⟨i, -, hi⟩
        · exact Nat.le_refl _
        · exact absurd hi ((rfind?_eq_none_iff hne).mp hnone i)
      · cases hk

include hne in

/-- `occurrences` lists the positions at which the pattern occurs. -/
theorem mem_occurrences_iff {s : Str} {n : Nat} : n ∈ occurrences pattern s ↔ Occurs pattern s n := by
  induction s generalizing n with
  | nil => exact iff_of_false List.not_mem_nil (not_occurs_nil hne)
  | cons c s ih =>
    have hlater : n ∈ (occurrences pattern s).map (c.utf8Size + ·) ↔
        ∃ m, n = c.utf8Size + m ∧ Occurs pattern s m := by
      rw [List.mem_map]
      constructor
      · rintro ⟨m, hm, rfl⟩
        exact ⟨m, rfl, ih.mp hm⟩
      · rintro ⟨m, rfl, hm⟩
        exact ⟨m, ih.mpr hm, rfl⟩
    rw [occurs_cons_iff, ← hlater, occurrences]
    split
    · rename_i hp
      rw [List.mem_cons, and_iff_left (List.isPrefixOf_iff_prefix.mp hp)]
    · rename_i hp
      rw [or_iff_right fun h => hp (List.isPrefixOf_iff_prefix.mpr h.2)]

end Searching

/-! ## Searching from a position on -/

/-- The position of the first occurrence from `start` on. -/
def firstFrom? (pattern s : Str) (start : Nat) : Option Nat :=
  (s.sliceFrom? start).bind fun rest => (find? pattern rest).map (start + ·)

section FirstFrom

variable {pattern s : Str} {start n : Nat}

/-- Searching from a boundary is searching the slice from there, moved by `start`. -/
theorem firstFrom?_of_sliceFrom? {rest : Str} (h : s.sliceFrom? start = some rest) :
    firstFrom? pattern s start = (find? pattern rest).map (start + ·) := by
  rw [firstFrom?, h, Option.bind_some]

/-- **What `firstFrom?` finds** is the first occurrence from `start` on. -/
theorem firstFrom?_eq_some_iff (hne : pattern ≠ []) (hstart : IsBoundary s start) :
    firstFrom? pattern s start = some n ↔
      start ≤ n ∧ Occurs pattern s n ∧ ∀ m, start ≤ m → Occurs pattern s m → n ≤ m := by
  obtain ⟨rest, hrest⟩ := Option.isSome_iff_exists.mp (isBoundary_iff.mp hstart)
  rw [firstFrom?_of_sliceFrom? hrest, Option.map_eq_some_iff]
  constructor
  · rintro ⟨k, hk, rfl⟩
    obtain ⟨hoccurs, hfirst⟩ := (find?_eq_some_iff hne).mp hk
    refine ⟨Nat.le_add_right _ _, (occurs_sliceFrom? hrest).mp hoccurs, fun m hle hm => ?_⟩
    obtain ⟨j, rfl⟩ := Nat.exists_eq_add_of_le hle
    exact Nat.add_le_add_left (hfirst j ((occurs_sliceFrom? hrest).mpr hm)) _
  · rintro ⟨hle, hoccurs, hfirst⟩
    obtain ⟨k, rfl⟩ := Nat.exists_eq_add_of_le hle
    refine ⟨k, (find?_eq_some_iff hne).mpr ⟨(occurs_sliceFrom? hrest).mpr hoccurs, fun j hj => ?_⟩, rfl⟩
    exact Nat.le_of_add_le_add_left
      (hfirst _ (Nat.le_add_right _ _) ((occurs_sliceFrom? hrest).mp hj))

/-- `firstFrom?` finds something, not after `n`, if the pattern `Occurs` at `n`. -/
theorem exists_firstFrom? (hne : pattern ≠ []) (hstart : IsBoundary s start) (hle : start ≤ n)
    (h : Occurs pattern s n) : ∃ m, firstFrom? pattern s start = some m ∧ m ≤ n := by
  obtain ⟨rest, hrest⟩ := Option.isSome_iff_exists.mp (isBoundary_iff.mp hstart)
  obtain ⟨k, rfl⟩ := Nat.exists_eq_add_of_le hle
  cases hfind : find? pattern rest with
  | none =>
    exact absurd ((occurs_sliceFrom? hrest).mpr h) ((find?_eq_none_iff hne).mp hfind k)
  | some m =>
    have hfirst := ((find?_eq_some_iff hne).mp hfind).2 k ((occurs_sliceFrom? hrest).mpr h)
    refine ⟨start + m, ?_, Nat.add_le_add_left hfirst _⟩
    rw [firstFrom?_of_sliceFrom? hrest, hfind, Option.map_some]

/-- `slice?` between two positions that are boundaries, in this order, never fails. -/
theorem exists_slice? (hstart : IsBoundary s start) (hstop : IsBoundary s n) (hle : start ≤ n) :
    ∃ slice, s.slice? start n = some slice := by
  obtain ⟨front, rest, rfl, rfl⟩ := hstart
  obtain ⟨longer, tail, hs, rfl⟩ := hstop
  have hprefix : front <+: longer :=
    prefix_of_byteLen_le (List.prefix_append front rest) (hs ▸ List.prefix_append longer tail) hle
  obtain ⟨middle, rfl⟩ := hprefix
  rw [List.append_assoc] at hs
  refine ⟨middle, ?_⟩
  rw [slice?, if_pos hle, sliceFrom?_eq_some_iff.mpr ⟨front, rfl, rfl⟩, Option.bind_some,
    sliceTo?_eq_some_iff]
  refine ⟨tail, List.append_cancel_left hs, ?_⟩
  rw [byteLen_append, Nat.add_sub_cancel_left]

end FirstFrom

end LogosFs.Str
