import LogosFs.Lib.Text

/-! # Replacing a pattern in a text

`replace` goes through a text from left to right and replaces every occurrence of a non-empty pattern;
occurrences do not overlap. What it does to a text put together from parts is clear where no
occurrence can reach over the seam: after an occurrence (`replace_append`), and around a character
that the pattern does not have (`replace_append_cons`). -/

namespace LogosFs.Str

/-- `s` with every occurrence of the non-empty `pattern` replaced by `new`. -/
def replace (pattern new s : Str) : Str := go 0 s
where
  /-- The first `skip` characters belong to an occurrence that has been replaced already. -/
  go : Nat → Str → Str
    | _, [] => []
    | skip + 1, _ :: s => go skip s
    | 0, c :: s =>
      if pattern.isPrefixOf (c :: s) then new ++ go (pattern.length - 1) s else c :: go 0 s

variable {pattern new : Str}

/-- `replace.go` skips what belongs to an occurrence. -/
theorem replace_go_append (skipped s : Str) :
    replace.go pattern new skipped.length (skipped ++ s) = replace pattern new s := by
  induction skipped with
  | nil => rfl
  | cons c skipped ih => exact ih

/-- `replace` replaces an occurrence at the front, and goes on behind it. -/
theorem replace_append (hne : pattern ≠ []) (s : Str) :
    replace pattern new (pattern ++ s) = new ++ replace pattern new s := by
  obtain ⟨c, rest, hpattern⟩ := List.exists_cons_of_ne_nil hne
  have hfront : pattern.isPrefixOf (pattern ++ s) = true :=
    List.isPrefixOf_iff_prefix.mpr (List.prefix_append _ _)
  have hlength : pattern.length - 1 = rest.length := by
    rw [hpattern, List.length_cons, Nat.add_sub_cancel]
  have hstep : replace pattern new (pattern ++ s)
      = new ++ replace.go pattern new (pattern.length - 1) (rest ++ s) := by
    rw [hpattern, List.cons_append] at hfront ⊢
    rw [replace, replace.go, if_pos hfront]
  rw [hstep, hlength, replace_go_append]

/-- `replace` keeps a character where no occurrence starts. -/
theorem replace_cons {c : Char} {s : Str} (h : ¬pattern <+: c :: s) :
    replace pattern new (c :: s) = c :: replace pattern new s := by
  have hfront : ¬pattern.isPrefixOf (c :: s) = true := fun hp =>
    h (List.isPrefixOf_iff_prefix.mp hp)
  rw [replace, replace.go, if_neg hfront]
  rfl

/-- `replace` keeps a front in which no occurrence starts. -/
theorem replace_append_of_no_start {front s : Str}
    (h : ∀ first back, front = first ++ back → back ≠ [] → ¬pattern <+: back ++ s) :
    replace pattern new (front ++ s) = front ++ replace pattern new s := by
  induction front with
  | nil => rfl
  | cons c front ih =>
    have hstart : ¬pattern <+: c :: (front ++ s) := h [] (c :: front) rfl (List.cons_ne_nil _ _)
    rw [List.cons_append, replace_cons hstart, ih, List.cons_append]
    rintro first back rfl hback
    exact h (c :: first) back rfl hback

/-- **What the front of the result says**: a front of `replace pattern new s` is one of `s`, or `s`
has an occurrence whose replacement begins in it. -/
theorem prefix_replace_cases (hne : pattern ≠ []) {front s : Str}
    (h : front <+: replace pattern new s) :
    front <+: s ∨ ∃ first back rest, s = first ++ pattern ++ rest ∧ front = first ++ back ∧
      back ≠ [] ∧ back <+: new ++ replace pattern new rest := by
  induction s generalizing front with
  | nil => exact .inl h
  | cons c s ih =>
    cases front with
    | nil => exact .inl List.nil_prefix
    | cons d front =>
      by_cases hstart : pattern <+: c :: s
      · obtain ⟨rest, hrest⟩ := hstart
        rw [← hrest, replace_append hne] at h
        exact .inr ⟨[], d :: front, rest, hrest.symm, rfl, List.cons_ne_nil _ _, h⟩
      · rw [replace_cons hstart, List.cons_prefix_cons] at h
        obtain ⟨rfl, h⟩ := h
        rcases ih h with hs | ⟨first, back, rest, rfl, rfl, hback, hnew⟩
        · exact .inl (List.cons_prefix_cons.mpr ⟨rfl, hs⟩)
        · exact .inr ⟨d :: first, back, rest, rfl, rfl, hback, hnew⟩

/-- `replace` changes nothing without an occurrence. -/
theorem replace_of_not_infix {s : Str} (h : ¬pattern <:+: s) : replace pattern new s = s := by
  induction s with
  | nil => rfl
  | cons c s ih =>
    rw [List.infix_cons_iff, not_or] at h
    have hfront : ¬pattern.isPrefixOf (c :: s) = true := fun hp =>
      h.1 (List.isPrefixOf_iff_prefix.mp hp)
    rw [replace, replace.go, if_neg hfront]
    exact congrArg (c :: ·) (ih h.2)

/-- A text without the character `c` that starts another one ends before the first `c` in it. -/
theorem prefix_append_cons_iff {c : Char} (h : c ∉ pattern) (s t : Str) :
    pattern <+: s ++ c :: t ↔ pattern <+: s := by
  constructor
  · rintro ⟨tail, htail⟩
    rcases List.append_eq_append_iff.mp htail with ⟨rest, hs, -⟩ | ⟨rest, hpattern, hrest⟩
    · exact ⟨rest, hs.symm⟩
    · cases rest with
      | nil => exact ⟨[], by rw [hpattern, List.append_nil, List.append_nil]⟩
      | cons d rest =>
        -- The pattern would reach beyond `s`, and have the `c` in it.
        have hd : c = d := (List.cons.inj hrest).1
        exact absurd (hpattern ▸ List.mem_append_right s (hd ▸ List.mem_cons_self)) h
  · intro hs
    exact hs.trans (List.prefix_append _ _)

/-- A character that the pattern does not have separates what `replace` replaces. -/
theorem replace_append_cons {c : Char} (hne : pattern ≠ []) (h : c ∉ pattern) (s t : Str) :
    replace pattern new (s ++ c :: t) = replace pattern new s ++ c :: replace pattern new t := by
  -- Nothing is skipped beyond the end of `s`.
  suffices hskip : ∀ skip ≤ s.length, replace.go pattern new skip (s ++ c :: t)
      = replace.go pattern new skip s ++ c :: replace pattern new t from hskip 0 (Nat.zero_le _)
  induction s with
  | nil =>
    intro skip hle
    obtain rfl : skip = 0 := Nat.le_zero.mp hle
    have hfront : ¬pattern.isPrefixOf (c :: t) = true := by
      intro hp
      have hnil := (prefix_append_cons_iff h [] t).mp (List.isPrefixOf_iff_prefix.mp hp)
      exact hne (List.prefix_nil.mp hnil)
    have hstep : replace.go pattern new 0 (c :: t) = c :: replace pattern new t := by
      rw [replace.go, if_neg hfront]
      rfl
    exact hstep
  | cons d s ih =>
    intro skip hle
    cases skip with
    | succ skip => exact ih skip (Nat.le_of_succ_le_succ hle)
    | zero =>
      have hiff : pattern.isPrefixOf (d :: (s ++ c :: t)) = pattern.isPrefixOf (d :: s) := by
        rw [Bool.eq_iff_iff, List.isPrefixOf_iff_prefix, List.isPrefixOf_iff_prefix]
        exact prefix_append_cons_iff h (d :: s) t
      rw [List.cons_append, replace.go, hiff, replace.go]
      split
      · rename_i hp
        have hlength := (List.isPrefixOf_iff_prefix.mp hp).length_le
        rw [List.length_cons] at hlength
        rw [ih _ (by omega), List.append_assoc]
      · rw [ih 0 (Nat.zero_le _), List.cons_append]

/-! ## Paths and the double separator -/

/-- A segment without separator in front of a text adds no `//` to it. -/
theorem slashes_infix_append_iff {segment : Str} (h : '/' ∉ segment) (s : Str) :
    "//".toList <:+: segment ++ s ↔ "//".toList <:+: s := by
  induction segment with
  | nil => exact Iff.rfl
  | cons c segment ih =>
    rw [List.mem_cons, not_or] at h
    rw [List.cons_append, List.infix_cons_iff, ih h.2]
    refine or_iff_right fun hp => ?_
    obtain ⟨rest, hrest⟩ := hp
    exact h.1 (List.cons.inj hrest).1

/-- `join` of segments has no two separators in a row, also after one more. -/
theorem not_slashes_infix_join {segments : List Str}
    (h : ∀ segment ∈ segments, segment ≠ [] ∧ '/' ∉ segment) :
    ¬"//".toList <:+: '/' :: join segments := by
  induction segments with
  | nil => decide
  | cons first rest ih =>
    obtain ⟨hne, hfirst⟩ := h first List.mem_cons_self
    have hrest := ih fun segment hsegment => h segment (List.mem_cons_of_mem _ hsegment)
    obtain ⟨c, first, rfl⟩ := List.exists_cons_of_ne_nil hne
    have htail : ∃ tail, join ((c :: first) :: rest) = (c :: first) ++ tail ∧
        ¬"//".toList <:+: tail := by
      rcases rest with _ | ⟨second, rest⟩
      · exact ⟨[], by rw [join_singleton, List.append_nil], by decide⟩
      · exact ⟨'/' :: join (second :: rest), join_cons_cons .., hrest⟩
    obtain ⟨tail, hjoin, htail⟩ := htail
    rw [hjoin, List.infix_cons_iff, slashes_infix_append_iff hfirst, not_or]
    refine ⟨fun hp => ?_, htail⟩
    obtain ⟨rest', hrest'⟩ := hp
    have hc : '/' = c := (List.cons.inj (List.cons.inj hrest').2).1
    exact hfirst (hc ▸ List.mem_cons_self)

/-- `replace` of a pattern with a `//` in it changes nothing where there is none. -/
theorem replace_eq_self {s : Str} (hpattern : "//".toList <:+: pattern)
    (hs : ¬"//".toList <:+: s) : replace pattern new s = s :=
  replace_of_not_infix fun h => hs (hpattern.trans h)

/-- A path below `root` is moved to `target` by replacing its first directory with a separator, and
then without one. -/
theorem replace_root {root target first : Str} {rest : List Str} (hroot : "//".toList <:+: root)
    (h : ∀ segment ∈ first :: rest, segment ≠ [] ∧ '/' ∉ segment)
    (htarget : ¬"//".toList <:+: target ++ join (first :: rest)) :
    replace (root ++ first) (target ++ first)
      (replace (root ++ first ++ ['/']) (target ++ first ++ ['/']) (root ++ join (first :: rest)))
        = target ++ join (first :: rest) := by
  have hne : root ++ first ≠ [] := List.append_ne_nil_of_right_ne_nil _ (h first List.mem_cons_self).1
  rcases rest with _ | ⟨second, rest⟩
  · -- The directory itself, with no separator after it.
    have hlonger : ¬root ++ first ++ ['/'] <:+: root ++ first := by
      intro hinfix
      have hlength := hinfix.length_le
      rw [List.length_append, List.length_singleton] at hlength
      omega
    have hwhole := @replace_append _ (target ++ first) hne []
    rw [List.append_nil] at hwhole
    rw [join_singleton, replace_of_not_infix hlonger, hwhole]
    exact List.append_nil _
  · have hfirst : ∀ s : Str, s ++ join (first :: second :: rest)
        = s ++ first ++ ['/'] ++ join (second :: rest) := by
      intro s
      rw [join_cons_cons, List.append_assoc, List.append_assoc, List.singleton_append]
    have htail : ¬"//".toList <:+: join (second :: rest) := by
      have hjoin := not_slashes_infix_join fun segment hsegment =>
        h segment (List.mem_cons_of_mem _ hsegment)
      exact fun hinfix => hjoin (List.infix_cons hinfix)
    have hpattern : "//".toList <:+: root ++ first ++ ['/'] := by
      rw [List.append_assoc]
      exact hroot.trans (List.prefix_append _ _).isInfix
    rw [hfirst root, replace_append (List.append_ne_nil_of_left_ne_nil hne _),
      replace_eq_self hpattern htail, ← hfirst target]
    exact replace_eq_self (hroot.trans (List.prefix_append _ _).isInfix) htarget

end LogosFs.Str
