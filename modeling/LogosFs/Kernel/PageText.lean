import LogosFs.Kernel.WebSearch
import LogosFs.Lib.Escape

/-! # Text taken from a page

What `parseDdgHtml` does to the text of a page: every slice that it takes is within the text and between
characters, so that it never panics; `truncate` cuts at the last character that fits; and
`stripHtmlTags` undoes the escaping of HTML, unless the text has something in it that looks like an
entity itself, which is decoded a second time. -/

namespace LogosFs.Kernel

/-! ## Reading a page -/

/-- **Reading a page never panics**, however many `rounds` the loop of `parseDdgHtml` makes: no
slice that it takes is out of bounds or splits a character. -/
theorem parseDdgHtml_ne_panicked (html : Str) (max rounds : Nat) :
    parseDdgHtml html max rounds ≠ .panicked := by
  intro h
  have hsound := sound_parseDdgHtml html max rounds
  rw [h] at hsound
  exact hsound

/-! ## Cutting -/

/-- The longest beginning of a text that has at most so many bytes. -/
structure LongestWithin (s : Str) (bound : Nat) (front : Str) : Prop where
  /-- It is a beginning. -/
  initial : front <+: s
  /-- It fits. -/
  fits : front.byteLen ≤ bound
  /-- No longer one does. -/
  longest : ∀ other : Str, other <+: s → other.byteLen ≤ bound → other <+: front

/-- The loop goes back to `lastBoundary`, the last position up to `stop` at which a character ends.
-/
theorem le_lastBoundary {s : Str} {n stop : Nat} (hn : s.IsBoundary n) (hle : n ≤ stop) :
    n ≤ lastBoundary s stop := by
  induction stop with
  | zero => exact hle
  | succ stop ih =>
    rw [lastBoundary]
    split
    · exact hle
    · rename_i hstop
      refine ih (Nat.le_of_lt_succ (Nat.lt_of_le_of_ne hle ?_))
      rintro rfl
      exact hstop hn

/-- `lastBoundary` is not after `stop`. -/
theorem lastBoundary_le (s : Str) (stop : Nat) : lastBoundary s stop ≤ stop := by
  induction stop with
  | zero => exact Nat.le_refl 0
  | succ stop ih =>
    rw [lastBoundary]
    split
    · exact Nat.le_refl _
    · exact ih.trans (Nat.le_succ stop)

/-- **`truncate` cuts at the best boundary**: a text that fits is kept, and of a longer one the longest
beginning that fits, with dots after it. -/
theorem truncate_spec (s : Str) (maxChars : Nat) :
    (s.byteLen ≤ maxChars → truncate s maxChars = some s) ∧
      (maxChars < s.byteLen → ∃ front, LongestWithin s maxChars front ∧
        truncate s maxChars = some (front ++ "...")) := by
  constructor
  · intro hle
    rw [truncate, if_pos hle]
  · intro hlt
    obtain ⟨front, rest, rfl, hlength⟩ := isBoundary_lastBoundary s maxChars
    refine ⟨front, ⟨List.prefix_append front rest, ?_, fun other hother hfits => ?_⟩, ?_⟩
    · rw [hlength]
      exact lastBoundary_le _ _
    · obtain ⟨tail, htail⟩ := hother
      refine Str.prefix_of_byteLen_le ⟨tail, htail⟩ (List.prefix_append front rest) ?_
      rw [hlength]
      exact le_lastBoundary ⟨other, tail, htail.symm, rfl⟩ hfits
    · rw [truncate, if_neg (Nat.not_le.mpr hlt), Str.sliceTo?_eq_some_iff.mpr ⟨rest, rfl, hlength⟩]
      rfl

/-- The first character may be too long already. -/
example : truncate "é" 1 = some "...".toList := by decide

/-! ## Escaping -/

/-- The entities of HTML but the one of `&`. -/
def htmlEntities : List (Char × Str) :=
  [('<', "&lt;"), ('>', "&gt;"), ('"', "&quot;"), ('\x27', "&#x27;")]

/-- Write `&`, `<`, `>` and both quotes as entities, in a single pass. -/
def escapeHtml (s : Str) : Str := Str.escapeWith (('&', "&amp;") :: htmlEntities) s

/-- What `stripHtmlTags` takes for an entity once `&` has been decoded. -/
def lookAlikes : List (Str × Str) := Str.decoders htmlEntities ++ [("&nbsp;".toList, " ".toList)]

/-- A text outside of tags is kept by `outsideTags`, if it has no `<` and no `>`. -/
theorem outsideTags_of_notMem {s : Str} (h : ∀ c ∈ s, c ≠ '<' ∧ c ≠ '>') : outsideTags false s = s := by
  induction s with
  | nil => rfl
  | cons c s ih =>
    rw [List.forall_mem_cons] at h
    rw [outsideTags, if_neg h.1.1, if_neg h.1.2, if_neg Bool.false_ne_true, ih h.2]

/-- There are no tags in an escaped text: `escapeHtml` leaves no `<` and no `>`. -/
theorem notMem_escapeHtml (s : Str) : ∀ c ∈ escapeHtml s, c ≠ '<' ∧ c ≠ '>' := by
  intro c hc
  obtain ⟨d, -, hd⟩ := List.mem_flatMap.mp hc
  cases hlookup : (('&', "&amp;".toList) :: htmlEntities).lookup d with
  | some entity =>
    have hentities : ∀ entry ∈ ('&', "&amp;".toList) :: htmlEntities,
        '<' ∉ entry.2 ∧ '>' ∉ entry.2 := by decide
    have hmem := hentities _ (Str.mem_of_lookup hlookup)
    rw [hlookup] at hd
    exact ⟨fun h => hmem.1 (h ▸ hd), fun h => hmem.2 (h ▸ hd)⟩
  | none =>
    rw [hlookup, Option.getD_none, List.mem_singleton] at hd
    rw [hd]
    constructor
    · rintro rfl
      exact absurd hlookup (by decide)
    · rintro rfl
      exact absurd hlookup (by decide)

/-- The entities of `htmlEntities` can be decoded one after the other. -/
theorem decodable_htmlEntities : Str.Decodable '&' htmlEntities :=
  .cons (by decide) (by decide) (by decide) (by decide)
    (.cons (by decide) (by decide) (by decide) (by decide)
      (.cons (by decide) (by decide) (by decide) (by decide)
        (.cons (by decide) (by decide) (by decide) (by decide) .nil)))

/-- What `stripHtmlTags` makes of an escaped text: the text, decoded once more. -/
theorem stripHtmlTags_escapeHtml (s : Str) :
    stripHtmlTags (escapeHtml s) = trim (Str.decodeAll lookAlikes s) := by
  have hamp : Str.replace "&amp;" "&" (escapeHtml s) = Str.escapeWith htmlEntities s :=
    Str.replace_escapeWith_mark (by decide) decodable_htmlEntities.marked (by decide) (by decide) s
  have hstrip : stripHtmlTags (escapeHtml s)
      = trim (Str.decodeAll lookAlikes (Str.replace "&amp;" "&" (outsideTags false (escapeHtml s)))) :=
    rfl
  rw [hstrip, outsideTags_of_notMem (notMem_escapeHtml s), hamp, lookAlikes, Str.decodeAll,
    List.foldl_append, Str.decodeAll, List.foldl_append]
  have htable := Str.decodeAll_escapeWith decodable_htmlEntities s
  rw [Str.decodeAll, Str.decodeAll] at htable
  rw [htable]

/-- `trim` makes no text longer. -/
theorem length_trim_le (s : Str) : (trim s).length ≤ s.length := by
  rw [trim, List.length_reverse]
  refine (List.dropWhile_suffix _).length_le.trans ?_
  rw [List.length_reverse]
  exact (List.dropWhile_suffix _).length_le

/-- **When `stripHtmlTags` undoes escaping**: for a text without white space at its ends, exactly when
nothing in it looks like an entity. -/
theorem stripHtmlTags_escapeHtml_eq_iff {s : Str} (h : trim s = s) :
    stripHtmlTags (escapeHtml s) = s ↔
      ∀ entity ∈ ["&lt;".toList, "&gt;", "&quot;", "&#x27;", "&nbsp;"], ¬entity <:+: s := by
  have hentities : lookAlikes.map Prod.fst
      = ["&lt;".toList, "&gt;", "&quot;", "&#x27;", "&nbsp;"] := rfl
  have hall : (∀ entity ∈ ["&lt;".toList, "&gt;", "&quot;", "&#x27;", "&nbsp;"], ¬entity <:+: s) ↔
      ∀ entry ∈ lookAlikes, ¬entry.1 <:+: s := by
    rw [← hentities, List.forall_mem_map]
  rw [stripHtmlTags_escapeHtml, hall]
  constructor
  · intro hsame entry hentry hinfix
    have hshorter : ∀ entry ∈ lookAlikes, entry.2.length < entry.1.length := by decide
    have hlt := Str.length_decodeAll_lt hshorter ⟨entry, hentry, hinfix⟩
    have hle := length_trim_le (Str.decodeAll lookAlikes s)
    rw [hsame] at hle
    omega
  · intro hnone
    rw [Str.decodeAll_of_not_infix hnone, h]

/-- The entity of `&` itself survives. -/
theorem stripHtmlTags_escapeHtml_eq_iff_amp :
    stripHtmlTags (escapeHtml "a &amp; b") = "a &amp; b".toList ↔
      ∀ entity ∈ ["&lt;".toList, "&gt;", "&quot;", "&#x27;", "&nbsp;"],
        ¬entity <:+: "a &amp; b".toList :=
  stripHtmlTags_escapeHtml_eq_iff (by decide)

/-- Another entity is decoded twice: `stripHtmlTags` does not undo `escapeHtml` on every text. -/
theorem not_stripHtmlTags_escapeHtml :
    ¬∀ s : Str, trim s = s → stripHtmlTags (escapeHtml s) = s := by
  intro h
  have hdecoded : stripHtmlTags (escapeHtml "&lt;") = "<".toList := by decide +kernel
  have hkept := h "&lt;" (by decide)
  rw [hdecoded] at hkept
  exact absurd hkept (by decide)

end LogosFs.Kernel
