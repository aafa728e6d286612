import LogosFs.Lib.Replace
import LogosFs.Lib.Slices
import Mathlib.Data.List.Perm.Subperm

/-! # Scanning a page of search results

A page has a link of class `result-link` for each result. `parseDdgHtml` goes from one such marker to
the next: it takes the last `<a ` before the marker for the tag of the link, reads the address in it,
the title after it and the snippet after that, and goes on behind what it has read. Where the marker is
not in that tag, this may be in front of the marker. `endsOnce_iff` says exactly when the scan comes to
an end and takes every marker for one result at most. -/

namespace LogosFs.Kernel

/-! ## The parts of a result -/

/-- White space of Unicode. -/
def isWhitespace (c : Char) : Bool :=
  let n := c.toNat
  (9 ≤ n && n ≤ 13) || n = 0x20 || n = 0x85 || n = 0xA0 || n = 0x1680 || (0x2000 ≤ n && n ≤ 0x200A)
    || n = 0x2028 || n = 0x2029 || n = 0x202F || n = 0x205F || n = 0x3000

/-- The text without white space at its ends. -/
def trim (s : Str) : Str :=
  ((s.dropWhile isWhitespace).reverse.dropWhile isWhitespace).reverse

/-- Whatever is outside of tags. -/
def outsideTags : (inTag : Bool) → Str → Str
  | _, [] => []
  | inTag, c :: s =>
    if c = '<' then outsideTags true s
    else if c = '>' then outsideTags false s
    else if inTag then outsideTags true s
    else c :: outsideTags false s

/-- The text without tags, with the entities decoded one after the other. -/
def stripHtmlTags (s : Str) : Str :=
  let result := outsideTags false s
  let result := Str.replace "&amp;" "&" result
  let result := Str.replace "&lt;" "<" result
  let result := Str.replace "&gt;" ">" result
  let result := Str.replace "&quot;" "\"" result
  let result := Str.replace "&#x27;" "'" result
  let result := Str.replace "&nbsp;" " " result
  trim result

/-- The last position up to `stop` at which a character ends. -/
def lastBoundary (s : Str) : (stop : Nat) → Nat
  | 0 => 0
  | stop + 1 => if s.IsBoundary (stop + 1) then stop + 1 else lastBoundary s stop

/-- The first bytes of a long text, with dots after them; `none` when slicing panics. -/
def truncate (s : Str) (maxChars : Nat) : Option Str :=
  if s.byteLen ≤ maxChars then some s
  else (s.sliceTo? (lastBoundary s maxChars)).map (· ++ "...")

/-- One result. -/
structure SearchResult where
  /-- Where it is from. -/
  source : Str
  /-- The title. -/
  title : Str
  /-- The address. -/
  url : Str
  /-- A part of the text. -/
  snippet : Str
deriving DecidableEq, Repr

/-! ## Reading a result

A function that slices the page is `none` where that panics. -/

/-- The class of the links. -/
def resultLink : Str := "class='result-link'"

/-- The class of the snippets. -/
def resultSnippet : Str := "class='result-snippet'"

/-- The address in a tag, if it has any. -/
def hrefOf (tagStr : Str) : Option (Option Str) :=
  match Str.find? "href=\"" tagStr with
  | none => some none
  | some hi => do
    let hrefStart := hi + 6
    let rest ← tagStr.sliceFrom? hrefStart
    let hrefEnd := ((Str.find? "\"" rest).map (hrefStart + ·)).getD hrefStart
    let url ← tagStr.slice? hrefStart hrefEnd
    return some url

/-- The snippet after a position, and where the scan goes on. -/
def snippetAfter (html : Str) (pos : Nat) : Option (Nat × Str) := do
  let rest ← html.sliceFrom? pos
  match Str.find? resultSnippet rest with
  | none => return (pos, [])
  | some si => do
    let snippetPos := pos + si
    let tail ← html.sliceFrom? snippetPos
    match Str.find? ">" tail with
    | none => return (pos, [])
    | some i => do
      let contentStart := snippetPos + i + 1
      let content ← html.sliceFrom? contentStart
      match Str.find? "</td>" content with
      | none => return (pos, [])
      | some i => do
        let contentEnd := contentStart + i
        let text ← html.slice? contentStart contentEnd
        let snippet ← truncate (stripHtmlTags text) 200
        return (contentEnd, snippet)

/-- What the tag at `tagStart` gives: where the scan goes on, and the result if it has an address and a
title. A tag that is not closed or has no address gives nothing at all. -/
def readTag (html : Str) (tagStart : Nat) : Option (Option (Nat × Option SearchResult)) := do
  let tagRegion ← html.sliceFrom? tagStart
  match Str.find? ">" tagRegion with
  | none => return none
  | some tagEndPos => do
    let tagStr ← tagRegion.sliceTo? tagEndPos
    match ← hrefOf tagStr with
    | none => return none
    | some url => do
      let contentStart := tagStart + tagEndPos + 1
      let content ← html.sliceFrom? contentStart
      match Str.find? "</a>" content with
      | none => return some (contentStart, none)
      | some i => do
        let titleEnd := contentStart + i
        let text ← html.slice? contentStart titleEnd
        let title := stripHtmlTags text
        let (pos, snippet) ← snippetAfter html titleEnd
        return some (pos, if url ≠ [] ∧ title ≠ [] then some ⟨"web", title, url, snippet⟩ else none)

/-- What a marker gives: the scan goes on behind the marker if the tag before it gives nothing. -/
def readMarker (html : Str) (markerPos : Nat) : Option (Nat × Option SearchResult) := do
  let before ← html.sliceTo? markerPos
  match Str.rfind? "<a " before with
  | none => return (markerPos + resultLink.byteLen, none)
  | some tagStart => do
    let read ← readTag html tagStart
    return read.getD (markerPos + resultLink.byteLen, none)

/-- The next marker. -/
def nextMarker (html : Str) (pos : Nat) : Option (Option Nat) := do
  let rest ← html.sliceFrom? pos
  return (Str.find? resultLink rest).map (pos + ·)

/-! ## The scan -/

/-- How far a scan is. -/
inductive Scan where
  /-- It is at a position, with some results. -/
  | scanning (pos : Nat) (results : List SearchResult)
  /-- It has returned. -/
  | returned (results : List SearchResult)
  /-- It has panicked. -/
  | panicked
deriving DecidableEq, Repr

/-- One round of the loop. -/
def Scan.step (html : Str) (max : Nat) : Scan → Scan
  | .scanning pos results =>
    if results.length < max then
      match nextMarker html pos with
      | none => .panicked
      | some none => .returned results
      | some (some markerPos) => match readMarker html markerPos with
        | none => .panicked
        | some (pos, result) => .scanning pos (results ++ result.toList)
    else .returned results
  | scan => scan

/-- The scan of a page after some rounds. -/
def parseDdgHtml (html : Str) (max rounds : Nat) : Scan := (Scan.step html max)^[rounds] (.scanning 0 [])

/-! ## Reading a result never panics -/

section Reading

variable {html : Str}

/-- A character ends at `lastBoundary`, whatever `stop` is. -/
theorem isBoundary_lastBoundary (s : Str) (stop : Nat) : s.IsBoundary (lastBoundary s stop) := by
  induction stop with
  | zero => exact s.isBoundary_zero
  | succ stop ih =>
    rw [lastBoundary]
    split
    · assumption
    · exact ih

/-- `truncate` never panics: it slices at a boundary. -/
theorem exists_truncate (s : Str) (maxChars : Nat) : ∃ t, truncate s maxChars = some t := by
  rw [truncate]
  split
  · exact ⟨s, rfl⟩
  · obtain ⟨front, rest, h⟩ := isBoundary_lastBoundary s maxChars
    rw [Str.sliceTo?_eq_some_iff.mpr ⟨rest, h⟩]
    exact ⟨_, rfl⟩

/-- The pattern `href="` is not empty. -/
theorem href_ne_nil : "href=\"".toList ≠ [] := by decide

/-- The pattern `resultLink` is not empty. -/
theorem resultLink_ne_nil : resultLink ≠ [] := by decide

/-- The pattern `resultSnippet` is not empty. -/
theorem resultSnippet_ne_nil : resultSnippet ≠ [] := by decide

/-- The address of a tag is read by `hrefOf` without a panic, and there is one exactly if `href="`
occurs in the tag. -/
theorem hrefOf_eq (tagStr : Str) : ∃ url, hrefOf tagStr = some url ∧
    (url.isSome ↔ ∃ n, Str.Occurs "href=\"" tagStr n) := by
  unfold hrefOf
  cases hfind : Str.find? "href=\"" tagStr with
  | none =>
    refine ⟨none, rfl, iff_of_false nofun ?_⟩
    rintro ⟨n, hn⟩
    exact (Str.find?_eq_none_iff href_ne_nil).mp hfind n hn
  | some hi =>
    have hoccurs := ((Str.find?_eq_some_iff href_ne_nil).mp hfind).1
    have hlength : Str.byteLen "href=\"" = 6 := by decide
    have hstart := hoccurs.isBoundary_end
    rw [hlength] at hstart
    obtain ⟨rest, hrest⟩ := Option.isSome_iff_exists.mp (Str.isBoundary_iff.mp hstart)
    -- The address ends at the next quote, or else at once.
    have hstop : ∃ stop, ((Str.find? "\"" rest).map (hi + 6 + ·)).getD (hi + 6) = stop ∧
        hi + 6 ≤ stop ∧ tagStr.IsBoundary stop := by
      cases hquote : Str.find? "\"" rest with
      | none => exact ⟨hi + 6, rfl, Nat.le_refl _, hstart⟩
      | some i =>
        have hi' := ((Str.find?_eq_some_iff (by decide)).mp hquote).1
        exact ⟨hi + 6 + i, rfl, Nat.le_add_right _ _, ((Str.occurs_sliceFrom? hrest).mp hi').isBoundary⟩
    obtain ⟨stop, hstop, hle, hboundary⟩ := hstop
    obtain ⟨url, hurl⟩ := Str.exists_slice? hstart hboundary hle
    refine ⟨some url, ?_, iff_of_true rfl ⟨hi, hoccurs⟩⟩
    simp only [hrest, Option.bind_eq_bind, Option.bind_some, hstop, hurl]
    rfl

/-- Where the snippet ends that comes after a position. -/
def snippetEnd? (html : Str) (pos : Nat) : Option Nat :=
  (Str.firstFrom? resultSnippet html pos).bind fun snippetPos =>
    (Str.firstFrom? ">" html snippetPos).bind fun tagEnd =>
      Str.firstFrom? "</td>" html (tagEnd + 1)

/-- A snippet ends at a boundary, not before `pos`. -/
theorem snippetEnd?_spec {pos stop : Nat} (hpos : html.IsBoundary pos)
    (h : snippetEnd? html pos = some stop) : pos ≤ stop ∧ html.IsBoundary stop := by
  obtain ⟨snippetPos, hsnippet, h⟩ := Option.bind_eq_some_iff.mp h
  obtain ⟨tagEnd, htag, h⟩ := Option.bind_eq_some_iff.mp h
  obtain ⟨hle, hoccurs, -⟩ := (Str.firstFrom?_eq_some_iff resultSnippet_ne_nil hpos).mp hsnippet
  obtain ⟨hle', hoccurs', -⟩ := (Str.firstFrom?_eq_some_iff (by decide) hoccurs.isBoundary).mp htag
  obtain ⟨hle'', hoccurs'', -⟩ :=
    (Str.firstFrom?_eq_some_iff (by decide) hoccurs'.isBoundary_end).mp h
  have hlength : Str.byteLen ">" = 1 := by decide
  exact ⟨by omega, hoccurs''.isBoundary⟩

/-- The scan goes on where `snippetEnd?` finds the end of a snippet, and where it is without one. -/
theorem snippetAfter_eq {pos : Nat} (hpos : html.IsBoundary pos) :
    ∃ snippet, snippetAfter html pos = some ((snippetEnd? html pos).getD pos, snippet) := by
  obtain ⟨rest, hrest⟩ := Option.isSome_iff_exists.mp (Str.isBoundary_iff.mp hpos)
  unfold snippetAfter snippetEnd?
  simp only [Str.firstFrom?_of_sliceFrom? hrest, hrest, Option.bind_eq_bind, Option.bind_some]
  cases hfind : Str.find? resultSnippet rest with
  | none => exact ⟨[], rfl⟩
  | some si =>
    have hsi := (Str.occurs_sliceFrom? hrest).mp
      ((Str.find?_eq_some_iff resultSnippet_ne_nil).mp hfind).1
    obtain ⟨tail, htail⟩ := Option.isSome_iff_exists.mp (Str.isBoundary_iff.mp hsi.isBoundary)
    simp only [Option.map_some, Option.bind_some, htail, Str.firstFrom?_of_sliceFrom? htail]
    cases hclose : Str.find? ">" tail with
    | none => exact ⟨[], rfl⟩
    | some i =>
      have hi := (Str.occurs_sliceFrom? htail).mp ((Str.find?_eq_some_iff (by decide)).mp hclose).1
      have hstart : html.IsBoundary (pos + si + i + 1) := hi.isBoundary_end
      obtain ⟨content, hcontent⟩ := Option.isSome_iff_exists.mp (Str.isBoundary_iff.mp hstart)
      simp only [Option.map_some, Option.bind_some, hcontent, Str.firstFrom?_of_sliceFrom? hcontent]
      cases hend : Str.find? "</td>" content with
      | none => exact ⟨[], rfl⟩
      | some j =>
        have hj := (Str.occurs_sliceFrom? hcontent).mp ((Str.find?_eq_some_iff (by decide)).mp hend).1
        obtain ⟨text, htext⟩ := Str.exists_slice? hstart hj.isBoundary (Nat.le_add_right _ _)
        obtain ⟨snippet, hsnippet⟩ := exists_truncate (stripHtmlTags text) 200
        refine ⟨snippet, ?_⟩
        simp only [htext, hsnippet, Option.bind_some, Option.map_some, Option.getD_some]
        rfl

/-- Where the scan goes on after a tag that ends at `tagEnd`: after the title and the snippet, as far as
there are any. -/
def resumesAt (html : Str) (tagEnd : Nat) : Nat :=
  match Str.firstFrom? "</a>" html (tagEnd + 1) with
  | none => tagEnd + 1
  | some titleEnd => (snippetEnd? html titleEnd).getD titleEnd

/-- The scan goes on at `resumesAt`, a boundary behind the end of the tag. -/
theorem resumesAt_spec {tagEnd : Nat} (h : html.IsBoundary (tagEnd + 1)) :
    tagEnd + 1 ≤ resumesAt html tagEnd ∧ html.IsBoundary (resumesAt html tagEnd) := by
  unfold resumesAt
  cases htitle : Str.firstFrom? "</a>" html (tagEnd + 1) with
  | none => exact ⟨Nat.le_refl _, h⟩
  | some titleEnd =>
    obtain ⟨hle, hoccurs, -⟩ := (Str.firstFrom?_eq_some_iff (by decide) h).mp htitle
    dsimp only
    cases hsnippet : snippetEnd? html titleEnd with
    | none => exact ⟨hle, hoccurs.isBoundary⟩
    | some stop =>
      obtain ⟨hle', hboundary⟩ := snippetEnd?_spec hoccurs.isBoundary hsnippet
      exact ⟨Nat.le_trans hle hle', hboundary⟩

/-- The text at `tagStart` is a tag that ends at `tagEnd` and has an address. -/
structure LinkTag (html : Str) (tagStart tagEnd : Nat) : Prop where
  /-- It starts one. -/
  start : Str.Occurs "<a " html tagStart
  /-- It is closed. -/
  closed : Str.firstFrom? ">" html tagStart = some tagEnd
  /-- It has an address. -/
  href : ∃ n, tagStart ≤ n ∧ n + 6 ≤ tagEnd ∧ Str.Occurs "href=\"" html n

/-- A character ends where a `LinkTag` does. -/
theorem LinkTag.isBoundary {tagStart tagEnd : Nat} (h : LinkTag html tagStart tagEnd) :
    html.IsBoundary (tagEnd + 1) :=
  ((Str.firstFrom?_eq_some_iff (by decide) h.start.isBoundary).mp h.closed).2.1.isBoundary_end

/-- **A tag gives a position to go on from, and perhaps a result**: `readTag` resumes after a
`LinkTag`, or gives nothing at all where there is none. -/
theorem readTag_cases {tagStart : Nat} (h : Str.Occurs "<a " html tagStart) :
    (∃ tagEnd result, LinkTag html tagStart tagEnd ∧
      readTag html tagStart = some (some (resumesAt html tagEnd, result))) ∨
    (∀ tagEnd, ¬LinkTag html tagStart tagEnd) ∧ readTag html tagStart = some none := by
  obtain ⟨region, hregion⟩ := Option.isSome_iff_exists.mp (Str.isBoundary_iff.mp h.isBoundary)
  unfold readTag
  simp only [hregion, Option.bind_eq_bind, Option.bind_some]
  cases hclose : Str.find? ">" region with
  | none =>
    refine .inr ⟨fun tagEnd htag => ?_, rfl⟩
    have hclosed := htag.closed
    rw [Str.firstFrom?_of_sliceFrom? hregion, hclose] at hclosed
    cases hclosed
  | some i =>
    have hi := ((Str.find?_eq_some_iff (by decide)).mp hclose).1
    have hclosed : Str.firstFrom? ">" html tagStart = some (tagStart + i) := by
      rw [Str.firstFrom?_of_sliceFrom? hregion, hclose, Option.map_some]
    obtain ⟨tagStr, tail, htag⟩ := hi.isBoundary
    have htagStr := Str.sliceTo?_eq_some_iff.mpr ⟨tail, htag⟩
    -- The address is looked for between the ends of the tag.
    have hhref : (∃ n, Str.Occurs "href=\"" tagStr n) ↔ LinkTag html tagStart (tagStart + i) := by
      have hlength : Str.byteLen "href=\"" = 6 := by decide
      simp only [Str.occurs_sliceTo? htagStr, Str.occurs_sliceFrom? hregion, hlength]
      constructor
      · rintro ⟨n, hn, hle⟩
        exact ⟨h, hclosed, tagStart + n, Nat.le_add_right _ _, by omega, hn⟩
      · rintro ⟨-, -, n, hle, hle', hn⟩
        obtain ⟨k, rfl⟩ := Nat.exists_eq_add_of_le hle
        exact ⟨k, hn, by omega⟩
    obtain ⟨url, hurl, hsome⟩ := hrefOf_eq tagStr
    rw [hhref] at hsome
    simp only [htagStr, hurl, Option.bind_some]
    rcases url with _ | url
    · refine .inr ⟨fun tagEnd htag => ?_, rfl⟩
      have hend := htag.closed
      rw [hclosed] at hend
      obtain rfl := Option.some_inj.mp hend
      exact absurd (hsome.mpr htag) nofun
    · have hlink := hsome.mp rfl
      obtain ⟨content, hcontent⟩ := Option.isSome_iff_exists.mp (Str.isBoundary_iff.mp hlink.isBoundary)
      simp only [hcontent, Option.bind_some]
      cases htitle : Str.find? "</a>" content with
      | none =>
        refine .inl ⟨tagStart + i, none, hlink, ?_⟩
        unfold resumesAt
        rw [Str.firstFrom?_of_sliceFrom? hcontent, htitle]
        rfl
      | some j =>
        have hj := (Str.occurs_sliceFrom? hcontent).mp
          ((Str.find?_eq_some_iff (by decide)).mp htitle).1
        obtain ⟨text, htext⟩ := Str.exists_slice? hlink.isBoundary hj.isBoundary (Nat.le_add_right _ _)
        obtain ⟨snippet, hsnippet⟩ := snippetAfter_eq hj.isBoundary
        refine .inl ⟨tagStart + i, if url ≠ [] ∧ stripHtmlTags text ≠ [] then
          some ⟨"web", stripHtmlTags text, url, snippet⟩ else none, hlink, ?_⟩
        unfold resumesAt
        rw [Str.firstFrom?_of_sliceFrom? hcontent, htitle]
        simp only [htext, hsnippet, Option.bind_some, Option.map_some]
        rfl

/-- The tag that is taken for the one of a marker is a link: the last one that starts before the
marker. -/
structure TagOf (html : Str) (markerPos tagStart tagEnd : Nat) : Prop where
  /-- It is a link. -/
  link : LinkTag html tagStart tagEnd
  /-- It starts before the marker. -/
  before : tagStart + 3 ≤ markerPos
  /-- No other one that starts before the marker is later. -/
  last : ∀ n, Str.Occurs "<a " html n → n + 3 ≤ markerPos → n ≤ tagStart

/-- **The tag of a marker says where the scan goes on**: at `resumesAt` of its `TagOf`, or behind
the marker without one. -/
theorem readMarker_cases {markerPos : Nat} (h : html.IsBoundary markerPos) :
    (∃ tagStart tagEnd result, TagOf html markerPos tagStart tagEnd ∧
      readTag html tagStart = some (some (resumesAt html tagEnd, result)) ∧
      readMarker html markerPos = some (resumesAt html tagEnd, result)) ∨
    (∀ tagStart tagEnd, ¬TagOf html markerPos tagStart tagEnd) ∧
      readMarker html markerPos = some (markerPos + resultLink.byteLen, none) := by
  obtain ⟨before, rest, hsplit⟩ := h
  have hbefore := Str.sliceTo?_eq_some_iff.mpr ⟨rest, hsplit⟩
  have hne : "<a ".toList ≠ [] := by decide
  have hlength : Str.byteLen "<a " = 3 := by decide
  unfold readMarker
  simp only [hbefore, Option.bind_eq_bind, Option.bind_some]
  cases hfind : Str.rfind? "<a " before with
  | none =>
    refine .inr ⟨fun tagStart tagEnd htag => ?_, rfl⟩
    exact (Str.rfind?_eq_none_iff hne).mp hfind tagStart
      ((Str.occurs_sliceTo? hbefore).mpr ⟨htag.link.start, hlength ▸ htag.before⟩)
  | some tagStart =>
    obtain ⟨hoccurs, hlast⟩ := (Str.rfind?_eq_some_iff hne).mp hfind
    obtain ⟨hstart, hle⟩ := (Str.occurs_sliceTo? hbefore).mp hoccurs
    rw [hlength] at hle
    -- The tag that is searched backwards is the last one before the marker.
    have hlast' : ∀ n, Str.Occurs "<a " html n → n + 3 ≤ markerPos → n ≤ tagStart :=
      fun n hn hn' => hlast n ((Str.occurs_sliceTo? hbefore).mpr ⟨hn, hlength ▸ hn'⟩)
    rcases readTag_cases hstart with ⟨tagEnd, result, hlink, hread⟩ | ⟨hnone, hread⟩
    · refine .inl ⟨tagStart, tagEnd, result, ⟨hlink, hle, hlast'⟩, hread, ?_⟩
      simp only [hread, Option.bind_some]
      rfl
    · refine .inr ⟨fun tagStart' tagEnd htag => ?_, ?_⟩
      · have hsame : tagStart' = tagStart :=
          Nat.le_antisymm (hlast' _ htag.link.start htag.before) (htag.last _ hstart hle)
        exact hnone tagEnd (hsame ▸ htag.link)
      · simp only [hread, Option.bind_some]
        rfl

end Reading

/-! ## One round -/

section Rounds

variable {html : Str} {max pos markerPos : Nat} {results : List SearchResult}

/-- From a boundary `nextMarker` never panics, and finds the first `resultLink` from there. -/
theorem nextMarker_eq (hpos : html.IsBoundary pos) :
    nextMarker html pos = some (Str.firstFrom? resultLink html pos) := by
  obtain ⟨rest, hrest⟩ := Option.isSome_iff_exists.mp (Str.isBoundary_iff.mp hpos)
  unfold nextMarker
  rw [hrest, Str.firstFrom?_of_sliceFrom? hrest]
  rfl

/-- The position that `nextMarker` finds is not before `pos`, and `resultLink` occurs there. -/
theorem nextMarker_spec (hpos : html.IsBoundary pos)
    (h : nextMarker html pos = some (some markerPos)) :
    pos ≤ markerPos ∧ Str.Occurs resultLink html markerPos := by
  rw [nextMarker_eq hpos, Option.some_inj] at h
  have hfirst := (Str.firstFrom?_eq_some_iff resultLink_ne_nil hpos).mp h
  exact ⟨hfirst.1, hfirst.2.1⟩

/-- A marker is always read: `readMarker` gives a boundary to go on from. -/
theorem exists_readMarker (h : Str.Occurs resultLink html markerPos) :
    ∃ pos result, readMarker html markerPos = some (pos, result) ∧ html.IsBoundary pos := by
  rcases readMarker_cases h.isBoundary with ⟨_, tagEnd, result, htag, -, hread⟩ | ⟨-, hread⟩
  · exact ⟨_, result, hread, (resumesAt_spec htag.link.isBoundary).2⟩
  · exact ⟨_, none, hread, h.isBoundary_end⟩

/-- A scan with `max` results returns them. -/
theorem step_of_full (h : max ≤ results.length) :
    Scan.step html max (.scanning pos results) = .returned results := by
  rw [Scan.step, if_neg (Nat.not_lt.mpr h)]

/-- A `Scan.step` that finds no marker returns its results. -/
theorem step_of_noMarker (hlt : results.length < max) (h : nextMarker html pos = some none) :
    Scan.step html max (.scanning pos results) = .returned results := by
  rw [Scan.step, if_pos hlt, h]

/-- A scan that finds a marker goes on where `readMarker` says, with the result if there is one. -/
theorem step_of_marker {pos' : Nat} {result : Option SearchResult} (hlt : results.length < max)
    (h : nextMarker html pos = some (some markerPos))
    (hread : readMarker html markerPos = some (pos', result)) :
    Scan.step html max (.scanning pos results) = .scanning pos' (results ++ result.toList) := by
  rw [Scan.step, if_pos hlt, h]
  dsimp only
  rw [hread]

/-- **What a round does**: `Scan.step` returns where `nextMarker` finds none, and otherwise goes on
where `readMarker` says, with its result. -/
theorem step_cases (hpos : html.IsBoundary pos) (hlt : results.length < max) :
    nextMarker html pos = some none ∧
        Scan.step html max (.scanning pos results) = .returned results ∨
      ∃ markerPos pos' result, nextMarker html pos = some (some markerPos) ∧
        readMarker html markerPos = some (pos', result) ∧ html.IsBoundary pos' ∧
        Scan.step html max (.scanning pos results) = .scanning pos' (results ++ result.toList) := by
  rcases hnext : Str.firstFrom? resultLink html pos with _ | markerPos
  · have hnone : nextMarker html pos = some none := by rw [nextMarker_eq hpos, hnext]
    exact .inl ⟨hnone, step_of_noMarker hlt hnone⟩
  · have hsome : nextMarker html pos = some (some markerPos) := by rw [nextMarker_eq hpos, hnext]
    obtain ⟨pos', result, hread, hpos'⟩ := exists_readMarker (nextMarker_spec hpos hsome).2
    exact .inr ⟨markerPos, pos', result, hsome, hread, hpos', step_of_marker hlt hsome hread⟩

/-- One more round is one more `Scan.step`. -/
theorem parseDdgHtml_succ (rounds : Nat) :
    parseDdgHtml html max (rounds + 1) = (parseDdgHtml html max rounds).step html max :=
  Function.iterate_succ_apply' ..

/-- What holds of a scan at any time: it is where a character ends, and has no more results than it
may. -/
def Scan.Sound (html : Str) (max : Nat) : Scan → Prop
  | .scanning pos results => html.IsBoundary pos ∧ results.length ≤ max
  | .returned results => results.length ≤ max
  | .panicked => False

/-- `Scan.Sound` is kept by `Scan.step`: in particular no round panics. -/
theorem Scan.Sound.step {scan : Scan} (h : scan.Sound html max) : (scan.step html max).Sound html max := by
  rcases scan with ⟨pos, results⟩ | results | _
  · obtain ⟨hpos, hle⟩ := h
    rcases Nat.lt_or_ge results.length max with hlt | hfull
    · rcases step_cases hpos hlt with ⟨-, hstep⟩ | ⟨_, pos', result, -, -, hpos', hstep⟩
      · rw [hstep]
        exact hle
      · rw [hstep]
        have hone : result.toList.length ≤ 1 := by
          cases result with
          | none => exact Nat.zero_le 1
          | some _ => exact Nat.le_refl 1
        refine ⟨hpos', ?_⟩
        rw [List.length_append]
        omega
    · rw [step_of_full hfull]
      exact hle
  · exact h
  · exact h

/-- **Scanning never panics**: `parseDdgHtml` is `Sound` after any number of `rounds`, with at most
`max` results. -/
theorem sound_parseDdgHtml (html : Str) (max rounds : Nat) :
    (parseDdgHtml html max rounds).Sound html max := by
  induction rounds with
  | zero => exact ⟨html.isBoundary_zero, Nat.zero_le _⟩
  | succ rounds ih =>
    rw [parseDdgHtml_succ]
    exact ih.step

end Rounds

/-! ## When the scan comes to an end -/

section Ends

variable (html : Str) (max : Nat)

/-- The marker gives a result. -/
def GivesResult (markerPos : Nat) : Prop :=
  ∃ pos result, readMarker html markerPos = some (pos, some result)

/-- The marker is not in the tag that is taken for its own: the scan goes on in front of the marker,
and finds it again. -/
def FoundAgain (markerPos : Nat) : Prop :=
  ∃ tagStart tagEnd, TagOf html markerPos tagStart tagEnd ∧
    Str.firstFrom? resultLink html (resumesAt html tagEnd) = some markerPos

/-- In that round the marker contributes an entry. -/
def Contributes (markerPos round : Nat) : Prop :=
  ∃ pos results, parseDdgHtml html max round = .scanning pos results ∧ results.length < max ∧
    nextMarker html pos = some (some markerPos) ∧ GivesResult html markerPos

/-- **The scan comes to an end, and no marker contributes twice.** -/
structure EndsOnce : Prop where
  /-- It returns, with at most as many results as asked for and as there are markers. -/
  ends : ∃ rounds results, parseDdgHtml html max rounds = .returned results ∧
    results.length ≤ min max (Str.occurrences resultLink html).length
  /-- A marker contributes in one round at most. -/
  once : ∀ markerPos round round', Contributes html max markerPos round →
    Contributes html max markerPos round' → round = round'

/-- No round of the scan comes to a marker that is found again, unless its result is the last one asked
for. -/
def Advances : Prop :=
  ∀ rounds pos results markerPos, parseDdgHtml html max rounds = .scanning pos results →
    results.length < max → nextMarker html pos = some (some markerPos) → FoundAgain html markerPos →
      GivesResult html markerPos ∧ results.length + 1 = max

variable {html max}

/-! ### Markers that are found again -/

variable {markerPos pos : Nat} {result : Option SearchResult} {results : List SearchResult}

/-- A marker has one tag: two `TagOf` it end at the same place. -/
theorem TagOf.unique {tagStart tagEnd tagStart' tagEnd' : Nat}
    (h : TagOf html markerPos tagStart tagEnd) (h' : TagOf html markerPos tagStart' tagEnd') :
    tagEnd = tagEnd' := by
  have hstart : tagStart = tagStart' := Nat.le_antisymm
    (h'.last _ h.link.start h.before) (h.last _ h'.link.start h'.before)
  subst hstart
  exact Option.some_inj.mp (h.link.closed.symm.trans h'.link.closed)

/-- After a marker that is `FoundAgain`, it is what `nextMarker` finds next. -/
theorem FoundAgain.nextMarker_eq (hagain : FoundAgain html markerPos)
    (h : Str.Occurs resultLink html markerPos)
    (hread : readMarker html markerPos = some (pos, result)) :
    nextMarker html pos = some (some markerPos) := by
  obtain ⟨tagStart, tagEnd, htag, hfirst⟩ := hagain
  rcases readMarker_cases h.isBoundary with ⟨_, tagEnd', _, htag', -, hread'⟩ | ⟨hnone, -⟩
  · obtain ⟨rfl, -⟩ := Prod.mk.inj (Option.some_inj.mp (hread.symm.trans hread'))
    rw [← htag.unique htag', LogosFs.Kernel.nextMarker_eq (resumesAt_spec htag.link.isBoundary).2, hfirst]
  · exact absurd htag (hnone _ _)

/-- **Where the scan falls behind the marker**, `pos ≤ markerPos`, the next one is `FoundAgain`: it
has the same tag. -/
theorem foundAgain_of_le (h : Str.Occurs resultLink html markerPos)
    (hread : readMarker html markerPos = some (pos, result)) (hle : pos ≤ markerPos) :
    ∃ next, nextMarker html pos = some (some next) ∧ FoundAgain html next := by
  rcases readMarker_cases h.isBoundary with ⟨tagStart, tagEnd, _, htag, -, hread'⟩ | ⟨-, hread'⟩
  · obtain ⟨rfl, -⟩ := Prod.mk.inj (Option.some_inj.mp (hread.symm.trans hread'))
    obtain ⟨hpast, hboundary⟩ := resumesAt_spec htag.link.isBoundary
    obtain ⟨next, hnext, hle'⟩ := Str.exists_firstFrom? resultLink_ne_nil hboundary hle h
    have hafter := ((Str.firstFrom?_eq_some_iff resultLink_ne_nil hboundary).mp hnext).1
    obtain ⟨n, hstart, hend, -⟩ := htag.link.href
    have hbefore : tagStart + 3 ≤ next := by omega
    have htag' : TagOf html next tagStart tagEnd :=
      ⟨htag.link, hbefore, fun n hn hn' => htag.last n hn (Nat.le_trans hn' hle')⟩
    refine ⟨next, ?_, tagStart, tagEnd, htag', hnext⟩
    rw [nextMarker_eq hboundary, hnext]
  · obtain ⟨rfl, -⟩ := Prod.mk.inj (Option.some_inj.mp (hread.symm.trans hread'))
    have hpos : 0 < resultLink.byteLen := by decide
    omega

/-! ### The rounds of a scan -/

/-- Then `more` rounds go on from the scan that `parseDdgHtml` gives after `rounds`. -/
theorem parseDdgHtml_add (rounds more : Nat) : parseDdgHtml html max (rounds + more)
    = (Scan.step html max)^[more] (parseDdgHtml html max rounds) := by
  rw [Nat.add_comm]
  exact Function.iterate_add_apply ..

/-- A scan that has `returned` its results stays as it is. -/
theorem parseDdgHtml_returned {rounds : Nat} (h : parseDdgHtml html max rounds = .returned results)
    (more : Nat) : parseDdgHtml html max (rounds + more) = .returned results := by
  rw [parseDdgHtml_add, h]
  exact Function.iterate_fixed rfl more

/-- A scan after `rounds + 1` comes from one after `rounds` by reading the marker that `nextMarker`
finds. -/
theorem of_parseDdgHtml_succ {rounds : Nat}
    (h : parseDdgHtml html max (rounds + 1) = .scanning pos results) :
    ∃ pos₀ results₀ result, parseDdgHtml html max rounds = .scanning pos₀ results₀ ∧
      results₀.length < max ∧ ∃ markerPos, nextMarker html pos₀ = some (some markerPos) ∧
        pos₀ ≤ markerPos ∧ Str.Occurs resultLink html markerPos ∧
        readMarker html markerPos = some (pos, result) ∧ results = results₀ ++ result.toList := by
  have hsound := sound_parseDdgHtml html max rounds
  rw [parseDdgHtml_succ] at h
  cases hscan : parseDdgHtml html max rounds with
  | returned results₀ =>
    rw [hscan] at h
    cases h
  | panicked =>
    rw [hscan] at h
    cases h
  | scanning pos₀ results₀ =>
    rw [hscan] at h hsound
    rcases Nat.lt_or_ge results₀.length max with hlt | hfull
    · rcases step_cases hsound.1 hlt with ⟨-, hstep⟩ | ⟨markerPos, pos', result, hnext, hread, -, hstep⟩
      · rw [hstep] at h
        cases h
      · rw [hstep] at h
        obtain ⟨rfl, rfl⟩ := Scan.scanning.inj h
        obtain ⟨hle, hoccurs⟩ := nextMarker_spec hsound.1 hnext
        exact ⟨pos₀, results₀, result, rfl, hlt, markerPos, hnext, hle, hoccurs, hread, rfl⟩
    · rw [step_of_full hfull] at h
      cases h

/-- Where the scan `Advances`, a marker that is `FoundAgain` is the last one: the next round has
`max` results. -/
theorem Advances.settled (h : Advances html max) {rounds : Nat}
    (hat : parseDdgHtml html max rounds = .scanning pos results) (hlt : results.length < max)
    (hnext : nextMarker html pos = some (some markerPos)) (hagain : FoundAgain html markerPos) :
    ∃ pos' results', parseDdgHtml html max (rounds + 1) = .scanning pos' results' ∧
      max ≤ results'.length ∧
      ∀ more, parseDdgHtml html max (rounds + 2 + more) = .returned results' := by
  obtain ⟨⟨pos', result, hread⟩, hlast⟩ := h _ _ _ _ hat hlt hnext hagain
  have hfull : max ≤ (results ++ [result]).length := by
    rw [List.length_append, List.length_singleton]
    omega
  have hafter : parseDdgHtml html max (rounds + 1) = .scanning pos' (results ++ [result]) := by
    rw [parseDdgHtml_succ, hat]
    exact step_of_marker hlt hnext hread
  refine ⟨pos', _, hafter, hfull, parseDdgHtml_returned ?_⟩
  rw [parseDdgHtml_succ, hafter, step_of_full hfull]

/-- **The markers behind the scan are done with**: what `Contributes` before this round is before
`pos`, or the next marker is `FoundAgain`. -/
theorem Advances.done (h : Advances html max) {rounds : Nat}
    (hat : parseDdgHtml html max rounds = .scanning pos results) (hlt : results.length < max) :
    (∀ round < rounds, ∀ markerPos, Contributes html max markerPos round → markerPos < pos) ∨
      ∃ next, nextMarker html pos = some (some next) ∧ FoundAgain html next := by
  induction rounds generalizing pos results with
  | zero => exact .inl fun round hround => absurd hround (Nat.not_lt_zero _)
  | succ rounds ih =>
    obtain ⟨pos₀, results₀, result, hbefore, hlt₀, markerPos, hnext, hle, hoccurs, hread, -⟩ :=
      of_parseDdgHtml_succ hat
    rcases ih hbefore hlt₀ with hdone | ⟨next, hnext', hagain⟩
    · rcases Nat.lt_or_ge markerPos pos with hpast | hbehind
      · -- The scan has gone past the marker of this round.
        refine .inl fun round hround v hv => ?_
        rcases Nat.lt_succ_iff_lt_or_eq.mp hround with hround | rfl
        · have := hdone round hround v hv
          omega
        · obtain ⟨_, _, hscan, -, hv, -⟩ := hv
          obtain ⟨rfl, -⟩ := Scan.scanning.inj (hscan.symm.trans hbefore)
          have hsame := Option.some_inj.mp (Option.some_inj.mp (hv.symm.trans hnext))
          omega
      · exact .inr (foundAgain_of_le hoccurs hread hbehind)
    · -- It was the last one, and the results are complete.
      obtain ⟨_, _, hafter, hfull, -⟩ := h.settled hbefore hlt₀ hnext' hagain
      obtain ⟨-, rfl⟩ := Scan.scanning.inj (hafter.symm.trans hat)
      omega

/-- No marker `Contributes` in two rounds, where the scan `Advances`. -/
theorem Advances.once (h : Advances html max) {round round' : Nat}
    (hfirst : Contributes html max markerPos round) (hsecond : Contributes html max markerPos round') :
    ¬round < round' := by
  intro hlater
  obtain ⟨pos', results', hat', hlt', hnext', -⟩ := hsecond
  have hsound := sound_parseDdgHtml html max round'
  rw [hat'] at hsound
  rcases h.done hat' hlt' with hdone | ⟨next, hnext'', hagain⟩
  · have hbehind := hdone round hlater markerPos hfirst
    have hahead := (nextMarker_spec hsound.1 hnext').1
    omega
  · -- The marker was found again, so nothing came after its first round.
    obtain rfl := Option.some_inj.mp (Option.some_inj.mp (hnext'.symm.trans hnext''))
    obtain ⟨pos, results, hat, hlt, hnext, -⟩ := hfirst
    obtain ⟨_, _, hafter, hfull, hreturned⟩ := h.settled hat hlt hnext hagain
    rcases Nat.eq_or_lt_of_le (Nat.succ_le_of_lt hlater) with rfl | hmuch
    · obtain ⟨-, rfl⟩ := Scan.scanning.inj (hafter.symm.trans hat')
      omega
    · obtain ⟨more, rfl⟩ := Nat.exists_eq_add_of_le (Nat.succ_le_of_lt hmuch)
      cases (hreturned more).symm.trans hat'

/-- **The scan comes to an end** where it `Advances`: each round moves it on, but perhaps the last
two. -/
theorem Advances.ends (h : Advances html max) {rounds : Nat}
    (hat : parseDdgHtml html max rounds = .scanning pos results) :
    ∃ rounds' results', parseDdgHtml html max rounds' = .returned results' := by
  induction hrest : html.byteLen - pos using Nat.strong_induction_on generalizing rounds pos results with
  | _ rest ih =>
    have hsound := sound_parseDdgHtml html max rounds
    rw [hat] at hsound
    rcases Nat.lt_or_ge results.length max with hlt | hfull
    · rcases step_cases hsound.1 hlt with ⟨-, hstep⟩ | ⟨markerPos, pos', result, hnext, hread, hpos', hstep⟩
      · exact ⟨rounds + 1, results, by rw [parseDdgHtml_succ, hat, hstep]⟩
      · have hafter : parseDdgHtml html max (rounds + 1) = .scanning pos' (results ++ result.toList) := by
          rw [parseDdgHtml_succ, hat, hstep]
        obtain ⟨hle, hoccurs⟩ := nextMarker_spec hsound.1 hnext
        rcases Nat.lt_or_ge markerPos pos' with hpast | hbehind
        · have hend := hpos'.le_byteLen
          exact ih _ (by omega) hafter rfl
        · obtain ⟨next, hnext', hagain⟩ := foundAgain_of_le hoccurs hread hbehind
          rcases Nat.lt_or_ge (results ++ result.toList).length max with hlt' | hfull
          · obtain ⟨_, results', -, -, hreturned⟩ := h.settled hafter hlt' hnext' hagain
            exact ⟨_, results', hreturned 0⟩
          · refine ⟨rounds + 2, results ++ result.toList, ?_⟩
            rw [parseDdgHtml_succ, hafter, step_of_full hfull]
    · refine ⟨rounds + 1, results, ?_⟩
      rw [parseDdgHtml_succ, hat, step_of_full hfull]

/-! ### Counting -/

/-- Each result is from a marker of its own: there are as many distinct `markers` that contributed
as results. -/
theorem exists_contributors (honce : ∀ markerPos round round', Contributes html max markerPos round →
      Contributes html max markerPos round' → round = round') {rounds : Nat}
    (hat : parseDdgHtml html max rounds = .scanning pos results) :
    ∃ markers : List Nat, markers.length = results.length ∧ markers.Nodup ∧
      ∀ markerPos ∈ markers, ∃ round < rounds, Contributes html max markerPos round := by
  induction rounds generalizing pos results with
  | zero =>
    obtain ⟨-, rfl⟩ := Scan.scanning.inj hat
    exact ⟨[], rfl, List.nodup_nil, nofun⟩
  | succ rounds ih =>
    obtain ⟨pos₀, results₀, result, hbefore, hlt, markerPos, hnext, -, -, hread, rfl⟩ :=
      of_parseDdgHtml_succ hat
    obtain ⟨markers, hlength, hnodup, hmarkers⟩ := ih hbefore
    have hearlier : ∀ v ∈ markers, ∃ round < rounds + 1, Contributes html max v round := fun v hv => by
      obtain ⟨round, hround, hv⟩ := hmarkers v hv
      exact ⟨round, Nat.lt_succ_of_lt hround, hv⟩
    cases result with
    | none =>
      refine ⟨markers, ?_, hnodup, hearlier⟩
      rw [Option.toList_none, List.append_nil, hlength]
    | some result =>
      have hnow : Contributes html max markerPos rounds :=
        ⟨pos₀, results₀, hbefore, hlt, hnext, pos, result, hread⟩
      have hnew : markerPos ∉ markers := fun hmem => by
        obtain ⟨round, hround, hv⟩ := hmarkers _ hmem
        exact Nat.ne_of_lt hround (honce _ _ _ hv hnow)
      refine ⟨markerPos :: markers, ?_, List.nodup_cons.mpr ⟨hnew, hnodup⟩,
        List.forall_mem_cons.mpr ⟨⟨rounds, Nat.lt_succ_self _, hnow⟩, hearlier⟩⟩
      rw [List.length_cons, hlength, List.length_append, Option.toList_some, List.length_singleton]

/-- There are no more results than `occurrences` of `resultLink` in the page, if no marker
contributes twice. -/
theorem length_le_occurrences (honce : ∀ markerPos round round', Contributes html max markerPos round →
      Contributes html max markerPos round' → round = round') {rounds : Nat}
    (hat : parseDdgHtml html max rounds = .scanning pos results) :
    results.length ≤ (Str.occurrences resultLink html).length := by
  obtain ⟨markers, hlength, hnodup, hmarkers⟩ := exists_contributors honce hat
  rw [← hlength]
  refine (hnodup.subperm fun markerPos hmem => ?_).length_le
  obtain ⟨round, -, pos, results, hscan, -, hnext, -⟩ := hmarkers markerPos hmem
  have hsound := sound_parseDdgHtml html max round
  rw [hscan] at hsound
  exact (Str.mem_occurrences_iff resultLink_ne_nil).mpr (nextMarker_spec hsound.1 hnext).2

/-- The results that are `returned` are those of a `scanning` round before. -/
theorem of_parseDdgHtml_returned {rounds : Nat}
    (h : parseDdgHtml html max rounds = .returned results) :
    ∃ round pos, parseDdgHtml html max round = .scanning pos results := by
  induction rounds with
  | zero => cases h
  | succ rounds ih =>
    have hsound := sound_parseDdgHtml html max rounds
    rw [parseDdgHtml_succ] at h
    cases hscan : parseDdgHtml html max rounds with
    | panicked =>
      rw [hscan] at hsound
      exact hsound.elim
    | returned results₀ =>
      rw [hscan] at h
      exact ih (hscan.trans h)
    | scanning pos results₀ =>
      rw [hscan] at h hsound
      refine ⟨rounds, pos, ?_⟩
      rcases Nat.lt_or_ge results₀.length max with hlt | hfull
      · rcases step_cases hsound.1 hlt with ⟨-, hstep⟩ | ⟨_, _, _, -, -, -, hstep⟩
        · rw [hstep] at h
          rw [hscan, Scan.returned.inj h]
        · rw [hstep] at h
          cases h
      · rw [step_of_full hfull] at h
        rw [hscan, Scan.returned.inj h]

/-- **When the scan comes to an end and no marker contributes twice**: for every page and every
number of results, `EndsOnce` exactly if no round comes to a marker that is `FoundAgain`, but for
one that gives the last result asked for. -/
theorem endsOnce_iff (html : Str) (max : Nat) : EndsOnce html max ↔ Advances html max := by
  constructor
  · intro h rounds pos results markerPos hat hlt hnext hagain
    have hsound := sound_parseDdgHtml html max rounds
    rw [hat] at hsound
    have hoccurs := (nextMarker_spec hsound.1 hnext).2
    obtain ⟨pos', result, hread, -⟩ := exists_readMarker hoccurs
    have hnext' := hagain.nextMarker_eq hoccurs hread
    have hafter : parseDdgHtml html max (rounds + 1) = .scanning pos' (results ++ result.toList) := by
      rw [parseDdgHtml_succ, hat, step_of_marker hlt hnext hread]
    cases result with
    | none =>
      -- The scan goes round and round.
      rw [Option.toList_none, List.append_nil] at hafter
      have hstuck : Scan.step html max (.scanning pos' results) = .scanning pos' results := by
        rw [step_of_marker hlt hnext' hread, Option.toList_none, List.append_nil]
      obtain ⟨rounds', results', hreturned, -⟩ := h.ends
      have hforever : parseDdgHtml html max (rounds + 1 + rounds') = .scanning pos' results := by
        rw [parseDdgHtml_add, hafter]
        exact Function.iterate_fixed hstuck _
      have hdone := parseDdgHtml_returned hreturned (rounds + 1)
      rw [Nat.add_comm, hforever] at hdone
      cases hdone
    | some result =>
      refine ⟨⟨pos', result, hread⟩, ?_⟩
      by_contra hmore
      -- The marker contributes in the next round as well.
      have hlt' : (results ++ [result]).length < max := by
        rw [List.length_append, List.length_singleton]
        omega
      have hfirst : Contributes html max markerPos rounds :=
        ⟨pos, results, hat, hlt, hnext, pos', result, hread⟩
      have hsecond : Contributes html max markerPos (rounds + 1) :=
        ⟨pos', _, hafter, hlt', hnext', pos', result, hread⟩
      have hsame := h.once _ _ _ hfirst hsecond
      omega
  · intro h
    have honce : ∀ markerPos round round', Contributes html max markerPos round →
        Contributes html max markerPos round' → round = round' := fun markerPos round round' hv hv' =>
      Nat.le_antisymm (Nat.not_lt.mp (h.once hv' hv)) (Nat.not_lt.mp (h.once hv hv'))
    have hstart : parseDdgHtml html max 0 = .scanning 0 [] := rfl
    obtain ⟨rounds, results, hreturned⟩ := h.ends hstart
    obtain ⟨round, pos, hat⟩ := of_parseDdgHtml_returned hreturned
    have hmax := sound_parseDdgHtml html max rounds
    rw [hreturned] at hmax
    exact ⟨⟨rounds, results, hreturned, Nat.le_min.mpr ⟨hmax, length_le_occurrences honce hat⟩⟩, honce⟩

/-- A marker that comes right after a tag that it is not in is found again and again: not every page
is `EndsOnce`. -/
theorem not_endsOnce : ¬∀ (html : Str) (max : Nat), EndsOnce html max := by
  intro hall
  obtain ⟨rounds, results, hreturned, -⟩ := (hall "<a href=\"u\">class='result-link'" 1).ends
  have hafter : parseDdgHtml "<a href=\"u\">class='result-link'" 1 1 = .scanning 12 [] := by
    decide +kernel
  have hstuck : Scan.step "<a href=\"u\">class='result-link'" 1 (.scanning 12 []) = .scanning 12 [] := by
    decide +kernel
  have hforever : parseDdgHtml "<a href=\"u\">class='result-link'" 1 (1 + rounds)
      = .scanning 12 [] := by
    rw [parseDdgHtml_add, hafter]
    exact Function.iterate_fixed hstuck _
  have hdone := parseDdgHtml_returned hreturned 1
  rw [Nat.add_comm, hforever] at hdone
  cases hdone

end Ends

end LogosFs.Kernel
