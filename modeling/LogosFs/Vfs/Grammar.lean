import LogosFs.Vfs.Uri

/-! # The grammar of URIs

`Uri.parse` accepts a text exactly when it has one of the two schemes and, after it, a character other
than the separator. A URI that is printed under either scheme parses to itself, and separators that are
repeated or stand at one of the ends do not count. -/

namespace LogosFs

namespace Str

/-- A text has no `segments` exactly if it consists of separators. -/
theorem segments_eq_nil_iff {s : Str} : s.segments = [] ↔ ∀ c ∈ s, c = '/' := by
  induction s with
  | nil => exact iff_of_true rfl fun _ h => nomatch h
  | cons c s ih =>
    rw [List.forall_mem_cons]
    by_cases hc : c = '/'
    · rw [hc, segments_slash_cons, ih, and_iff_right rfl]
    · -- The first piece has `c` in it.
      have hfirst : firstPiece (c :: s) ≠ [] := by
        intro hnil
        rcases eq_firstPiece_or (c :: s) with h | ⟨rest, h⟩
        · rw [hnil] at h
          cases h
        · rw [hnil] at h
          exact hc (List.cons.inj h).1
      refine iff_of_false (fun hsegments => ?_) fun h => hc h.1
      rcases segments_of_firstPiece_ne_nil hfirst with ⟨-, h⟩ | ⟨rest, -, h⟩
      · rw [hsegments] at h
        cases h
      · rw [hsegments] at h
        cases h

/-- Separators in front add none to the `segments`. -/
theorem segments_replicate_append (n : Nat) (t : Str) :
    segments (List.replicate n '/' ++ t) = segments t := by
  induction n with
  | zero => rfl
  | succ n ih => rw [List.replicate_succ, List.cons_append, segments_slash_cons, ih]

/-- Separators at the end add none to the `segments` either. -/
theorem segments_append_replicate (s : Str) (n : Nat) :
    segments (s ++ List.replicate n '/') = segments s := by
  have hnone : segments (List.replicate n '/') = [] :=
    segments_eq_nil_iff.mpr fun c hc => (List.mem_replicate.mp hc).2
  cases n with
  | zero => rw [List.replicate_zero, List.append_nil]
  | succ n =>
    rw [List.replicate_succ, segments_slash_cons] at hnone
    rw [List.replicate_succ, segments_append_cons, hnone, List.append_nil]

/-- A separator that is repeated, `n` times more, separates the same `segments`. -/
theorem segments_append_replicate_append (s t : Str) (n : Nat) :
    segments (s ++ '/' :: (List.replicate n '/' ++ t)) = segments (s ++ '/' :: t) := by
  rw [segments_append_cons, segments_append_cons, segments_replicate_append]

end Str

namespace Uri

/-- The two schemes. -/
def schemes : List Str := [logosScheme, memScheme]

/-- The text of a URI under a scheme. -/
def print (scheme : Str) (uri : LogosUri) : Str := scheme ++ Str.join (uri.ns :: uri.path)

/-- A text that begins with one of the `schemes` goes on after it: `stripScheme` yields the rest. -/
theorem stripScheme_append {scheme : Str} (h : scheme ∈ schemes) (rest : Str) :
    stripScheme (scheme ++ rest) = some rest := by
  rcases List.mem_pair.mp h with rfl | rfl
  · rw [stripScheme, Str.stripPrefix_append, Option.some_or]
  · have hlogos : Str.stripPrefix logosScheme (memScheme ++ rest) = none := by
      rw [Str.stripPrefix_eq_none_iff]
      rintro ⟨t, ht⟩
      exact absurd (List.cons.inj ht).1 (by decide)
    rw [stripScheme, hlogos, Option.none_or, Str.stripPrefix_append]

/-- `stripScheme` answers the rest after one of the `schemes`, exactly if there is one. -/
theorem stripScheme_eq_some_iff {raw rest : Str} :
    stripScheme raw = some rest ↔ ∃ scheme ∈ schemes, raw = scheme ++ rest := by
  constructor
  · intro h
    rw [stripScheme, Option.or_eq_some_iff] at h
    rcases h with h | ⟨-, h⟩
    · exact ⟨logosScheme, List.mem_cons_self, Str.stripPrefix_eq_some_iff.mp h⟩
    · exact ⟨memScheme, List.mem_cons_of_mem _ List.mem_cons_self, Str.stripPrefix_eq_some_iff.mp h⟩
  · rintro ⟨scheme, hscheme, rfl⟩
    exact stripScheme_append hscheme rest

/-- After either of the `schemes`, the `segments` of the rest decide what `parse` answers. -/
theorem parse_append {scheme : Str} (h : scheme ∈ schemes) (rest : Str) :
    parse (scheme ++ rest) = match rest.segments with
      | [] => .error (.invalidUri "URI has no namespace")
      | ns :: path => .ok ⟨ns, path⟩ := by
  unfold parse
  exact stripScheme_append h rest ▸ rfl

/-- **What is parsed**: `parse raw` is a URI exactly if `raw` is one of the `schemes` and a text
with the segments of the URI. -/
theorem parse_eq_ok_iff {raw : Str} {uri : LogosUri} : parse raw = .ok uri ↔
    ∃ scheme ∈ schemes, ∃ rest, raw = scheme ++ rest ∧ rest.segments = uri.ns :: uri.path := by
  constructor
  · intro h
    cases hstrip : stripScheme raw with
    | none =>
      rw [parse, hstrip] at h
      cases h
    | some rest =>
      obtain ⟨scheme, hscheme, rfl⟩ := stripScheme_eq_some_iff.mp hstrip
      refine ⟨scheme, hscheme, rest, rfl, ?_⟩
      rw [parse_append hscheme] at h
      split at h
      · cases h
      · rename_i hsegments
        rw [hsegments]
        cases h
        rfl
  · rintro ⟨scheme, hscheme, rest, rfl, hsegments⟩
    rw [parse_append hscheme, hsegments]

/-- A URI that is printed parses to itself: `parse` undoes `print` under either of the `schemes`. -/
theorem parse_print {scheme : Str} (hscheme : scheme ∈ schemes) {uri : LogosUri}
    (h : ∀ segment ∈ uri.ns :: uri.path, segment ≠ [] ∧ '/' ∉ segment) :
    parse (print scheme uri) = .ok uri :=
  parse_eq_ok_iff.mpr ⟨scheme, hscheme, _, rfl, Str.segments_join h⟩

/-- **`parse` accepts exactly its grammar and inverts printing.** -/
structure ParsesExactly : Prop where
  /-- It accepts the texts with a scheme and, after it, a character other than the separator. -/
  accepts : ∀ raw, (∃ uri, parse raw = .ok uri) ↔
    ∃ scheme ∈ schemes, ∃ rest, raw = scheme ++ rest ∧ ∃ c ∈ rest, c ≠ '/'
  /-- It inverts printing under either scheme. -/
  prints : ∀ scheme ∈ schemes, ∀ uri : LogosUri,
    (∀ segment ∈ uri.ns :: uri.path, segment ≠ [] ∧ '/' ∉ segment) →
      parse (print scheme uri) = .ok uri
  /-- More separators at the front do not count. -/
  front : ∀ scheme ∈ schemes, ∀ n rest,
    parse (scheme ++ (List.replicate n '/' ++ rest)) = parse (scheme ++ rest)
  /-- Nor do they between two segments. -/
  between : ∀ scheme ∈ schemes, ∀ n s t,
    parse (scheme ++ (s ++ '/' :: (List.replicate n '/' ++ t))) = parse (scheme ++ (s ++ '/' :: t))
  /-- Nor at the end. -/
  back : ∀ scheme ∈ schemes, ∀ n rest,
    parse (scheme ++ (rest ++ List.replicate n '/')) = parse (scheme ++ rest)
  /-- The segments of what is parsed are those of a printed URI. -/
  segments : ∀ raw uri, parse raw = .ok uri →
    ∀ segment ∈ uri.ns :: uri.path, segment ≠ [] ∧ '/' ∉ segment
  /-- What is parsed can be printed and parsed again. -/
  again : ∀ raw uri, parse raw = .ok uri → ∀ scheme ∈ schemes, parse (print scheme uri) = .ok uri

/-- `parse` accepts and answers what the grammar says. -/
theorem parsesExactly : ParsesExactly where
  accepts raw := by
    constructor
    · rintro ⟨uri, h⟩
      obtain ⟨scheme, hscheme, rest, rfl, hsegments⟩ := parse_eq_ok_iff.mp h
      refine ⟨scheme, hscheme, rest, rfl, ?_⟩
      by_contra hnone
      simp only [not_exists, not_and, not_not] at hnone
      rw [Str.segments_eq_nil_iff.mpr hnone] at hsegments
      cases hsegments
    · rintro ⟨scheme, hscheme, rest, rfl, c, hc, hne⟩
      have hsegments : rest.segments ≠ [] := fun hnil => hne (Str.segments_eq_nil_iff.mp hnil c hc)
      obtain ⟨ns, path, h⟩ := List.exists_cons_of_ne_nil hsegments
      exact ⟨⟨ns, path⟩, parse_eq_ok_iff.mpr ⟨scheme, hscheme, rest, rfl, h⟩⟩
  prints _ hscheme _ h := parse_print hscheme h
  front _ hscheme n rest := by
    rw [parse_append hscheme, parse_append hscheme, Str.segments_replicate_append]
  between _ hscheme n s t := by
    rw [parse_append hscheme, parse_append hscheme, Str.segments_append_replicate_append]
  back _ hscheme n rest := by
    rw [parse_append hscheme, parse_append hscheme, Str.segments_append_replicate]
  segments _ _ h := parse_segments h
  again _ _ h _ hscheme := parse_print hscheme (parse_segments h)

end Uri

end LogosFs
