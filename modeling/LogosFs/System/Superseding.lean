import LogosFs.System.VersionChain

/-! # What superseding keeps

The facts of an anchor that a new one supersedes are read, marked, and written back as a whole. Facts
that are an array come back with their elements, and an object in it with all its members but those
that mark it (`KeptFact`). Facts that are no array are read as the empty one, so they do not come back
at all. `nonDestructive_iff` says that this is all there is to it. -/

namespace LogosFs.System

namespace AnchorDb

open Program (eval)

/-- The members that mark a fact. -/
def markKeys : List Str := ["status".toList, "superseded_by".toList]

/-- A fact as it was and as it is, in some view of values: the members of an object other than the
marks are the same, and what is no object is the same. -/
def SameFact (view : Json → Json) (old new : Json) : Prop :=
  match old with
  | .object fields => ∃ fields', new = .object fields' ∧ ∀ key ∉ markKeys,
      (Json.lookup key fields').map view = (Json.lookup key fields).map view
  | old => view new = view old

/-- A fact as it was and as it is: the same up to floating point numbers, which a printer may round,
and exactly the same where there are none. -/
structure KeptFact (old new : Json) : Prop where
  /-- The fact is the same up to floating point numbers. -/
  skeleton : SameFact Json.skeleton old new
  /-- An exact fact is the same, and stays exact. -/
  exact : old.ExactAt (Json.maxDepth - 1) → SameFact id old new ∧ new.ExactAt (Json.maxDepth - 1)

variable (json : JsonCodec)

/-- The text of the facts as it was and as it is: an array has the same elements, one by one
(`KeptFact`), and any other text is the same. -/
def FactsKept (old new : Str) : Prop :=
  match json.arrayFromStr old with
  | some facts => ∃ facts', json.arrayFromStr new = some facts' ∧ List.Forall₂ KeptFact facts facts'
  | none => new = old

/-- The facts of a new anchor name the anchor with a key. -/
def NamesKey (facts : Str) (key : Str × Str) : Prop :=
  ∃ targetUri ∈ supersededUris json facts, target targetUri = some key

/-- Creating an anchor keeps all there was: of the anchors that it names the facts, up to marks, and
the others as they are. -/
def NonDestructive (taskId summary facts : Str) (w : World) : Prop :=
  ∀ key row, w.db.anchors.find? key = some row →
    ∃ facts', (eval handler (create json taskId summary facts) w).2.db.anchors.find? key
        = some { row with facts := facts' } ∧
      (NamesKey json facts key → FactsKept json row.facts facts') ∧
      (¬NamesKey json facts key → facts' = row.facts)

/-- What was printed can be read again. -/
def PrintsReadably : Prop :=
  ∀ value : Json, value.ReadableAt json.isFloat Json.maxDepth →
    ∃ value', json.fromStr (json.toStr value) = .ok value'

section Facts

variable {json}

/-! ## Facts -/

/-- `SameFact` is reflexive, in every view. -/
theorem SameFact.refl (view : Json → Json) (fact : Json) : SameFact view fact fact := by
  cases fact with
  | object fields => exact ⟨fields, rfl, fun _ _ => rfl⟩
  | _ => rfl

/-- `markFact` keeps a fact the `SameFact`, in a view that tells what is an object. -/
theorem SameFact.markFact {view : Json → Json}
    (hview : ∀ value, (view value).asObject.isSome = value.asObject.isSome) {old new : Json}
    (h : SameFact view old new) (mark : Str) : SameFact view old (markFact mark new) := by
  -- what was no object is none now, so that the mark is not set
  have hother (hold : old.asObject = none) (hsame : view new = view old) :
      view (AnchorDb.markFact mark new) = view old := by
    have hnew : new.asObject.isSome = false := by
      rw [← hview new, hsame, hview old, hold]
      rfl
    cases new with
    | object fields => cases hnew
    | _ => exact hsame
  cases old with
  | object fields =>
    obtain ⟨fields', rfl, hsame⟩ := h
    refine ⟨_, rfl, fun key hkey => ?_⟩
    have hstatus : key ≠ "status".toList := fun heq => hkey (heq ▸ by decide)
    have hsuperseded : key ≠ "superseded_by".toList := fun heq => hkey (heq ▸ by decide)
    rw [Json.lookup_insert_ne hsuperseded, Json.lookup_insert_ne hstatus]
    exact hsame key hkey
  | _ => exact hother rfl h

/-- The `skeleton` of a value is an object exactly if the value is one. -/
theorem isSome_asObject_skeleton (value : Json) :
    value.skeleton.asObject.isSome = value.asObject.isSome := by
  cases value <;> rfl

/-- A fact with the same `skeleton` is the `SameFact` up to floating point numbers. -/
theorem SameFact.of_skeleton_eq {old new new' : Json} (h : SameFact Json.skeleton old new)
    (hskeleton : new'.skeleton = new.skeleton) : SameFact Json.skeleton old new' := by
  cases old with
  | object fields =>
    obtain ⟨fields', rfl, hsame⟩ := h
    have hobject : new'.asObject.isSome = true := by
      rw [← isSome_asObject_skeleton, hskeleton]
      rfl
    cases new' with
    | object fields'' =>
      refine ⟨fields'', rfl, fun key hkey => (?_ : _ = _).trans (hsame key hkey)⟩
      have hget := congrArg (fun value : Json => value.get? key) hskeleton
      simp only [Json.get?_skeleton] at hget
      exact hget
    | _ => cases hobject
  | _ => exact hskeleton.trans h

/-- `markFact` keeps an object `ExactAt` its depth. -/
theorem exactAt_markFact {depth : Nat} {fact : Json} (h : fact.ExactAt depth) (mark : Str) :
    (markFact mark fact).ExactAt depth := by
  cases h with
  | object sorted exact =>
    refine .object ((sorted.insert _ _).insert _ _) fun field hfield => ?_
    rcases Json.mem_insert hfield with rfl | hfield
    · exact .string
    · rcases Json.mem_insert hfield with rfl | hold
      · exact .string
      · exact exact field hold
  | null => exact .null
  | bool => exact .bool
  | int low high => exact .int low high
  | string => exact .string
  | array exact => exact .array exact

/-- Elements that `arrayFromStr` reads from a text have `ReadableAt`. -/
theorem readable_of_arrayFromStr {text : Str} {facts : List Json}
    (h : json.arrayFromStr text = some facts) :
    ∀ fact ∈ facts, fact.ReadableAt json.isFloat (Json.maxDepth - 1) := by
  rw [JsonCodec.arrayFromStr] at h
  cases hparse : json.fromStr text with
  | error e =>
    rw [hparse] at h
    cases h
  | ok value =>
    rw [hparse] at h
    cases value with
    | array items =>
      cases h
      exact fun fact hfact => (json.fromStr_readable hparse).of_array hfact
    | _ => cases h

/-- `arrayFromStr` of the text of an array of readable elements answers the same elements, up to
floating point numbers. -/
theorem arrayFromStr_toStr (hprints : PrintsReadably json) {facts : List Json}
    (hreadable : ∀ fact ∈ facts, fact.ReadableAt json.isFloat (Json.maxDepth - 1)) :
    ∃ facts', json.arrayFromStr (json.toStr (.array facts)) = some facts' ∧
      facts'.map Json.skeleton = facts.map Json.skeleton := by
  have harray : (Json.array facts).ReadableAt json.isFloat Json.maxDepth := .array hreadable
  obtain ⟨value', hparse⟩ := hprints _ harray
  have hskeleton := congrArg Json.asArray (json.skeleton_of_fromStr_toStr harray hparse)
  rw [Json.asArray_skeleton, Json.asArray_skeleton] at hskeleton
  rw [JsonCodec.arrayFromStr, hparse]
  cases hitems : value'.asArray with
  | none =>
    rw [hitems] at hskeleton
    cases hskeleton
  | some facts' =>
    rw [hitems] at hskeleton
    exact ⟨facts', hitems, Option.some_inj.mp hskeleton⟩

/-- `markFact` keeps a fact a `KeptFact`. -/
theorem KeptFact.markFact {old new : Json} (h : KeptFact old new) (mark : Str) :
    KeptFact old (markFact mark new) where
  skeleton := h.skeleton.markFact isSome_asObject_skeleton mark
  exact hexact := ⟨(h.exact hexact).1.markFact (fun _ => rfl) mark,
    exactAt_markFact (h.exact hexact).2 mark⟩

/-- A fact that is printed and read, and so has the same `skeleton`, is a `KeptFact`. -/
theorem KeptFact.of_skeleton_eq {old new new' : Json} (h : KeptFact old new)
    (hskeleton : new'.skeleton = new.skeleton) : KeptFact old new' where
  skeleton := h.skeleton.of_skeleton_eq hskeleton
  exact hexact := by
    obtain ⟨hsame, hexact'⟩ := h.exact hexact
    rw [hexact'.eq_of_skeleton_eq hskeleton]
    exact ⟨hsame, hexact'⟩

/-- Facts that are printed and read, and so have the same skeletons, are kept one by one:
`KeptFact`. -/
theorem forall₂_of_map_skeleton_eq {old new new' : List Json} (h : List.Forall₂ KeptFact old new)
    (hskeleton : new'.map Json.skeleton = new.map Json.skeleton) :
    List.Forall₂ KeptFact old new' := by
  induction h generalizing new' with
  | nil =>
    rw [List.map_nil, List.map_eq_nil_iff] at hskeleton
    rw [hskeleton]
    exact .nil
  | cons hfact _ ih =>
    rw [List.map_cons] at hskeleton
    obtain ⟨fact', rest', rfl, hfirst, hrest⟩ := List.map_eq_cons_iff.mp hskeleton
    exact .cons (hfact.of_skeleton_eq hfirst) (ih hrest)

/-- **Marking keeps the facts**: `markFacts` of a text that is an array has `FactsKept`. -/
theorem FactsKept.markFacts (hprints : PrintsReadably json) {old text : Str}
    (harray : (json.arrayFromStr old).isSome) (h : FactsKept json old text) (mark : Str) :
    FactsKept json old (markFacts json mark text) := by
  obtain ⟨facts, hfacts⟩ := Option.isSome_iff_exists.mp harray
  rw [FactsKept, hfacts] at h ⊢
  obtain ⟨facts', hfacts', hsame⟩ := h
  have hmarked : List.Forall₂ KeptFact facts (facts'.map (AnchorDb.markFact mark)) :=
    List.forall₂_map_right_iff.mpr (hsame.imp fun _ _ hfact => hfact.markFact mark)
  have hreadable : ∀ fact ∈ facts'.map (AnchorDb.markFact mark),
      fact.ReadableAt json.isFloat (Json.maxDepth - 1) :=
    readable_map_markFact mark (readable_of_arrayFromStr hfacts')
  rw [AnchorDb.markFacts, hfacts', Option.getD_some]
  obtain ⟨facts'', hread, hskeleton⟩ := arrayFromStr_toStr hprints hreadable
  exact ⟨facts'', hread, forall₂_of_map_skeleton_eq hmarked hskeleton⟩

/-- `FactsKept` is reflexive. -/
theorem FactsKept.refl (text : Str) : FactsKept json text text := by
  rw [FactsKept]
  cases hfacts : json.arrayFromStr text with
  | none => rfl
  | some facts =>
    exact ⟨facts, rfl, List.forall₂_same.mpr fun fact _ =>
      ⟨.refl _ fact, fun hexact => ⟨.refl _ fact, hexact⟩⟩⟩

/-- `arrayFromStr` reads the empty array. -/
theorem arrayFromStr_empty : json.arrayFromStr "[]" = some [] := by
  have hexact : (Json.array []).Exact := .array fun _ h => nomatch h
  rw [JsonCodec.arrayFromStr, ← json.toStr_nil, json.fromStr_toStr _ hexact]
  rfl

/-- `markFacts` of a text that is no array leaves the empty array: the facts are gone. -/
theorem markFacts_of_not_array {text : Str} (h : json.arrayFromStr text = none) (mark : Str) :
    markFacts json mark text = "[]".toList := by
  rw [markFacts, h]
  exact json.toStr_nil

/-- `markFacts` of the empty array leaves it: the facts stay gone. -/
theorem markFacts_empty (mark : Str) : markFacts json mark "[]" = "[]".toList := by
  rw [markFacts, arrayFromStr_empty]
  exact json.toStr_nil

end Facts

/-! ## Anchors -/

section Anchors

variable {json} {facts mark : Str} {anchors : Anchors} {key : Str × Str} {row : AnchorRow}

/-- After `mark` for each of some URIs an anchor differs in its facts at most; what holds of them
and is kept by `markFacts` holds after, an anchor that no URI names is as it was, and one that some
URI names was marked. -/
theorem find?_foldl_mark {P : Str → Prop} (hP : ∀ text, P text → P (markFacts json mark text))
    {uris : List Str} (hrow : anchors.find? key = some row) :
    ∃ facts', (uris.foldl (AnchorDb.mark json mark) anchors).find? key
        = some { row with facts := facts' } ∧
      (P row.facts → P facts') ∧
      ((∀ targetUri ∈ uris, target targetUri ≠ some key) → facts' = row.facts) ∧
      ((∃ targetUri ∈ uris, target targetUri = some key) →
        P (markFacts json mark row.facts) → P facts') := by
  induction uris generalizing anchors row with
  | nil => exact ⟨row.facts, hrow, id, fun _ => rfl, fun ⟨_, h, _⟩ => nomatch h⟩
  | cons targetUri uris ih =>
    have hmark := @find?_mark json mark targetUri anchors key
    rw [hrow, Option.map_some] at hmark
    by_cases hnamed : target targetUri = some key
    · rw [if_pos hnamed] at hmark
      obtain ⟨facts', hfind, hkeeps, -, -⟩ := ih hmark
      exact ⟨facts', hfind, fun h => hkeeps (hP _ h),
        fun h => absurd hnamed (h targetUri List.mem_cons_self), fun _ => hkeeps⟩
    · rw [if_neg hnamed] at hmark
      obtain ⟨facts', hfind, hkeeps, hsame, hmarked⟩ := ih hmark
      refine ⟨facts', hfind, hkeeps,
        fun h => hsame fun uri huri => h uri (List.mem_cons_of_mem _ huri), ?_⟩
      rintro ⟨uri, huri, htarget⟩
      rcases List.mem_cons.mp huri with rfl | huri
      · exact absurd htarget hnamed
      · exact hmarked ⟨uri, huri, htarget⟩

/-- `create` does to an anchor that there was what `supersede` does. -/
theorem find?_create (taskId summary facts : Str) {w : World} (hrow : w.db.anchors.find? key = some row) :
    (eval handler (create json taskId summary facts) w).2.db.anchors.find? key
      = (supersede json (uri taskId (w.clock 0).isoMinute) facts w.db.anchors).find? key := by
  rw [eval_create]
  generalize hanchors : supersede json (uri taskId (w.clock 0).isoMinute) facts w.db.anchors
    = anchors
  generalize hnew : (⟨(w.clock 0).isoMinute, taskId, summary, facts, (w.clock 1).isoSecond⟩ :
    AnchorRow) = new
  cases hfree : anchors.find? (new.taskId, new.id) with
  | some old =>
    obtain ⟨e, heval⟩ := eval_insertRow_of_conflict (w.tick.tick.withAnchors anchors) hfree
    rw [heval]
    rfl
  | none =>
    obtain ⟨anchors', w', heval, hinsert, hsame⟩ :=
      eval_insertRow_of_free (w.tick.tick.withAnchors anchors) new hfree
    -- the key of the new row was free, so it is not that of the old one
    have hne : key ≠ (new.taskId, new.id) := by
      rintro rfl
      rw [← hanchors, find?_supersede_eq_none_iff, hrow] at hfree
      cases hfree
    rw [heval]
    dsimp only
    rw [hsame.anchors, World.withAnchors_anchors]
    exact Table.find?_insert?_ne hinsert hne

end Anchors

/-- **Superseding is non-destructive**: `NonDestructive` holds exactly if the facts of every anchor
that the new one names are an array. -/
theorem nonDestructive_iff (hprints : PrintsReadably json) (taskId summary facts : Str) (w : World) :
    NonDestructive json taskId summary facts w ↔
      ∀ key row, NamesKey json facts key → w.db.anchors.find? key = some row →
        (json.arrayFromStr row.facts).isSome := by
  constructor
  · intro h key row hnamed hrow
    by_contra harray
    rw [Bool.not_eq_true, Option.isSome_eq_false_iff, Option.isNone_iff_eq_none] at harray
    obtain ⟨facts', hfind, hkept, -⟩ := h key row hrow
    -- what was marked once is the empty array from then on
    have hempty : facts' = "[]".toList := by
      rw [find?_create taskId summary facts hrow] at hfind
      obtain ⟨facts'', hfind', -, -, hmarked⟩ :=
        @find?_foldl_mark json (uri taskId (w.clock 0).isoMinute) _ _ _
          (fun text => text = "[]".toList) (fun text htext => by rw [htext, markFacts_empty])
          (supersededUris json facts) hrow
      rw [supersede, hfind', Option.some_inj, AnchorRow.mk.injEq] at hfind
      rw [← hfind.2.2.2.1]
      exact hmarked hnamed (markFacts_of_not_array harray _)
    have hsame : facts' = row.facts := by
      have := hkept hnamed
      rwa [FactsKept, harray] at this
    rw [← hsame, hempty, arrayFromStr_empty] at harray
    cases harray
  · intro h key row hrow
    obtain ⟨facts', hfind, hkeeps, hsame, -⟩ :=
      @find?_foldl_mark json (uri taskId (w.clock 0).isoMinute) _ _ _
        (fun text => (json.arrayFromStr row.facts).isSome → FactsKept json row.facts text)
        (fun text htext harray => (htext harray).markFacts hprints harray _)
        (supersededUris json facts) hrow
    refine ⟨facts', (find?_create taskId summary facts hrow).trans hfind, fun hnamed => ?_,
      fun hnamed => hsame fun targetUri huri htarget => hnamed ⟨targetUri, huri, htarget⟩⟩
    exact hkeeps (fun _ => .refl _) (h key row hnamed hrow)

/-- `JsonText.codec` reads all that it prints: `PrintsReadably`. -/
theorem printsReadably_codec : PrintsReadably JsonText.codec := fun value hreadable =>
  ⟨value, JsonText.codec.fromStr_toStr value (hreadable.exactAt fun _ => id)⟩

/-- The world after a first anchor of `t-1`, with some facts. -/
def anchoredOnce (facts : Str) : World :=
  (eval handler (create JsonText.codec "t-1" "first" facts) onePendingLater).2

/-- Facts that supersede the first anchor of `t-1`. -/
def supersedingFacts : Str := JsonText.codec.toStr (.array [.ofPairs
  [("supersedes", .string (uri "t-1" "2026-03-12T14:00")), ("topic", .string "db")]])

/-- `NonDestructive` for a first anchor whose facts are an array. -/
theorem nonDestructive_decision : NonDestructive JsonText.codec "t-1" "second" supersedingFacts
    (anchoredOnce "[\x7b\"topic\":\"db\"\x7d]") := by
  refine (nonDestructive_iff JsonText.codec printsReadably_codec "t-1" "second" supersedingFacts _).mpr ?_
  intro key row _ hrow
  have hcontents : (anchoredOnce "[\x7b\"topic\":\"db\"\x7d]").db.anchors.contents
      = [⟨"2026-03-12T14:00", "t-1", "first", "[\x7b\"topic\":\"db\"\x7d]",
        "2026-03-12T14:01:00Z"⟩] := by decide +kernel
  have hmem := Table.mem_of_find? hrow
  rw [hcontents, List.mem_singleton] at hmem
  rw [hmem]
  decide +kernel

/-- `NonDestructive` fails for a first anchor whose facts are a plain text: the text is gone. -/
theorem not_nonDestructive_plain_text : ¬NonDestructive JsonText.codec "t-1" "second"
    supersedingFacts (anchoredOnce "use postgres") := by
  intro h
  obtain ⟨facts', hfind, hkept, -⟩ := h ("t-1", "2026-03-12T14:00")
    ⟨"2026-03-12T14:00", "t-1", "first", "use postgres", "2026-03-12T14:01:00Z"⟩
    (by decide +kernel)
  have hnamed : NamesKey JsonText.codec supersedingFacts ("t-1", "2026-03-12T14:00") :=
    ⟨uri "t-1" "2026-03-12T14:00", by decide +kernel, by decide +kernel⟩
  have hplain : JsonText.codec.arrayFromStr "use postgres" = none := by decide +kernel
  have hsame := hkept hnamed
  rw [FactsKept, hplain] at hsame
  rw [hsame] at hfind
  exact absurd hfind (by decide +kernel)

end AnchorDb

end LogosFs.System
