import Mathlib.Logic.Relation
import LogosFs.System.Success

/-! # The version chain of anchors

The facts of a new anchor may name older ones under `supersedes`; these are marked with the URI of
the new anchor before it is inserted. When the insertion is refused, the marks stay and name the
anchor that has the key already. `Orderly` is the condition on a call under which its marks point to
a later row all the same, and `versionChain_of_turns` says that in a run of such calls every mark
names an anchor that was inserted later, so that following marks ends and never cycles. -/

namespace LogosFs.System

open Program (eval Closed Leads)
open Relation (ReflTransGen TransGen)

/-! ## Links that ascend -/

section Ascending

variable {α : Type} {R : α → α → Prop} {rank : α → Nat}

/-- Links that go to a higher `rank` make no cycle. -/
theorem not_transGen_self_of_ascending (hup : ∀ a b, R a b → rank a < rank b) (a : α) :
    ¬TransGen R a a := by
  have hlt : ∀ {a b}, TransGen R a b → rank a < rank b := by
    intro a b h
    induction h with
    | single h => exact hup _ _ h
    | tail _ h ih => exact ih.trans (hup _ _ h)
  exact fun h => Nat.lt_irrefl _ (hlt h)

/-- Where links go to a higher `rank` below a `bound`, following links comes to an end. -/
theorem exists_end_of_ascending {bound : Nat} (hup : ∀ a b, R a b → rank a < rank b)
    (hbound : ∀ a b, R a b → rank b < bound) (a : α) :
    ∃ last, ReflTransGen R a last ∧ ∀ b, ¬R last b := by
  -- the distance to the bound shrinks with every link
  generalize hdistance : bound - rank a = distance
  induction distance using Nat.strong_induction_on generalizing a with
  | _ distance ih =>
    by_cases hlink : ∃ b, R a b
    · obtain ⟨b, hb⟩ := hlink
      have hcloser : bound - rank b < distance := by
        have := hup a b hb
        have := hbound a b hb
        omega
      obtain ⟨last, hreach, hend⟩ := ih _ hcloser b rfl
      exact ⟨last, .head hb hreach, hend⟩
    · exact ⟨a, .refl, fun b hb => hlink ⟨b, hb⟩⟩

end Ascending

/-! ## Marks -/

namespace AnchorDb

variable (json : JsonCodec)

/-- The facts of a stored text. -/
def factsOf (facts : Str) : List Json := (json.arrayFromStr facts).getD []

/-- The URI a fact carries as `superseded_by`. -/
def supersededBy? (fact : Json) : Option Str := (fact.get? "superseded_by").bind Json.asStr

/-- The URIs that the facts of an anchor carry as `superseded_by`. -/
def marks (row : AnchorRow) : List Str := (factsOf json row.facts).filterMap supersededBy?

/-- Facts, as an agent supplies them, that carry neither of the members the kernel writes. -/
def NoKernelKeys (facts : Str) : Prop :=
  ∀ fact ∈ factsOf json facts, fact.get? "superseded_by" = none ∧ fact.get? "status" = none

instance (facts : Str) : Decidable (NoKernelKeys json facts) :=
  inferInstanceAs (Decidable (∀ fact ∈ factsOf json facts,
    fact.get? "superseded_by" = none ∧ fact.get? "status" = none))

variable {json}

/-- Facts with `NoKernelKeys` carry no mark: their `marks` are empty. -/
theorem marks_of_noKernelKeys {row : AnchorRow} (h : NoKernelKeys json row.facts) :
    marks json row = [] := by
  rw [marks, List.filterMap_eq_nil_iff]
  intro fact hfact
  rw [supersededBy?, (h fact hfact).1, Option.bind_none]

/-- A fact after `markFact` carries this mark and no other one. -/
theorem eq_of_supersededBy?_markFact {mark value : Str} {fact : Json}
    (h : supersededBy? (markFact mark fact) = some value) : value = mark := by
  cases fact with
  | object fields =>
    rw [markFact, supersededBy?, Json.get?, Json.lookup_insert_self] at h
    exact (Option.some_inj.mp h).symm
  | _ => cases h

/-- `markFact` keeps facts readable: each has `ReadableAt` as before. -/
theorem readable_map_markFact {float : Str → Prop} {depth : Nat} {items : List Json} (mark : Str)
    (h : ∀ item ∈ items, item.ReadableAt float depth) :
    ∀ item ∈ items.map (markFact mark), item.ReadableAt float depth := by
  intro item hitem
  obtain ⟨old, hold, rfl⟩ := List.mem_map.mp hitem
  have hread := h old hold
  cases old with
  | object fields => exact (hread.insert_string _ _).insert_string _ _
  | _ => exact hread

/-- **Facts that were marked** by `markFacts` carry this mark and no other one, as they are read
back. -/
theorem eq_of_mem_marks {mark value facts : Str}
    (h : value ∈ (factsOf json (markFacts json mark facts)).filterMap supersededBy?) :
    value = mark := by
  have hreadable : (Json.array ((factsOf json facts).map (markFact mark))).ReadableAt json.isFloat
      Json.maxDepth := by
    refine .array (readable_map_markFact mark ?_)
    rw [factsOf, JsonCodec.arrayFromStr]
    cases hparse : json.fromStr facts with
    | error e => exact fun _ h => nomatch h
    | ok value =>
      have hvalue := json.fromStr_readable hparse
      cases value with
      | array items => exact fun item hitem => hvalue.of_array hitem
      | _ => exact fun _ h => nomatch h
  obtain ⟨fact, hfact, hmark⟩ := List.mem_filterMap.mp h
  rw [factsOf, JsonCodec.arrayFromStr] at hfact
  cases hparse : json.fromStr (markFacts json mark facts) with
  | error e =>
    rw [hparse] at hfact
    exact nomatch hfact
  | ok printed =>
    rw [hparse] at hfact
    have hskeleton := congrArg Json.asArray (json.skeleton_of_fromStr_toStr hreadable hparse)
    rw [Json.asArray_skeleton, Json.asArray_skeleton] at hskeleton
    cases hitems : printed.asArray with
    | none =>
      rw [hitems] at hskeleton
      cases hskeleton
    | some items =>
      rw [hitems] at hskeleton
      dsimp only at hfact
      rw [hitems, Option.getD_some] at hfact
      rw [Option.map_some, Json.asArray, Option.map_some, Option.some_inj] at hskeleton
      -- the fact that was read back differs from a marked one in floating point numbers at most
      have hmem : fact.skeleton ∈ (((factsOf json facts).map (markFact mark)).map Json.skeleton) :=
        hskeleton ▸ List.mem_map_of_mem hfact
      obtain ⟨marked, hmarked, hsame⟩ := List.mem_map.mp hmem
      obtain ⟨old, -, rfl⟩ := List.mem_map.mp hmarked
      have htexts := Json.asStr_get?_of_skeleton_eq hsame "superseded_by"
      exact eq_of_supersededBy?_markFact (htexts.trans hmark)

/-! ## Names -/

/-- `isoMinute` shows a time without a slash. -/
theorem notMem_isoMinute (t : DateTime) : '/' ∉ t.isoMinute := by
  have hdigits : ∀ width n, '/' ∉ DateTime.pad width n := by
    intro width n hmem
    rcases List.mem_append.mp hmem with hmem | hmem
    · exact absurd (List.eq_of_mem_replicate hmem) (by decide)
    · exact absurd (Str.isDigit_of_mem_ofNat hmem) (by decide)
  have hletters : '/' ∉ ("-" : Str) ∧ '/' ∉ ("T" : Str) ∧ '/' ∉ (":" : Str) := by decide
  simp only [DateTime.isoMinute, DateTime.isoHour, List.mem_append, hdigits, hletters, or_self,
    not_false_eq_true]

/-- `uri` is injective for anchors whose ids hold no slash. -/
theorem uri_inj {taskId taskId' id id' : Str} (hid : '/' ∉ id) (hid' : '/' ∉ id')
    (h : uri taskId id = uri taskId' id') : taskId = taskId' ∧ id = id' := by
  unfold uri at h
  generalize "logos://system/anchors/".toList = anchors at h
  have hslash : ∀ taskId id : Str,
      anchors ++ taskId ++ "/".toList ++ id = anchors ++ (taskId ++ '/' :: id) := by
    intro taskId id
    rw [List.append_assoc, List.append_assoc]
    rfl
  rw [hslash, hslash] at h
  exact Str.append_sep_inj hid hid' (List.append_cancel_left h)

end AnchorDb

/-! ## The chain -/

section Chain

variable (json : JsonCodec)

/-- An anchor that was inserted after the row of a given number has this URI. -/
def Successor (anchors : Anchors) (n : Nat) (uri : Str) : Prop :=
  ∃ n' row', (n', row') ∈ anchors.rows ∧ n < n' ∧ uri = AnchorDb.uri row'.taskId row'.id

/-- A fact of one anchor carries the URI of another one. -/
def SupersededBy (anchors : Anchors) (row row' : AnchorRow) : Prop :=
  row ∈ anchors.contents ∧ row' ∈ anchors.contents ∧
    AnchorDb.uri row'.taskId row'.id ∈ AnchorDb.marks json row

/-- The version chain is well-founded. -/
structure VersionChain (anchors : Anchors) : Prop where
  /-- Every mark names an anchor, inserted after the one that carries it. -/
  successor : ∀ n row, (n, row) ∈ anchors.rows → ∀ uri ∈ AnchorDb.marks json row,
    Successor anchors n uri
  /-- Following marks comes to an anchor without a mark. -/
  ends : ∀ row ∈ anchors.contents, ∃ last ∈ anchors.contents,
    ReflTransGen (SupersededBy json anchors) row last ∧ AnchorDb.marks json last = []
  /-- Following marks never comes back. -/
  acyclic : ∀ row, ¬TransGen (SupersededBy json anchors) row row

/-- What every call keeps of the anchors: each mark names a later one, and no id holds a slash. -/
structure Chained (anchors : Anchors) : Prop where
  /-- Every mark names an anchor, inserted after the one that carries it. -/
  successor : ∀ n row, (n, row) ∈ anchors.rows → ∀ uri ∈ AnchorDb.marks json row,
    Successor anchors n uri
  /-- The ids hold no slash. -/
  ids : ∀ n row, (n, row) ∈ anchors.rows → '/' ∉ row.id

variable {json} {anchors : Anchors}

/-- No anchors are `Chained`. -/
theorem chained_empty : Chained json .empty := ⟨fun _ _ h => (nomatch h), fun _ _ h => (nomatch h)⟩

/-- **Marks that name later anchors** end, and never cycle: `Chained` anchors are a `VersionChain`.
-/
theorem Chained.versionChain (h : Chained json anchors) : VersionChain json anchors := by
  -- the rank of an anchor is its row number
  let rank : AnchorRow → Nat := fun row => (anchors.rowid? (row.taskId, row.id)).getD 0
  have hrank : ∀ n row, (n, row) ∈ anchors.rows → rank row = n := by
    intro n row hrow
    rw [show rank row = (anchors.rowid? (row.taskId, row.id)).getD 0 from rfl,
      Table.rowid?_of_mem hrow, Option.getD_some]
  have hup : ∀ row row', SupersededBy json anchors row row' → rank row < rank row' := by
    rintro row row' ⟨hrow, hrow', hmark⟩
    obtain ⟨⟨n, row⟩, hnum, rfl⟩ := List.mem_map.mp hrow
    obtain ⟨⟨n', row'⟩, hnum', rfl⟩ := List.mem_map.mp hrow'
    obtain ⟨m, later, hlater, hlt, huri⟩ := h.successor n row hnum _ hmark
    obtain ⟨htask, hid⟩ := AnchorDb.uri_inj (h.ids n' row' hnum') (h.ids m later hlater) huri
    have hsame : later = row' := Table.eq_of_key_eq (List.mem_map.mpr ⟨_, hlater, rfl⟩) hrow'
      (Prod.ext htask.symm hid.symm)
    rw [hrank n row hnum, ← hsame, hrank m later hlater]
    exact hlt
  have hbound : ∀ row row', SupersededBy json anchors row row' →
      rank row' < anchors.nextRowid := by
    rintro row row' ⟨-, hrow', -⟩
    obtain ⟨⟨n', row'⟩, hnum', rfl⟩ := List.mem_map.mp hrow'
    rw [hrank n' row' hnum']
    exact Table.lt_nextRowid (List.mem_map.mpr ⟨_, hnum', rfl⟩)
  refine ⟨h.successor, fun row hrow => ?_, not_transGen_self_of_ascending hup⟩
  obtain ⟨last, hreach, hend⟩ := exists_end_of_ascending hup hbound row
  have hlast : last ∈ anchors.contents := by
    cases hreach with
    | refl => exact hrow
    | tail _ hlink => exact hlink.2.1
  refine ⟨last, hlast, hreach, List.eq_nil_iff_forall_not_mem.mpr fun uri huri => ?_⟩
  -- an anchor that carries a mark has a successor
  obtain ⟨⟨n, last⟩, hnum, rfl⟩ := List.mem_map.mp hlast
  obtain ⟨m, later, hlater, -, rfl⟩ := h.successor n last hnum uri huri
  exact hend later ⟨hlast, List.mem_map.mpr ⟨_, hlater, rfl⟩, huri⟩

/-! ## Marking -/

/-- Anchors before and after some of them were marked with a URI: the same rows, in which at most
the facts of those with the numbers in `touched` have changed, and carry no other mark. -/
structure MarkedBy (json : JsonCodec) (uri : Str) (touched : Nat → Prop) (anchors anchors' : Anchors) :
    Prop where
  /-- No row is lost. -/
  kept : ∀ n row, (n, row) ∈ anchors.rows → ∃ row', (n, row') ∈ anchors'.rows ∧
    row'.taskId = row.taskId ∧ row'.id = row.id
  /-- No row is new, and those that have changed were touched. -/
  marked : ∀ n row', (n, row') ∈ anchors'.rows → ∃ row, (n, row) ∈ anchors.rows ∧
    row'.taskId = row.taskId ∧ row'.id = row.id ∧
    (row' = row ∨ touched n ∧ ∀ mark ∈ AnchorDb.marks json row', mark = uri)

variable {anchors' anchors'' : Anchors} {uri : Str} {touched : Nat → Prop}

/-- `MarkedBy` is reflexive: nothing is marked where nothing happens. -/
theorem MarkedBy.refl (anchors : Anchors) : MarkedBy json uri touched anchors anchors :=
  ⟨fun _ row h => ⟨row, h, rfl, rfl⟩, fun _ row h => ⟨row, h, rfl, rfl, .inl rfl⟩⟩

/-- `MarkedBy` is transitive. -/
theorem MarkedBy.trans (h : MarkedBy json uri touched anchors anchors')
    (h' : MarkedBy json uri touched anchors' anchors'') :
    MarkedBy json uri touched anchors anchors'' := by
  refine ⟨fun n row hrow => ?_, fun n row'' hrow'' => ?_⟩
  · obtain ⟨row', hrow', htask, hid⟩ := h.kept n row hrow
    obtain ⟨row'', hrow'', htask', hid'⟩ := h'.kept n row' hrow'
    exact ⟨row'', hrow'', htask'.trans htask, hid'.trans hid⟩
  · obtain ⟨row', hrow', htask', hid', hchange'⟩ := h'.marked n row'' hrow''
    obtain ⟨row, hrow, htask, hid, hchange⟩ := h.marked n row' hrow'
    refine ⟨row, hrow, htask'.trans htask, hid'.trans hid, ?_⟩
    rcases hchange' with rfl | hmarked
    · exact hchange
    · exact .inr hmarked

/-- The numbers of the anchors that the facts of a new anchor name. -/
def Names (json : JsonCodec) (facts : Str) (anchors : Anchors) (n : Nat) : Prop :=
  ∃ targetUri ∈ AnchorDb.supersededUris json facts, ∃ row, (n, row) ∈ anchors.rows ∧
    AnchorDb.target targetUri = some (row.taskId, row.id)

/-- `mark` touches only the anchor that its URI names. -/
theorem markedBy_mark {targetUri : Str}
    (htouched : ∀ n row, (n, row) ∈ anchors.rows →
      AnchorDb.target targetUri = some (row.taskId, row.id) → touched n) :
    MarkedBy json uri touched anchors (AnchorDb.mark json uri anchors targetUri) := by
  rw [AnchorDb.mark]
  cases htarget : AnchorDb.target targetUri with
  | none => exact .refl anchors
  | some key =>
    obtain ⟨taskId, id⟩ := key
    dsimp only
    cases hfind : anchors.find? (taskId, id) with
    | none => exact .refl anchors
    | some found =>
      refine ⟨fun n row hrow => ?_, fun n row' hrow' => ?_⟩
      · by_cases hkey : (row.taskId, row.id) = (taskId, id)
        · exact ⟨{ row with facts := AnchorDb.markFacts json uri found.facts },
            Table.mem_rows_update.mpr ⟨row, hrow, (if_pos hkey).symm⟩, rfl, rfl⟩
        · exact ⟨row, Table.mem_rows_update.mpr ⟨row, hrow, (if_neg hkey).symm⟩, rfl, rfl⟩
      · obtain ⟨row, hrow, rfl⟩ := Table.mem_rows_update.mp hrow'
        refine ⟨row, hrow, ?_⟩
        by_cases hkey : (row.taskId, row.id) = (taskId, id)
        · rw [if_pos hkey]
          exact ⟨rfl, rfl, .inr ⟨htouched n row hrow (htarget.trans (congrArg some hkey.symm)),
            fun mark hmark => AnchorDb.eq_of_mem_marks hmark⟩⟩
        · rw [if_neg hkey]
          exact ⟨rfl, rfl, .inl rfl⟩

/-- `supersede` touches only the anchors that the facts of the new one name. -/
theorem markedBy_supersede {facts : Str} (htouched : ∀ n, Names json facts anchors n → touched n) :
    MarkedBy json uri touched anchors (AnchorDb.supersede json uri facts anchors) := by
  have hloop : ∀ uris : List Str, (∀ targetUri ∈ uris, targetUri ∈ AnchorDb.supersededUris json facts) →
      ∀ marked, MarkedBy json uri touched anchors marked →
        MarkedBy json uri touched anchors (uris.foldl (AnchorDb.mark json uri) marked) := by
    intro uris
    induction uris with
    | nil => exact fun _ marked hmarked => hmarked
    | cons targetUri uris ih =>
      intro huris marked hmarked
      refine ih (fun later hlater => huris later (List.mem_cons_of_mem _ hlater)) _
        (hmarked.trans (markedBy_mark fun n row hrow htarget => ?_))
      -- the row was there, under the same key, before the loop
      obtain ⟨old, hold, htask, hid, -⟩ := hmarked.marked n row hrow
      exact htouched n ⟨targetUri, huris targetUri List.mem_cons_self, old, hold,
        by rw [htarget, htask, hid]⟩
  exact hloop _ (fun _ h => h) anchors (.refl anchors)

/-- After `MarkedBy` a mark is an old one, which still names a later anchor, or the new one. -/
theorem MarkedBy.successor_or (h : MarkedBy json uri touched anchors anchors')
    (hchained : Chained json anchors) {n : Nat} {row' : AnchorRow} (hrow' : (n, row') ∈ anchors'.rows)
    {mark : Str} (hmark : mark ∈ AnchorDb.marks json row') :
    Successor anchors' n mark ∨ touched n ∧ mark = uri := by
  obtain ⟨row, hrow, -, -, rfl | ⟨htouched, hmarks⟩⟩ := h.marked n row' hrow'
  · obtain ⟨m, later, hlater, hlt, rfl⟩ := hchained.successor n row' hrow mark hmark
    obtain ⟨later', hlater', htask, hid⟩ := h.kept m later hlater
    exact .inl ⟨m, later', hlater', hlt, by rw [htask, hid]⟩
  · exact .inr ⟨htouched, hmarks mark hmark⟩

/-- `MarkedBy` leaves the ids of `Chained` anchors without slashes. -/
theorem MarkedBy.ids (h : MarkedBy json uri touched anchors anchors') (hchained : Chained json anchors)
    {n : Nat} {row' : AnchorRow} (hrow' : (n, row') ∈ anchors'.rows) : '/' ∉ row'.id := by
  obtain ⟨row, hrow, -, hid, -⟩ := h.marked n row' hrow'
  rw [hid]
  exact hchained.ids n row hrow

/-! ## Creating an anchor -/

/-- The marks of a new anchor point to a later row: its key is free, or all anchors that its facts
name were inserted before the one that has the key. -/
def Orderly (json : JsonCodec) (facts : Str) (key : Str × Str) (anchors : Anchors) : Prop :=
  ∀ n row, (n, row) ∈ anchors.rows → (row.taskId, row.id) = key →
    ∀ m, Names json facts anchors m → m < n

/-- **Creating an anchor** that is `Orderly` keeps the anchors `Chained`. -/
theorem Chained.create {w : World} {taskId summary facts : Str} (hchained : Chained json w.db.anchors)
    (hkeys : AnchorDb.NoKernelKeys json facts)
    (horderly : Orderly json facts (taskId, (w.clock 0).isoMinute) w.db.anchors) :
    Chained json (eval handler (AnchorDb.create json taskId summary facts) w).2.db.anchors := by
  rw [AnchorDb.eval_create]
  have hmarked : MarkedBy json (AnchorDb.uri taskId (w.clock 0).isoMinute)
      (Names json facts w.db.anchors) w.db.anchors (AnchorDb.supersede json
        (AnchorDb.uri taskId (w.clock 0).isoMinute) facts w.db.anchors) :=
    markedBy_supersede fun _ => id
  have hnone : ∀ key, (AnchorDb.supersede json (AnchorDb.uri taskId (w.clock 0).isoMinute) facts
      w.db.anchors).find? key = none ↔ w.db.anchors.find? key = none :=
    fun _ => AnchorDb.find?_supersede_eq_none_iff
  generalize AnchorDb.supersede json (AnchorDb.uri taskId (w.clock 0).isoMinute) facts
    w.db.anchors = superseded at hmarked hnone
  cases hfind : w.db.anchors.find? (taskId, (w.clock 0).isoMinute) with
  | none =>
    -- the key is free: the new row comes after all others
    obtain ⟨anchors', w', hrun, hinsert, hsame⟩ := AnchorDb.eval_insertRow_of_free
      (w.tick.tick.withAnchors superseded)
      ⟨(w.clock 0).isoMinute, taskId, summary, facts, (w.clock 1).isoSecond⟩
      ((hnone _).mpr hfind)
    rw [hrun, hsame.anchors, World.withAnchors_anchors]
    refine ⟨fun n row hrow mark hmark => ?_, fun n row hrow => ?_⟩
    · rcases (Table.mem_rows_insert? hinsert).mp hrow with hold | hlast
      · rcases hmarked.successor_or hchained hold hmark with ⟨m, later, hlater, hlt, huri⟩ | ⟨-, rfl⟩
        · exact ⟨m, later, (Table.mem_rows_insert? hinsert).mpr (.inl hlater), hlt, huri⟩
        · exact ⟨_, _, (Table.mem_rows_insert? hinsert).mpr (.inr rfl),
            Table.lt_nextRowid (List.mem_map.mpr ⟨_, hold, rfl⟩), rfl⟩
      · cases hlast
        rw [AnchorDb.marks_of_noKernelKeys hkeys] at hmark
        exact nomatch hmark
    · rcases (Table.mem_rows_insert? hinsert).mp hrow with hold | hlast
      · exact hmarked.ids hchained hold
      · cases hlast
        exact AnchorDb.notMem_isoMinute _
  | some old =>
    -- the key is taken: the insertion is refused, the marks stay
    obtain ⟨⟨n, row⟩, hrow, rfl⟩ := List.mem_map.mp (Table.mem_of_find? hfind)
    have hkey := Table.key_of_find? hfind
    dsimp only at hkey
    obtain ⟨row', hrow', htask, hid⟩ := hmarked.kept n row hrow
    have htaken : superseded.find? (taskId, (w.clock 0).isoMinute) ≠ none := by
      rw [ne_eq, hnone, hfind]
      exact Option.some_ne_none _
    obtain ⟨old', hold'⟩ := Option.ne_none_iff_exists'.mp htaken
    have hconflict : ∃ e, eval handler (AnchorDb.insertRow
        ⟨(w.clock 0).isoMinute, taskId, summary, facts, (w.clock 1).isoSecond⟩)
        (w.tick.tick.withAnchors superseded) = (.error e, w.tick.tick.withAnchors superseded) :=
      AnchorDb.eval_insertRow_of_conflict _ hold'
    obtain ⟨e, hrun⟩ := hconflict
    rw [hrun, World.withAnchors_anchors]
    refine ⟨fun m marked hm mark hmark => ?_, fun m marked hm => hmarked.ids hchained hm⟩
    rcases hmarked.successor_or hchained hm hmark with hsuccessor | ⟨hnames, rfl⟩
    · exact hsuccessor
    · refine ⟨n, row', hrow', horderly n row hrow hkey m hnames, ?_⟩
      rw [Prod.mk.injEq] at hkey
      rw [htask, hid, hkey.1, hkey.2]

/-! ## Calls -/

/-- Whether a statement changes rows of `anchors`. -/
def Statement.changesAnchors : Statement → Bool
  | .insertAnchor _ | .updateAnchorFacts .. => true
  | _ => false

/-- `exec` of a statement that does not `changesAnchors` leaves the anchors alone. -/
theorem exec_anchors {statement : Statement} (h : statement.changesAnchors = false)
    (fts : FtsEngine) (db : Db) :
    (exec fts statement db).2.anchors = db.anchors := by
  cases statement with
  | insertAnchor | updateAnchorFacts => cases h
  | insertTask => rw [exec]; split <;> rfl
  | insertTaskFts taskId =>
    obtain ⟨commands, hcommands⟩ := exec_insertTaskFts fts taskId db
    rw [hcommands]
  | deleteTaskFts taskId =>
    obtain ⟨commands, hcommands⟩ := exec_deleteTaskFts fts taskId db
    rw [hcommands]
  | _ => rfl

/-- A program that leaves the anchors alone. -/
abbrev KeepsAnchors {α : Type} (p : SystemM α) : Prop :=
  Leads handler (fun w w' : World => w'.db.anchors = w.db.anchors) p

/-- `KeepsAnchors` is `Closed` under the ways to build a program. -/
theorem closed_keepsAnchors : Closed fun {α} (p : SystemM α) => KeepsAnchors p :=
  Program.closed_leads handler (fun _ => rfl) fun h h' => h'.trans h

/-- A program that `Writes` by statements that change no anchors has `KeepsAnchors`. -/
theorem keepsAnchors_of_writes {α : Type} {W : Statement → Prop} {p : SystemM α} (h : Writes W p)
    (hW : ∀ statement, W statement → statement.changesAnchors = false) : KeepsAnchors p :=
  h.leads (R := fun db db' => db'.anchors = db.anchors) (fun hsame => hsame.anchors)
    (fun hfirst hsecond => hsecond.trans hfirst)
    fun statement hstatement fts db => exec_anchors (hW statement hstatement) fts db

/-- `transitionStatus` keeps the anchors. -/
theorem keepsAnchors_transitionStatus (taskId newStatus : Str) :
    KeepsAnchors (TaskDb.transitionStatus taskId newStatus) :=
  keepsAnchors_of_writes (writes_transitionStatus taskId newStatus) fun _ ⟨_, _, _, _, h⟩ => h ▸ rfl

/-- `regenSummary` keeps the anchors. -/
theorem keepsAnchors_regenSummary (anchorId : Str) :
    KeepsAnchors (Complete.regenSummary json anchorId) :=
  closed_keepsAnchors.of_bind (keepsAnchors_of_writes (W := fun _ => False) writes_utcNow nofun)
    fun _ => closed_keepsAnchors.of_ignoreError
      (keepsAnchors_of_writes (writes_create _) fun _ ⟨_, _, _, h⟩ => h ▸ rfl)

namespace Complete

variable {params : CompleteParams} (w : World)

/-- The reading of the clock that names the anchor of a call on a task of a given status. -/
def anchorReading (params : CompleteParams) (status : TaskStatus) : Nat :=
  readings status + if params.mode = .plan then 2 else 1

/-- What `anchorIfRequested`, and what comes after it, does to the anchors is what `create` does
where an anchor is asked for. -/
theorem anchors_of_anchorIfRequested {α : Type} {next : Str → SystemM α}
    (hnext : ∀ anchorId, KeepsAnchors (next anchorId)) :
    (eval handler (anchorIfRequested json params >>= next) w).2.db.anchors
      = if params.anchor ∧ params.taskId ≠ [] then (eval handler (AnchorDb.create json params.taskId
          params.summary params.anchorFacts) w).2.db.anchors else w.db.anchors := by
  rw [Program.eval_bind, anchorIfRequested]
  split
  · rcases eval handler (AnchorDb.create json params.taskId params.summary params.anchorFacts) w with
      ⟨e | anchorId, w'⟩
    · rfl
    · exact hnext anchorId w'
  · exact hnext [] w

/-- `execute` without a current task, or one that resumes another task, leaves the anchors alone. -/
theorem keepsAnchors_execute (h : params.taskId ≠ [] → params.resumeTaskId ≠ []) :
    KeepsAnchors (execute json params) := by
  refine closed_execute closed_keepsAnchors
    (keepsAnchors_of_writes (W := fun _ => False) writes_utcNow nofun)
    (fun _ _ => keepsAnchors_transitionStatus _ _) (fun _ => keepsAnchors_transitionStatus _ _)
    (fun _ _ => keepsAnchors_of_writes (writes_delete _) fun _ h => h ▸ rfl)
    (fun _ => keepsAnchors_of_writes (writes_setPlanTodo _ _) fun _ ⟨_, h⟩ => h ▸ rfl)
    (fun htask hresume => absurd hresume (h htask)) fun _ _ =>
      keepsAnchors_of_writes (writes_create _) fun _ ⟨_, _, _, h⟩ => h ▸ rfl

/-- What `execute` does to the anchors once its `transitionStatus` has been tried: nothing, or what
`create` does. -/
theorem anchors_of_moved {w w₁ : World} {new : TaskStatus} {next : Str → SystemM CompleteResult}
    (hrun : eval handler (execute json params) w = Program.evalNext handler
      (fun _ => anchorIfRequested json params >>= next)
      (eval handler (TaskDb.transitionStatus params.taskId new.text) w₁))
    (hnext : ∀ anchorId, KeepsAnchors (next anchorId)) (hmode : params.mode ≠ .resume)
    (hanchors : w₁.db.anchors = w.db.anchors)
    (hstatus : (w₁.db.tasks.find? params.taskId).map (·.status)
      = ((activated params.taskId w).db.tasks.find? params.taskId).map (·.status))
    (hclock : ∀ row, w.db.tasks.find? params.taskId = some row →
      w₁.clock 1 = w.clock (anchorReading params row.status)) :
    (eval handler (execute json params) w).2.db.anchors = w.db.anchors ∨
      params.Anchored ∧ ∃ row w₁, w.db.tasks.find? params.taskId = some row ∧
        row.status ≠ .finished ∧ w₁.db.anchors = w.db.anchors ∧
        w₁.clock 0 = w.clock (anchorReading params row.status) ∧
        (eval handler (execute json params) w).2.db.anchors = (eval handler (AnchorDb.create json
          params.taskId params.summary params.anchorFacts) w₁).2.db.anchors := by
  rw [hrun]
  by_cases hmove : TaskDb.CanMove w₁.db.tasks params.taskId new
  · rw [TaskDb.eval_transitionStatus_of_canMove w₁ hmove, Program.evalNext_ok,
      anchors_of_anchorIfRequested _ hnext]
    split
    · rename_i hrequested
      obtain ⟨row, hrow, hfinished⟩ := exists_row_of_canMove hmove hstatus
      exact .inr ⟨⟨hrequested.1, hrequested.2, hmode⟩, row,
        w₁.tick.withTasks (w₁.db.tasks.setStatus params.taskId new (w₁.clock 0).isoSecond), hrow,
        hfinished, hanchors, hclock row hrow, rfl⟩
    · exact .inl hanchors
  · obtain ⟨e, hfail⟩ := TaskDb.eval_transitionStatus_of_not_canMove w₁ hmove
    rw [hfail]
    exact .inl hanchors

variable (json params) in
/-- **What a call does to the anchors**: nothing, or, where it is `Anchored` and its task exists and
is not finished, what `create` does. -/
theorem anchors_execute_cases :
    (eval handler (execute json params) w).2.db.anchors = w.db.anchors ∨
      params.Anchored ∧ ∃ row w₁, w.db.tasks.find? params.taskId = some row ∧
        row.status ≠ .finished ∧ w₁.db.anchors = w.db.anchors ∧
        w₁.clock 0 = w.clock (anchorReading params row.status) ∧
        (eval handler (execute json params) w).2.db.anchors = (eval handler (AnchorDb.create json
          params.taskId params.summary params.anchorFacts) w₁).2.db.anchors := by
  by_cases hkeeps : params.taskId ≠ [] → params.resumeTaskId ≠ []
  · exact .inl (keepsAnchors_execute hkeeps w)
  rw [Classical.not_imp, not_not] at hkeeps
  obtain ⟨htask, hresume⟩ := hkeeps
  by_cases hplan : params.planTodo = []
  · have hmode : params.mode = if params.sleepReason ≠ [] then .sleep else .finish := by
      rw [CompleteParams.mode, if_neg (not_not.mpr hresume), if_neg fun h => h.1 hplan]
    refine anchors_of_moved (eval_execute_settle json w hresume hplan htask) (fun anchorId => ?_)
      (by rw [hmode]; split <;> decide) activated_anchors rfl fun row hrow => ?_
    · exact closed_keepsAnchors.of_when_bind (fun _ => keepsAnchors_regenSummary anchorId)
        fun _ => closed_keepsAnchors.of_pure _
    · rw [activated_clock hrow, anchorReading, if_neg (by rw [hmode]; split <;> decide),
        Nat.add_comm]
  · have hmode : params.mode = .plan := by
      rw [CompleteParams.mode, if_neg (not_not.mpr hresume), if_pos ⟨hplan, htask⟩]
    refine anchors_of_moved (eval_execute_plan json w hresume hplan htask)
      (fun anchorId => closed_keepsAnchors.of_pure _) (by rw [hmode]; decide) activated_anchors ?_
      fun row hrow => ?_
    · rw [World.withTasks_tasks, Tasks.find?_setPlanTodo_self, Option.map_map]
      rfl
    · exact (activated_clock hrow 2).trans (by rw [anchorReading, if_pos hmode, Nat.add_comm])

/-- The condition on a call: the marks that it leaves point to a later anchor. -/
def OrderlyAnchor (json : JsonCodec) (params : CompleteParams) (w : World) : Prop :=
  params.Anchored → ∀ row, w.db.tasks.find? params.taskId = some row → row.status ≠ .finished →
    Orderly json params.anchorFacts
      (params.taskId, (w.clock (anchorReading params row.status)).isoMinute) w.db.anchors

/-- A call whose anchor finds its key free meets `OrderlyAnchor`. -/
theorem orderlyAnchor_of_free {w : World} (h : ∀ status, w.db.anchors.find?
    (params.taskId, (w.clock (anchorReading params status)).isoMinute) = none) :
    OrderlyAnchor json params w := by
  intro _ row _ _ n taken htaken hkey
  have hfree := Table.find?_eq_none_iff.mp (h row.status) taken (List.mem_map.mpr ⟨_, htaken, rfl⟩)
  exact absurd hkey hfree

/-- **One call** of `execute` keeps the anchors `Chained`, under the condition `OrderlyAnchor`. -/
theorem chained_execute {w : World} (hchained : Chained json w.db.anchors)
    (hkeys : AnchorDb.NoKernelKeys json params.anchorFacts) (horderly : OrderlyAnchor json params w) :
    Chained json (eval handler (execute json params) w).2.db.anchors := by
  rcases anchors_execute_cases json params w with
    hsame | ⟨hanchored, row, w₁, hrow, hfinished, hanchors, hclock, hcreate⟩
  · rw [hsame]
    exact hchained
  · rw [hcreate]
    refine Chained.create (hanchors ▸ hchained) hkeys ?_
    rw [hclock, hanchors]
    exact horderly hanchored row hrow hfinished

end Complete

/-! ## Runs -/

/-- A run of calls, each under a condition, with anything in between that writes no anchors. -/
inductive Turns (json : JsonCodec) (condition : CompleteParams → World → Prop) (w₀ : World) :
    World → Prop
  /-- The run starts. -/
  | start : Turns json condition w₀ w₀
  /-- A turn is completed; the agent's facts carry none of the kernel's members. -/
  | complete {w : World} (reached : Turns json condition w₀ w) (params : CompleteParams)
    (keys : AnchorDb.NoKernelKeys json params.anchorFacts) (holds : condition params w) :
    Turns json condition w₀ (eval handler (Complete.execute json params) w).2
  /-- Something else happens. -/
  | other {w : World} (reached : Turns json condition w₀ w) {α : Type} (p : SystemM α)
    (writes : Writes (fun statement => statement.changesAnchors = false) p) :
    Turns json condition w₀ (eval handler p w).2

/-- **The decision version chain is well-founded**: `VersionChain` holds in every run from a
database without anchors, for any clock, as long as the marks of each call point to a later anchor.
-/
theorem versionChain_of_turns {w₀ w : World} (hempty : w₀.db.anchors = .empty)
    (hrun : Turns json (Complete.OrderlyAnchor json) w₀ w) : VersionChain json w.db.anchors := by
  have hchained : Chained json w.db.anchors := by
    induction hrun with
    | start => exact hempty ▸ chained_empty
    | complete _ params keys holds ih => exact Complete.chained_execute ih keys holds
    | @other w _ α p writes ih => exact (keepsAnchors_of_writes writes (fun _ => id) w) ▸ ih
  exact hchained.versionChain

/-- A call on `t-1` that leaves an anchor with some facts and goes to sleep. -/
def sleepWithFacts (facts : List Json) : CompleteParams :=
  { Complete.sleepWithAnchor with anchorFacts := JsonText.codec.toStr (.array facts) }

/-- A first decision. -/
def firstDecision : CompleteParams := sleepWithFacts [.ofPairs [("topic", .string "db")]]

/-- A decision that replaces the one in an anchor of `t-1`. -/
def laterDecision (anchorId : Str) : CompleteParams :=
  sleepWithFacts [.ofPairs [("supersedes", .string (AnchorDb.uri "t-1" anchorId)),
    ("topic", .string "db")]]

/-- The database with one pending task, and a clock that shows a new minute at every reading. -/
def onePendingLater : World := { onePending with clock := fun n => ⟨2026, 3, 12, 14, n, 0⟩ }

/-- The world after the first decision. -/
def decidedOnce (w : World) : World :=
  (eval handler (Complete.execute JsonText.codec firstDecision) w).2

/-- The world after the second decision, which replaces the one in an anchor of `t-1`. -/
def decidedTwice (anchorId : Str) (w : World) : World :=
  (eval handler (Complete.execute JsonText.codec (laterDecision anchorId)) (decidedOnce w)).2

/-- `versionChain_of_turns` for two decisions at different minutes. -/
theorem versionChain_of_turns_decisions :
    VersionChain JsonText.codec (decidedTwice "2026-03-12T14:02" onePendingLater).db.anchors := by
  refine versionChain_of_turns rfl (.complete (.complete .start firstDecision ?_ ?_)
    (laterDecision "2026-03-12T14:02") ?_ ?_)
  · exact by decide +kernel
  · exact Complete.orderlyAnchor_of_free fun _ => rfl
  · exact by decide +kernel
  · refine Complete.orderlyAnchor_of_free fun status => ?_
    cases status <;> decide +kernel

/-- **Two decisions of one task in one minute**: the second one is refused, but the anchor of the
first one has been marked as superseded by itself, so `VersionChain` fails. -/
theorem not_versionChain_same_minute :
    ¬∀ w₀ w : World, w₀.db.anchors = .empty →
      (∀ m n, m ≤ n → (w₀.clock m).isoSecond ≤ (w₀.clock n).isoSecond) →
      Turns JsonText.codec (fun _ _ => True) w₀ w → VersionChain JsonText.codec w.db.anchors := by
  intro h
  have hchain := h onePending (decidedTwice "2026-03-12T14:00" onePending) rfl
    (fun _ _ _ => List.le_refl _)
    (.complete (.complete .start firstDecision (by decide +kernel) trivial)
      (laterDecision "2026-03-12T14:00") (by decide +kernel) trivial)
  -- the only anchor carries its own URI
  have hrows : ∃ row, (decidedTwice "2026-03-12T14:00" onePending).db.anchors.rows = [(1, row)] ∧
      AnchorDb.uri "t-1" "2026-03-12T14:00" ∈ AnchorDb.marks JsonText.codec row :=
    ⟨⟨"2026-03-12T14:00", "t-1", "waiting for review", AnchorDb.markFacts JsonText.codec
        (AnchorDb.uri "t-1" "2026-03-12T14:00") firstDecision.anchorFacts, "2026-03-12T14:00:00Z"⟩,
      by decide +kernel, by decide +kernel⟩
  obtain ⟨row, hrows, hmark⟩ := hrows
  obtain ⟨n, later, hlater, hlt, -⟩ := hchain.successor 1 row (hrows ▸ List.mem_cons_self) _ hmark
  rw [hrows, List.mem_singleton, Prod.mk.injEq] at hlater
  omega

end Chain

end LogosFs.System
