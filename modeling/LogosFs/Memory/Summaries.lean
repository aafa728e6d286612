import LogosFs.Lib.JsonMerge
import LogosFs.Memory.Ingestion

/-! # Reading the summaries that were written

A summary is written and patched at the URI of its group, layer and period, and read there or, if its
period is the greatest, at `latest`. But the table of the summaries is only inserted into, with the
layer and the period that the body tells, and a read may find any of the rows that its query allows.
`readYourWrites_of_run` says which runs are read as they were written nevertheless: those whose steps
are all `Unambiguous`. -/

namespace LogosFs.Memory

open Program (eval)
open LogosFs.System (DateTime strField)

variable (json : JsonCodec)

/-! ## Runs -/

/-- The layers of summaries. -/
def layers : List Str := ["short".toList, "mid", "long"]

/-- The path of a layer and a period of a group. -/
def summaryPath (gid layer period : Str) : List Str :=
  ["groups".toList, gid, "summary", layer, period]

/-- The URI of a summary: a group, a layer, and a period other than `latest`. -/
structure SummaryUri where
  /-- The group. -/
  gid : Str
  /-- The layer. -/
  layer : Str
  /-- The period. -/
  period : Str
  /-- There are three layers. -/
  layer_mem : layer ∈ layers
  /-- The period is not `latest`. -/
  period_ne : period ≠ "latest".toList
deriving DecidableEq

/-- The path of the URI of a summary. -/
def SummaryUri.path (uri : SummaryUri) : List Str := summaryPath uri.gid uri.layer uri.period

/-- A request that writes or patches a summary. -/
inductive SummaryStep where
  /-- Write. -/
  | write (uri : SummaryUri) (content : Str)
  /-- Patch. -/
  | patch (uri : SummaryUri) (partialText : Str)

namespace SummaryStep

/-- The URI of a request. -/
def uri : SummaryStep → SummaryUri
  | write uri _ | patch uri _ => uri

/-- The body of a request. -/
def body : SummaryStep → Str
  | write _ content => content
  | patch _ partialText => partialText

/-- What a request does. -/
def run (w : World) : SummaryStep → Except VfsError Unit × World
  | write uri content => eval handler (MemoryModule.write json uri.path content) w
  | patch uri partialText => eval handler (MemoryModule.patch json uri.path partialText) w

end SummaryStep

/-- The summary that can be read at a URI; `null` if there is none. -/
def readable (w : World) (uri : SummaryUri) : Json :=
  ((eval handler (MemoryModule.read json uri.path) w).1.toOption.bind fun text =>
    (json.fromStr text).toOption).getD .null

/-- What a request with a body of JSON is to leave at its URI: what is written, or the merge of what
can be read there with what is patched. -/
def SummaryStep.value (w : World) : SummaryStep → Option Json
  | write _ content => (json.fromStr content).toOption
  | patch uri partialText =>
    (json.fromStr partialText).toOption.map (Json.deepMerge (readable json w uri))

/-- The world after some requests, with what was last left at each URI. -/
structure History where
  /-- The world. -/
  world : World
  /-- What was last left at a URI. -/
  last : SummaryUri → Option Json

/-- One more request; if it fails, it leaves nothing. -/
def History.next (history : History) (step : SummaryStep) : History where
  world := (step.run json history.world).2
  last := if (step.run json history.world).1.isOk then
      Function.update history.last step.uri (step.value json history.world)
    else history.last

/-- The history of some requests. -/
def history (w : World) (steps : List SummaryStep) : History :=
  steps.foldl (History.next json) ⟨w, fun _ => none⟩

variable {json} in
/-- After `History.next` of a request that succeeds, what it is to leave is what was last left at
its URI. -/
theorem History.last_next {h : History} {step : SummaryStep}
    (hok : (step.run json h.world).1.isOk = true) :
    (h.next json step).last step.uri = step.value json h.world := by
  show (if _ then _ else _ : SummaryUri → Option Json) step.uri = _
  rw [if_pos hok, Function.update_self]

/-! ## What is to be read -/

/-- A row is the row of a URI: of its group, its layer and its period. -/
structure SummaryRow.IsAt (row : SummaryRow) (uri : SummaryUri) : Prop where
  /-- The row is of the group. -/
  chatId : row.chatId = uri.gid
  /-- It is of the layer. -/
  layer : row.layer = uri.layer
  /-- It is of the period. -/
  periodStart : row.periodStart = uri.period

/-- A row shows what was left at a URI: it is a row of the URI, with the texts that were given. -/
structure SummaryRow.Shows (row : SummaryRow) (uri : SummaryUri) (val : Json) : Prop
    extends row.IsAt uri where
  /-- It has the end that was given. -/
  periodEnd : ∀ text ∈ (val.get "period_end").asStr, row.periodEnd = text
  /-- It has the references that were given. -/
  sourceRefs : ∀ text ∈ (val.get "source_refs").asStr, row.sourceRefs = text
  /-- It has the content that was given. -/
  content : (val.get? "content").isSome → (val.get "content").asStr = some row.content

instance (row : SummaryRow) (uri : SummaryUri) : Decidable (row.IsAt uri) :=
  decidable_of_iff (row.chatId = uri.gid ∧ row.layer = uri.layer ∧ row.periodStart = uri.period)
    ⟨fun h => ⟨h.1, h.2.1, h.2.2⟩, fun h => ⟨h.chatId, h.layer, h.periodStart⟩⟩

instance (row : SummaryRow) (uri : SummaryUri) (val : Json) : Decidable (row.Shows uri val) :=
  decidable_of_iff (row.IsAt uri ∧ (∀ text ∈ (val.get "period_end").asStr, row.periodEnd = text) ∧
      (∀ text ∈ (val.get "source_refs").asStr, row.sourceRefs = text) ∧
      ((val.get? "content").isSome → (val.get "content").asStr = some row.content))
    ⟨fun h => ⟨h.1, h.2.1, h.2.2.1, h.2.2.2⟩,
      fun h => ⟨h.toIsAt, h.periodEnd, h.sourceRefs, h.content⟩⟩

/-- A layer and a period of a group are read as a stored row. -/
def Reads (w : World) (gid layer period : Str) (shown : SummaryRow → Prop) : Prop :=
  ∃ place row, (w.pool gid).1 = .ok place ∧ row ∈ (w.files place).summaries ∧
    (eval handler (MemoryModule.read json (summaryPath gid layer period)) w).1
      = .ok (json.toStr (summaryRowToJson row)) ∧ shown row

/-- **Summaries are read as they were written.** -/
structure ReadYourWrites (h : History) : Prop where
  /-- At its URI a summary is read as it was last written or merged. -/
  period : ∀ uri val, h.last uri = some val →
    Reads json h.world uri.gid uri.layer uri.period fun row => row.Shows uri val
  /-- At `latest` the summary of the greatest period is read, as it was last written or merged. -/
  latest : ∀ uri val, h.last uri = some val →
    (∀ other : SummaryUri, other.gid = uri.gid → other.layer = uri.layer → (h.last other).isSome →
      other.period ≤ uri.period) →
    Reads json h.world uri.gid uri.layer "latest" fun row => row.Shows uri val

/-- A later period that is found where another one is asked for. -/
def Hides (found asked : Str) : Prop :=
  Like.matchesPattern (Like.startingWith asked) found = true ∧ asked < found

instance (found asked : Str) : Decidable (Hides found asked) := inferInstanceAs (Decidable (_ ∧ _))

/-- A row that is a month of the same group neither hides the month of a URI nor is hidden by it. -/
def SummaryRow.Apart (row : SummaryRow) (uri : SummaryUri) : Prop :=
  uri.layer = "long".toList → row.chatId = uri.gid → row.layer = "long".toList →
    ¬Hides row.periodStart uri.period ∧ ¬Hides uri.period row.periodStart

instance (row : SummaryRow) (uri : SummaryUri) : Decidable (row.Apart uri) :=
  inferInstanceAs (Decidable (_ → _ → _ → _ ∧ _))

/-- What a request leaves is not confused with what is stored: the body tells the layer and the period
of the URI, and a text as its content; all that is stored for this URI shows the same; and no month
hides another one. -/
structure Unambiguous (w : World) (uri : SummaryUri) (val : Json) : Prop where
  /-- The layer is that of the URI. -/
  layer : (val.get "layer").asStr = some uri.layer
  /-- The period is that of the URI. -/
  period : (val.get "period_start").asStr = some uri.period
  /-- The content is a text. -/
  content : (val.get? "content").isSome → (val.get "content").asStr.isSome
  /-- What is stored for the URI shows the same. -/
  same : ∀ place, (w.pool uri.gid).1 = .ok place → ∀ row ∈ (w.files place).summaries,
    row.IsAt uri → row.Shows uri val
  /-- Other months are not found for this one, nor this one for others. -/
  apart : ∀ place, (w.pool uri.gid).1 = .ok place → ∀ row ∈ (w.files place).summaries, row.Apart uri

instance (w : World) (uri : SummaryUri) (val : Json) : Decidable (Unambiguous w uri val) :=
  decidable_of_iff ((val.get "layer").asStr = some uri.layer ∧
      (val.get "period_start").asStr = some uri.period ∧
      ((val.get? "content").isSome → (val.get "content").asStr.isSome) ∧
      ∀ place ∈ (w.pool uri.gid).1.toOption, ∀ row ∈ (w.files place).summaries,
        (row.IsAt uri → row.Shows uri val) ∧ row.Apart uri) <| by
    have hplaces : ∀ place, place ∈ (w.pool uri.gid).1.toOption ↔ (w.pool uri.gid).1 = .ok place := by
      intro place
      cases (w.pool uri.gid).1 <;> simp [Except.toOption]
    constructor
    · rintro ⟨hlayer, hperiod, hcontent, hrows⟩
      exact ⟨hlayer, hperiod, hcontent,
        fun place hplace row hrow => (hrows place ((hplaces place).mpr hplace) row hrow).1,
        fun place hplace row hrow => (hrows place ((hplaces place).mpr hplace) row hrow).2⟩
    · intro h
      refine ⟨h.layer, h.period, h.content, fun place hplace row hrow => ?_⟩
      have hfile := (hplaces place).mp hplace
      exact ⟨h.same place hfile row hrow, h.apart place hfile row hrow⟩

/-! ## Reading -/

/-- A read of a `summaryPath` opens the database of the group and reads by `HierarchicalPlugin`. -/
theorem read_summaryPath (gid layer period : Str) :
    MemoryModule.read json (summaryPath gid layer period) = (do
      let place ← pool gid
      HierarchicalPlugin.read json place gid [layer, period]) := rfl

/-- A write of a `summaryPath` opens the database of the group and writes by `SummaryDb`. -/
theorem write_summaryPath (gid layer period content : Str) :
    MemoryModule.write json (summaryPath gid layer period) content = (do
      let place ← pool gid
      SummaryDb.write json place gid content) := rfl

/-- A patch of a `summaryPath` opens the database of the group and patches by `HierarchicalPlugin`.
-/
theorem patch_summaryPath (gid layer period partialText : Str) :
    MemoryModule.patch json (summaryPath gid layer period) partialText = (do
      let place ← pool gid
      HierarchicalPlugin.patch json place gid [layer, period] partialText) := rfl

/-- The row that is found for a layer and a period. -/
def World.summary? (w : World) (place : Place) (gid layer period : Str) : Option SummaryRow :=
  w.engine.pick (w.files place).summaries
    ((SummaryDb.query layer period).allows gid layer (w.files place).summaries)

/-- The text that is read for a layer and a period. -/
def World.summaryText (w : World) (place : Place) (gid layer period : Str) : Str :=
  ((w.summary? place gid layer period).map fun row => json.toStr (summaryRowToJson row)).getD "null"

section Reading

variable {w : World} {gid : Str} {place : Place}

/-- The plugin `summary` reads the `summaryText`, and never fails. -/
theorem eval_hierarchicalRead (w : World) (place : Place) (gid layer period : Str) :
    eval handler (HierarchicalPlugin.read json place gid [layer, period]) w
      = (.ok (w.summaryText json place gid layer period), w) := by
  have hselect : eval handler (selectSummary place gid layer (SummaryDb.query layer period)) w
      = (.ok (w.summary? place gid layer period), w) := by
    refine (eval_send w place _ _).trans (congrArg (Prod.mk _) ?_)
    exact World.withDb_self w place
  unfold HierarchicalPlugin.read SummaryDb.read
  rw [Program.eval_bind, Program.eval_bind, List.head?_cons, Option.getD_some, hselect,
    Program.evalNext_ok]
  rfl

/-- `World.pool` leaves the `summaryText` that is read. -/
theorem summaryText_pool (w : World) (chatId : Str) (place : Place) (gid layer period : Str) :
    (w.pool chatId).2.summaryText json place gid layer period
      = w.summaryText json place gid layer period := by
  rw [World.summaryText, World.summary?, (sameArchive_pool w chatId).engine, World.pool_files]
  rfl

/-- **A read** of a `summaryPath` answers with the `summaryText` of the row that is found. -/
theorem eval_read_summaryPath (hplace : (w.pool gid).1 = .ok place) (layer period : Str) :
    (eval handler (MemoryModule.read json (summaryPath gid layer period)) w).1
      = .ok (w.summaryText json place gid layer period) := by
  rw [read_summaryPath, Program.eval_bind, eval_pool, hplace, Program.evalNext_ok,
    eval_hierarchicalRead, summaryText_pool]

/-- What is `readable` at a URI is the `summaryText` that is found there, parsed. -/
theorem readable_eq {uri : SummaryUri} (hplace : (w.pool uri.gid).1 = .ok place) :
    readable json w uri = (json.fromStr
      (w.summaryText json place uri.gid uri.layer uri.period)).toOption.getD .null := by
  unfold readable SummaryUri.path
  rw [eval_read_summaryPath json hplace]
  rfl

end Reading

/-! ## Writing -/

/-- Two values have the same texts as members. -/
def SameTexts (val val' : Json) : Prop := ∀ key, (val'.get key).asStr = (val.get key).asStr

/-- A row was added to the summaries of a file, which is that of its group. -/
structure AddsSummary (place : Place) (row : SummaryRow) (w w' : World) : Prop where
  /-- The row comes last. -/
  summaries : (w'.files place).summaries = (w.files place).summaries ++ [row]
  /-- The other files have the same summaries. -/
  others : ∀ place' ≠ place, (w'.files place').summaries = (w.files place').summaries
  /-- The group has a pool of the file. -/
  pooled : w'.pools.get row.chatId = some place
  /-- The other pools are kept. -/
  pools : ∀ chatId place', w.pools.get chatId = some place' → w'.pools.get chatId = some place'

/-- All summaries and pools are kept. -/
structure KeepsSummaries (w w' : World) : Prop where
  /-- The summaries are the same. -/
  summaries : ∀ place, (w'.files place).summaries = (w.files place).summaries
  /-- The pools are kept. -/
  pools : ∀ chatId place', w.pools.get chatId = some place' → w'.pools.get chatId = some place'

/-- The text that a patch writes: the merge, if both texts are JSON. -/
def mergedText (existing partialText : Str) : Str :=
  match json.fromStr existing, json.fromStr partialText with
  | .ok base, .ok patch => json.toStr (Json.deepMerge base patch)
  | _, _ => partialText

section Writing

variable {w : World} {gid : Str} {place : Place} {uri : SummaryUri} {val val' : Json}

/-- `World.pool` keeps the summaries and the pools: `KeepsSummaries`. -/
theorem keepsSummaries_pool (w : World) (gid : Str) : KeepsSummaries w (w.pool gid).2 where
  summaries _ := by rw [World.pool_files]
  pools _ _ h := World.get_pool_of_get h gid

/-- Under `SameTexts` a text under a key is the same in both. -/
theorem SameTexts.getD_eq (h : SameTexts val val') {key text : Str}
    (htext : (val.get key).asStr = some text) (default : Str) :
    (val'.get key).asStr.getD default = text := by
  rw [h, htext, Option.getD_some]

/-- The `newRow` of what was left at a URI `Shows` it. -/
theorem shows_newRow (h : Unambiguous w uri val) (hsame : SameTexts val val') (now : DateTime)
    (id : Int) : (SummaryDb.newRow json val' uri.gid now id).Shows uri val where
  chatId := rfl
  layer := hsame.getD_eq h.layer _
  periodStart := hsame.getD_eq h.period _
  periodEnd _ htext := hsame.getD_eq htext _
  sourceRefs _ htext := hsame.getD_eq htext _
  content := by
    intro hgiven
    obtain ⟨text, htext⟩ := Option.isSome_iff_exists.mp (h.content hgiven)
    exact htext.trans (congrArg some (hsame.getD_eq htext _).symm)

/-- `insertSummary` appends a row under the next number, and never fails. -/
@[simp] theorem eval_insertSummary (w : World) (place : Place) (row : Int → SummaryRow) :
    eval handler (insertSummary place row) w = (.ok (), w.withDb place { w.files place with
      summaries := (w.files place).summaries ++ [row ((w.files place).summaries.length + 1)] }) :=
  eval_send ..

/-- **A body is stored** by `SummaryDb.write` if it is JSON; otherwise it `KeepsSummaries`. -/
theorem eval_summaryWrite_cases (hplace : (w.pool gid).1 = .ok place) (content : Str) :
    (∃ e, (eval handler (SummaryDb.write json place gid content) (w.pool gid).2).1 = .error e ∧
      KeepsSummaries w (eval handler (SummaryDb.write json place gid content) (w.pool gid).2).2) ∨
    ∃ val now id, json.fromStr content = .ok val ∧
      (eval handler (SummaryDb.write json place gid content) (w.pool gid).2).1 = .ok () ∧
      AddsSummary place (SummaryDb.newRow json val gid now id) w
        (eval handler (SummaryDb.write json place gid content) (w.pool gid).2).2 := by
  unfold SummaryDb.write parseJson
  cases hparse : json.fromStr content with
  | error e => exact .inl ⟨_, rfl, keepsSummaries_pool w gid⟩
  | ok val =>
    have hpool := keepsSummaries_pool w gid
    generalize hopened : (w.pool gid).2 = opened at hpool
    have hpooled : opened.pools.get gid = some place := hopened ▸ World.get_pool hplace
    refine .inr ⟨val, opened.clock 0, (opened.files place).summaries.length + 1, rfl, rfl, ?_⟩
    rw [Program.eval_bind, Program.eval_pure, Program.evalNext_ok, Program.eval_bind, eval_utcNow,
      Program.evalNext_ok, eval_insertSummary]
    refine ⟨?_, fun place' hne => ?_, hpooled, hpool.pools⟩
    · rw [← hpool.summaries, World.withDb_files_self]
      rfl
    · rw [World.withDb_files_ne _ _ _ _ hne]
      exact hpool.summaries place'

/-- A patch writes the `mergedText` of what is read and what is given. -/
theorem eval_hierarchicalPatch (w : World) (place : Place) (gid layer period partialText : Str) :
    eval handler (HierarchicalPlugin.patch json place gid [layer, period] partialText) w
      = eval handler (SummaryDb.write json place gid
          (mergedText json (w.summaryText json place gid layer period) partialText)) w := by
  unfold HierarchicalPlugin.patch mergedText
  rw [Program.eval_bind, eval_hierarchicalRead, Program.evalNext_ok]
  rcases json.fromStr (w.summaryText json place gid layer period) with _ | base
  · rfl
  · rcases json.fromStr partialText with _ | patch <;> rfl

/-- The `mergedText` that a patch writes has the `SameTexts` as the merge. -/
theorem sameTexts_of_mergedText {existing partialText : Str}
    (h : json.fromStr (mergedText json existing partialText) = .ok val') :
    ∃ patch, json.fromStr partialText = .ok patch ∧
      SameTexts (Json.deepMerge ((json.fromStr existing).toOption.getD .null) patch) val' := by
  unfold mergedText at h
  split at h
  · rename_i base patch hbase hpatch
    refine ⟨patch, hpatch, fun key => ?_⟩
    have hreadable := (json.fromStr_readable hbase).deepMerge (json.fromStr_readable hpatch)
    rw [hbase, Json.asStr_get, Json.asStr_get]
    exact Json.asStr_get?_of_skeleton_eq (json.skeleton_of_fromStr_toStr hreadable h) key
  · -- What cannot be read counts as `null`, and the merge is the patch.
    rename_i hneither
    refine ⟨val', h, fun key => ?_⟩
    cases hbase : json.fromStr existing with
    | error e => rw [Except.toOption, Option.getD_none, Json.deepMerge_null]
    | ok base => exact absurd h (hneither base val' hbase)

/-- **What a request does**: it fails, and `KeepsSummaries`; or it adds a row with the texts of what
it is to leave. -/
theorem run_cases (w : World) (step : SummaryStep) :
    (∃ e, (step.run json w).1 = .error e ∧ KeepsSummaries w (step.run json w).2) ∨
    ∃ val val' place now id, step.value json w = some val ∧ SameTexts val val' ∧
      (w.pool step.uri.gid).1 = .ok place ∧ (step.run json w).1 = .ok () ∧
      AddsSummary place (SummaryDb.newRow json val' step.uri.gid now id) w (step.run json w).2 := by
  cases step with
  | write uri content =>
    simp only [SummaryStep.run, SummaryUri.path, write_summaryPath, Program.eval_bind, eval_pool]
    cases hplace : (w.pool uri.gid).1 with
    | error e => exact .inl ⟨e, rfl, keepsSummaries_pool w uri.gid⟩
    | ok place =>
      rw [Program.evalNext_ok]
      rcases eval_summaryWrite_cases json hplace content with
        hfailed | ⟨val, now, id, hparse, hok, hadds⟩
      · exact .inl hfailed
      · refine .inr ⟨val, val, place, now, id, ?_, fun _ => rfl, hplace, hok, hadds⟩
        rw [SummaryStep.value, hparse]
        rfl
  | patch uri partialText =>
    simp only [SummaryStep.run, SummaryUri.path, patch_summaryPath, Program.eval_bind, eval_pool]
    cases hplace : (w.pool uri.gid).1 with
    | error e => exact .inl ⟨e, rfl, keepsSummaries_pool w uri.gid⟩
    | ok place =>
      rw [Program.evalNext_ok, eval_hierarchicalPatch, summaryText_pool]
      rcases eval_summaryWrite_cases json hplace _ with
        hfailed | ⟨val', now, id, hparse, hok, hadds⟩
      · exact .inl hfailed
      · obtain ⟨patch, hpatch, hsame⟩ := sameTexts_of_mergedText json hparse
        refine .inr ⟨_, val', place, now, id, ?_, hsame, hplace, hok, hadds⟩
        rw [SummaryStep.value, hpatch, readable_eq json hplace]
        rfl

end Writing

/-! ## Runs without confusion -/

/-- What is stored is what was last left, and it is found. -/
structure Kept (h : History) : Prop where
  /-- Each row shows what was last left at a URI, and is in the file of its group. -/
  rows : ∀ place, ∀ row ∈ (h.world.files place).summaries,
    h.world.pools.get row.chatId = some place ∧ ∃ uri val, h.last uri = some val ∧ row.Shows uri val
  /-- What was left at a URI is stored. -/
  stored : ∀ uri val, h.last uri = some val →
    ∃ place, ∃ row ∈ (h.world.files place).summaries, row.Shows uri val
  /-- No month hides another one of its group. -/
  apart : ∀ place, ∀ row ∈ (h.world.files place).summaries,
    ∀ row' ∈ (h.world.files place).summaries, row.chatId = row'.chatId →
      row.layer = "long".toList → row'.layer = "long".toList →
        ¬Hides row.periodStart row'.periodStart

section Kept

variable {json} {h : History} {uri uri' : SummaryUri} {val : Json} {place : Place} {row : SummaryRow}

/-- A row `IsAt` one URI only. -/
theorem SummaryRow.IsAt.uri_eq (h : row.IsAt uri) (h' : row.IsAt uri') : uri = uri' := by
  have hgid := h.chatId.symm.trans h'.chatId
  have hlayer := h.layer.symm.trans h'.layer
  have hperiod := h.periodStart.symm.trans h'.periodStart
  cases uri
  cases uri'
  subst hgid hlayer hperiod
  rfl

/-- In a history that is `Kept` a row of a URI `Shows` what was last left there. -/
theorem Kept.shows (hkept : Kept h) (hlast : h.last uri = some val)
    (hrow : row ∈ (h.world.files place).summaries) (hat : row.IsAt uri) : row.Shows uri val := by
  obtain ⟨-, uri', val', hlast', hshows⟩ := hkept.rows place row hrow
  obtain rfl := hat.uri_eq hshows.toIsAt
  rw [hlast, Option.some_inj] at hlast'
  rwa [hlast']

/-! ### Queries -/

/-- `SummaryQuery.at period` allows the rows of the chat, the layer and the period. -/
theorem allows_at_iff {period chatId layer : Str} {rows : List SummaryRow} :
    (SummaryQuery.at period).allows chatId layer rows row = true ↔
      row.chatId = chatId ∧ row.layer = layer ∧ row.periodStart = period := by
  simp [SummaryQuery.allows, and_assoc]

/-- `SummaryQuery.latest` allows the rows of the chat and the layer with the greatest period. -/
theorem allows_latest_iff {chatId layer : Str} {rows : List SummaryRow} :
    SummaryQuery.latest.allows chatId layer rows row = true ↔
      (row.chatId = chatId ∧ row.layer = layer) ∧ ∀ other ∈ rows, other.chatId = chatId →
        other.layer = layer → other.periodStart ≤ row.periodStart := by
  simp [SummaryQuery.allows, or_iff_not_imp_left, and_imp]

/-- `SummaryQuery.like pattern` allows those with the greatest period that matches the pattern. -/
theorem allows_like_iff {pattern chatId layer : Str} {rows : List SummaryRow} :
    (SummaryQuery.like pattern).allows chatId layer rows row = true ↔
      (row.chatId = chatId ∧ row.layer = layer ∧ Like.matchesPattern pattern row.periodStart = true) ∧
        ∀ other ∈ rows, other.chatId = chatId → other.layer = layer →
          Like.matchesPattern pattern other.periodStart = true →
            other.periodStart ≤ row.periodStart := by
  simp [SummaryQuery.allows, or_iff_not_imp_left, and_imp, and_assoc]

/-- Where a query `allows` a row, and only rows that show something, a row is read that does. -/
theorem reads_of_allows {w : World} {gid layer period : Str} {shown : SummaryRow → Prop}
    (hplace : (w.pool gid).1 = .ok place) (hrow : row ∈ (w.files place).summaries)
    (hallowed : (SummaryDb.query layer period).allows gid layer (w.files place).summaries row = true)
    (hshown : ∀ row ∈ (w.files place).summaries,
      (SummaryDb.query layer period).allows gid layer (w.files place).summaries row = true → shown row) :
    Reads json w gid layer period shown := by
  have hread := eval_read_summaryPath json hplace layer period
  cases hpick : w.summary? place gid layer period with
  | none =>
    rw [w.engine.pick_none hpick row hrow] at hallowed
    cases hallowed
  | some found =>
    obtain ⟨hfound, hallowed'⟩ := w.engine.pick_mem hpick
    rw [World.summaryText, hpick] at hread
    exact ⟨place, found, hplace, hfound, hread, hshown found hfound hallowed'⟩

/-! ### What is kept is read -/

/-- In a history that is `Kept` what was left at a URI is stored in the file of its group. -/
theorem Kept.exists_row (hkept : Kept h) (hlast : h.last uri = some val) :
    ∃ place row, (h.world.pool uri.gid).1 = .ok place ∧ row ∈ (h.world.files place).summaries ∧
      row.Shows uri val := by
  obtain ⟨place, row, hrow, hshows⟩ := hkept.stored uri val hlast
  have hpooled := (hkept.rows place row hrow).1
  rw [hshows.chatId] at hpooled
  exact ⟨place, row, World.pool_of_get hpooled, hrow, hshows⟩

/-- **At a URI** of a history that is `Kept`, what was last left there is read. -/
theorem Kept.reads_period (hkept : Kept h) (hlast : h.last uri = some val) :
    Reads json h.world uri.gid uri.layer uri.period fun row => row.Shows uri val := by
  obtain ⟨place, row, hplace, hrow, hshows⟩ := hkept.exists_row hlast
  have hquery : SummaryDb.query uri.layer uri.period
      = if uri.layer = "long".toList then .like (Like.startingWith uri.period) else .at uri.period :=
    if_neg uri.period_ne
  by_cases hlong : uri.layer = "long".toList
  · rw [if_pos hlong] at hquery
    -- A month that is found for this one is not after it, and the greatest one is not before it.
    have hle : ∀ other ∈ (h.world.files place).summaries, other.chatId = uri.gid →
        other.layer = uri.layer → Like.matchesPattern (Like.startingWith uri.period) other.periodStart
          = true → other.periodStart ≤ uri.period := by
      intro other hother hchat hlayer hmatches
      have hapart := hkept.apart place other hother row hrow (hchat.trans hshows.chatId.symm)
        (hlayer.trans hlong) (hshows.layer.trans hlong)
      rw [hshows.periodStart] at hapart
      exact List.not_lt.mp fun hlt => hapart ⟨hmatches, hlt⟩
    have hself := Like.matchesPattern_startingWith_self uri.period
    refine reads_of_allows hplace hrow ?_ fun found hfound hallowed => ?_
    · rw [hquery, allows_like_iff, hshows.periodStart]
      exact ⟨⟨hshows.chatId, hshows.layer, hself⟩, hle⟩
    · rw [hquery, allows_like_iff] at hallowed
      obtain ⟨⟨hchat, hlayer, hmatches⟩, hgreatest⟩ := hallowed
      have hge := hgreatest row hrow hshows.chatId hshows.layer (hshows.periodStart ▸ hself)
      rw [hshows.periodStart] at hge
      have hsame := List.le_antisymm (hle found hfound hchat hlayer hmatches) hge
      exact hkept.shows hlast hfound ⟨hchat, hlayer, hsame⟩
  · rw [if_neg hlong] at hquery
    refine reads_of_allows hplace hrow ?_ fun found hfound hallowed => ?_
    · rw [hquery, allows_at_iff]
      exact ⟨hshows.chatId, hshows.layer, hshows.periodStart⟩
    · rw [hquery, allows_at_iff] at hallowed
      exact hkept.shows hlast hfound ⟨hallowed.1, hallowed.2.1, hallowed.2.2⟩

/-- **At `latest`** what was last left at the greatest period is read. -/
theorem Kept.reads_latest (hkept : Kept h) (hlast : h.last uri = some val)
    (hgreatest : ∀ other : SummaryUri, other.gid = uri.gid → other.layer = uri.layer →
      (h.last other).isSome → other.period ≤ uri.period) :
    Reads json h.world uri.gid uri.layer "latest" fun row => row.Shows uri val := by
  obtain ⟨place, row, hplace, hrow, hshows⟩ := hkept.exists_row hlast
  have hquery : SummaryDb.query uri.layer "latest" = .latest := if_pos rfl
  have hle : ∀ other ∈ (h.world.files place).summaries, other.chatId = uri.gid →
      other.layer = uri.layer → other.periodStart ≤ uri.period := by
    intro other hother hchat hlayer
    obtain ⟨-, uri', val', hlast', hshows'⟩ := hkept.rows place other hother
    rw [hshows'.periodStart]
    exact hgreatest uri' (hshows'.chatId.symm.trans hchat) (hshows'.layer.symm.trans hlayer)
      (Option.isSome_of_eq_some hlast')
  refine reads_of_allows hplace hrow ?_ fun found hfound hallowed => ?_
  · rw [hquery, allows_latest_iff, hshows.periodStart]
    exact ⟨⟨hshows.chatId, hshows.layer⟩, hle⟩
  · rw [hquery, allows_latest_iff] at hallowed
    obtain ⟨⟨hchat, hlayer⟩, hmax⟩ := hallowed
    have hge := hmax row hrow hshows.chatId hshows.layer
    rw [hshows.periodStart] at hge
    exact hkept.shows hlast hfound
      ⟨hchat, hlayer, List.le_antisymm (hle found hfound hchat hlayer) hge⟩

/-- A history that is `Kept` is one with `ReadYourWrites`. -/
theorem Kept.readYourWrites (hkept : Kept h) : ReadYourWrites json h where
  period _ _ hlast := hkept.reads_period hlast
  latest _ _ hlast hgreatest := hkept.reads_latest hlast hgreatest

/-! ### Steps and runs -/

/-- `Kept` holds on where the summaries and the pools are kept. -/
theorem Kept.of_keepsSummaries (hkept : Kept h) {w : World} (hkeeps : KeepsSummaries h.world w) :
    Kept ⟨w, h.last⟩ where
  rows place row hrow := by
    rw [hkeeps.summaries] at hrow
    obtain ⟨hpooled, hshows⟩ := hkept.rows place row hrow
    exact ⟨hkeeps.pools _ _ hpooled, hshows⟩
  stored uri val hlast := by
    obtain ⟨place, row, hrow, hshows⟩ := hkept.stored uri val hlast
    exact ⟨place, row, (hkeeps.summaries place).symm ▸ hrow, hshows⟩
  apart place row hrow row' hrow' := by
    rw [hkeeps.summaries] at hrow hrow'
    exact hkept.apart place row hrow row' hrow'

/-- `Kept` goes on where `AddsSummary` adds a row that shows what is left at its URI from then on.
-/
theorem Kept.of_addsSummary (hkept : Kept h) {w : World} (hadds : AddsSummary place row h.world w)
    (hplace : (h.world.pool uri.gid).1 = .ok place) (hrow : row.Shows uri val)
    (hunambiguous : Unambiguous h.world uri val) :
    Kept ⟨w, Function.update h.last uri (some val)⟩ where
  rows place' other hother := by
    by_cases hfile : place' = place
    · subst hfile
      rw [hadds.summaries, List.mem_append, List.mem_singleton] at hother
      rcases hother with hother | rfl
      · obtain ⟨hpooled, uri', val', hlast, hshows⟩ := hkept.rows place' other hother
        refine ⟨hadds.pools _ _ hpooled, ?_⟩
        by_cases heq : uri' = uri
        · subst heq
          exact ⟨uri', val, Function.update_self .., hunambiguous.same place' hplace other hother
            hshows.toIsAt⟩
        · exact ⟨uri', val', (Function.update_of_ne heq ..).trans hlast, hshows⟩
      · exact ⟨hadds.pooled, uri, val, Function.update_self .., hrow⟩
    · rw [hadds.others place' hfile] at hother
      obtain ⟨hpooled, uri', val', hlast, hshows⟩ := hkept.rows place' other hother
      refine ⟨hadds.pools _ _ hpooled, uri', val', ?_, hshows⟩
      -- The rows of the URI are in the file of its group.
      have hne : uri' ≠ uri := by
        rintro rfl
        rw [hshows.chatId] at hpooled
        rw [World.pool_of_get hpooled] at hplace
        exact hfile (Except.ok.inj hplace)
      exact (Function.update_of_ne hne ..).trans hlast
  stored uri' val' hlast := by
    replace hlast : Function.update h.last uri (some val) uri' = some val' := hlast
    by_cases heq : uri' = uri
    · subst heq
      rw [Function.update_self, Option.some_inj] at hlast
      subst hlast
      refine ⟨place, row, ?_, hrow⟩
      rw [hadds.summaries]
      exact List.mem_concat_self
    · rw [Function.update_of_ne heq] at hlast
      obtain ⟨place', other, hother, hshows⟩ := hkept.stored uri' val' hlast
      refine ⟨place', other, ?_, hshows⟩
      by_cases hfile : place' = place
      · subst hfile
        rw [hadds.summaries]
        exact List.mem_append_left _ hother
      · rwa [hadds.others place' hfile]
  apart place' first hfirst second hsecond hchat hlayer hlayer' := by
    by_cases hfile : place' = place
    · subst hfile
      rw [hadds.summaries, List.mem_append, List.mem_singleton] at hfirst hsecond
      rcases hfirst with hfirst | rfl <;> rcases hsecond with hsecond | rfl
      · exact hkept.apart place' first hfirst second hsecond hchat hlayer hlayer'
      · rw [hrow.periodStart]
        exact (hunambiguous.apart place' hplace first hfirst (hrow.layer.symm.trans hlayer')
          (hchat.trans hrow.chatId) hlayer).1
      · rw [hrow.periodStart]
        exact (hunambiguous.apart place' hplace second hsecond (hrow.layer.symm.trans hlayer)
          (hchat.symm.trans hrow.chatId) hlayer').2
      · exact fun hhides => List.lt_irrefl _ hhides.2
    · rw [hadds.others place' hfile] at hfirst hsecond
      exact hkept.apart place' first hfirst second hsecond hchat hlayer hlayer'

/-- **A step without confusion**, which is `Unambiguous`, leaves the history `Kept`. -/
theorem Kept.next (hkept : Kept h) (step : SummaryStep)
    (hstep : ∀ val ∈ step.value json h.world, Unambiguous h.world step.uri val) :
    Kept (h.next json step) := by
  rcases run_cases json h.world step with
    ⟨e, herror, hkeeps⟩ | ⟨val, val', place, now, id, hvalue, hsame, hplace, hok, hadds⟩
  · have hlast : (h.next json step).last = h.last := by
      rw [History.next, herror]
      rfl
    have hkept' := hkept.of_keepsSummaries hkeeps
    rwa [← hlast] at hkept'
  · have hunambiguous := hstep val hvalue
    have hlast : (h.next json step).last = Function.update h.last step.uri (some val) := by
      rw [History.next, hok, hvalue]
      rfl
    have hkept' := hkept.of_addsSummary hadds hplace
      (shows_newRow json hunambiguous hsame now id) hunambiguous
    rwa [← hlast] at hkept'

end Kept

/-- **Every run without confusion is read as it was written**: in every world without summaries, and
whatever row SQLite finds, if each step of a run is unambiguous where it is taken, then after any of
them each summary is read as it was last written or merged, and the one of the greatest period at
`latest`. -/
theorem readYourWrites_of_run {w : World} (hnew : ∀ place, (w.files place).summaries = [])
    {steps : List SummaryStep}
    (hsteps : ∀ before step, before ++ [step] <+: steps →
      ∀ val ∈ step.value json (history json w before).world,
        Unambiguous (history json w before).world step.uri val) :
    ∀ earlier, earlier <+: steps → ReadYourWrites json (history json w earlier) := by
  suffices hkept : ∀ earlier, earlier <+: steps → Kept (history json w earlier) from
    fun earlier hearlier => (hkept earlier hearlier).readYourWrites
  intro earlier hearlier
  induction earlier using List.reverseRecOn with
  | nil =>
    refine ⟨fun place row hrow => ?_, fun _ _ hlast => ?_, fun place row hrow => ?_⟩
    · rw [show (history json w []).world = w from rfl, hnew] at hrow
      cases hrow
    · cases hlast
    · rw [show (history json w []).world = w from rfl, hnew] at hrow
      cases hrow
  | append_singleton before step ih =>
    have hkept := ih ((List.prefix_append before [step]).trans hearlier)
    have hnext := hkept.next step (hsteps before step hearlier)
    rwa [show history json w (before ++ [step]) = (history json w before).next json step by
      rw [history, List.foldl_append]; rfl]

/-! ## Two hours of a group -/

/-- The summary of an hour. -/
def hourly (period content : Str) : Json := .ofPairs [
  ("layer", .string "short"), ("period_start", .string period), ("content", .string content)]

/-- An `hourly` summary has no numbers in it, so it is `Exact`. -/
theorem exact_hourly (period content : Str) : (hourly period content).Exact := by
  refine Json.exactAt_ofPairs fun pair hpair => ?_
  simp only [List.mem_cons, List.not_mem_nil, or_false] at hpair
  rcases hpair with rfl | rfl | rfl <;> exact .string

/-- Ten o'clock. -/
def atTen : SummaryUri := ⟨"chat-1", "short", "2026-03-20T10", by decide, by decide⟩

/-- Eleven o'clock. -/
def atEleven : SummaryUri := ⟨"chat-1", "short", "2026-03-20T11", by decide, by decide⟩

/-- The summary of an hour is written. -/
def writeHour (uri : SummaryUri) (content : Str) : SummaryStep :=
  .write uri (JsonText.codec.toStr (hourly uri.period content))

/-- `ReadYourWrites` where two hours are written, and the first one once more, as it was. -/
theorem readYourWrites_twoHours : ReadYourWrites JsonText.codec (history JsonText.codec Scanning.world
    [writeHour atTen "calm", writeHour atEleven "busy", writeHour atTen "calm"]) :=
  readYourWrites_of_run JsonText.codec (fun _ => rfl) (forall_prefix_of_zipIdx (by decide +kernel)) _
    List.prefix_rfl

/-- A body tells the layer and the period of a URI, or leaves them out. -/
def TellsOrOmits (uri : SummaryUri) (val : Json) : Prop :=
  ((val.get? "layer").isSome → (val.get "layer").asStr = some uri.layer) ∧
    ((val.get? "period_start").isSome → (val.get "period_start").asStr = some uri.period)

/-- The hour is written, and then overwritten. -/
def overwritten : List SummaryStep := [writeHour atTen "calm", writeHour atTen "busy"]

/-- **What overwrites a summary may not be read**: both rows are stored under the period, and either
may be found, so `ReadYourWrites` fails. -/
theorem not_readYourWrites : ¬∀ (w : World) (steps : List SummaryStep),
    (∀ place, (w.files place).summaries = []) →
    (∀ step ∈ steps, ∀ val ∈ (JsonText.codec.fromStr step.body).toOption, TellsOrOmits step.uri val) →
    ReadYourWrites JsonText.codec (history JsonText.codec w steps) := by
  intro hall
  have hbody : ∀ content, JsonText.codec.fromStr (writeHour atTen content).body
      = .ok (hourly atTen.period content) := fun content =>
    JsonText.codec.fromStr_toStr _ (exact_hourly atTen.period content)
  have htells : ∀ content, ∀ val ∈ (JsonText.codec.fromStr (writeHour atTen content).body).toOption,
      TellsOrOmits atTen val := by
    intro content val hval
    rw [hbody] at hval
    cases hval
    exact ⟨fun _ => rfl, fun _ => rfl⟩
  -- The run writes `calm` and then `busy` for one hour; a read has to show `busy`.
  have hread := hall Scanning.world overwritten (fun _ => rfl) (by
    intro step hstep
    rcases List.mem_pair.mp hstep with rfl | rfl
    · exact htells "calm"
    · exact htells "busy")
  have hlast : (history JsonText.codec Scanning.world overwritten).last atTen
      = some (hourly atTen.period "busy") := by
    have hok : ((writeHour atTen "busy").run JsonText.codec (history JsonText.codec Scanning.world
        [writeHour atTen "calm"]).world).1.isOk = true := by decide +kernel
    refine (History.last_next hok).trans ?_
    exact congrArg Except.toOption (hbody "busy")
  obtain ⟨place, row, hplace, hrow, htext, hshows⟩ := hread.period atTen _ hlast
  -- What is read is a row with `calm`.
  have hfirst : ∀ place ∈ ((history JsonText.codec Scanning.world overwritten).world.pool
      atTen.gid).1.toOption, ∀ row ∈
      ((history JsonText.codec Scanning.world overwritten).world.files place).summaries,
      (eval handler (MemoryModule.read JsonText.codec atTen.path)
        (history JsonText.codec Scanning.world overwritten).world).1.toOption
          = some (JsonText.codec.toStr (summaryRowToJson row)) →
        row.content = "calm".toList := by decide +kernel
  have hcalm := hfirst place (by rw [hplace]; rfl) row hrow (congrArg Except.toOption htext)
  have hbusy := hshows.content rfl
  rw [hcalm] at hbusy
  exact absurd hbusy (by decide)

end LogosFs.Memory
