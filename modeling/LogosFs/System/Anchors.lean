import LogosFs.System.Tasks

/-! # The anchor table

The functions of `AnchorDb`. Creating an anchor first marks the facts of every anchor that the new
facts name under `supersedes`, one statement pair for each name and whatever comes of it, and only
then inserts the row, which fails when the task already has an anchor of this minute. -/

namespace LogosFs.System

open Program (eval)

variable (json : JsonCodec)

/-- A row of `anchors` as JSON. -/
def anchorRowToJson (row : AnchorRow) : Json :=
  .ofPairs [
    ("id", .string row.id),
    ("task_id", .string row.taskId),
    ("summary", .string row.summary),
    ("facts", .string row.facts),
    ("created_at", .string row.createdAt)]

namespace AnchorDb

/-- The name of an anchor. -/
def uri (taskId anchorId : Str) : Str := "logos://system/anchors/" ++ taskId ++ "/" ++ anchorId

/-- The anchor that a URI names: the fifth and sixth of exactly six pieces, the fourth being
`anchors`. -/
def target (targetUri : Str) : Option (Str × Str) :=
  match targetUri.splitOn '/' with
  | [_, _, _, resource, taskId, anchorId] =>
    if resource = "anchors".toList then some (taskId, anchorId) else none
  | _ => none

/-- Mark a fact as superseded, if it is an object. -/
def markFact (supersededBy : Str) : Json → Json
  | .object fields => .object (Json.insert "superseded_by" (.string supersededBy)
      (Json.insert "status" (.string "superseded") fields))
  | fact => fact

/-- Mark every fact of a stored text; a text that is not an array counts as the empty one. -/
def markFacts (supersededBy facts : Str) : Str :=
  json.toStr (.array (((json.arrayFromStr facts).getD []).map (markFact supersededBy)))

/-- The URIs that a fact names under `supersedes`: one, or several in an array. -/
def supersedes (fact : Json) : List Str :=
  match fact.get? "supersedes" with
  | some (.array items) => items.filterMap Json.asStr
  | some (.string uri) => [uri]
  | _ => []

/-- The URIs that the facts of a new anchor name, in order. -/
def supersededUris (facts : Str) : List Str :=
  ((json.arrayFromStr facts).getD []).flatMap supersedes

/-- List the anchors of a task, oldest first. -/
def list (taskId : Str) : SystemM Str := do
  let rows ← listAnchors taskId
  return json.toStr (.array (rows.map anchorRowToJson))

/-- An anchor, as JSON text. -/
def get (taskId anchorId : Str) : SystemM (Option Str) := do
  let row ← selectAnchor "" taskId anchorId
  return row.map fun row => json.toStr (anchorRowToJson row)

/-- Mark the facts of the anchor that a URI names as superseded; nothing is done for an anchor that
does not exist. -/
def markSuperseded (targetUri supersededBy : Str) : SystemM Unit :=
  match target targetUri with
  | none => throw (.invalidPath ("invalid anchor URI: " ++ targetUri))
  | some (taskId, anchorId) => do
    match ← selectAnchor "read anchor for supersede: " taskId anchorId with
    | none => return
    | some row => updateAnchorFacts taskId anchorId (markFacts json supersededBy row.facts)

/-- Insert and index an anchor. -/
def insertRow (row : AnchorRow) : SystemM Str := do
  insertAnchor row
  match ← selectAnchorRowid row.taskId row.id with
  | none => throw (.sqlite ("get anchor rowid: "
      ++ "no rows returned by a query that expected to return at least one row"))
  | some rowid =>
    insertAnchorFts rowid row.facts row.summary
    return row.id

/-- Create an anchor under the current minute. -/
def create (taskId summary facts : Str) : SystemM Str := do
  let anchorId := (← utcNow).isoMinute
  let now := (← utcNow).isoSecond
  (supersededUris json facts).forM fun targetUri =>
    Program.ignoreError (markSuperseded json targetUri (uri taskId anchorId))
  insertRow { id := anchorId, taskId, summary, facts, createdAt := now }

/-! ## Running alone -/

/-- The anchors after the facts of the one that a URI names were marked. -/
def mark (supersededBy : Str) (anchors : Anchors) (targetUri : Str) : Anchors :=
  match target targetUri with
  | none => anchors
  | some (taskId, anchorId) => match anchors.find? (taskId, anchorId) with
    | none => anchors
    | some row => anchors.setFacts taskId anchorId (markFacts json supersededBy row.facts)

/-- The anchors after all those that the facts of a new anchor name were marked, in order. -/
def supersede (supersededBy facts : Str) (anchors : Anchors) : Anchors :=
  (supersededUris json facts).foldl (mark json supersededBy) anchors

section Alone

variable {json} (w : World)

/-- `mark` changes nothing but the facts of the anchor that is the `target` of the URI. -/
theorem find?_mark (supersededBy targetUri : Str) (anchors : Anchors) (key : Str × Str) :
    (mark json supersededBy anchors targetUri).find? key = (anchors.find? key).map fun row =>
      if target targetUri = some key then
        { row with facts := markFacts json supersededBy row.facts }
      else row := by
  rw [mark]
  cases htarget : target targetUri with
  | none => simp
  | some named =>
    obtain ⟨taskId, anchorId⟩ := named
    dsimp only
    cases hrow : anchors.find? (taskId, anchorId) with
    | none =>
      by_cases hkey : (taskId, anchorId) = key
      · subst hkey; simp [hrow]
      · simp [hkey]
    | some row =>
      by_cases hkey : (taskId, anchorId) = key
      · subst hkey; simp [Anchors.setFacts, hrow]
      · simp [Anchors.setFacts, Table.find?_update_ne (Ne.symm hkey), hkey]

/-- `mark` neither adds nor removes an anchor. -/
theorem find?_mark_eq_none_iff {supersededBy targetUri : Str} {anchors : Anchors}
    {key : Str × Str} :
    (mark json supersededBy anchors targetUri).find? key = none ↔ anchors.find? key = none := by
  rw [find?_mark, Option.map_eq_none_iff]

/-- `supersede` neither adds nor removes an anchor. -/
theorem find?_supersede_eq_none_iff {supersededBy facts : Str} {anchors : Anchors}
    {key : Str × Str} :
    (supersede json supersededBy facts anchors).find? key = none ↔ anchors.find? key = none := by
  rw [supersede]
  induction supersededUris json facts generalizing anchors with
  | nil => rfl
  | cons targetUri uris ih => rw [List.foldl_cons, ih, find?_mark_eq_none_iff]

/-- `supersede` keeps the keys of the anchors, in their order. -/
theorem keys_supersede (supersededBy facts : Str) (anchors : Anchors) :
    (supersede json supersededBy facts anchors).contents.map (fun row => (row.taskId, row.id))
      = anchors.contents.map fun row => (row.taskId, row.id) := by
  rw [supersede]
  induction supersededUris json facts generalizing anchors with
  | nil => rfl
  | cons targetUri uris ih =>
    rw [List.foldl_cons, ih, mark]
    cases target targetUri with
    | none => rfl
    | some named =>
      dsimp only
      cases anchors.find? (named.1, named.2) with
      | none => rfl
      | some row => exact Table.keys_update

/-- `markSuperseded`, its failure ignored, does to the anchors what `mark` does. -/
theorem eval_markSuperseded (targetUri supersededBy : Str) :
    eval handler (Program.ignoreError (markSuperseded json targetUri supersededBy)) w
      = (.ok (), w.withAnchors (mark json supersededBy w.db.anchors targetUri)) := by
  simp only [Program.eval_ignoreError, markSuperseded, mark]
  cases target targetUri with
  | none => rfl
  | some named =>
    simp only [Program.eval_bind, eval_selectAnchor, Program.evalNext_ok]
    cases hrow : w.db.anchors.find? (named.1, named.2) with
    | none => rfl
    | some row => simp only [eval_updateAnchorFacts]

/-- A fold over the anchors only touches the table of anchors: `withAnchors` of the fold is the fold
of `withAnchors`. -/
theorem foldl_withAnchors {α : Type} (f : Anchors → α → Anchors) (items : List α) (w : World) :
    items.foldl (fun w' item => w'.withAnchors (f w'.db.anchors item)) w
      = w.withAnchors (items.foldl f w.db.anchors) := by
  induction items generalizing w with
  | nil => rfl
  | cons item items ih => rw [List.foldl_cons, ih, List.foldl_cons]; rfl

/-- `create` of an anchor, after the clock was read twice: `supersede` marks the named anchors, and
then `insertRow` inserts the row. -/
theorem eval_create (taskId summary facts : Str) :
    eval handler (create json taskId summary facts) w
      = eval handler (insertRow
            ⟨(w.clock 0).isoMinute, taskId, summary, facts, (w.clock 1).isoSecond⟩)
          (w.tick.tick.withAnchors
            (supersede json (uri taskId (w.clock 0).isoMinute) facts w.db.anchors)) := by
  have hloop := Program.eval_forM handler (fun w' targetUri => w'.withAnchors
      (mark json (uri taskId (w.clock 0).isoMinute) w'.db.anchors targetUri))
    (fun targetUri w' => eval_markSuperseded w' targetUri (uri taskId (w.clock 0).isoMinute))
    (supersededUris json facts) w.tick.tick
  simp only [create, Program.eval_bind, eval_utcNow, Program.evalNext_ok, hloop,
    foldl_withAnchors]
  rfl

/-- `insertRow` fails and changes nothing where the task has an anchor of this minute already. -/
theorem eval_insertRow_of_conflict {row old : AnchorRow}
    (h : w.db.anchors.find? (row.taskId, row.id) = some old) :
    ∃ e, eval handler (insertRow row) w = (.error e, w) := by
  have hnone : w.db.anchors.insert? row = none := Table.insert?_eq_none_iff.mpr ⟨old, h⟩
  simp only [insertRow, Program.eval_bind, eval_insertAnchor, hnone, Program.evalNext_error]
  exact ⟨_, rfl⟩

/-- `insertRow` inserts and indexes an anchor whose key is free. -/
theorem eval_insertRow_of_free (row : AnchorRow)
    (h : w.db.anchors.find? (row.taskId, row.id) = none) :
    ∃ anchors w', eval handler (insertRow row) w = (.ok row.id, w') ∧
      w.db.anchors.insert? row = some anchors ∧ (w.withAnchors anchors).SameTables w' := by
  obtain ⟨anchors, hinsert⟩ := Table.exists_insert?_of_find?_none h
  obtain ⟨rowid, hrowid⟩ := Table.exists_rowid?_of_find?_some (Table.find?_insert?_self hinsert)
  obtain ⟨w', hfts, hsame⟩ := eval_insertAnchorFts (w.withAnchors anchors) rowid row.facts
    row.summary
  refine ⟨anchors, w', ?_, hinsert, hsame⟩
  simp only [insertRow, Program.eval_bind, eval_insertAnchor, hinsert, Program.evalNext_ok,
    eval_selectAnchorRowid, World.withAnchors_anchors, hrowid, hfts, Program.eval_pure]

end Alone

end AnchorDb

end LogosFs.System
