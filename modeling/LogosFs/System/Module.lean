import LogosFs.System.Complete

/-! # The system module

The operations of `SystemModule`, and the namespace `logos://system/` in front of them. A write
creates a task or replaces a description; a patch of a task merges JSON into what reading it shows
and then only stores the description. -/

namespace LogosFs.System

variable (json : JsonCodec)

namespace Search

/-- A phrase for the full-text engine: the query between quotes, with its own quotes doubled. -/
def phrase (query : Str) : Str :=
  ['\x22'] ++ query.flatMap (fun c => if c = '\x22' then ['\x22', '\x22'] else [c]) ++ ['\x22']

/-- An anchor found by a search, as JSON. -/
def anchorHit (row : AnchorRow) : Json :=
  .ofPairs [("task_id", .string row.taskId), ("anchor_id", .string row.id),
    ("summary", .string row.summary), ("facts", .string row.facts),
    ("created_at", .string row.createdAt)]

/-- A task found by a search, as JSON. -/
def taskHit (row : TaskRow) : Json :=
  .ofPairs [("task_id", .string row.taskId), ("description", .string row.description),
    ("status", .string row.status.text), ("created_at", .string row.createdAt)]

/-- Search anchors and tasks; the limit is brought into the range from 1 to 50. -/
def searchTasks (query : Str) (limit : Int) : SystemM Str := do
  let limit := (max 1 (min limit 50)).toNat
  let anchors ← searchAnchors (phrase query) limit
  let tasks ← System.searchTasks (phrase query) limit
  return json.toStr (.ofPairs [("l1_hits", .array (anchors.map anchorHit)),
    ("l2_hits", .array (tasks.map taskHit))])

end Search

namespace SystemModule

/-- A task by its id, as JSON text. -/
def getTask (taskId : Str) : SystemM (Option Str) := TaskDb.get json taskId

/-- Create a task from its JSON text. -/
def createTask (content : Str) : SystemM Unit := TaskDb.create json content

/-- Move a task to a new status. -/
def transitionTask (taskId newStatus : Str) : SystemM Unit :=
  TaskDb.transitionStatus taskId newStatus

/-- Search anchors and tasks. -/
def searchTasks (query : Str) (limit : Int) : SystemM Str := Search.searchTasks json query limit

/-- The sleeping tasks whose plan is not empty. -/
def listPlanPending : SystemM (List (Str × Str)) := TaskDb.listPlanPending

/-- Take the first item off a task's plan. -/
def popPlanHead (taskId : Str) : SystemM (Option Str) := TaskDb.popPlanHead json taskId

/-- Whether a planner has executors that are active. -/
def hasActiveExecutor (plannerId : Str) : SystemM Bool := do
  let count ← countActiveExecutors plannerId
  return 0 < count

/-- Complete a turn. -/
def complete (params : CompleteParams) : SystemM CompleteResult := Complete.execute json params

/-- Read from the namespace. -/
def read (path : List Str) : SystemM Str :=
  match path with
  | [] => throw (.invalidPath "empty system path")
  | resource :: rest =>
    if resource = "tasks".toList then match rest with
      | taskId :: _ => do return (← TaskDb.get json taskId).getD "null"
      | [] => TaskDb.list json none none
    else if resource = "anchors".toList then match rest with
      | [] => throw (.invalidPath "missing task_id")
      | [taskId] => AnchorDb.list json taskId
      | taskId :: anchorId :: _ => do return (← AnchorDb.get json taskId anchorId).getD "null"
    else throw (.invalidPath ("unknown system resource: " ++ resource))

/-- Write to the namespace. -/
def write (path : List Str) (content : Str) : SystemM Unit :=
  match path with
  | [] => throw (.invalidPath "empty system path")
  | resource :: rest =>
    if resource = "tasks".toList then match rest with
      | taskId :: field :: _ =>
        if field = "description".toList then TaskDb.updateDescription taskId content
        else TaskDb.create json content
      | _ => TaskDb.create json content
    else throw (.invalidPath ("system write not supported for: " ++ resource))

/-- Store the description of a task that a patch leads to, if it is a text. -/
def applyPatch (taskId : Str) (merged : Json) : SystemM Unit :=
  match (merged.get "description").asStr with
  | some description => TaskDb.updateDescription taskId description
  | none => return

/-- Patch the namespace. -/
def patch (path : List Str) (partialText : Str) : SystemM Unit :=
  match path with
  | [resource, taskId] =>
    if resource = "tasks".toList then do
      let existing ← read json path
      match json.fromStr existing, json.fromStr partialText with
      | .ok base, .ok patch => applyPatch taskId (Json.deepMerge base patch)
      | _, _ => write json path partialText
    else write json path partialText
  | _ => write json path partialText

end SystemModule

end LogosFs.System
