import LogosFs.Memory.Messages

/-! # Plugins and views

Beside the archive, the memory module has plugins, with tables of their own in the database of a
group, and views, which are queries over the messages. The plugin `summary` keeps summaries in an
insert-only table: what it stores is taken from the body of a write, not from its path. The plugin
`graph` keeps triples. -/

namespace LogosFs.Memory

open Program (eval)
open LogosFs.System (DateTime strField)

/-! ## Summaries -/

/-- `INSERT` a summary. -/
def insertSummary (place : Place) (row : Int → SummaryRow) : MemoryM Unit :=
  send "insert summary: " place (.insertSummary row)

/-- `SELECT` a summary. -/
def selectSummary (place : Place) (chatId layer : Str) (query : SummaryQuery) :
    MemoryM (Option SummaryRow) :=
  send "" place (.selectSummary chatId layer query)

/-- A summary as JSON. -/
def summaryRowToJson (row : SummaryRow) : Json := .ofPairs [
  ("id", .number (.int row.id)), ("chat_id", .string row.chatId), ("layer", .string row.layer),
  ("period_start", .string row.periodStart), ("period_end", .string row.periodEnd),
  ("source_refs", .string row.sourceRefs), ("content", .string row.content),
  ("generated_at", .string row.generatedAt)]

/-- A plugin: a name, which is its piece of the path, its documentation, and what it does to the
database of a group, for what follows its name in a path. -/
structure MemoryPlugin where
  /-- The name. -/
  name : Str
  /-- The documentation. -/
  docs : Str
  /-- Read. -/
  read : (place : Place) → (chatId : Str) → (path : List Str) → MemoryM Str
  /-- Write. -/
  write : (place : Place) → (chatId : Str) → (path : List Str) → (content : Str) → MemoryM Unit
  /-- Patch. -/
  patch : (place : Place) → (chatId : Str) → (path : List Str) → (partialText : Str) → MemoryM Unit

variable (json : JsonCodec)

namespace SummaryDb

/-- The row of a summary, for the id that it gets. -/
def newRow (val : Json) (chatId : Str) (now : DateTime) (id : Int) : SummaryRow where
  id := id
  chatId := chatId
  layer := strField val "layer"
  periodStart := strField val "period_start"
  periodEnd := (val.get "period_end").asStr.getD (strField val "period_start")
  sourceRefs := (val.get "source_refs").asStr.getD (json.toStr (val.get "source_refs"))
  content := strField val "content"
  generatedAt := now.isoSecond

/-- Insert a summary. -/
def write (place : Place) (chatId content : Str) : MemoryM Unit := do
  let val ← parseJson json content
  let now ← utcNow
  insertSummary place (newRow json val chatId now)

/-- The query for a layer and a period. -/
def query (layer periodKey : Str) : SummaryQuery :=
  if periodKey = "latest".toList then .latest
  else if layer = "long".toList then .like (Like.startingWith periodKey)
  else .at periodKey

/-- A summary by layer and period. -/
def read (place : Place) (chatId layer periodKey : Str) : MemoryM (Option Str) := do
  let row ← selectSummary place chatId layer (query layer periodKey)
  return row.map fun row => json.toStr (summaryRowToJson row)

end SummaryDb

namespace HierarchicalPlugin

/-- Read a summary: the path is a layer and a period, which is `latest` if it is missing. -/
def read (place : Place) (chatId : Str) (path : List Str) : MemoryM Str :=
  match path with
  | [] => throw (.invalidPath "missing layer")
  | layer :: rest => do
    let found ← SummaryDb.read json place chatId layer (rest.head?.getD "latest")
    return found.getD "null"

/-- Write a summary; the path does not count. -/
def write (place : Place) (chatId : Str) (_path : List Str) (content : Str) : MemoryM Unit :=
  SummaryDb.write json place chatId content

/-- Merge into the summary that is there and write the result. -/
def patch (place : Place) (chatId : Str) (path : List Str) (partialText : Str) : MemoryM Unit := do
  let existing ← read json place chatId path
  match json.fromStr existing, json.fromStr partialText with
  | .ok base, .ok patch => write json place chatId path (json.toStr (Json.deepMerge base patch))
  | _, _ => write json place chatId path partialText

end HierarchicalPlugin

/-- The plugin of the summaries. -/
def hierarchicalPlugin : MemoryPlugin where
  name := "summary"
  docs := "summary/ : Hierarchical summary tree. Navigate by time.\n" ++
    "- summary/short/latest : most recent hourly summary\n" ++
    "- summary/short/\x7bdate\x7dT\x7bhour\x7d : specific hour\n" ++
    "- summary/mid/\x7bdate\x7d : daily summary\n" ++
    "- summary/long/\x7byear-month\x7d : monthly summary\n" ++
    "Each node has source_refs pointing to the layer below for drill-down."
  read := HierarchicalPlugin.read json
  write := HierarchicalPlugin.write json
  patch := HierarchicalPlugin.patch json

/-! ## Triples -/

/-- `INSERT OR REPLACE` a triple. -/
def replaceTriple (place : Place) (row : TripleRow) : MemoryM Unit :=
  send "write triple: " place (.replaceTriple row)

/-- `SELECT` the subjects. -/
def listSubjects (place : Place) : MemoryM (List Str) := send "" place .listSubjects

/-- `SELECT` the triples of a subject. -/
def selectTriples (place : Place) (subject : Str) : MemoryM (List TripleRow) :=
  send "" place (.selectTriples subject)

/-- A triple as JSON. -/
def tripleRowToJson (row : TripleRow) : Json := .ofPairs [
  ("subject", .string row.subject), ("predicate", .string row.predicate),
  ("object", .string row.object), ("source_refs", .string row.sourceRefs),
  ("updated_at", .string row.updatedAt)]

namespace GraphPlugin

/-- The subjects, or the triples of one. -/
def read (place : Place) (_chatId : Str) (path : List Str) : MemoryM Str :=
  match path with
  | [] => do
    let subjects ← listSubjects place
    return json.toStr (.strings subjects)
  | subject :: _ => do
    let rows ← selectTriples place subject
    if rows.isEmpty then throw (.notFound ("no triples for subject: " ++ subject))
    else return json.toStr (.array (rows.map tripleRowToJson))

/-- The row of a triple. -/
def newRow (triple : Json) (subject : Str) (now : DateTime) : TripleRow where
  subject := subject
  predicate := strField triple "predicate"
  object := strField triple "object"
  sourceRefs := json.toStr (triple.get "source_refs")
  updatedAt := now.isoSecond

/-- Write a triple, or an array of triples; those without a predicate or an object are left out. -/
def write (place : Place) (_chatId : Str) (path : List Str) (content : Str) : MemoryM Unit :=
  match path with
  | [] => throw (.invalidPath "graph write requires subject")
  | subject :: _ => do
    let now ← utcNow
    let val ← parseJson json content
    (val.asArray.getD [val]).forM fun triple =>
      if strField triple "predicate" = [] ∨ strField triple "object" = [] then pure ()
      else replaceTriple place (newRow json triple subject now)

/-- A patch is a write. -/
def patch (place : Place) (chatId : Str) (path : List Str) (partialText : Str) : MemoryM Unit :=
  write json place chatId path partialText

end GraphPlugin

/-- The plugin of the triples. -/
def graphPlugin : MemoryPlugin where
  name := "graph"
  docs := "graph/ : Knowledge graph. Navigate by subject.\n" ++
    "- graph/ : list all unique subjects\n" ++
    "- graph/\x7bsubject\x7d : all triples where subject matches\n" ++
    "Triples are (subject, predicate, object) — no fixed schema.\n" ++
    "Write: logos_write(\"graph/\x7bsubject\x7d\", [\x7b\"predicate\":\"...\",\"object\":\"...\"\x7d])"
  read := GraphPlugin.read json
  write := GraphPlugin.write json
  patch := GraphPlugin.patch json

/-! ## Views -/

/-- A message as a view shows it. -/
def viewRowToJson (row : MessageRow) : Json := .ofPairs [
  ("msg_id", .number (.int row.msgId)), ("ts", .string row.ts), ("speaker", .string row.speaker),
  ("text", .string row.text), ("reply_to", row.replyTo.elim .null fun id => .number (.int id))]

/-- The last messages of a speaker. -/
def bySpeakerView (place : Place) (chatId params : Str) : MemoryM Str := do
  let val ← parseJson json params
  let rows ← recentMessages place chatId (some (strField val "speaker"))
    (clamp 200 ((val.get "limit").asI64.getD 20))
  return json.toStr (.array (rows.map viewRowToJson))

/-- The last messages. -/
def recentView (place : Place) (chatId params : Str) : MemoryM Str := do
  let val := (json.fromStr params).toOption.getD (.object [])
  let rows ← recentMessages place chatId none (clamp 200 ((val.get "limit").asI64.getD 20))
  return json.toStr (.array (rows.map viewRowToJson))

/-- The view of a name. -/
def viewNamed (name : Str) : Option (Place → Str → Str → MemoryM Str) :=
  if name = "by_speaker".toList then some (bySpeakerView json)
  else if name = "recent".toList then some (recentView json)
  else none

end LogosFs.Memory
