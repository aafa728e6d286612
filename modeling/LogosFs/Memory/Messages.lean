import LogosFs.Memory.Sqlite
import LogosFs.System.Module

/-! # The archive of messages

`MessageDb` keeps the messages of each group in its database: a message is inserted into the table
and, in a statement of its own, into the full-text index, under the id that it got in the table. The
queries do not look at the column `chat_id`. -/

namespace LogosFs.Memory

open Program (eval)
open LogosFs.System (DateTime strField)

variable (json : JsonCodec)

/-- Get or make the pool of a chat. -/
def pool (chatId : Str) : MemoryM Place :=
  Program.attempt (Program.perform (S := MemorySig) (.pool chatId))

/-- `INSERT` a message: the id it got. -/
def insertMessage (place : Place) (msgId : Option Int) (row : Int → MessageRow) : MemoryM Int :=
  send "insert: " place (.insertMessage msgId row)

/-- `INSERT` a text into the full-text index. -/
def insertMessageFts (place : Place) (rowid : Int) (text : Str) : MemoryM Unit :=
  send "fts sync: " place (.insertMessageFts rowid text)

/-- `SELECT` a message. -/
def selectMessage (place : Place) (msgId : Int) : MemoryM (Option MessageRow) :=
  send "" place (.selectMessage msgId)

/-- `SELECT` the messages that match a phrase. -/
def matchMessages (place : Place) (phrase : Str) (limit : Nat) : MemoryM (List MessageRow) :=
  send "" place (.matchMessages phrase limit)

/-- `SELECT` the messages in ranges of ids. -/
def rangeMessages (place : Place) (ranges : List (Int × Int)) (limit offset : Nat) :
    MemoryM (List MessageRow) :=
  send "" place (.rangeMessages ranges limit offset)

/-- `SELECT` the last messages of a chat, and of a speaker where one is given. -/
def recentMessages (place : Place) (chatId : Str) (speaker : Option Str) (limit : Nat) :
    MemoryM (List MessageRow) :=
  send "" place (.recentMessages chatId speaker limit)

/-- An integer brought into the range from 1 to a bound. -/
def clamp (bound limit : Int) : Nat := (max 1 (min limit bound)).toNat

/-- A message as JSON. -/
def msgRowToJson (row : MessageRow) : Json := .ofPairs [
  ("msg_id", .number (.int row.msgId)), ("ts", .string row.ts), ("chat_id", .string row.chatId),
  ("speaker", .string row.speaker), ("reply_to", row.replyTo.elim .null fun id => .number (.int id)),
  ("text", .string row.text), ("mentions", .string row.mentions)]

namespace MessageDb

/-- The most messages that a range fetch answers with. -/
def rangeFetchMaxLimit : Int := 200

/-- The most messages that a search answers with. -/
def ftsMaxLimit : Int := 50

/-- The id that a message comes with. -/
def userMsgId (val : Json) : Option Int := (val.get "msg_id").asI64

/-- The row of a message, for the id that it gets. -/
def newRow (val : Json) (chatId : Str) (now : DateTime) (id : Int) : MessageRow where
  msgId := id
  ts := (val.get "ts").asStr.getD now.isoSecond
  chatId := chatId
  speaker := strField val "speaker"
  replyTo := (val.get "reply_to").asI64
  text := strField val "text"
  mentions := (val.get "mentions").asArray.elim "[]" fun items => json.toStr (.array items)

/-- Insert a message, and index it: its id. -/
def insert (chatId content : Str) : MemoryM Int := do
  let val ← parseJson json content
  let place ← pool chatId
  let now ← utcNow
  let lastInsertRowid ← insertMessage place (userMsgId val) (newRow json val chatId now)
  let msgId := (userMsgId val).getD lastInsertRowid
  insertMessageFts place msgId (strField val "text")
  return msgId

/-- A message by its id. -/
def getById (chatId : Str) (msgId : Int) : MemoryM (Option Str) := do
  let place ← pool chatId
  let row ← selectMessage place msgId
  return row.map fun row => json.toStr (msgRowToJson row)

/-- The messages that match a query, taken as a phrase. -/
def searchFts (chatId query : Str) (limit : Int) : MemoryM Str := do
  let place ← pool chatId
  let rows ← matchMessages place (System.Search.phrase query) (clamp ftsMaxLimit limit)
  return json.toStr (.array (rows.map msgRowToJson))

/-- The ranges of a request: its members that are arrays of at least two integers. -/
def rangesOf (val : Json) : List (Int × Int) :=
  ((val.get "ranges").asArray.getD []).filterMap fun item => do
    let items ← item.asArray
    let first ← (← items[0]?).asI64
    let second ← (← items[1]?).asI64
    return (first, second)

/-- The messages in ranges of ids. -/
def rangeFetch (chatId params : Str) : MemoryM Str := do
  let val ← parseJson json params
  let ranges := rangesOf val
  if ranges.isEmpty then return "[]"
  else
    let limit := clamp rangeFetchMaxLimit ((val.get "limit").asI64.getD 50)
    let offset := (max 0 ((val.get "offset").asI64.getD 0)).toNat
    let place ← pool chatId
    let rows ← rangeMessages place ranges limit offset
    return json.toStr (.array (rows.map msgRowToJson))

end MessageDb

end LogosFs.Memory
