import LogosFs.Memory.Plugins

/-! # The memory module

The namespace `logos://memory/` and the tools `memory.…` of `MemoryModule`. A message that is written
is inserted, and then handed to the session store with what the same text says about it; a patch of
anything that is not a plugin's is a write. -/

namespace LogosFs.Memory

open Program (eval)
open Sessions (MsgRef)
open LogosFs.System (strField)

variable (json : JsonCodec)

namespace MemoryModule

/-- The plugins that are mounted. -/
def plugins : List MemoryPlugin := [hierarchicalPlugin json, graphPlugin json]

/-- The plugin that a resource names. -/
def pluginFor (resource : Str) : Option MemoryPlugin :=
  (plugins json).find? fun plugin => plugin.name = resource

/-- The plugins, as JSON. -/
def pluginList : List Json := (plugins json).map fun plugin =>
  .ofPairs [("name", .string plugin.name), ("docs", .string plugin.docs)]

/-- Read an integer of 64 bits: a sign that may be missing, and digits. -/
def parseI64 (text : Str) : Option Int :=
  let digits := match text with
    | '+' :: rest | '-' :: rest => rest
    | _ => text
  let magnitude : Int := Nat.ofDigitChars 10 digits 0
  let value := if text.head? = some '-' then -magnitude else magnitude
  if digits ≠ [] ∧ digits.all Char.isDigit ∧ -2 ^ 63 ≤ value ∧ value < 2 ^ 63 then some value
  else none

/-- Query a view over the messages of a chat. -/
def queryView (viewName chatId params : Str) : MemoryM Str :=
  match viewNamed json viewName with
  | none => throw (.notFound ("unknown view: " ++ viewName))
  | some view => do
    let place ← pool chatId
    view place chatId params

/-- Call a tool. -/
def handleCall (tool params : Str) : MemoryM Str := do
  let val ← parseJson json params
  let chatId := strField val "chat_id"
  if tool = "memory.search".toList then
    MessageDb.searchFts json chatId (strField val "query") ((val.get "limit").asI64.getD 10)
  else if tool = "memory.range_fetch".toList then MessageDb.rangeFetch json chatId params
  else match Str.stripPrefix "memory.view." tool with
    | some viewName => queryView json viewName chatId params
    | none => throw (.notFound ("unknown memory tool: " ++ tool))

/-- Read from the namespace. -/
def read (path : List Str) : MemoryM Str :=
  if path.head? = some "plugins".toList then return json.toStr (.array (pluginList json))
  else match path with
    | groups :: gid :: resource :: rest =>
      if groups ≠ "groups".toList then
        throw (.invalidPath "expected logos://memory/groups/\x7bgid\x7d/...")
      else if resource = "messages".toList then match rest with
        | [] =>
          throw (.invalidPath "expected logos://memory/groups/\x7bgid\x7d/messages/\x7bmsg_id\x7d")
        | msgIdStr :: _ => match parseI64 msgIdStr with
          | none => throw (.invalidPath ("invalid msg_id: " ++ msgIdStr))
          | some msgId => do
            let found ← MessageDb.getById json gid msgId
            return found.getD "null"
      else if resource = "views".toList then match rest with
        | [] => throw (.invalidPath "missing view name")
        | viewName :: params => queryView json viewName gid (params.head?.getD "\x7b\x7d")
      else match pluginFor json resource with
        | some plugin => do
          let place ← pool gid
          plugin.read place gid rest
        | none => throw (.invalidPath ("unknown memory resource: " ++ resource))
    | _ => throw (.invalidPath "expected logos://memory/groups/\x7bgid\x7d/...")

/-- What the session store is handed of a message. -/
def msgRef (val : Json) (gid : Str) (msgId : Int) : MsgRef where
  msgId := msgId
  chatId := gid
  replyTo := (val.get "reply_to").asI64
  text := strField val "text"
  speaker := strField val "speaker"
  ts := strField val "ts"

/-- Write a message: insert it, and hand it to the session store. -/
def writeMessage (gid content : Str) : MemoryM Unit := do
  let msgId ← MessageDb.insert json gid content
  match json.fromStr content with
  | .ok val => observe (msgRef val gid msgId)
  | .error _ => return

/-- Write to the namespace. -/
def write (path : List Str) (content : Str) : MemoryM Unit :=
  match path with
  | groups :: gid :: resource :: rest =>
    if groups ≠ "groups".toList then
      throw (.invalidPath "expected logos://memory/groups/\x7bgid\x7d/...")
    else if resource = "messages".toList then writeMessage json gid content
    else match pluginFor json resource with
      | some plugin => do
        let place ← pool gid
        plugin.write place gid rest content
      | none => throw (.invalidPath ("unknown memory resource for write: " ++ resource))
  | _ => throw (.invalidPath "expected logos://memory/groups/\x7bgid\x7d/...")

/-- Patch the namespace. -/
def patch (path : List Str) (partialText : Str) : MemoryM Unit :=
  match path with
  | groups :: gid :: resource :: rest =>
    if groups ≠ "groups".toList then
      throw (.invalidPath "expected logos://memory/groups/\x7bgid\x7d/...")
    else match pluginFor json resource with
      | some plugin => do
        let place ← pool gid
        plugin.patch place gid rest partialText
      -- messages are append-only: a patch is a write
      | none => write json path partialText
  | _ => throw (.invalidPath "expected logos://memory/groups/\x7bgid\x7d/...")

example : parseI64 "-17" = some (-17) := by decide

end MemoryModule

end LogosFs.Memory
