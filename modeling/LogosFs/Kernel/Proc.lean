import LogosFs.Kernel.Stores
import LogosFs.Kernel.Token
import LogosFs.System.Module

/-! # Tools and their calls

A tool is called with a text of parameters, directly or through a slot: writing the parameters to
`logos://proc/{tool}/{call}/input` runs the tool and keeps its result in the slot until the output is
read, or five minutes have passed. The tools of the system module read their parameters from JSON and
take a default for each one that is missing. -/

namespace LogosFs.Kernel

open LogosFs.System (World Sql SystemM SystemOp CompleteParams)

/-! ## What the kernel works on -/

/-- The slot of a call. -/
structure CallSlot where
  /-- The tool. -/
  toolName : Str
  /-- The parameters. -/
  input : Str
  /-- The result of a call that succeeded. -/
  output : Option Str
  /-- The error of a call that failed. -/
  error : Option Str
  /-- The time the slot was made. -/
  createdAt : Instant
deriving DecidableEq, Repr

/-- The life span of a slot: five minutes. -/
def slotTtl : Nat := 300 * 10 ^ 9

/-- An atomic operation on the slots. -/
inductive SlotOp where
  /-- Keep the result of a call, and drop the slots that are too old. -/
  | record (key toolName input : Str) (result : Except VfsError Str)
  /-- Look a slot up. -/
  | get (key : Str)
  /-- Look a slot up, and remove it if it has an output. -/
  | take (key : Str)

/-- The operations on the slots, and what they answer. -/
abbrev SlotSig : Signature where
  Op := SlotOp
  Res
    | .record .. => Unit
    | _ => Option CallSlot

/-- The slots, and the times the clock will show. -/
structure CallSlots where
  /-- The slots, by tool and call. -/
  slots : Str → Option CallSlot
  /-- The times the clock will show, reading by reading. -/
  clock : Nat → Instant

namespace CallSlots

/-- A slot with the result of a call. -/
def withResult (slot : CallSlot) (input : Str) (result : Except VfsError Str) : CallSlot :=
  match result with
  | .ok output => { slot with input := input, output := some output, error := none }
  | .error e => { slot with input := input, output := none, error := some e.toStr }

/-- What an operation on the slots does. -/
def handler : Handler SlotSig CallSlots
  | .record key toolName input result, s =>
    let slot := (s.slots key).getD ⟨toolName, input, none, none, s.clock 0⟩
    let slots := Function.update s.slots key (some (withResult slot input result))
    ((), {
      slots := fun key => (slots key).filter fun slot => s.clock 1 < slot.createdAt + slotTtl
      clock := fun n => s.clock (n + 2) })
  | .get key, s => (s.slots key, s)
  | .take key, s =>
    (s.slots key, { s with
      slots := Function.update s.slots key ((s.slots key).filter fun slot => slot.output.isNone) })

end CallSlots

/-- A request to a part of the kernel that has neither the system database nor files of the four
stores: to the namespaces `memory`, `tmp`, `services` and `devices`, or to the tools of the memory,
of the web and of the proc store. -/
inductive Elsewhere where
  /-- An operation on a namespace. -/
  | namespace (name : Str) (path : List Str) (op : Operation)
  /-- A call of a tool. -/
  | tool (name params : Str)

/-- The operations outside the system database and the slots, and what they answer. -/
abbrev OutsideSig : Signature where
  Op := FsOp ⊕ Elsewhere
  Res
    | .inl op => FsSig.Res op
    | .inr _ => Except VfsError Str

/-- An operation of the kernel. -/
inductive KernelOp where
  /-- On the system database. -/
  | system (op : SystemOp)
  /-- On the slots. -/
  | slots (op : SlotOp)
  /-- On anything else. -/
  | outside (op : FsOp ⊕ Elsewhere)

/-- The operations of the kernel, and what they answer. -/
abbrev KernelSig : Signature where
  Op := KernelOp
  Res
    | .system op => Sql.Res op
    | .slots op => SlotSig.Res op
    | .outside op => OutsideSig.Res op

/-- A program of the kernel that may fail. -/
abbrev KernelM (α : Type) : Type := ExceptT VfsError (Program KernelSig) α

/-- A program of the system module, in the kernel. -/
def onSystem {ε α : Type} (p : ExceptT ε (Program Sql) α) : ExceptT ε (Program KernelSig) α :=
  ExceptT.mk (p.run.hoist fun op => Program.perform (S := KernelSig) (.system op))

/-- A program over the file system, in the kernel. -/
def onFiles {α : Type} (p : FsM α) : KernelM α :=
  ExceptT.mk (p.run.hoist fun op => Program.perform (S := KernelSig) (.outside (.inl op)))

/-- Perform an operation on the slots. -/
def onSlots (op : SlotOp) : KernelM (SlotSig.Res op) :=
  liftM (Program.perform (S := KernelSig) (.slots op))

/-- Ask a part of the kernel that is elsewhere. -/
def onElsewhere (request : Elsewhere) : KernelM Str :=
  Program.attempt (Program.perform (S := KernelSig) (.outside (.inr request)))

/-- The state of the kernel. -/
structure KernelState (σ : Type) where
  /-- The system database, with its surroundings. -/
  world : World
  /-- The slots. -/
  slots : CallSlots
  /-- Everything else. -/
  outside : σ

/-- What an operation of the kernel does, given what happens outside. -/
def kernelHandler {σ : Type} (outside : Handler OutsideSig σ) : Handler KernelSig (KernelState σ)
  | .system op, k =>
    ((System.handler op k.world).1, { k with world := (System.handler op k.world).2 })
  | .slots op, k =>
    ((CallSlots.handler op k.slots).1, { k with slots := (CallSlots.handler op k.slots).2 })
  | .outside op, k => ((outside op k.outside).1, { k with outside := (outside op k.outside).2 })

/-! ## Tools -/

variable (json : JsonCodec)

/-- What a tool does when it is called. -/
inductive ToolBody where
  /-- `system.search_tasks` -/
  | searchTasks
  /-- `system.complete` -/
  | complete
  /-- Any other tool. -/
  | elsewhere
deriving DecidableEq, Repr

/-- A registered tool. -/
structure Tool where
  /-- Its name. -/
  name : Str
  /-- Its description. -/
  schema : Json
  /-- What it does. -/
  body : ToolBody

/-- A text parameter, or the empty text. -/
def strParam (val : Json) (key : Str) : Str := (val.get key).asStr.getD []

/-- Parse the parameters of a call, or fail with the parser's message. -/
def parseParams (params : Str) : KernelM Json :=
  match json.fromStr params with
  | .ok val => pure val
  | .error e => throw (.invalidJson e)

namespace SystemSearchTasksTool

/-- Search anchors and tasks. -/
def call (params : Str) : KernelM Str := do
  let val ← parseParams json params
  let query := strParam val "query"
  let limit := (val.get "limit").asI64.getD 10
  onSystem (System.SystemModule.searchTasks json query limit)

end SystemSearchTasksTool

namespace SystemCompleteTool

/-- The parameters of `logos_complete`, from JSON. -/
def completeParams (val : Json) : CompleteParams where
  taskId := strParam val "task_id"
  summary := strParam val "summary"
  reply := strParam val "reply"
  anchor := (val.get "anchor").asBool.getD false
  anchorFacts := (val.get "anchor_facts").asStr.getD "[]"
  taskLog := strParam val "task_log"
  sleepReason := strParam val "sleep_reason"
  sleepRetry := (val.get "sleep_retry").asBool.getD false
  resumeTaskId := strParam val "resume"
  planTodo := (((val.get "plan").get "todo").asArray.getD []).filterMap Json.asStr

/-- Complete a turn, and keep its log in the sandbox of the task; a failure of the latter is only
reported. -/
def call (sandbox : SandboxNs) (params : Str) : KernelM Str := do
  let val ← parseParams json params
  let result ← onSystem (System.SystemModule.complete json (completeParams val))
  if result.taskLog ≠ [] ∧ result.taskId ≠ [] then
    Program.ignoreError (onFiles (sandbox.write [result.taskId ++ "/log"] result.taskLog))
  return json.toStr (.ofPairs [
    ("reply", .string result.reply),
    ("anchor_id", .string result.anchorId),
    ("task_id", .string result.taskId)])

end SystemCompleteTool

/-- Call a tool. -/
def Tool.call (sandbox : SandboxNs) (tool : Tool) (params : Str) : KernelM Str :=
  match tool.body with
  | .searchTasks => SystemSearchTasksTool.call json params
  | .complete => SystemCompleteTool.call json sandbox params
  | .elsewhere => onElsewhere (.tool tool.name params)

/-! ## The namespace `proc` -/

/-- The registered tools, in the order in which the map lists them, and the sandbox they write to. -/
structure ProcNs where
  /-- The tools. -/
  tools : List Tool
  /-- The sandbox. -/
  sandbox : SandboxNs

namespace ProcNs

variable (ns : ProcNs)

/-- The tool of a name. -/
def tool? (name : Str) : Option Tool := ns.tools.find? fun tool => tool.name = name

/-- Call the tool of a name. -/
def call (toolName params : Str) : KernelM Str :=
  match ns.tool? toolName with
  | none => throw (.notFound ("unknown proc tool: " ++ toolName))
  | some tool => tool.call json ns.sandbox params

/-- The key of a slot. -/
def slotKey (toolName callId : Str) : Str := toolName ++ "/" ++ callId

/-- Call the tool of a name, and keep the outcome in a slot. -/
def executeCall (toolName callId input : Str) : KernelM Unit :=
  match ns.tool? toolName with
  | none => throw (.notFound ("unknown proc tool: " ++ toolName))
  | some tool => do
    let result ← Program.outcome (tool.call json ns.sandbox input)
    onSlots (.record (slotKey toolName callId) toolName input result)

/-- The description of the tool of a name. -/
def schema (toolName : Str) : KernelM Str :=
  match ns.tool? toolName with
  | none => throw (.notFound ("unknown tool: " ++ toolName))
  | some tool => return json.toStr tool.schema

/-- The slot that was found under a key. -/
def found (key : Str) (slot : Option CallSlot) : KernelM CallSlot :=
  match slot with
  | none => throw (.notFound ("call not found: " ++ key))
  | some slot => return slot

/-- Read what a slot holds. -/
def readSlot (key field : Str) : KernelM Str := do
  if field = "output".toList then
    let slot ← found key (← onSlots (.take key))
    match slot.output with
    | some output => return output
    | none => throw (.notFound ("call " ++ key ++ ": no output yet"))
  else
    let slot ← found key (← onSlots (.get key))
    if field = "error".toList then return slot.error.getD "null"
    else return slot.input

/-- Read the names of the tools, the description of one, or a slot. -/
def read (path : List Str) : KernelM Str :=
  let unexpected : KernelM Str := throw (.invalidPath ("unexpected proc path: " ++ Str.join path))
  match path with
  | [] => return json.toStr (.strings (ns.tools.map Tool.name))
  | [toolName] => ns.schema json toolName
  | [toolName, second] =>
    if second = ".schema".toList then ns.schema json toolName else unexpected
  | [toolName, callId, field] =>
    if field = "output".toList ∨ field = "error".toList ∨ field = "input".toList then
      readSlot (slotKey toolName callId) field
    else unexpected
  | _ => unexpected

/-- Write the parameters of a call: the tool is called. -/
def write (path : List Str) (content : Str) : KernelM Unit :=
  let unsupported : KernelM Unit :=
    throw (.invalidPath ("proc write only supports .../\x7bcall_id\x7d/input: " ++ Str.join path))
  match path with
  | [toolName, callId, field] =>
    if field = "input".toList then ns.executeCall json toolName callId content else unsupported
  | _ => unsupported

/-- There is nothing to patch. -/
def patch (path : List Str) (_partialText : Str) : KernelM Unit :=
  throw (.invalidPath ("proc does not support patch: " ++ Str.join path))

end ProcNs

end LogosFs.Kernel
