import LogosFs.Kernel.ExecOutput
import LogosFs.Kernel.WebSearch
import LogosFs.Lib.Json
import LogosFs.Lib.Program

/-! # The MCP adapter

A process of its own that reads JSON-RPC requests from its standard input, a line each, calls the
kernel, and writes a response for each on a line of its standard output. A line that is no request is
answered with an error without an id.

A request is read off the document of the line, in which the members of an object are as they are
written: a member that comes twice, or a value that cannot be held, is refused. -/

namespace LogosFs.Mcp

open Kernel (ExecResult trim)

/-! ## Requests -/

/-- A JSON text as it is written. -/
inductive JsonDoc where
  /-- An object: its members in order. -/
  | object (members : List (Str × JsonDoc))
  /-- An array. -/
  | array (items : List JsonDoc)
  /-- A string, by what is between its quotation marks. -/
  | string (literal : Str)
  /-- Anything else. -/
  | other (text : Str)

/-- The libraries that read and print JSON. -/
structure JsonLibrary where
  /-- The codec of values. -/
  json : JsonCodec
  /-- The document of a text, if this is JSON. -/
  read : Str → Option JsonDoc
  /-- The text of a string, unless an escape in it is no character. -/
  text : Str → Option Str
  /-- The value of a document, unless it cannot be held: a number that is too large, an escape that is
  no character, or objects and arrays that are nested too deeply. -/
  value : JsonDoc → Option Json
  /-- Why a line is not a request. -/
  error : Str → Str

/-- A JSON-RPC request. -/
structure JsonRpcRequest where
  /-- The version. -/
  jsonrpc : Str
  /-- The id. -/
  id : Json
  /-- The method. -/
  method : Str
  /-- The parameters; `null` if there are none. -/
  params : Json

/-- An error of JSON-RPC. -/
structure JsonRpcError where
  /-- The code. -/
  code : Int
  /-- The message. -/
  message : Str

/-- A JSON-RPC response. -/
structure JsonRpcResponse where
  /-- The version. -/
  jsonrpc : Str
  /-- The id. -/
  id : Json
  /-- The result, if there is one. -/
  result : Option Json
  /-- The error, if there is one. -/
  error : Option JsonRpcError

variable (lib : JsonLibrary)

/-- The members of a name. -/
def membersOf (name : Str) (members : List (Str × JsonDoc)) : List JsonDoc :=
  (members.filter fun member => member.1 = name).map Prod.snd

namespace JsonRpcRequest

/-- The text of a document that is a string. -/
def str : JsonDoc → Option Str
  | .string literal => lib.text literal
  | _ => none

/-- The value of the parameters, which may be missing. -/
def paramsOf : List JsonDoc → Option Json
  | [] => some .null
  | [params] => lib.value params
  | _ => none

/-- Read the fields of a request. -/
def ofFields (jsonrpc id method : JsonDoc) (params : List JsonDoc) : Option JsonRpcRequest := do
  return ⟨← str lib jsonrpc, ← lib.value id, ← str lib method, ← paramsOf lib params⟩

/-- Read a request: an object without repeated members, or an array of the fields. -/
def ofDoc : JsonDoc → Option JsonRpcRequest
  | .object members =>
    match membersOf "jsonrpc" members, membersOf "id" members, membersOf "method" members with
    | [jsonrpc], [id], [method] => ofFields lib jsonrpc id method (membersOf "params" members)
    | _, _, _ => none
  | .array (jsonrpc :: id :: method :: params) => ofFields lib jsonrpc id method params
  | _ => none

/-- Read a line as a request. -/
def fromStr (line : Str) : Except Str JsonRpcRequest :=
  match (lib.read line).bind (ofDoc lib) with
  | some request => .ok request
  | none => .error (lib.error line)

end JsonRpcRequest

namespace JsonRpcResponse

/-- A response with a result. -/
def ofResult (id result : Json) : JsonRpcResponse := ⟨"2.0", id, some result, none⟩

/-- A response with an error. -/
def ofError (id : Json) (code : Int) (message : Str) : JsonRpcResponse :=
  ⟨"2.0", id, none, some ⟨code, message⟩⟩

end JsonRpcResponse

/-! ## Tools -/

/-- A tool that the kernel has. -/
structure ProcToolDef where
  /-- Its name. -/
  name : Str
  /-- What it does. -/
  description : Str
  /-- The schema of its parameters. -/
  inputSchema : Json

/-- A property of a tool's input: its name, its type and its description. -/
structure ToolProperty where
  /-- The name. -/
  name : Str
  /-- The type. -/
  type : Str
  /-- The description. -/
  description : Str

/-- The definition of a tool that requires all its properties. -/
def toolDefinition (name description : Str) (properties : List ToolProperty) : Json := .ofPairs [
  ("name", .string name), ("description", .string description),
  ("inputSchema", .ofPairs [
    ("type", .string "object"),
    ("properties", .ofPairs (properties.map fun property => (property.name, .ofPairs [
      ("type", .string property.type), ("description", .string property.description)]))),
    ("required", .strings (properties.map ToolProperty.name))])]

/-- The tools of the adapter itself. -/
def baseToolDefinitions : List Json := [
  toolDefinition "logos_read" "Read data from a Logos URI" [
    ⟨"uri", "string", "Logos URI (e.g. logos://memory/groups/chat-1/messages/1)"⟩],
  toolDefinition "logos_write" "Write data to a Logos URI" [
    ⟨"uri", "string", "Logos URI"⟩, ⟨"content", "string", "Content to write"⟩],
  toolDefinition "logos_patch" "Partially update data at a Logos URI (JSON deep merge)" [
    ⟨"uri", "string", "Logos URI"⟩, ⟨"partial", "string", "Partial content to merge"⟩],
  toolDefinition "logos_exec" "Execute a shell command in the sandbox container" [
    ⟨"command", "string", "Shell command (logos:// URIs are auto-translated)"⟩],
  toolDefinition "logos_call" "Call a proc tool by name" [
    ⟨"tool", "string", "Tool name (e.g. memory.search)"⟩, ⟨"params", "object", "Tool parameters"⟩]]

/-- All tools. -/
def toolDefinitions (procTools : List ProcToolDef) : Json := .ofPairs [
  ("tools", .array (baseToolDefinitions ++ procTools.map fun tool => .ofPairs [
    ("name", .string tool.name), ("description", .string tool.description),
    ("inputSchema", tool.inputSchema)]))]

/-! ## Calls to the kernel -/

/-- A call to the kernel. -/
inductive KernelRpc where
  /-- Read a URI. -/
  | read (uri : Str)
  /-- Write to a URI. -/
  | write (uri content : Str)
  /-- Patch a URI. -/
  | patch (uri partialText : Str)
  /-- Execute a command. -/
  | exec (command : Str)
  /-- Call a tool. -/
  | call (tool paramsJson : Str)
deriving DecidableEq, Repr

/-- A call with the session that it is made in, if it is made in one. -/
structure McpOp where
  /-- The session. -/
  session : Option Str
  /-- The call. -/
  rpc : KernelRpc
deriving DecidableEq, Repr

/-- The calls to the kernel, and what they answer; an error comes with a message. -/
abbrev McpSig : Signature where
  Op := McpOp
  Res
    | ⟨_, .read _⟩ | ⟨_, .call ..⟩ => Except Str Str
    | ⟨_, .exec _⟩ => Except Str ExecResult
    | ⟨_, .write ..⟩ | ⟨_, .patch ..⟩ => Except Str Unit

/-- The key of a session can be sent as a header. -/
def isHeader (key : Str) : Bool := key.all fun c => c = '\t' || (' ' ≤ c && c ≤ '~')

variable (sessionKey : Option Str) (procTools : List ProcToolDef)

/-- Make a call in a session; a key that is no header is left out. -/
def withSession (rpc : KernelRpc) : McpOp := ⟨sessionKey.filter isHeader, rpc⟩

/-- A program of the adapter that may fail with a message. -/
abbrev McpM (α : Type) : Type := ExceptT Str (Program McpSig) α

/-- Call the kernel for a text. -/
def rpcRead (uri : Str) : McpM Str :=
  Program.attempt (Program.perform (S := McpSig) (withSession sessionKey (.read uri)))

/-- Have the kernel write. -/
def rpcWrite (uri content : Str) : McpM Unit :=
  Program.attempt (Program.perform (S := McpSig) (withSession sessionKey (.write uri content)))

/-- Have the kernel patch. -/
def rpcPatch (uri partialText : Str) : McpM Unit :=
  Program.attempt (Program.perform (S := McpSig) (withSession sessionKey (.patch uri partialText)))

/-- Have the kernel execute a command. -/
def rpcExec (command : Str) : McpM ExecResult :=
  Program.attempt (Program.perform (S := McpSig) (withSession sessionKey (.exec command)))

/-- Have the kernel call a tool. -/
def rpcCall (tool paramsJson : Str) : McpM Str :=
  Program.attempt (Program.perform (S := McpSig) (withSession sessionKey (.call tool paramsJson)))

/-- The text of an argument; an empty one if there is none. -/
def argText (args : Json) (name : Str) : Str := (args.get name).asStr.getD []

/-- Call a tool. -/
def callTool (toolName : Str) (args : Json) : McpM Str :=
  if toolName = "logos_read".toList then rpcRead sessionKey (argText args "uri")
  else if toolName = "logos_write".toList then do
    rpcWrite sessionKey (argText args "uri") (argText args "content")
    return "ok"
  else if toolName = "logos_patch".toList then do
    rpcPatch sessionKey (argText args "uri") (argText args "partial")
    return "ok"
  else if toolName = "logos_exec".toList then do
    let inner ← rpcExec sessionKey (argText args "command")
    return lib.json.toStr (.ofPairs [("stdout", .string inner.stdout), ("stderr", .string inner.stderr),
      ("exit_code", .number (.int inner.exitCode))])
  else if toolName = "logos_call".toList then
    rpcCall sessionKey (argText args "tool") (lib.json.toStr (args.get "params"))
  else if procTools.any fun tool => tool.name = toolName then
    rpcCall sessionKey toolName (lib.json.toStr args)
  else throw ("unknown tool: " ++ toolName)

/-! ## The loop -/

/-- What the adapter says about itself. -/
def initializeResult : Json := .ofPairs [
  ("protocolVersion", .string "2024-11-05"),
  ("capabilities", .ofPairs [("tools", .ofPairs [])]),
  ("serverInfo", .ofPairs [("name", .string "logos-mcp"), ("version", .string "0.1.0")])]

/-- The result of a tool. -/
def textContent (result : Str) : Json := .ofPairs [
  ("content", .array [.ofPairs [("type", .string "text"), ("text", .string result)]])]

/-- Answer a request. -/
def handleRequest (req : JsonRpcRequest) : Program McpSig JsonRpcResponse :=
  if req.method = "tools/list".toList then
    return .ofResult req.id (toolDefinitions procTools)
  else if req.method = "tools/call".toList then do
    let toolName := argText req.params "name"
    match ← (callTool lib sessionKey procTools toolName (req.params.get "arguments")).run with
    | .ok result => return .ofResult req.id (textContent result)
    | .error e => return .ofError req.id (-32000) e
  else if req.method = "initialize".toList then return .ofResult req.id initializeResult
  -- no response is needed to a notification, but it is answered anyway
  else if req.method = "notifications/initialized".toList then return .ofResult req.id (.ofPairs [])
  else return .ofError req.id (-32601) ("method not found: " ++ req.method)

/-- Answer a line: what is written for it. -/
def handleLine (line : Str) : Program McpSig (List JsonRpcResponse) :=
  if trim line = [] then return []
  else match JsonRpcRequest.fromStr lib (trim line) with
    | .error e => return [.ofError .null (-32700) ("parse error: " ++ e)]
    | .ok request => do
      let response ← handleRequest lib sessionKey procTools request
      return [response]

/-- The loop over the lines of the input: what is written for each. A line that is no text ends it. -/
def serve : List (List UInt8) → Program McpSig (List (List JsonRpcResponse))
  | [] => return []
  | bytes :: lines => match Utf8.decode? bytes with
    | none => return []
    | some line => do
      let responses ← handleLine lib sessionKey procTools line
      let later ← serve lines
      return responses :: later

end LogosFs.Mcp
