import LogosFs.Kernel.Proc

/-! # The service

A request is a read, write or patch of a URI, or a call of a tool. A URI goes through the check of
access, then through the validation of JSON, then to the namespace that is mounted under its name. A
call goes to the tool as it is. -/

namespace LogosFs.Kernel

variable (json : JsonCodec)

/-! ## Validation of JSON -/

namespace JsonValidator

/-- Whether content for a URI has to be JSON. -/
def needsJsonValidation (uri : Str) : Bool :=
  ¬"/description".toList.isSuffixOf uri ∧
    (uri.startsWith "logos://system/" ∨ uri.startsWith "logos://memory/")

/-- Check the content of a change before it is made. -/
def validate (verb uri content : Str) : KernelM Unit :=
  if needsJsonValidation uri ∧ content ≠ [] then
    match json.fromStr content with
    | .ok _ => return
    | .error e => throw (.invalidJson (verb ++ " to " ++ uri ++ ": " ++ e))
  else return

/-- Check an operation before it is performed. A read always passes. -/
def before (uri : Str) : Operation → KernelM Unit
  | .read => return
  | .write content => validate json "write" uri content
  | .patch partialText => validate json "patch" uri partialText

end JsonValidator

/-! ## The routing table -/

/-- A mounted namespace. -/
inductive Mount where
  /-- A file-backed namespace. -/
  | store (store : Store)
  /-- `logos://system/` -/
  | system
  /-- `logos://proc/` -/
  | proc
  /-- Any other namespace. -/
  | elsewhere (name : Str)
deriving DecidableEq, Repr

/-- The namespaces that are mounted at boot. -/
def mounts : List (Str × Mount) := [
  (Store.users.name, .store .users),
  ("memory", .elsewhere "memory"),
  ("system", .system),
  ("tmp", .elsewhere "tmp"),
  (Store.procStore.name, .store .procStore),
  ("proc", .proc),
  ("services", .elsewhere "services"),
  (Store.svcStore.name, .store .svcStore),
  ("devices", .elsewhere "devices"),
  (Store.sandbox.name, .store .sandbox)]

/-- The namespace that is mounted under a name. -/
def mount? (name : Str) : Option Mount :=
  (mounts.find? fun mounted => mounted.1 = name).map Prod.snd

/-- The routing table, with the namespaces it leads to. -/
structure RoutingTable where
  /-- Whether the boot sequence is complete. -/
  isOpen : Bool
  /-- The file-backed namespaces. -/
  stores : Stores
  /-- The tools. -/
  proc : ProcNs

namespace RoutingTable

variable (table : RoutingTable)

/-- The namespace and the path that a URI leads to. -/
def resolve (rawUri : Str) : Except VfsError (Mount × List Str) := do
  if ¬table.isOpen then
    throw .notReady
  let parsed ← Uri.parse rawUri
  match mount? parsed.ns with
  | none => throw (.namespaceNotMounted parsed.ns)
  | some ns => return (ns, parsed.path)

/-- What the system namespace does with an operation. -/
def serveSystem (path : List Str) : Operation → KernelM Str
  | .read => onSystem (System.SystemModule.read json path)
  | .write content => do
    onSystem (System.SystemModule.write json path content)
    return []
  | .patch partialText => do
    onSystem (System.SystemModule.patch json path partialText)
    return []

/-- What the proc namespace does with an operation. -/
def serveProc (path : List Str) : Operation → KernelM Str
  | .read => table.proc.read json path
  | .write content => do
    table.proc.write json path content
    return []
  | .patch partialText => do
    ProcNs.patch path partialText
    return []

/-- What a namespace does with an operation. A change answers with the empty text. -/
def serveMount (path : List Str) (op : Operation) : Mount → KernelM Str
  | .store store => onFiles (table.stores.serve json store path op)
  | .system => serveSystem json path op
  | .proc => table.serveProc json path op
  | .elsewhere name => onElsewhere (.namespace name path op)

/-- Perform an operation on a URI. -/
def serve (rawUri : Str) (op : Operation) : KernelM Str := do
  JsonValidator.before json rawUri op
  match table.resolve rawUri with
  | .error e => throw e
  | .ok (ns, path) => table.serveMount json path op ns

end RoutingTable

/-! ## Requests -/

/-- The status of an error. -/
def vfsToStatus (e : VfsError) : Status :=
  match e with
  | .invalidUri _ | .invalidPath _ | .invalidJson _ => .invalidArgument e.toStr
  | .notFound _ | .namespaceNotMounted _ => .notFound e.toStr
  | .notReady => .unavailable e.toStr
  | _ => .internal e.toStr

/-- A request. -/
inductive Request where
  /-- An operation on a URI. -/
  | uri (uri : Str) (op : Operation)
  /-- A call of a tool. -/
  | call (tool paramsJson : Str)
deriving DecidableEq, Repr

/-- A part of the service that may end with a status. -/
abbrev StatusM (α : Type) : Type := ExceptT Status (Program KernelSig) α

namespace LogosService

/-- Serve a request of a session, or of nobody. -/
def serve (table : RoutingTable) (info : Option SessionInfo) : Request → StatusM Str
  | .uri rawUri op => do
    let uri := resolveUri rawUri info
    onSystem (checkAccess json info uri op.isWrite)
    Program.mapError vfsToStatus (table.serve json uri op)
  | .call tool paramsJson =>
    match info with
    | none => throw (.unauthenticated "call requires a valid session")
    | some _ => Program.mapError vfsToStatus (table.proc.call json tool paramsJson)

end LogosService

end LogosFs.Kernel
