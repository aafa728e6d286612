import LogosFs.Kernel.Access
import LogosFs.Lib.HostPath

/-! # File-backed namespaces

Four namespaces keep their entries as files of the host: `users`, `proc-store`, `svc-store` and
`sandbox`. Each builds a host path from the segments of the request by joining them below a root, and
then reads, writes or appends there. The file system is whatever answers the operations of `FsSig`;
the functions are programs over it. -/

namespace LogosFs.Kernel

/-- Why the file system failed, with its message. -/
inductive FsError where
  /-- There is no such file. -/
  | notFound (message : Str)
  /-- Anything else. -/
  | other (message : Str)
deriving DecidableEq, Repr

/-- The message of a failure. -/
def FsError.message : FsError → Str
  | .notFound message | .other message => message

/-- An operation on the file system. -/
inductive FsOp where
  /-- Whether there is a directory. -/
  | isDir (path : HostPath)
  /-- The names in a directory. -/
  | readDir (path : HostPath)
  /-- The text of a file. -/
  | readToString (path : HostPath)
  /-- Make a directory and those above it. -/
  | createDirAll (path : HostPath)
  /-- Write a file. -/
  | write (path : HostPath) (content : Str)
  /-- Open a file, which is created if it is missing, to append to it. -/
  | openAppend (path : HostPath)
  /-- Append to the file that was opened at a path. -/
  | writeAll (path : HostPath) (text : Str)
deriving DecidableEq, Repr

/-- The operations on the file system, and what they answer. -/
abbrev FsSig : Signature where
  Op := FsOp
  Res
    | .isDir _ => Bool
    | .readDir _ => Except FsError (List Str)
    | .readToString _ => Except FsError Str
    | _ => Except FsError Unit

/-- A program over the file system that may fail. -/
abbrev FsM (α : Type) : Type := ExceptT VfsError (Program FsSig) α

/-- Perform an operation. -/
def ask (op : FsOp) : FsM (FsSig.Res op) := liftM (Program.perform (S := FsSig) op)

/-- Fail with the message of a failed operation. -/
def orIo {α : Type} (context : Str) (answer : Except FsError α) : FsM α :=
  match answer with
  | .ok value => return value
  | .error e => throw (.io (context ++ e.message))

variable (json : JsonCodec)

/-! ## What the namespaces share -/

/-- Read a file, or list a directory. The texts of the errors show the path by `shown`, and a missing
file as `uri`. -/
def readPath (shown : HostPath → Str) (uri : Str) (filePath : HostPath) : FsM Str := do
  if ← ask (.isDir filePath) then
    let answer ← ask (.readDir filePath)
    let entries ← orIo ("read dir" ++ shown filePath ++ ": ") answer
    return json.toStr (.strings entries)
  else
    match ← ask (.readToString filePath) with
    | .ok text => return text
    | .error (.notFound _) => throw (.notFound uri)
    | .error (.other e) => throw (.io ("read" ++ shown filePath ++ ": " ++ e))

/-- Make the directory that a path is in. -/
def makeParent (shown : HostPath → Str) (filePath : HostPath) : FsM Unit := do
  match filePath.parent with
  | none => return
  | some parent =>
    let answer ← ask (.createDirAll parent)
    orIo ("mkdir" ++ shown parent ++ ": ") answer

/-- Write a file, with the directories above it. -/
def writePath (shown : HostPath → Str) (filePath : HostPath) (content : Str) : FsM Unit := do
  makeParent shown filePath
  let answer ← ask (.write filePath content)
  orIo ("write" ++ shown filePath ++ ": ") answer

/-- Show a path after a blank. -/
def shownPath (p : HostPath) : Str := " " ++ p.display

/-- Do not show a path. -/
def hiddenPath (_ : HostPath) : Str := []

/-! ## `proc-store` and `svc-store` -/

/-- Read from a store: its directory, or a file or directory below it. -/
def readStore (name : Str) (shown : HostPath → Str) (root : HostPath) (path : List Str) :
    FsM Str := do
  if path = [] then
    let answer ← ask (.readDir root)
    let entries ← orIo ("read " ++ name ++ ": ") answer
    return json.toStr (.strings entries)
  else
    readPath json shown ("logos://" ++ name ++ "/" ++ Str.join path) (root.join (Str.join path))

/-- Write to a store. -/
def writeStore (name : Str) (shown : HostPath → Str) (root : HostPath) (path : List Str)
    (content : Str) : FsM Unit :=
  if path = [] then throw (.invalidPath ("empty " ++ name ++ " path"))
  else writePath shown (root.join (Str.join path)) content

namespace ProcStoreNs

/-- Read a declaration of a proc tool. -/
def read (root : HostPath) (path : List Str) : FsM Str :=
  readStore json "proc-store" hiddenPath root path

/-- Write a declaration of a proc tool. -/
def write (root : HostPath) (path : List Str) (content : Str) : FsM Unit :=
  writeStore "proc-store" hiddenPath root path content

/-- A patch is a write. -/
def patch (root : HostPath) (path : List Str) (partialText : Str) : FsM Unit :=
  write root path partialText

end ProcStoreNs

namespace SvcStoreNs

/-- Read a declaration of a service. -/
def read (root : HostPath) (path : List Str) : FsM Str :=
  readStore json "svc-store" shownPath root path

/-- Write a declaration of a service. -/
def write (root : HostPath) (path : List Str) (content : Str) : FsM Unit :=
  writeStore "svc-store" shownPath root path content

/-- A patch is a write. -/
def patch (root : HostPath) (path : List Str) (partialText : Str) : FsM Unit :=
  write root path partialText

end SvcStoreNs

/-! ## `users` -/

namespace UsersNs

/-- Write a file. -/
def writeFile (root : HostPath) (path : List Str) (content : Str) : FsM Unit :=
  writePath shownPath (root.join (Str.join path)) content

/-- The file that an entry of `persona/short` is appended to. -/
def personaShortPath (root : HostPath) (path : List Str) : HostPath :=
  if 4 ≤ path.length then root.join (Str.join path)
  else root.join (path.headD [] ++ "/persona/short/latest")

/-- The text that an entry is appended to: that of the file, or an empty array if there is none. -/
def existingText (filePath : HostPath) : Except FsError Str → FsM Str
  | .ok text => pure text
  | .error (.notFound _) => pure "[]".toList
  | .error (.other e) => throw (.io ("read" ++ shownPath filePath ++ ": " ++ e))

/-- Append an entry to the array in a text. -/
def appendEntry (filePath : HostPath) (content existing : Str) : FsM Unit := do
  let corrupt (e : Str) : VfsError :=
    .invalidJson ("corrupt persona/short at " ++ filePath.display ++ ": " ++ e)
  let entries ← match json.fromStr existing with
    | .ok (.array entries) => pure entries
    | .ok value => throw (corrupt (json.notSequence value))
    | .error e => throw (corrupt e)
  let newEntry := (json.fromStr content).toOption.getD (.string content)
  writePath shownPath filePath (json.toStr (.array (entries ++ [newEntry])))

/-- Append an entry to the JSON array in a file of `persona/short`. -/
def appendPersonaShort (root : HostPath) (path : List Str) (content : Str) : FsM Unit := do
  let answer ← ask (.readToString (personaShortPath root path))
  let existing ← existingText (personaShortPath root path) answer
  appendEntry json (personaShortPath root path) content existing

variable {json} in
/-- Where the `existing` text is an array, `appendEntry` writes it with the entry. -/
theorem appendEntry_of_array {existing : Str} {entries : List Json}
    (h : json.fromStr existing = .ok (.array entries)) (filePath : HostPath) (content : Str) :
    appendEntry json filePath content existing = writePath shownPath filePath
      (json.toStr (.array (entries ++ [(json.fromStr content).toOption.getD (.string content)]))) := by
  rw [appendEntry, h]
  rfl

variable {json} in
/-- Where the `existing` text is no array, `appendEntry` is an error. -/
theorem appendEntry_of_other {existing : Str}
    (h : ∀ entries, json.fromStr existing ≠ .ok (.array entries)) (filePath : HostPath)
    (content : Str) : ∃ e, appendEntry json filePath content existing = throw e := by
  unfold appendEntry
  rcases hparse : json.fromStr existing with e | value
  · exact ⟨_, rfl⟩
  · cases value with
    | array entries => exact absurd hparse (h entries)
    | _ => exact ⟨_, rfl⟩

/-- Read a file or list a directory. -/
def read (root : HostPath) (path : List Str) : FsM Str :=
  if path = [] then throw (.invalidPath "empty users path")
  else readPath json shownPath ("logos://users/" ++ Str.join path) (root.join (Str.join path))

/-- Whether a path is that of a persona's short memory, which is only appended to. -/
def isPersonaShort : List Str → Bool
  | _ :: second :: third :: _ => second = "persona".toList ∧ third = "short".toList
  | _ => false

/-- Write a file; an entry of `persona/short` is appended. -/
def write (root : HostPath) (path : List Str) (content : Str) : FsM Unit :=
  if path = [] then throw (.invalidPath "empty users path")
  else if isPersonaShort path then appendPersonaShort json root path content
  else writeFile root path content

/-- Merge JSON into a file of JSON; anything else is written as it is. -/
def patch (root : HostPath) (path : List Str) (partialText : Str) : FsM Unit := do
  if path = [] then
    throw (.invalidPath "empty users path")
  else
    let answer ← ask (.readToString (root.join (Str.join path)))
    let existing := answer.toOption.getD []
    match json.fromStr existing, json.fromStr partialText with
    | .ok base, .ok patch => writeFile root path (json.toStrPretty (Json.deepMerge base patch))
    | _, _ => writeFile root path partialText

end UsersNs

/-! ## `sandbox` -/

/-- The sandboxes: the root for the system's own files, and the directory of the container that each
task's agent runs in. -/
structure SandboxNs where
  /-- The root of the namespace. -/
  hostRoot : HostPath
  /-- The directory of each agent's container. -/
  containers : Str → Option HostPath
  /-- The agent of each task. -/
  taskAgent : Str → Option Str

namespace SandboxNs

variable (ns : SandboxNs)

/-- The host path of a sandbox path: below the root for the system's own files, else below the
directory of the task in the container of its agent, which is made if it is missing. -/
def resolvePath (path : List Str) : FsM HostPath := do
  if path.head? = some "__system__".toList then
    return ns.hostRoot.join (Str.join path)
  else match path with
    | [] => throw (.invalidPath "empty sandbox path")
    | taskId :: rest => match ns.taskAgent taskId with
      | none => throw (.io ("no agent registered for task " ++ taskId))
      | some agentId => match ns.containers agentId with
        | none => throw (.io ("no container for agent " ++ agentId))
        | some hostPath =>
          let taskDir := hostPath.join taskId
          let answer ← ask (.createDirAll taskDir)
          orIo ("create task dir " ++ taskId ++ ": ") answer
          return if rest = [] then taskDir else taskDir.join (Str.join rest)

/-- Read a file or list a directory. -/
def read (path : List Str) : FsM Str := do
  if path = [] then
    throw (.invalidPath "empty sandbox path")
  else
    let filePath ← resolvePath ns path
    readPath json shownPath ("logos://sandbox/" ++ Str.join path) filePath

/-- Write a file. -/
def write (path : List Str) (content : Str) : FsM Unit := do
  if path = [] then
    throw (.invalidPath "empty sandbox path")
  else
    let filePath ← resolvePath ns path
    writePath shownPath filePath content

/-- A patch of a log appends a line to it; any other one is a write. -/
def patch (path : List Str) (partialText : Str) : FsM Unit := do
  if path.getLast? = some "log".toList then
    let filePath ← resolvePath ns path
    makeParent shownPath filePath
    let opened ← ask (.openAppend filePath)
    orIo ("open log " ++ filePath.display ++ ": ") opened
    let appended ← ask (.writeAll filePath partialText)
    orIo "append log: " appended
    let ended ← ask (.writeAll filePath ['\n'])
    orIo "append newline: " ended
  else
    write ns path partialText

end SandboxNs

/-! ## All four -/

/-- A file-backed namespace. -/
inductive Store where
  /-- `logos://users/` -/
  | users
  /-- `logos://proc-store/` -/
  | procStore
  /-- `logos://svc-store/` -/
  | svcStore
  /-- `logos://sandbox/` -/
  | sandbox
deriving DecidableEq, Repr

/-- The name a namespace is mounted under. -/
def Store.name : Store → Str
  | .users => "users"
  | .procStore => "proc-store"
  | .svcStore => "svc-store"
  | .sandbox => "sandbox"

/-- The namespaces with their roots, and the working directory of the kernel. -/
structure Stores where
  /-- The working directory. -/
  cwd : List Str
  /-- The root of the users. -/
  users : HostPath
  /-- The root of the proc tools. -/
  procStore : HostPath
  /-- The root of the services. -/
  svcStore : HostPath
  /-- The sandboxes. -/
  sandbox : SandboxNs

variable (s : Stores)

/-- What a namespace does with a request. -/
def Stores.serve (store : Store) (path : List Str) : Operation → FsM Str
  | .read => match store with
    | .users => UsersNs.read json s.users path
    | .procStore => ProcStoreNs.read json s.procStore path
    | .svcStore => SvcStoreNs.read json s.svcStore path
    | .sandbox => s.sandbox.read json path
  | .write content => do
    match store with
    | .users => UsersNs.write json s.users path content
    | .procStore => ProcStoreNs.write s.procStore path content
    | .svcStore => SvcStoreNs.write s.svcStore path content
    | .sandbox => s.sandbox.write path content
    return []
  | .patch partialText => do
    match store with
    | .users => UsersNs.patch json s.users path partialText
    | .procStore => ProcStoreNs.patch s.procStore path partialText
    | .svcStore => SvcStoreNs.patch s.svcStore path partialText
    | .sandbox => s.sandbox.patch path partialText
    return []

end LogosFs.Kernel
