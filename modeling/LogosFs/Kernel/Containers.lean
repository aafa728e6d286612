import LogosFs.Kernel.Commands
import LogosFs.Kernel.ExecOutput
import LogosFs.Lib.HashMap

/-! # Calls for containers

A handshake and a command ask for the container of their agent. The map of the containers that are
known is behind a lock, which is held to look an agent up, and again to enter what the executor has
answered, but not while the executor is asked: what happens at once is an operation of `SandboxOp`, and
calls are programs over these.

The executor is a program of its own (`SandboxExecutor`); `ContainerdExecutor.ensureContainer` asks a
daemon step by step, and deletes a container that it finds without a running process. -/

namespace LogosFs.Kernel

open Program (eval)

/-! ## Calls -/

/-- A backend of the sandbox: its calls are programs over operations of its own. -/
structure SandboxExecutor where
  /-- Its operations. -/
  sig : Signature
  /-- Ensure that a container is running for an agent; there may be a socket for it. -/
  ensureContainer : Str → Option HostPath → ExceptT VfsError (Program sig) ContainerInfo
  /-- Execute a command inside a container, from a directory. -/
  execInContainer : Str → Str → Str → ExceptT VfsError (Program sig) ExecResult

/-- What a call does at once. -/
inductive SandboxOp (E : Signature) where
  /-- Look an agent up in the map of the containers, under its lock. -/
  | containersGet (agentConfigId : Str)
  /-- Enter a container into the map, under its lock. -/
  | containersInsert (agentConfigId : Str) (info : ContainerInfo)
  /-- Register a task of an agent, under the lock of that map. -/
  | taskAgentInsert (taskId agentConfigId : Str)
  /-- Look whether the socket is there. -/
  | sockExists
  /-- Make a directory, and its parents. -/
  | createDirAll (path : HostPath)
  /-- An operation of the executor. -/
  | executor (op : E.Op)

/-- The parts of an operation. -/
def SandboxOp.parts {E : Signature} :
    SandboxOp E → Str ⊕ (Str × ContainerInfo) ⊕ (Str × Str) ⊕ Unit ⊕ HostPath ⊕ E.Op
  | .containersGet agentConfigId => .inl agentConfigId
  | .containersInsert agentConfigId info => .inr (.inl (agentConfigId, info))
  | .taskAgentInsert taskId agentConfigId => .inr (.inr (.inl (taskId, agentConfigId)))
  | .sockExists => .inr (.inr (.inr (.inl ())))
  | .createDirAll path => .inr (.inr (.inr (.inr (.inl path))))
  | .executor op => .inr (.inr (.inr (.inr (.inr op))))

/-- The `parts` of an operation tell which operation it is. -/
theorem SandboxOp.parts_injective {E : Signature} : Function.Injective (parts (E := E)) := by
  intro op op' h
  cases op <;> cases op' <;> simp_all [parts]

instance {E : Signature} [DecidableEq E.Op] : DecidableEq (SandboxOp E) := fun op op' =>
  decidable_of_iff (op.parts = op'.parts) SandboxOp.parts_injective.eq_iff

/-- The operations of the calls, and what they answer. -/
abbrev SandboxSig (E : Signature) : Signature where
  Op := SandboxOp E
  Res
    | .containersGet _ => Option ContainerInfo
    | .sockExists => Bool
    | .createDirAll _ => Except Str Unit
    | .executor op => E.Res op
    | _ => Unit

/-- A program of the sandbox that may fail. -/
abbrev SandboxM (E : Signature) (α : Type) : Type := ExceptT VfsError (Program (SandboxSig E)) α

/-- The state of the sandbox: its maps, and everything outside. -/
structure SandboxState (τ : Type) where
  /-- The containers that are known, by agent. -/
  containers : HashMap Str ContainerInfo
  /-- The agents of the tasks. -/
  taskAgent : HashMap Str Str
  /-- Everything outside. -/
  outside : τ

/-- What is outside of the sandbox: the file system and what the executor talks to. -/
structure Outside (E : Signature) (τ : Type) where
  /-- Whether the socket is there. -/
  sockThere : τ → Bool
  /-- Make a directory. -/
  createDirAll : HostPath → τ → Except Str Unit × τ
  /-- What an operation of the executor does. -/
  executor : Handler E τ

/-- What an operation of a call does. -/
def sandboxHandler {E : Signature} {τ : Type} (out : Outside E τ) :
    Handler (SandboxSig E) (SandboxState τ)
  | .containersGet agentConfigId, s => (s.containers.get agentConfigId, s)
  | .containersInsert agentConfigId info, s =>
    ((), { s with containers := s.containers.insert agentConfigId info })
  | .taskAgentInsert taskId agentConfigId, s =>
    ((), { s with taskAgent := s.taskAgent.insert taskId agentConfigId })
  | .sockExists, s => (out.sockThere s.outside, s)
  | .createDirAll path, s =>
    ((out.createDirAll path s.outside).1, { s with outside := (out.createDirAll path s.outside).2 })
  | .executor op, s =>
    ((out.executor op s.outside).1, { s with outside := (out.executor op s.outside).2 })

/-- Do something at once. -/
def atOnce {E : Signature} (op : SandboxOp E) : SandboxM E ((SandboxSig E).Res op) :=
  liftM (Program.perform (S := SandboxSig E) op)

/-- A program of the executor, in a call. -/
def onExecutor {E : Signature} {α : Type} (p : ExceptT VfsError (Program E) α) : SandboxM E α :=
  ExceptT.mk (p.run.hoist fun op => Program.perform (S := SandboxSig E) (.executor op))

namespace Containers

variable (executor : SandboxExecutor) (hostRoot : HostPath)

/-- Ask the executor for a container, and enter it into the map. -/
def create (agentConfigId : Str) : SandboxM executor.sig ContainerInfo := do
  let there ← atOnce .sockExists
  let sock := if there then some (hostRoot.join "logos.sock") else none
  let info ← onExecutor (executor.ensureContainer agentConfigId sock)
  atOnce (.containersInsert agentConfigId info)
  return info

/-- The container of an agent: the one that is known, or else a new one. -/
def ensureContainer (agentConfigId : Str) : SandboxM executor.sig ContainerInfo := do
  match ← atOnce (.containersGet agentConfigId) with
  | some info => return info
  | none => create executor hostRoot agentConfigId

/-- Make the container of an agent, and register a task. -/
def ensureContainerFor (agentConfigId taskId : Str) : SandboxM executor.sig Unit := do
  let _ ← ensureContainer executor hostRoot agentConfigId
  atOnce (.taskAgentInsert taskId agentConfigId)

/-- What a command does in the container of its agent. -/
def execIn (command taskId : Str) (info : ContainerInfo) : SandboxM executor.sig ExecResult := do
  let taskWorkspace := containerWorkdir ++ "/" ++ taskId
  match ← atOnce (.createDirAll (info.hostPath.join taskId)) with
  | .error e => throw (.io ("create task dir " ++ taskId ++ ": " ++ e))
  | .ok () =>
    -- The maps of the namespace do not matter to the translation.
    let translated := SandboxNs.translate ⟨hostRoot, fun _ => none, fun _ => none⟩ taskId command
    onExecutor (executor.execInContainer info.containerId translated taskWorkspace)

/-- Execute a command for a task of an agent. -/
def exec (command agentConfigId taskId : Str) : SandboxM executor.sig ExecResult := do
  let info ← ensureContainer executor hostRoot agentConfigId
  execIn executor hostRoot command taskId info

/-- A call that asks for the container of an agent. -/
inductive Call where
  /-- A handshake. -/
  | handshake (agentConfigId taskId : Str)
  /-- A command. -/
  | command (text agentConfigId taskId : Str)
deriving DecidableEq, Repr

/-- The agent of a call. -/
def Call.agent : Call → Str
  | .handshake agentConfigId _ => agentConfigId
  | .command _ agentConfigId _ => agentConfigId

/-- A call as a thread. -/
def Call.thread : Call → Program (SandboxSig executor.sig) Unit
  | .handshake agentConfigId taskId =>
    (ensureContainerFor executor hostRoot agentConfigId taskId).run >>= fun _ => .done ()
  | .command text agentConfigId taskId =>
    (exec executor hostRoot text agentConfigId taskId).run >>= fun _ => .done ()

end Containers

/-! ## The host -/

/-- What the host executor does at once. -/
inductive HostOp where
  /-- Make a directory, and its parents. -/
  | createDirAll (path : HostPath)
  /-- Run a shell with a command in a directory. -/
  | shell (command : Str) (cwd : HostPath)
deriving DecidableEq, Repr

/-- The operations of the host executor, and what they answer. -/
abbrev HostSig : Signature where
  Op := HostOp
  Res
    | .createDirAll _ => Except Str Unit
    | .shell .. => Except Str ExecResult

namespace HostExecutor

/-- Make the directory of an agent. -/
def ensureContainer (root : HostPath) (agentConfigId : Str) (_sock : Option HostPath) :
    ExceptT VfsError (Program HostSig) ContainerInfo := do
  let workspace := root.join agentConfigId
  match ← liftM (Program.perform (S := HostSig) (.createDirAll workspace)) with
  | .error e => throw (.io ("create host workspace " ++ agentConfigId ++ ": " ++ e))
  | .ok () => return ⟨"host-" ++ agentConfigId, workspace⟩

/-- Run a command on the host. -/
def execInContainer (root : HostPath) (containerId command cwd : Str) :
    ExceptT VfsError (Program HostSig) ExecResult := do
  let actual := actualCwd root containerId cwd
  match ← liftM (Program.perform (S := HostSig) (.createDirAll actual)) with
  | .error e => throw (.io ("create cwd " ++ actual.display ++ ": " ++ e))
  | .ok () =>
    match ← liftM (Program.perform (S := HostSig) (.shell command actual)) with
    | .error e => throw (.io ("exec host command: " ++ e))
    | .ok result => return result

/-- The host as a backend. -/
abbrev executor (root : HostPath) : SandboxExecutor :=
  ⟨HostSig, ensureContainer root, execInContainer root⟩

end HostExecutor

/-! ## containerd -/

/-- A mount of a snapshot. -/
structure SnapshotMount where
  /-- Its options. -/
  options : List Str
deriving DecidableEq, Repr

/-- What the executor asks the daemon for, and what it does to the host. -/
inductive ContainerdOp where
  /-- Look a container up. -/
  | containersGet (id : Str)
  /-- Look the process of a container up. -/
  | tasksGet (containerId : Str)
  /-- The mounts of a snapshot. -/
  | snapshotsMounts (key : Str)
  /-- Delete a container. -/
  | containersDelete (id : Str)
  /-- Pull and unpack the image, if this is needed. -/
  | ensureImage
  /-- The top snapshot of the image. -/
  | findImageSnapshotParent
  /-- Remove a snapshot. -/
  | snapshotsRemove (key : Str)
  /-- Prepare a snapshot on top of another one. -/
  | snapshotsPrepare (key parent : Str)
  /-- Make a directory, and its parents. -/
  | createDirAll (path : HostPath)
  /-- Create a container; there may be a socket for it. -/
  | containersCreate (id snapshotKey : Str) (sock : Option HostPath)
  /-- Make the FIFOs of an agent anew, and start their readers. -/
  | createFifos (agentConfigId : Str)
  /-- Create the process of a container. -/
  | tasksCreate (containerId : Str) (rootfs : List SnapshotMount)
  /-- Start the process of a container. -/
  | tasksStart (containerId : Str)
  /-- Run a text in a container. -/
  | run (containerId text : Str)
deriving DecidableEq, Repr

/-- The operations of the containerd executor, and what they answer. -/
abbrev ContainerdSig : Signature where
  Op := ContainerdOp
  Res
    | .snapshotsMounts _ | .snapshotsPrepare .. => Except Str (List SnapshotMount)
    | .ensureImage | .createFifos _ => Except VfsError Unit
    | .findImageSnapshotParent => Except VfsError Str
    | .run .. => Except VfsError ContainerProcess
    | _ => Except Str Unit

namespace ContainerdExecutor

/-- A program of the containerd executor that may fail. -/
abbrev ContainerdM (α : Type) : Type := ExceptT VfsError (Program ContainerdSig) α

/-- Ask for something, and go on with the answer. -/
def call (op : ContainerdOp) : ContainerdM (ContainerdSig.Res op) :=
  liftM (Program.perform (S := ContainerdSig) op)

/-- Fail with the text of an answer behind a context. -/
def orIo {α : Type} (context : Str) : Except Str α → ContainerdM α
  | .ok value => return value
  | .error e => throw (.io (context ++ e))

/-- Fail with an answer. -/
def orFail {α : Type} : Except VfsError α → ContainerdM α
  | .ok value => return value
  | .error e => throw e

/-- The upper directories of some mounts, in order. -/
def upperdirs (mounts : List SnapshotMount) : List Str :=
  (mounts.flatMap SnapshotMount.options).filterMap (Str.stripPrefix "upperdir=")

/-- The directory of the files of an existing snapshot. -/
def getUpperdir (snapshotKey : Str) : ContainerdM HostPath := do
  let mounts ← orIo "get snapshot mounts: " (← call (.snapshotsMounts snapshotKey))
  match (upperdirs mounts).head? with
  | some upper => return (HostPath.ofStr upper).join "workspace"
  | none => throw (.io "no upperdir found in snapshot")

/-- Make the container of an agent anew. -/
def makeContainer (agentConfigId containerId snapshotKey : Str) (sock : Option HostPath) :
    ContainerdM ContainerInfo := do
  orFail (← call .ensureImage)
  let parentKey ← orFail (← call .findImageSnapshotParent)
  let _ ← call (.snapshotsRemove snapshotKey)
  let mounts ← orIo "prepare snapshot: " (← call (.snapshotsPrepare snapshotKey parentKey))
  -- The last upper directory counts; without one the path stays empty.
  let upperdir := HostPath.ofStr ((upperdirs mounts).getLast?.getD [])
  let workspaceDir := upperdir.join "workspace"
  orIo "create workspace in upperdir: " (← call (.createDirAll workspaceDir))
  orIo "create container: " (← call (.containersCreate containerId snapshotKey sock))
  orFail (← call (.createFifos agentConfigId))
  orIo "create task: " (← call (.tasksCreate containerId mounts))
  orIo "start task: " (← call (.tasksStart containerId))
  return ⟨containerId, workspaceDir⟩

/-- The container of an agent: the one that is there, if its process is running, or else a new
one. -/
def ensureContainer (agentConfigId : Str) (sock : Option HostPath) : ContainerdM ContainerInfo := do
  let containerId := "logos-sandbox-" ++ agentConfigId
  let snapshotKey := "logos-snap-" ++ agentConfigId
  match ← call (.containersGet containerId) with
  | .ok () =>
    match ← call (.tasksGet containerId) with
    | .ok () =>
      let hostPath ← Program.recover (HostPath.ofStr "/tmp") (getUpperdir snapshotKey)
      return ⟨containerId, hostPath⟩
    | .error _ =>
      let _ ← call (.containersDelete containerId)
      makeContainer agentConfigId containerId snapshotKey sock
  | .error _ => makeContainer agentConfigId containerId snapshotKey sock

/-- containerd as a backend. -/
abbrev executor : SandboxExecutor where
  sig := ContainerdSig
  ensureContainer := ensureContainer
  execInContainer containerId command cwd := do
    let answer ← call (.run containerId (fullCmd command cwd))
    orFail (execInContainer (fun _ _ => answer) containerId command cwd)

end ContainerdExecutor

/-! ### A daemon -/

/-- What a daemon has: containers, those of them with a running process, and snapshots, each with the
number of its directory. -/
structure Daemon where
  /-- The containers. -/
  containers : List Str
  /-- The containers with a process. -/
  tasks : List Str
  /-- The snapshots. -/
  snapshots : List (Str × Nat)
  /-- The number of the next directory. -/
  nextDir : Nat

namespace Daemon

/-- A daemon that has nothing. -/
def empty : Daemon := ⟨[], [], [], 1⟩

/-- The mounts of a snapshot. -/
def mountsOf (dir : Nat) : List SnapshotMount :=
  [⟨["lowerdir=/snapshots/0/fs", "upperdir=/snapshots/" ++ Nat.toDigits 10 dir ++ "/fs"]⟩]

/-- Answer by what is there. -/
def expect (there : Bool) (e : Str) : Except Str Unit := if there then .ok () else .error e

/-- What the daemon does; the image is there, and the directories and FIFOs can be made. -/
def handler : Handler ContainerdSig Daemon
  | .containersGet id, d => (expect (d.containers.contains id) "container not found", d)
  | .tasksGet containerId, d => (expect (d.tasks.contains containerId) "task not found", d)
  | .snapshotsMounts key, d =>
    match d.snapshots.find? fun snapshot => snapshot.1 = key with
    | some snapshot => (.ok (mountsOf snapshot.2), d)
    | none => (.error "snapshot not found", d)
  | .containersDelete id, d =>
    (expect (d.containers.contains id) "container not found",
      { d with containers := d.containers.filter (· ≠ id) })
  | .ensureImage, d => (.ok (), d)
  | .findImageSnapshotParent, d => (.ok "sha256:0", d)
  | .snapshotsRemove key, d =>
    (expect (d.snapshots.any fun snapshot => snapshot.1 = key) "snapshot not found",
      { d with snapshots := d.snapshots.filter fun snapshot => snapshot.1 ≠ key })
  | .snapshotsPrepare key _, d =>
    if d.snapshots.any fun snapshot => snapshot.1 = key then (.error "snapshot exists", d)
    else (.ok (mountsOf d.nextDir),
      { d with snapshots := (key, d.nextDir) :: d.snapshots, nextDir := d.nextDir + 1 })
  | .createDirAll _, d => (.ok (), d)
  | .containersCreate id _ _, d =>
    if d.containers.contains id then (.error "container exists", d)
    else (.ok (), { d with containers := id :: d.containers })
  | .createFifos _, d => (.ok (), d)
  | .tasksCreate containerId _, d =>
    (expect (d.containers.contains containerId && !d.tasks.contains containerId) "task exists", d)
  | .tasksStart containerId, d => (.ok (), { d with tasks := containerId :: d.tasks })
  | .run .., d => (.error (.io "exec: not supported"), d)

/-- The daemon, and a file system in which all directories can be made, without a socket. -/
def outside : Outside ContainerdSig Daemon := ⟨fun _ => false, fun _ d => (.ok (), d), handler⟩

end Daemon

end LogosFs.Kernel
