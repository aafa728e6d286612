import LogosFs.Kernel.Confinement
import LogosFs.Lib.Replace

/-! # Commands in a sandbox

A command runs for a task: the URIs of the task's sandbox in it are replaced by paths below
`/workspace`, and an executor runs the text. `Execution.denotes` says which file of the host a word of
the command stands for: with the host executor simply the file of that name, in a container the file
that the container keeps there. Reads, writes and patches compute a host path of their own
(`SandboxNs.resolvePath`); `seesSame_iff` says exactly when both are the same file. -/

namespace LogosFs.Kernel

variable (json : JsonCodec)

/-! ## Executors -/

/-- The directory of the files inside a container. -/
def containerWorkdir : Str := "/workspace"

/-- What an executor answers when it is asked for a container: its id, and the directory of the host
that has its files. -/
structure ContainerInfo where
  /-- The id. -/
  containerId : Str
  /-- The directory. -/
  hostPath : HostPath
deriving DecidableEq, Repr

/-- What runs the commands. -/
inductive Executor where
  /-- The host itself. -/
  | host (root : HostPath)
  /-- Containers; the directory of the host that is `/workspace` in it depends on the agent. -/
  | container (workspace : Str → HostPath)

/-- The id of an agent's container. -/
def Executor.containerId (executor : Executor) (agentConfigId : Str) : Str :=
  match executor with
  | .host _ => "host-" ++ agentConfigId
  | .container _ => "logos-sandbox-" ++ agentConfigId

/-- Make the container of an agent. -/
def Executor.ensureContainer (executor : Executor) (agentConfigId : Str) : ContainerInfo where
  containerId := executor.containerId agentConfigId
  hostPath := match executor with
    | .host root => root.join agentConfigId
    | .container workspace => workspace agentConfigId

/-- The directory a command starts in on the host: the working directory with `/workspace` mapped to
the directory of the agent. -/
def HostExecutor.actualCwd (root : HostPath) (containerId cwd : Str) : HostPath :=
  let agentId := (Str.stripPrefix "host-" containerId).getD containerId
  let workspace := root.join agentId
  match Str.stripPrefix containerWorkdir cwd with
  | none => .ofStr cwd
  | some relative =>
    let relative := (Str.stripPrefix "/" relative).getD relative
    if relative = [] then workspace else workspace.join relative

/-- A command that is run: what runs it, in which container, and from which directory. -/
structure Execution where
  /-- The executor. -/
  executor : Executor
  /-- The container. -/
  info : ContainerInfo
  /-- The command. -/
  command : Str
  /-- The working directory. -/
  cwd : Str

/-- The file of the host that a word of the command stands for, if it is one; `kernelCwd` is the
working directory of the kernel. -/
def Execution.denotes (e : Execution) (kernelCwd : List Str) (word : Str) : Option (List Str) :=
  match e.executor with
  -- The shell runs on the host, and sees the word as it is.
  | .host root =>
    let cwd := HostExecutor.actualCwd root e.info.containerId e.cwd
    some ((HostPath.ofStr word).resolve (cwd.resolve kernelCwd))
  -- Only what is in `/workspace` of the container is a file of the host.
  | .container _ =>
    let inside := (HostPath.ofStr word).resolve ((HostPath.ofStr e.cwd).resolve [])
    (["workspace".toList].isPrefixOf? inside).map (e.info.hostPath.resolve kernelCwd ++ ·)

namespace SandboxNs

variable (ns : SandboxNs) (executor : Executor)

/-- The container of an agent: the one that is known, or else a new one. -/
def ensureContainer (agentConfigId : Str) : ContainerInfo :=
  match ns.containers agentConfigId with
  | some hostPath => ⟨executor.containerId agentConfigId, hostPath⟩
  | none => executor.ensureContainer agentConfigId

/-- Replace the URIs of the services by paths of the host. -/
def translateServiceUris (command : Str) : Str :=
  Str.replace "logos://services/" (ns.hostRoot.display ++ "/__system__/svc/") command

/-- Replace the URIs of a task's sandbox, and of the services, by paths. -/
def translate (taskId command : Str) : Str :=
  let taskWorkspace := containerWorkdir ++ "/" ++ taskId
  let translated :=
    Str.replace ("logos://sandbox/" ++ taskId ++ "/") (taskWorkspace ++ "/") command
  let translated := Str.replace ("logos://sandbox/" ++ taskId) taskWorkspace translated
  ns.translateServiceUris translated

/-- How a command of a task is run: translated, in the container of the agent, and from the directory
of the task. -/
def execution (command agentConfigId taskId : Str) : Execution :=
  ⟨executor, ns.ensureContainer executor agentConfigId, ns.translate taskId command,
    containerWorkdir ++ "/" ++ taskId⟩

/-- Have a command run for a task; the directory of the task is made if it is missing. -/
def exec (command agentConfigId taskId : Str) : FsM Execution := do
  let info := ns.ensureContainer executor agentConfigId
  let answer ← ask (.createDirAll (info.hostPath.join taskId))
  orIo ("create task dir " ++ taskId ++ ": ") answer
  return ns.execution executor command agentConfigId taskId

end SandboxNs

/-- A tool of the proc store. -/
structure ExternalProcTool where
  /-- Its name. -/
  toolName : Str
  /-- The command that runs it. -/
  runCmd : Str

namespace ExternalProcTool

variable (tool : ExternalProcTool)

/-- The directory of the tool. -/
def toolDir : Str := "logos://sandbox/__system__/proc/" ++ tool.toolName

/-- The command: the tool with its input from `input.json`. -/
def command : Str :=
  "cd " ++ tool.toolDir ++ " && " ++ tool.runCmd ++ " < " ++ tool.toolDir ++ "/input.json"

/-- Write the parameters to `input.json`, and have the tool run. -/
def call (ns : SandboxNs) (executor : Executor) (params : Str) : FsM Execution := do
  ns.write ["__system__", "proc", tool.toolName, "input.json"] params
  ns.exec executor tool.command "__system__" "__system__"

end ExternalProcTool

/-! ## What a URI is translated to -/

/-- The URI of a path in the sandbox. -/
def sandboxUri (path : List Str) : Str := "logos://sandbox/" ++ Str.join path

section Translate

/-- `containerWorkdir` is the text `/workspace`. -/
theorem containerWorkdir_eq : containerWorkdir = '/' :: "workspace".toList := by decide

/-- The path below `/workspace`, from its segments. -/
theorem workdir_join (segments : List Str) (hne : segments ≠ []) :
    containerWorkdir ++ "/".toList ++ Str.join segments
      = '/' :: Str.join ("workspace".toList :: segments) := by
  obtain ⟨first, rest, rfl⟩ := List.exists_cons_of_ne_nil hne
  have hslash : "/".toList = ['/'] := by decide
  rw [containerWorkdir_eq, hslash, List.append_assoc, List.singleton_append, Str.join_cons_cons,
    List.cons_append]

variable (ns : SandboxNs) {taskId : Str} {rest : List Str}

/-- **The URI of a file in the sandbox of the task becomes its path below `/workspace`.** -/
theorem translate_sandboxUri
    (h : ∀ segment ∈ taskId :: rest, segment ≠ [] ∧ '/' ∉ segment) :
    ns.translate taskId (sandboxUri (taskId :: rest))
      = containerWorkdir ++ "/" ++ Str.join (taskId :: rest) := by
  have hpath : ¬"//".toList <:+: containerWorkdir ++ "/" ++ Str.join (taskId :: rest) := by
    have hsegments : ∀ segment ∈ "workspace".toList :: taskId :: rest,
        segment ≠ [] ∧ '/' ∉ segment := List.forall_mem_cons.mpr ⟨by decide, h⟩
    rw [workdir_join _ (List.cons_ne_nil _ _)]
    exact Str.not_slashes_infix_join hsegments
  have hscheme : "//".toList <:+: "logos://sandbox/".toList := by decide
  have hservices : "//".toList <:+: "logos://services/".toList := by decide
  have hsandbox := Str.replace_root hscheme h hpath
  refine (congrArg ns.translateServiceUris hsandbox).trans ?_
  exact Str.replace_eq_self hservices hpath

/-- Where a path below `/workspace` leads, from any directory. -/
theorem resolve_workdir_join (h : ∀ segment ∈ taskId :: rest, segment ≠ [] ∧ '/' ∉ segment)
    (cwd : List Str) :
    (HostPath.ofStr (containerWorkdir ++ "/".toList ++ Str.join (taskId :: rest))).resolve cwd
      = LexicalPath.walk ["workspace".toList] ((taskId :: rest).map Component.ofPiece) := by
  rw [workdir_join _ (List.cons_ne_nil _ _)]
  have hsegments : ∀ segment ∈ "workspace".toList :: taskId :: rest,
      segment ≠ [] ∧ '/' ∉ segment := List.forall_mem_cons.mpr ⟨by decide, h⟩
  have hcomponents : Str.segments ('/' :: Str.join ("workspace".toList :: taskId :: rest))
      = "workspace".toList :: taskId :: rest := by
    rw [Str.segments_slash_cons, Str.segments_join hsegments]
  have habsolute : Str.startsWith ('/' :: Str.join ("workspace".toList :: taskId :: rest)) "/" := by
    rw [Str.startsWith_iff]
    exact ⟨_, rfl⟩
  rw [HostPath.resolve, HostPath.absolute, HostPath.components]
  dsimp only
  rw [habsolute, hcomponents]
  rfl

/-- A blank that `taskId` does not have separates what is translated: `translate` works on both
sides. -/
theorem translate_append_blank (hblank : ' ' ∉ taskId) (front back : Str) :
    ns.translate taskId (front ++ ' ' :: back)
      = ns.translate taskId front ++ ' ' :: ns.translate taskId back := by
  have hscheme : ' ' ∉ ("logos://sandbox/" ++ taskId : Str) :=
    List.mem_append.not.mpr (not_or.mpr ⟨by decide, hblank⟩)
  have hslash : ' ' ∉ ("logos://sandbox/" ++ taskId ++ "/" : Str) :=
    List.mem_append.not.mpr (not_or.mpr ⟨hscheme, by decide⟩)
  have hservices : ' ' ∉ ("logos://services/" : Str) := by decide
  have hne : ("logos://sandbox/" ++ taskId : Str) ≠ [] :=
    List.append_ne_nil_of_left_ne_nil (by decide) _
  unfold SandboxNs.translate SandboxNs.translateServiceUris
  dsimp only
  rw [Str.replace_append_cons (List.append_ne_nil_of_left_ne_nil hne _) hslash,
    Str.replace_append_cons hne hscheme, Str.replace_append_cons (by decide) hservices]

/-- A `word` without two separators in a row is not changed by `translate`. -/
theorem translate_eq_self {word : Str} (hword : ¬"//".toList <:+: word) :
    ns.translate taskId word = word := by
  have hscheme : "//".toList <:+: "logos://sandbox/".toList := by decide
  have hservices : "//".toList <:+: "logos://services/".toList := by decide
  have hroot : ∀ s : Str, "//".toList <:+: "logos://sandbox/".toList ++ s := fun s =>
    hscheme.trans (List.prefix_append _ s).isInfix
  have hslash : "//".toList <:+: "logos://sandbox/".toList ++ taskId ++ "/".toList := by
    rw [List.append_assoc]
    exact hroot _
  have hsandbox := @Str.replace_eq_self _ (containerWorkdir ++ "/" ++ taskId ++ "/") _ hslash hword
  unfold SandboxNs.translate
  dsimp only
  rw [hsandbox, Str.replace_eq_self (hroot taskId) hword]
  exact Str.replace_eq_self hservices hword

/-- The words of the `command` of a tool: `cd`, its directory, `&&`, `runCmd`, `<`, and its input.
-/
theorem ExternalProcTool.command_eq (tool : ExternalProcTool) :
    tool.command = "cd".toList ++ ' ' :: (sandboxUri ["__system__", "proc", tool.toolName] ++ ' ' ::
      ("&&".toList ++ ' ' :: (tool.runCmd ++ ' ' :: ("<".toList ++ ' ' ::
        sandboxUri ["__system__", "proc", tool.toolName, "input.json"])))) := by
  have hcd : "cd ".toList = "cd".toList ++ [' '] := by decide
  have hand : " && ".toList = ' ' :: ("&&".toList ++ [' ']) := by decide
  have hless : " < ".toList = ' ' :: ("<".toList ++ [' ']) := by decide
  have hinput : "/input.json".toList = '/' :: "input.json".toList := by decide
  have hproc : "logos://sandbox/__system__/proc/".toList
      = "logos://sandbox/".toList ++ ("__system__".toList ++ '/' :: ("proc".toList ++ ['/'])) := by
    decide
  unfold ExternalProcTool.command ExternalProcTool.toolDir sandboxUri
  rw [hcd, hand, hless, hinput, hproc]
  simp only [Str.join_cons_cons, Str.join_singleton, List.append_assoc, List.cons_append,
    List.nil_append]

/-- **The command of a tool**: it runs in the directory of the tool in `/workspace`, and is given the
input from there. -/
theorem translate_command (tool : ExternalProcTool)
    (h : tool.toolName ≠ [] ∧ '/' ∉ tool.toolName) :
    ns.translate "__system__" tool.command = "cd".toList ++ ' ' ::
      (containerWorkdir ++ "/" ++ Str.join ["__system__", "proc", tool.toolName] ++ ' ' ::
        ("&&".toList ++ ' ' :: (ns.translate "__system__" tool.runCmd ++ ' ' :: ("<".toList ++ ' ' ::
          (containerWorkdir ++ "/" ++
            Str.join ["__system__", "proc", tool.toolName, "input.json"]))))) := by
  have hblank : ' ' ∉ "__system__".toList := by decide
  have hdir : ∀ segment ∈ ["__system__".toList, "proc".toList, tool.toolName],
      segment ≠ [] ∧ '/' ∉ segment :=
    List.forall_mem_cons.mpr ⟨by decide, List.forall_mem_cons.mpr ⟨by decide,
      List.forall_mem_singleton.mpr h⟩⟩
  have hinput : ∀ segment ∈ ["__system__".toList, "proc".toList, tool.toolName, "input.json".toList],
      segment ≠ [] ∧ '/' ∉ segment :=
    List.forall_mem_cons.mpr ⟨by decide, List.forall_mem_cons.mpr ⟨by decide,
      List.forall_mem_cons.mpr ⟨h, by decide⟩⟩⟩
  have hcd : ns.translate "__system__" "cd" = "cd".toList := translate_eq_self ns (by decide)
  have hand : ns.translate "__system__" "&&" = "&&".toList := translate_eq_self ns (by decide)
  have hless : ns.translate "__system__" "<" = "<".toList := translate_eq_self ns (by decide)
  rw [tool.command_eq]
  simp only [translate_append_blank ns hblank]
  rw [hcd, hand, hless, translate_sandboxUri ns hdir, translate_sandboxUri ns hinput]

end Translate

/-! ## Which file a path names -/

/-- The task has a sandbox: its commands run in the container of `agentConfigId`, and its paths start
from `start`. -/
inductive SandboxNs.Registered (ns : SandboxNs) : (taskId agentConfigId : Str) → HostPath → Prop
  /-- The system's own files are below the root. -/
  | system : Registered ns "__system__" "__system__" ns.hostRoot
  /-- Those of a task are in the container of the agent it is registered with. -/
  | task {taskId agentConfigId : Str} {start : HostPath} (hne : taskId ≠ "__system__".toList)
      (hagent : ns.taskAgent taskId = some agentConfigId)
      (hcontainer : ns.containers agentConfigId = some start) :
      Registered ns taskId agentConfigId start

/-- **Every path in a sandbox starts from one directory**: where a task is `Registered` at `start`,
its `target` is the path joined to it. -/
theorem SandboxNs.Registered.target_eq {ns : SandboxNs} {taskId agentConfigId : Str}
    {start : HostPath} {rest : List Str} (hregistered : ns.Registered taskId agentConfigId start)
    (h : ∀ segment ∈ taskId :: rest, segment ≠ [] ∧ '/' ∉ segment) :
    ns.target (taskId :: rest) = some (start.join (Str.join (taskId :: rest))) := by
  cases hregistered with
  | system => rfl
  | task hne hagent hcontainer =>
    unfold SandboxNs.target
    have hhead : ¬(taskId :: rest).head? = some "__system__".toList := by
      rw [List.head?_cons, Option.some_inj]
      exact hne
    rw [if_neg hhead]
    dsimp only
    rw [hagent, Option.bind_some, hcontainer, Option.map_some]
    split
    · rename_i hnil
      subst hnil
      rw [Str.join_singleton]
    · rename_i hne
      rw [HostPath.join_join_segments start hne h]

/-! ## One file or two -/

variable (s : Stores) (executor : Executor)

/-- A read, write or patch of a path in the sandbox of a task goes to the very file that the URI of
the path stands for in a command of the task. -/
def SeesSame (agentConfigId : Str) (path : List Str) (op : Operation) : Prop :=
  ∀ command, Touches
    (fun filePath => (s.sandbox.execution executor command agentConfigId (path.headD [])).denotes
      s.cwd (s.sandbox.translate (path.headD []) (sandboxUri path)) = some (filePath.resolve s.cwd))
    (s.serve json .sandbox path op)

/-- The same segments lead to the same file from `startDir` of the host and from `/workspace` of a
container with the files in `mapped`: both are one directory; or the segments climb out of
`/workspace` and come back, and what the climb leaves of `startDir` has the files of the container as
its `workspace`. -/
def SameInContainer (offset : LexicalPath.Offset Str) (mapped startDir : List Str) : Prop :=
  if offset.ups = 0 then mapped = startDir
  else offset.names.head? = some "workspace".toList ∧
    mapped = offset.leaves startDir ++ ["workspace".toList]

instance (offset : LexicalPath.Offset Str) (mapped startDir : List Str) :
    Decidable (SameInContainer offset mapped startDir) :=
  inferInstanceAs (Decidable (if offset.ups = 0 then mapped = startDir
    else offset.names.head? = some "workspace".toList ∧
      mapped = offset.leaves startDir ++ ["workspace".toList]))

/-- From the directory that the paths of the sandbox start from, and from what `/workspace` is in a
command, the segments lead to the same place. With the host executor `/workspace` is this directory
of the host: what a climb leaves of both is the same. -/
def SameView (agentConfigId : Str) (start : HostPath) (path : List Str) : Prop :=
  let offset := LexicalPath.offset (path.map Component.ofPiece)
  match executor with
  | .host _ => offset.leaves ["workspace".toList] = offset.leaves (start.resolve s.cwd)
  | .container _ => SameInContainer offset
      ((s.sandbox.ensureContainer executor agentConfigId).hostPath.resolve s.cwd)
      (start.resolve s.cwd)

instance (agentConfigId : Str) (start : HostPath) (path : List Str) :
    Decidable (SameView s executor agentConfigId start path) :=
  match executor with
  | .host _ => inferInstanceAs (Decidable (_ = _))
  | .container _ => inferInstanceAs (Decidable (SameInContainer _ _ _))

section SeesSame

variable {s executor} {taskId agentConfigId : Str} {start : HostPath} {rest : List Str}

/-- **The file that the URI stands for** is the one that the segments lead to from `/workspace`. -/
theorem denotes_translate (command : Str)
    (h : ∀ segment ∈ taskId :: rest, segment ≠ [] ∧ '/' ∉ segment) :
    (s.sandbox.execution executor command agentConfigId taskId).denotes s.cwd
        (s.sandbox.translate taskId (sandboxUri (taskId :: rest)))
      = match executor with
        | .host _ => some (LexicalPath.walk ["workspace".toList]
            ((taskId :: rest).map Component.ofPiece))
        | .container _ => (["workspace".toList].isPrefixOf? (LexicalPath.walk ["workspace".toList]
            ((taskId :: rest).map Component.ofPiece))).map
              ((s.sandbox.ensureContainer executor agentConfigId).hostPath.resolve s.cwd ++ ·) := by
  rw [translate_sandboxUri s.sandbox h, Execution.denotes]
  simp only [resolve_workdir_join h]
  cases executor <;> rfl

/-- A walk within a container ends in a file of the host exactly if it stays in `/workspace`, or
comes back to it. -/
theorem map_isPrefixOf?_eq_some_iff (offset : LexicalPath.Offset Str) (mapped startDir : List Str) :
    (["workspace".toList].isPrefixOf?
        (offset.leaves ["workspace".toList] ++ offset.names)).map (mapped ++ ·)
      = some (offset.leaves startDir ++ offset.names) ↔
    SameInContainer offset mapped startDir := by
  rw [Option.map_eq_some_iff, SameInContainer]
  simp only [List.isPrefixOf?_eq_some_iff_append_eq]
  obtain ⟨ups, names⟩ := offset
  unfold LexicalPath.Offset.leaves
  cases ups with
  | zero =>
    -- Nothing is left out, and the names follow.
    dsimp only
    rw [if_pos rfl, Nat.sub_zero, Nat.sub_zero, List.take_length, List.take_length]
    constructor
    · rintro ⟨inside, hinside, hmapped⟩
      obtain rfl := List.append_cancel_left hinside
      exact List.append_cancel_right hmapped
    · rintro rfl
      exact ⟨names, rfl, rfl⟩
  | succ ups =>
    -- Nothing is left of `/workspace`: the names have to spell it again.
    have hleaves : ["workspace".toList].length - (ups + 1) = 0 := by
      rw [List.length_singleton]
      omega
    dsimp only
    rw [if_neg (Nat.succ_ne_zero ups), hleaves, List.take_zero, List.nil_append]
    constructor
    · rintro ⟨inside, rfl, hmapped⟩
      rw [← List.append_assoc] at hmapped
      exact ⟨rfl, List.append_cancel_right hmapped⟩
    · rintro ⟨hhead, rfl⟩
      obtain ⟨inside, rfl⟩ := List.head?_eq_some_iff.mp hhead
      exact ⟨inside, rfl, List.append_assoc ..⟩

/-- A path that does not climb: the directory that the paths of the sandbox start from is
`/workspace`, as it is for the executor. -/
theorem sameView_iff_of_below {path : List Str}
    (hbelow : (LexicalPath.offset (path.map Component.ofPiece)).ups = 0) :
    SameView s executor agentConfigId start path ↔
      start.resolve s.cwd = match executor with
        | .host _ => ["workspace".toList]
        | .container _ =>
          (s.sandbox.ensureContainer executor agentConfigId).hostPath.resolve s.cwd := by
  unfold SameView SameInContainer LexicalPath.Offset.leaves
  cases executor with
  | host root =>
    dsimp only
    rw [hbelow, Nat.sub_zero, Nat.sub_zero, List.take_length, List.take_length]
    exact eq_comm
  | container workspace =>
    dsimp only
    rw [if_pos hbelow]
    exact eq_comm

/-- In a container, a task with a path that does not climb, `ups = 0`, sees the files it reads and
writes: `SameView`. -/
theorem SandboxNs.Registered.sameView_container {workspace : Str → HostPath} {path : List Str}
    (hregistered : s.sandbox.Registered taskId agentConfigId start)
    (hne : taskId ≠ "__system__".toList)
    (hbelow : (LexicalPath.offset (path.map Component.ofPiece)).ups = 0) :
    SameView s (.container workspace) agentConfigId start path := by
  rw [sameView_iff_of_below hbelow]
  dsimp only
  cases hregistered with
  | system => exact absurd rfl hne
  | task _ _ hcontainer =>
    unfold SandboxNs.ensureContainer
    rw [hcontainer]

/-- **Commands see the files that reads and writes see**, exactly when from `/workspace` and from the
directory where the paths of the sandbox start the segments lead to the same place. -/
theorem seesSame_iff (hparse : Uri.parse (sandboxUri (taskId :: rest))
      = .ok ⟨Store.sandbox.name, taskId :: rest⟩)
    (hregistered : s.sandbox.Registered taskId agentConfigId start) (op : Operation) :
    SeesSame json s executor agentConfigId (taskId :: rest) op ↔
      SameView s executor agentConfigId start (taskId :: rest) := by
  have h : ∀ segment ∈ taskId :: rest, segment ≠ [] ∧ '/' ∉ segment := fun segment hsegment =>
    Uri.parse_segments hparse segment (List.mem_cons_of_mem _ hsegment)
  have htouches : ∀ P : HostPath → Prop,
      Touches P (s.serve json .sandbox (taskId :: rest) op) ↔
        P (start.join (Str.join (taskId :: rest))) := by
    intro P
    have htarget := hregistered.target_eq h
    rw [← forall_mem_some (P := P), ← htarget]
    cases op with
    | read => exact touches_sandbox_read ..
    | write content => exact touches_bind_pure.trans (touches_sandbox_write ..)
    | patch partialText => exact touches_bind_pure.trans (touches_sandbox_patch ..)
  unfold SeesSame
  simp only [htouches, List.headD_cons, denotes_translate _ h, forall_const,
    HostPath.resolve_join s.cwd start h, LexicalPath.walk_eq_leaves_append]
  cases executor with
  | host root => exact Option.some_inj.trans (List.append_left_inj _)
  | container workspace => exact map_isPrefixOf?_eq_some_iff _ _ _

end SeesSame

/-- The agents' containers keep their files below `/data/sandbox`. -/
def containers : Executor := .container fun agent => (HostPath.ofStr "/data/sandbox").join agent

/-- In its container, `t-1` sees the notes that are written for it. -/
theorem seesSame_iff_notes :
    SeesSame JsonText.codec onData containers "a-1" ["t-1", "notes"] (.write "call back") :=
  (seesSame_iff JsonText.codec (by decide)
    (@SandboxNs.Registered.task _ _ _ (.ofStr "/data/sandbox/a-1") (by decide) (by decide)
      (by decide)) (.write "call back")).mpr (by decide)

/-- With the host executor `t-1` does not see its notes; and a tool of the proc store does not see its
input even in a container. -/
theorem not_seesSame_host_and_tool :
    ¬SeesSame JsonText.codec onData (.host (.ofStr "/data/sandbox")) "a-1" ["t-1", "notes"] .read ∧
      ¬SeesSame JsonText.codec onData containers "__system__"
        ["__system__", "proc", "lint", "input.json"] (.write "\x7b\x7d") := by
  constructor
  · intro h
    have hnotes := (touches_sandbox_read onData.sandbox ["t-1", "notes"]).mp (h [])
      (HostPath.ofStr "/data/sandbox/a-1/t-1/notes") (by decide)
    exact absurd hnotes (by decide +kernel)
  · intro h
    have hinput := (touches_bind_pure.trans (touches_sandbox_write onData.sandbox
      ["__system__", "proc", "lint", "input.json"] "\x7b\x7d")).mp (h [])
      (HostPath.ofStr "/data/sandbox/__system__/proc/lint/input.json") (by decide)
    exact absurd hinput (by decide +kernel)

end LogosFs.Kernel
