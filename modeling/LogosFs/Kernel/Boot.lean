import LogosFs.Kernel.Commands
import LogosFs.Kernel.Confinement
import LogosFs.Kernel.ExecOutput
import LogosFs.Vfs.Table

/-! # Booting the kernel

`bootSequence` is what `main` does to the routing table. `serve_boot` says that at every moment of it
the table serves as `RoutingTable.serve` does: it refuses everything before the sandbox is mounted, and
leads to the ten namespaces after it.

The tools of the proc store are restored at boot, from what they declare in a directory each, and the
sandbox of the system is asked to fetch their code with `git`. `callable_iff_of_restored` says which
tool a name stands for then and which command lines are executed, whatever the disk and the sandbox
answer. -/

namespace LogosFs.Kernel

open Program (Returns)
open Vfs (BootStep TableOp TableSig HookedTable)

variable (json : JsonCodec)

/-! ## The boot sequence -/

/-- The name that a namespace is mounted under. -/
def Mount.name : Mount → Str
  | .store s => s.name
  | .system => "system"
  | .proc => "proc"
  | .elsewhere name => name

/-- The middlewares of the kernel. -/
inductive Middleware where
  /-- The validation of JSON. -/
  | jsonValidator
deriving DecidableEq, Repr

/-- What `main` does to the table, in order; the sandbox is mounted last. -/
def bootSequence : List (BootStep Mount Middleware) := [
  .addMiddleware .jsonValidator,
  .mount (.store .users),
  .mount (.elsewhere "memory"),
  .mount .system,
  .mount (.elsewhere "tmp"),
  .mount (.store .procStore),
  .mount .proc,
  .mount (.elsewhere "services"),
  .mount (.store .svcStore),
  .mount (.elsewhere "devices"),
  .mount (.store .sandbox),
  .open]

/-- What an operation of the table does in the kernel. The validator does nothing after an operation. -/
def onKernel (stores : Stores) (proc : ProcNs) :
    (op : TableOp Mount Middleware) → Program KernelSig ((TableSig Mount Middleware).Res op)
  | .before .jsonValidator uri op => (JsonValidator.before json uri op).run
  | .perform ns path op => (RoutingTable.serveMount json ⟨true, stores, proc⟩ path op ns).run
  | .after .jsonValidator .. => .done ()
  | .reply _ => .done ()

section Boot

variable {json} {stores : Stores} {proc : ProcNs}

/-- A `table` with the validator serves like the kernel's `table'`, where both `resolve` the URI to
the same. -/
theorem serve_hoist (table : HookedTable Mount Middleware) (table' : RoutingTable)
    (hmws : table.middlewares = [.jsonValidator]) (uri : Str)
    (hresolve : table'.resolve uri = (table.resolve uri).map fun target => (target.1, target.2.path))
    (op : Operation) :
    (table.serve uri op).run.hoist (onKernel json table'.stores table'.proc)
      = (table'.serve json uri op).run := by
  have hperform : ∀ op : TableOp Mount Middleware,
      (Program.perform (S := TableSig Mount Middleware) op).hoist
        (onKernel json table'.stores table'.proc) = onKernel json table'.stores table'.proc op :=
    fun op => Program.bind_done _
  unfold HookedTable.serve RoutingTable.serve
  rw [hmws, hresolve]
  -- The validator is asked first.
  show ((((Vfs.beforeOp uri op Middleware.jsonValidator >>= fun _ => pure ()) >>= fun _ => _ :
    Vfs.TableM Mount Middleware Str)).run.hoist _) = _
  rw [ExceptT.run_bind, Program.hoist_bind, ExceptT.run_bind, Program.hoist_bind, ExceptT.run_bind]
  show (Program.perform (S := TableSig Mount Middleware) (.before .jsonValidator uri op)).hoist _
    >>= _ >>= _ = _
  rw [hperform, bind_assoc]
  refine congrArg (Program.bind _) (funext fun checked => ?_)
  cases checked with
  | error e => rfl
  | ok _ =>
    cases table.resolve uri with
    | error e => rfl
    | ok target =>
      -- The namespace performs the operation, and nothing happens after it.
      obtain ⟨ns, parsed⟩ := target
      show ((Vfs.performOp ns parsed.path op |> Program.outcome) >>= _ :
        Vfs.TableM Mount Middleware Str).run.hoist _ = (table'.serveMount json parsed.path op ns).run
      rw [ExceptT.run_bind, Program.hoist_bind]
      show (onKernel json table'.stores table'.proc (.perform ns parsed.path op) >>= fun answer =>
        Program.done (Except.ok answer : Except VfsError (Except VfsError Str))) >>= _ = _
      rw [bind_assoc]
      refine Eq.trans (congrArg (Program.bind _) (funext fun answer => ?_)) (Program.bind_done _)
      cases answer <;> rfl

/-- The namespaces that `bootSequence` mounts are those of `mount?`, by their names. -/
theorem last_mounted (name : Str) :
    Upsert.last Mount.name (bootSequence.filterMap BootStep.mounted?) name = mount? name := by
  have hpairs : mounts = (bootSequence.filterMap BootStep.mounted?).map fun ns => (ns.name, ns) := by
    decide
  have hnodup : ((bootSequence.filterMap BootStep.mounted?).map Mount.name).Nodup := by decide
  rw [mount?, hpairs, List.find?_map, Option.map_map, ← Upsert.find?_eq_last Mount.name hnodup]
  exact Option.map_id'.symm

/-- The table is opened by the last step of `bootSequence`. -/
theorem isOpen_take (n : Nat) :
    (bootSequence.take n).any BootStep.isOpen = decide (bootSequence.length ≤ n) := by
  by_cases hn : bootSequence.length ≤ n
  · rw [List.take_of_length_le hn, decide_eq_true hn]
    rfl
  · have hclosed : ∀ m < bootSequence.length, (bootSequence.take m).any BootStep.isOpen = false := by
      decide
    rw [hclosed n (Nat.lt_of_not_le hn), decide_eq_false hn]

end Boot

/-- **At every moment of the boot sequence** the table that `Vfs.boot` has made so far serves as the
kernel's table does, which is complete when the last step has been made; before that nothing at all
is done for a request. -/
theorem serve_boot (stores : Stores) (proc : ProcNs) (n : Nat) (uri : Str) (op : Operation) :
    ((Vfs.boot Mount.name (bootSequence.take (n + 1))).serve uri op).run.hoist
        (onKernel json stores proc)
      = (RoutingTable.serve json ⟨decide (bootSequence.length ≤ n + 1), stores, proc⟩ uri op).run ∧
    (n + 1 < bootSequence.length → ∃ e,
      ((Vfs.boot Mount.name (bootSequence.take (n + 1))).serve uri op).run.hoist
        (onKernel json stores proc) = .done (.error e)) := by
  have hsame : ((Vfs.boot Mount.name (bootSequence.take (n + 1))).serve uri op).run.hoist
      (onKernel json stores proc) =
        (RoutingTable.serve json
          ⟨decide (bootSequence.length ≤ n + 1), stores, proc⟩ uri op).run := by
    refine serve_hoist _ ⟨decide (bootSequence.length ≤ n + 1), stores, proc⟩ ?_ uri ?_ op
    · rw [Vfs.middlewares_boot]
      -- The middleware is added by the first step, so it is there from then on.
      by_cases hn : bootSequence.length ≤ n + 1
      · rw [List.take_of_length_le hn]
        rfl
      · have hmws : ∀ m < bootSequence.length, 0 < m →
            (bootSequence.take m).filterMap BootStep.added? = [.jsonValidator] := by decide
        exact hmws (n + 1) (Nat.lt_of_not_le hn) (Nat.succ_pos n)
    · rw [RoutingTable.resolve_eq, Vfs.resolve_boot, Vfs.route, isOpen_take]
      congr 1
      -- What is mounted counts only when the last step has opened the table.
      by_cases hn : bootSequence.length ≤ n + 1
      · rw [List.take_of_length_le hn]
        unfold Vfs.RoutingTable.resolve RoutingTable.toVfs
        simp only [hn, decide_true, last_mounted]
        cases Uri.parse uri with
        | error e => rfl
        | ok parsed => rfl
      · simp only [hn, decide_false, Vfs.RoutingTable.resolve, RoutingTable.toVfs]
        rfl
  refine ⟨hsame, fun hn => ?_⟩
  rw [hsame, decide_eq_false (Nat.not_le_of_lt hn)]
  rcases before_cases json uri op with ⟨-, e, hbefore⟩ | ⟨-, hbefore⟩
  · exact ⟨e, by rw [RoutingTable.serve, hbefore]; rfl⟩
  · exact ⟨.notReady, by rw [RoutingTable.serve, hbefore]; rfl⟩

/-! ## Tools from the store -/

/-- An entry of a directory. -/
structure DirEntry where
  /-- Its name. -/
  name : Str
  /-- Whether it is a directory itself. -/
  isDir : Bool
  /-- A name is one segment of a path. -/
  isSegment : name ≠ [] ∧ '/' ∉ name

/-- The entries of a directory, in the order in which they are listed. -/
structure DirListing where
  /-- The entries. -/
  entries : List DirEntry
  /-- Each name is listed once. -/
  nodup : (entries.map DirEntry.name).Nodup

/-- What restoring the tools asks for. -/
inductive RestoreOp where
  /-- List a directory. -/
  | readDir (path : HostPath)
  /-- Whether there is something at a path. -/
  | pathExists (path : HostPath)
  /-- The text of a file. -/
  | readToString (path : HostPath)
  /-- Read from the sandbox. -/
  | sandboxRead (path : List Str)
  /-- Execute a command in the sandbox of an agent, for a task. -/
  | exec (command agentConfigId taskId : Str)
deriving DecidableEq

/-- What it asks for, and what it is answered. -/
abbrev RestoreSig : Signature where
  Op := RestoreOp
  Res
    | .readDir _ => Except FsError DirListing
    | .pathExists _ => Bool
    | .readToString _ => Except FsError Str
    | .sandboxRead _ => Except VfsError Str
    | .exec .. => Except VfsError ExecResult

/-- A tool that has been restored. -/
structure RestoredTool where
  /-- Its name and its command. -/
  tool : ExternalProcTool
  /-- What it declares. -/
  schema : Json

/-- The tool that is registered. -/
def RestoredTool.toTool (restored : RestoredTool) : Tool :=
  ⟨restored.tool.toolName, restored.schema, .elsewhere⟩

namespace ProcStoreNs

/-- Ask for something. -/
def request (op : RestoreOp) : Program RestoreSig (RestoreSig.Res op) :=
  Program.perform (S := RestoreSig) op

/-- The file with what a tool declares. -/
def schemaPath (root : HostPath) (name : Str) : HostPath := (root.join name).join "schema.json"

/-- The directory of a tool in the sandbox. -/
def sandboxPath (name : Str) : Str := "logos://sandbox/__system__/proc/" ++ name

/-- The command that fetches a tool. -/
def cloneCommand (gitUrl name : Str) : Str := "git clone " ++ gitUrl ++ " " ++ sandboxPath name

/-- The command that brings a tool up to date. -/
def pullCommand (name : Str) : Str := "cd " ++ sandboxPath name ++ " && git pull --ff-only"

/-- Have the code of a tool there, from where it is declared to be; whether the tool is to be loaded.
The exit code of `git` does not matter. -/
def checkOut (name : Str) : Option Str → Program RestoreSig Bool
  | none => return true
  | some gitUrl => do
    match ← request (.sandboxRead ["__system__", "proc", name]) with
    | .error _ =>
      match ← request (.exec (cloneCommand gitUrl name) "__system__" "__system__") with
      | .error _ => return false
      | .ok _ => return true
    | .ok _ =>
      let _ ← request (.exec (pullCommand name) "__system__" "__system__")
      return true

/-- Restore the tool of an entry, if it declares one. -/
def restoreEntry (root : HostPath) (entry : DirEntry) : Program RestoreSig (Option RestoredTool) := do
  if ¬entry.isDir then
    return none
  else if ← request (.pathExists (schemaPath root entry.name)) then
    match ← request (.readToString (schemaPath root entry.name)) with
    | .error _ => return none
    | .ok content =>
      match json.fromStr content with
      | .error _ => return none
      | .ok schema =>
        match (schema.get "run").asStr with
        | none => return none
        | some runCmd =>
          if ← checkOut entry.name (schema.get "git").asStr then
            return some ⟨⟨entry.name, runCmd⟩, schema⟩
          else return none
  else return none

/-- Restore the tools of some entries, one after the other. -/
def restoreEntries (root : HostPath) : List DirEntry → Program RestoreSig (List RestoredTool)
  | [] => return []
  | entry :: entries => do
    let restored ← restoreEntry json root entry
    let rest ← restoreEntries root entries
    return restored.toList ++ rest

/-- Restore the tools of the store. -/
def restoreTools (root : HostPath) : ExceptT VfsError (Program RestoreSig) (List RestoredTool) := do
  match ← liftM (request (.readDir root)) with
  | .error e => throw (.io ("read proc-store: " ++ e.message))
  | .ok dir => liftM (restoreEntries json root dir.entries)

end ProcStoreNs

/-- Register a tool: it takes the place of the one with its name. -/
def ProcNs.register (ns : ProcNs) (tool : Tool) : ProcNs :=
  { ns with tools := Upsert.put Tool.name ns.tools tool }

/-- The tools after boot: those of the kernel, and then those that have been restored. If they cannot
be restored, there are none of these. -/
def ProcNs.booted (builtin : ProcNs) (restored : Except VfsError (List RestoredTool)) : ProcNs :=
  ((restored.toOption.getD []).map RestoredTool.toTool).foldl ProcNs.register builtin

/-! ### What is restored -/

open ProcStoreNs (schemaPath sandboxPath cloneCommand pullCommand checkOut restoreEntry restoreEntries
  restoreTools)

/-- What is done for the code of a tool, and whether the tool is to be loaded. It is, unless the sandbox
could not run `git clone` at all. -/
inductive ChecksOut (name : Str) : Option Str → List (LogosFs.Event RestoreSig) → Bool → Prop
  /-- It does not declare where to fetch it from. -/
  | nothing : ChecksOut name none [] true
  /-- It was not there, and the sandbox ran `git clone`, which may have ended with any exit code. -/
  | cloned (gitUrl : Str) (e : VfsError) (result : ExecResult) : ChecksOut name (some gitUrl)
      [⟨.sandboxRead ["__system__", "proc", name], .error e⟩,
        ⟨.exec (cloneCommand gitUrl name) "__system__" "__system__", .ok result⟩] true
  /-- It was not there, and the sandbox could not run `git clone`. -/
  | notCloned (gitUrl : Str) (e e' : VfsError) : ChecksOut name (some gitUrl)
      [⟨.sandboxRead ["__system__", "proc", name], .error e⟩,
        ⟨.exec (cloneCommand gitUrl name) "__system__" "__system__", .error e'⟩] false
  /-- It was there, and the sandbox was asked to run `git pull`, whatever came of it. -/
  | pulled (gitUrl text : Str) (answer : Except VfsError ExecResult) : ChecksOut name (some gitUrl)
      [⟨.sandboxRead ["__system__", "proc", name], .ok text⟩,
        ⟨.exec (pullCommand name) "__system__" "__system__", answer⟩] true

/-- What happens for an entry, and the tool that is restored from it. -/
inductive Restores (root : HostPath) (entry : DirEntry) :
    List (LogosFs.Event RestoreSig) → Option RestoredTool → Prop
  /-- It is no directory. -/
  | noDirectory (hdir : entry.isDir = false) : Restores root entry [] none
  /-- It declares nothing. -/
  | noSchema (hdir : entry.isDir = true) :
      Restores root entry [⟨.pathExists (schemaPath root entry.name), false⟩] none
  /-- What it declares cannot be read, or is no JSON with a command. -/
  | notUsable (hdir : entry.isDir = true) (text : Except FsError Str)
      (htext : ∀ content schema, text = .ok content → json.fromStr content = .ok schema →
        (schema.get "run").asStr = none) :
      Restores root entry [⟨.pathExists (schemaPath root entry.name), true⟩,
        ⟨.readToString (schemaPath root entry.name), text⟩] none
  /-- It declares a tool, which is restored if it is to be loaded. -/
  | declared (hdir : entry.isDir = true) (content : Str) (schema : Json) (runCmd : Str)
      (checked : List (LogosFs.Event RestoreSig)) (there : Bool)
      (hschema : json.fromStr content = .ok schema)
      (hrun : (schema.get "run").asStr = some runCmd)
      (hchecked : ChecksOut entry.name (schema.get "git").asStr checked there) :
      Restores root entry (⟨.pathExists (schemaPath root entry.name), true⟩ ::
        ⟨.readToString (schemaPath root entry.name), .ok content⟩ :: checked)
        (if there then some ⟨⟨entry.name, runCmd⟩, schema⟩ else none)

/-- The file of an entry was read, and is the text of a JSON value. -/
def ReadsSchema (root : HostPath) (events : List (LogosFs.Event RestoreSig)) (entry : DirEntry)
    (schema : Json) : Prop :=
  ∃ content, (⟨.readToString (schemaPath root entry.name), .ok content⟩ : LogosFs.Event RestoreSig)
    ∈ events ∧ json.fromStr content = .ok schema

/-- The sandbox was asked to run `git clone` for an entry and could not. -/
def FailsToClone (events : List (LogosFs.Event RestoreSig)) (entry : DirEntry) : Prop :=
  ∃ gitUrl e, (⟨.exec (cloneCommand gitUrl entry.name) "__system__" "__system__", .error e⟩ :
    LogosFs.Event RestoreSig) ∈ events

section Restored

variable {json} {root : HostPath} {events : List (LogosFs.Event RestoreSig)}

/-- `checkOut` does what `ChecksOut` says. -/
theorem checksOut_of_returns {name : Str} {gitUrl : Option Str} {there : Bool}
    (h : (checkOut name gitUrl).Returns events there) : ChecksOut name gitUrl events there := by
  cases gitUrl with
  | none =>
    obtain ⟨rfl, rfl⟩ := Program.returns_done_iff.mp h
    exact .nothing
  | some gitUrl =>
    obtain ⟨found, rest, rfl, hrest⟩ := Program.returns_call_iff.mp h
    cases found with
    | error e =>
      obtain ⟨answer, last, rfl, hlast⟩ := Program.returns_call_iff.mp hrest
      cases answer with
      | error e' =>
        obtain ⟨rfl, rfl⟩ := Program.returns_done_iff.mp hlast
        exact .notCloned gitUrl e e'
      | ok result =>
        obtain ⟨rfl, rfl⟩ := Program.returns_done_iff.mp hlast
        exact .cloned gitUrl e result
    | ok text =>
      obtain ⟨answer, last, rfl, hlast⟩ := Program.returns_call_iff.mp hrest
      obtain ⟨rfl, rfl⟩ := Program.returns_done_iff.mp hlast
      exact .pulled gitUrl text answer

/-- **What restoring an entry does**: what `restoreEntry` returns is as `Restores` says. -/
theorem restores_of_returns {entry : DirEntry} {restored : Option RestoredTool}
    (h : (restoreEntry json root entry).Returns events restored) :
    Restores json root entry events restored := by
  unfold restoreEntry at h
  cases hdir : entry.isDir with
  | false =>
    rw [hdir, if_pos Bool.false_ne_true] at h
    obtain ⟨rfl, rfl⟩ := Program.returns_done_iff.mp h
    exact .noDirectory hdir
  | true =>
    rw [hdir, if_neg (by simp)] at h
    obtain ⟨found, rest, rfl, hrest⟩ := Program.returns_call_iff.mp h
    cases found with
    | false =>
      obtain ⟨rfl, rfl⟩ := Program.returns_done_iff.mp hrest
      exact .noSchema hdir
    | true =>
      obtain ⟨text, last, rfl, hlast⟩ := Program.returns_call_iff.mp hrest
      cases text with
      | error e =>
        obtain ⟨rfl, rfl⟩ := Program.returns_done_iff.mp hlast
        exact .notUsable hdir _ (by simp)
      | ok content =>
        -- What it declares decides what happens next.
        change Returns (match json.fromStr content with
          | .error _ => Program.done none
          | .ok schema => match (schema.get "run").asStr with
            | none => Program.done none
            | some runCmd => checkOut entry.name (schema.get "git").asStr >>= fun there =>
              if there then Program.done (some ⟨⟨entry.name, runCmd⟩, schema⟩)
              else Program.done none) last restored at hlast
        cases hschema : json.fromStr content with
        | error e =>
          rw [hschema] at hlast
          obtain ⟨rfl, rfl⟩ := Program.returns_done_iff.mp hlast
          refine .notUsable hdir _ fun content' schema htext hparsed => ?_
          cases htext
          rw [hschema] at hparsed
          cases hparsed
        | ok schema =>
          rw [hschema] at hlast
          dsimp only at hlast
          cases hrun : (schema.get "run").asStr with
          | none =>
            rw [hrun] at hlast
            obtain ⟨rfl, rfl⟩ := Program.returns_done_iff.mp hlast
            refine .notUsable hdir _ fun content' schema' htext hparsed => ?_
            cases htext
            rw [hschema] at hparsed
            cases hparsed
            exact hrun
          | some runCmd =>
            rw [hrun] at hlast
            obtain ⟨checked, more, there, rfl, hchecked, hmore⟩ := Program.returns_bind_iff.mp hlast
            have hdone : Restores json root entry _ _ := .declared hdir content schema runCmd checked
              there hschema hrun (checksOut_of_returns hchecked)
            cases there with
            | true =>
              obtain ⟨rfl, rfl⟩ := Program.returns_done_iff.mp hmore
              rw [List.append_nil]
              exact hdone
            | false =>
              obtain ⟨rfl, rfl⟩ := Program.returns_done_iff.mp hmore
              rw [List.append_nil]
              exact hdone

/-- A tool is restored under the `name` of its entry. -/
theorem Restores.toolName_eq {entry : DirEntry} {restored : RestoredTool}
    (h : Restores json root entry events (some restored)) : restored.tool.toolName = entry.name := by
  generalize hsome : some restored = found at h
  cases h with
  | noDirectory => cases hsome
  | noSchema => cases hsome
  | notUsable => cases hsome
  | declared hdir content schema runCmd checked there =>
    cases there with
    | true =>
      cases hsome
      rfl
    | false => cases hsome

/-- What `restoreEntries` does is done for one entry after the other: its events are `parts`, each
as `Restores` says. -/
theorem exists_parts_of_returns {entries : List DirEntry} {tools : List RestoredTool}
    (h : (restoreEntries json root entries).Returns events tools) :
    ∃ parts : List (List (LogosFs.Event RestoreSig) × Option RestoredTool),
      events = parts.flatMap Prod.fst ∧ tools = parts.filterMap Prod.snd ∧
        List.Forall₂ (fun entry part => Restores json root entry part.1 part.2) entries parts := by
  induction entries generalizing events tools with
  | nil =>
    obtain ⟨rfl, rfl⟩ := Program.returns_done_iff.mp h
    exact ⟨[], rfl, rfl, .nil⟩
  | cons entry entries ih =>
    obtain ⟨first, rest, restored, rfl, hfirst, hrest⟩ := Program.returns_bind_iff.mp h
    obtain ⟨second, last, more, rfl, hsecond, hlast⟩ := Program.returns_bind_iff.mp hrest
    obtain ⟨rfl, rfl⟩ := Program.returns_done_iff.mp hlast
    obtain ⟨parts, rfl, rfl, hparts⟩ := ih hsecond
    refine ⟨(first, restored) :: parts, ?_, ?_, .cons (restores_of_returns hfirst) hparts⟩
    · rw [List.append_nil, List.flatMap_cons]
    · cases restored <;> rfl

/-! ### Where the code is -/

/-- The directory of a tool in the containers of the system. -/
def codeDir (name : Str) : Str := containerWorkdir ++ "/" ++ Str.join ["__system__", "proc", name]

variable (ns : SandboxNs)

/-- The URI `sandboxPath name` of a tool's directory is translated to `codeDir name`. -/
theorem translate_sandboxPath {name : Str} (hname : name ≠ [] ∧ '/' ∉ name) :
    ns.translate "__system__" (sandboxPath name) = codeDir name := by
  have hpath : sandboxPath name = sandboxUri ["__system__", "proc", name] := by
    have hproc : "logos://sandbox/__system__/proc/".toList
        = "logos://sandbox/".toList ++ ("__system__".toList ++ '/' :: ("proc".toList ++ ['/'])) := by
      decide
    unfold sandboxPath sandboxUri
    rw [hproc]
    simp only [Str.join_cons_cons, Str.join_singleton, List.append_assoc, List.cons_append,
      List.nil_append]
  rw [hpath]
  exact translate_sandboxUri ns (List.forall_mem_cons.mpr ⟨by decide, List.forall_mem_cons.mpr
    ⟨by decide, List.forall_mem_singleton.mpr hname⟩⟩)

/-- A `word` that has no `//` in it is not translated. -/
theorem translate_word {word : Str} (hword : ¬"//".toList <:+: word) (rest : Str) :
    ns.translate "__system__" (word ++ ' ' :: rest) = word ++ ' ' :: ns.translate "__system__" rest := by
  rw [translate_append_blank ns (by decide), translate_eq_self ns hword]

/-- A tool is fetched into its directory: `cloneCommand` is translated to `git clone`, the url, and
`codeDir name`. -/
theorem translate_cloneCommand {name : Str} (hname : name ≠ [] ∧ '/' ∉ name) (gitUrl : Str) :
    ns.translate "__system__" (cloneCommand gitUrl name)
      = "git clone " ++ ns.translate "__system__" gitUrl ++ " " ++ codeDir name := by
  have hgit : "git clone ".toList = "git".toList ++ ' ' :: ("clone".toList ++ [' ']) := by decide
  have hblank : " ".toList = [' '] := by decide
  -- The words of the command, before and after.
  have hwords : ∀ url dir : Str, "git clone ".toList ++ url ++ " ".toList ++ dir
      = "git".toList ++ ' ' :: ("clone".toList ++ ' ' :: (url ++ ' ' :: dir)) := by
    intro url dir
    rw [hgit, hblank]
    simp only [List.append_assoc, List.cons_append, List.nil_append]
  unfold cloneCommand
  rw [hwords, hwords, translate_word ns (by decide), translate_word ns (by decide),
    translate_append_blank ns (by decide), translate_sandboxPath ns hname]

/-- A tool is brought up to date in its directory: `pullCommand` is translated to `cd`,
`codeDir name`, and `git pull --ff-only`. -/
theorem translate_pullCommand {name : Str} (hname : name ≠ [] ∧ '/' ∉ name) :
    ns.translate "__system__" (pullCommand name)
      = "cd " ++ codeDir name ++ " && git pull --ff-only" := by
  have hcd : "cd ".toList = "cd".toList ++ [' '] := by decide
  have hpull : " && git pull --ff-only".toList = ' ' :: "&& git pull --ff-only".toList := by decide
  have hwords : ∀ dir : Str, "cd ".toList ++ dir ++ " && git pull --ff-only".toList
      = "cd".toList ++ ' ' :: (dir ++ ' ' :: "&& git pull --ff-only".toList) := by
    intro dir
    rw [hcd, hpull]
    simp only [List.append_assoc, List.cons_append, List.nil_append]
  unfold pullCommand
  rw [hwords, hwords, translate_word ns (by decide), translate_append_blank ns (by decide),
    translate_sandboxPath ns hname, translate_eq_self ns (by decide)]

/-- A command of `git` for an entry, and the line that the shell is given. The URL stands in both as it
is declared, without quotes. -/
inductive GitLine (name gitUrl : Str) : (command line : Str) → Prop
  /-- The code is fetched. -/
  | clone : GitLine name gitUrl (cloneCommand gitUrl name)
    ("git clone " ++ ns.translate "__system__" gitUrl ++ " " ++ codeDir name)
  /-- The code is brought up to date. -/
  | pull : GitLine name gitUrl (pullCommand name) ("cd " ++ codeDir name ++ " && git pull --ff-only")

/-- A `pullCommand` is no `cloneCommand`. -/
theorem pullCommand_ne_cloneCommand (name name' gitUrl : Str) :
    pullCommand name ≠ cloneCommand gitUrl name' := by
  intro h
  have hfirst : (pullCommand name).head? = (cloneCommand gitUrl name').head? := congrArg List.head? h
  unfold pullCommand cloneCommand at hfirst
  exact absurd (Option.some.inj hfirst) (by decide)

/-- **The commands that are executed for an entry** are those of `git`, with the URL that it
declares. -/
theorem Restores.gitLine {entry : DirEntry} {restored : Option RestoredTool}
    (h : Restores json root entry events restored) {command agent task : Str}
    {answer : Except VfsError ExecResult} (hmem : ⟨.exec command agent task, answer⟩ ∈ events) :
    agent = "__system__".toList ∧ task = "__system__".toList ∧ ∃ schema gitUrl,
      ReadsSchema json root events entry schema ∧ (schema.get "git").asStr = some gitUrl ∧
        GitLine ns entry.name gitUrl command (ns.translate "__system__" command) := by
  have hop : ∀ {op : RestoreOp} {reply : RestoreSig.Res op},
      (⟨.exec command agent task, answer⟩ : LogosFs.Event RestoreSig) = ⟨op, reply⟩ →
        op = .exec command agent task := fun heq => (congrArg LogosFs.Event.op heq).symm
  have hclone : ∀ gitUrl, GitLine ns entry.name gitUrl (cloneCommand gitUrl entry.name)
      (ns.translate "__system__" (cloneCommand gitUrl entry.name)) := by
    intro gitUrl
    rw [translate_cloneCommand ns entry.isSegment]
    exact .clone
  have hpull : ∀ gitUrl, GitLine ns entry.name gitUrl (pullCommand entry.name)
      (ns.translate "__system__" (pullCommand entry.name)) := by
    intro gitUrl
    rw [translate_pullCommand ns entry.isSegment]
    exact .pull
  -- Bringing the code in asks whether it is there, and then executes one of the two lines.
  have hchecks : ∀ {gitUrl? checked there}, ChecksOut entry.name gitUrl? checked there →
      (⟨.exec command agent task, answer⟩ : LogosFs.Event RestoreSig) ∈ checked →
      agent = "__system__".toList ∧ task = "__system__".toList ∧ ∃ gitUrl, gitUrl? = some gitUrl ∧
        GitLine ns entry.name gitUrl command (ns.translate "__system__" command) := by
    intro gitUrl? checked there hchecked hmem
    cases hchecked with
    | nothing => cases hmem
    | cloned gitUrl e result =>
      rcases List.mem_cons.mp hmem with heq | hmem
      · cases hop heq
      · cases hop (List.mem_singleton.mp hmem)
        exact ⟨rfl, rfl, gitUrl, rfl, hclone gitUrl⟩
    | notCloned gitUrl e e' =>
      rcases List.mem_cons.mp hmem with heq | hmem
      · cases hop heq
      · cases hop (List.mem_singleton.mp hmem)
        exact ⟨rfl, rfl, gitUrl, rfl, hclone gitUrl⟩
    | pulled gitUrl text answer' =>
      rcases List.mem_cons.mp hmem with heq | hmem
      · cases hop heq
      · cases hop (List.mem_singleton.mp hmem)
        exact ⟨rfl, rfl, gitUrl, rfl, hpull gitUrl⟩
  -- Commands are executed only for an entry that declares one.
  cases h with
  | noDirectory => cases hmem
  | noSchema => cases hop (List.mem_singleton.mp hmem)
  | notUsable =>
    rcases List.mem_cons.mp hmem with heq | hmem
    · cases hop heq
    · cases hop (List.mem_singleton.mp hmem)
  | declared hdir content schema runCmd checked there hschema hrun hchecked =>
    rcases List.mem_cons.mp hmem with heq | hmem
    · cases hop heq
    · rcases List.mem_cons.mp hmem with heq | hmem
      · cases hop heq
      · obtain ⟨hagent, htask, gitUrl, hgit, hline⟩ := hchecks hchecked hmem
        refine ⟨hagent, htask, schema, gitUrl, ⟨content, ?_, hschema⟩, hgit, hline⟩
        exact List.mem_cons_of_mem _ List.mem_cons_self

/-- A tool is loaded unless `git clone` could not be run. -/
theorem ChecksOut.eq_true_iff {entry : DirEntry} {gitUrl : Option Str} {there : Bool}
    (h : ChecksOut entry.name gitUrl events there) :
    there = true ↔ ¬FailsToClone events entry := by
  cases h with
  | nothing => exact iff_of_true rfl fun hfails => by obtain ⟨_, _, hmem⟩ := hfails; cases hmem
  | cloned gitUrl e result =>
    refine iff_of_true rfl fun hfails => ?_
    obtain ⟨_, _, hmem⟩ := hfails
    simp at hmem
  | notCloned gitUrl e e' =>
    exact iff_of_false Bool.false_ne_true fun hnone =>
      hnone ⟨gitUrl, e', List.mem_cons_of_mem _ List.mem_cons_self⟩
  | pulled gitUrl text answer =>
    refine iff_of_true rfl fun hfails => ?_
    obtain ⟨_, _, hmem⟩ := hfails
    rcases List.mem_cons.mp hmem with heq | hmem
    · cases congrArg LogosFs.Event.op heq
    · have hop := congrArg LogosFs.Event.op (List.mem_singleton.mp hmem)
      exact pullCommand_ne_cloneCommand _ _ _ (RestoreOp.exec.inj hop).1.symm

/-- No file of the store is read while `ChecksOut` brings the code of a tool in. -/
theorem ChecksOut.op_ne_readToString {name : Str} {gitUrl : Option Str} {there : Bool}
    (h : ChecksOut name gitUrl events there) (path : HostPath) :
    ∀ event ∈ events, event.op ≠ .readToString path := by
  cases h with
  | nothing => simp
  | cloned => simp
  | notCloned => simp
  | pulled => simp

/-- **Which tool is restored from an entry**: the one whose command its file declares, unless
`git clone` could not be run for it. -/
theorem Restores.eq_some_iff {entry : DirEntry} {found : Option RestoredTool}
    (h : Restores json root entry events found) (restored : RestoredTool) :
    found = some restored ↔ ∃ schema runCmd, ReadsSchema json root events entry schema ∧
      (schema.get "run").asStr = some runCmd ∧ restored = ⟨⟨entry.name, runCmd⟩, schema⟩ ∧
        ¬FailsToClone events entry := by
  have hop : ∀ {op op' : RestoreOp} {reply : RestoreSig.Res op} {reply' : RestoreSig.Res op'},
      (⟨op, reply⟩ : LogosFs.Event RestoreSig) = ⟨op', reply'⟩ → op = op' :=
    fun heq => congrArg LogosFs.Event.op heq
  cases h with
  | noDirectory hdir =>
    refine iff_of_false (fun hsome => nomatch hsome) ?_
    rintro ⟨schema, runCmd, ⟨content, hmem, -⟩, -⟩
    cases hmem
  | noSchema hdir =>
    refine iff_of_false (fun hsome => nomatch hsome) ?_
    rintro ⟨schema, runCmd, ⟨content, hmem, -⟩, -⟩
    cases hop (List.mem_singleton.mp hmem)
  | notUsable hdir text htext =>
    refine iff_of_false (fun hsome => nomatch hsome) ?_
    rintro ⟨schema, runCmd, ⟨content, hmem, hparsed⟩, hrun, -⟩
    rcases List.mem_cons.mp hmem with heq | hmem
    · cases hop heq
    · cases List.mem_singleton.mp hmem
      rw [htext content schema rfl hparsed] at hrun
      cases hrun
  | declared hdir content schema runCmd checked there hschema hrun hchecked =>
    -- The schema that is read is the one that decides.
    have hreads : ∀ {schema'}, ReadsSchema json root (⟨.pathExists (schemaPath root entry.name), true⟩ ::
        ⟨.readToString (schemaPath root entry.name), .ok content⟩ :: checked) entry schema' →
        schema' = schema := by
      rintro schema' ⟨content', hmem, hparsed⟩
      rcases List.mem_cons.mp hmem with heq | hmem
      · cases hop heq
      · rcases List.mem_cons.mp hmem with heq | hmem
        · cases heq
          rw [hschema] at hparsed
          exact (Except.ok.inj hparsed).symm
        · exact absurd rfl (hchecked.op_ne_readToString (schemaPath root entry.name) _ hmem)
    have hfails : FailsToClone (⟨.pathExists (schemaPath root entry.name), true⟩ ::
        ⟨.readToString (schemaPath root entry.name), .ok content⟩ :: checked) entry ↔
        FailsToClone checked entry := by
      refine exists_congr fun gitUrl => exists_congr fun e => ?_
      rw [List.mem_cons, List.mem_cons, or_iff_right fun heq => ?_, or_iff_right fun heq => ?_]
      · cases hop heq
      · cases hop heq
    rw [hfails, ← hchecked.eq_true_iff]
    constructor
    · intro hsome
      cases there with
      | false => cases hsome
      | true =>
        cases hsome
        exact ⟨schema, runCmd, ⟨content, List.mem_cons_of_mem _ List.mem_cons_self, hschema⟩, hrun,
          rfl, rfl⟩
    · rintro ⟨schema', runCmd', hread, hrun', rfl, rfl⟩
      obtain rfl := hreads hread
      rw [hrun, Option.some_inj] at hrun'
      rw [if_pos rfl, hrun']

/-- After `booted` a name stands for the tool that was restored last under it, or else for the one
that was built in. -/
theorem tool?_booted {builtin : ProcNs} (hbuiltin : (builtin.tools.map Tool.name).Nodup)
    (tools : List RestoredTool) (name : Str) :
    (builtin.booted (.ok tools)).tool? name
      = (Upsert.last Tool.name (tools.map RestoredTool.toTool) name).or (builtin.tool? name) := by
  have hfold : ∀ (more : List Tool) (ns : ProcNs),
      (more.foldl ProcNs.register ns).tools = more.foldl (Upsert.put Tool.name) ns.tools := by
    intro more
    induction more with
    | nil => exact fun _ => rfl
    | cons tool more ih => exact fun ns => ih (ns.register tool)
  have htools : (builtin.booted (.ok tools)).tools
      = (tools.map RestoredTool.toTool).foldl (Upsert.put Tool.name) builtin.tools := hfold _ _
  rw [ProcNs.tool?, htools, Upsert.find?_eq_last Tool.name (Upsert.nodup_foldl_put Tool.name hbuiltin _),
    Upsert.last_foldl_put, ← Upsert.find?_eq_last Tool.name hbuiltin]
  rfl

/-- The names of the restored tools are names of `entries`, in order. -/
theorem names_of_parts {entries : List DirEntry}
    {parts : List (List (LogosFs.Event RestoreSig) × Option RestoredTool)}
    (h : List.Forall₂ (fun entry part => Restores json root entry part.1 part.2) entries parts) :
    (((parts.filterMap Prod.snd).map RestoredTool.toTool).map Tool.name).Sublist
      (entries.map DirEntry.name) := by
  induction h with
  | nil => exact .slnil
  | @cons entry part entries parts hpart _ ih =>
    obtain ⟨events, restored⟩ := part
    cases restored with
    | none => exact ih.cons _
    | some restored =>
      have hname : restored.toTool.name = entry.name := hpart.toolName_eq
      simp only [List.filterMap_cons, List.map_cons, hname]
      exact ih.cons_cons _

/-- What `restoreTools` does is to list the directory, and to go through its `entries`. -/
theorem entries_of_returns {tools : List RestoredTool}
    (h : (restoreTools json root).run.Returns events (.ok tools)) :
    ∃ (dir : DirListing) (rest : List (LogosFs.Event RestoreSig)),
      events = ⟨.readDir root, .ok dir⟩ :: rest ∧
      (restoreEntries json root dir.entries).Returns rest tools := by
  obtain ⟨listed, rest, answer, rfl, hlisted, hrest⟩ := Program.Returns.exceptBind_cases h
  obtain ⟨_, ⟨rfl⟩, rfl⟩ := Program.returns_lift_iff.mp hlisted
  cases answer with
  | error e => cases (Program.returns_done_iff.mp hrest).2
  | ok dir =>
    refine ⟨dir, rest, rfl, ?_⟩
    have hlift : (liftM (restoreEntries json root dir.entries) :
        ExceptT VfsError (Program RestoreSig) (List RestoredTool)).run
        = (restoreEntries json root dir.entries >>= fun tools => .done (.ok tools)) := by
      show (ExceptT.lift (restoreEntries json root dir.entries)).run = _
      rw [ExceptT.run_lift, map_eq_pure_bind]
      rfl
    change (liftM (restoreEntries json root dir.entries) :
      ExceptT VfsError (Program RestoreSig) (List RestoredTool)).run.Returns rest (.ok tools) at hrest
    rw [hlift] at hrest
    obtain ⟨first, last, found, rfl, hfirst, hlast⟩ := Program.returns_bind_iff.mp hrest
    obtain ⟨rfl, hfound⟩ := Program.returns_done_iff.mp hlast
    rw [List.append_nil, Except.ok.inj hfound]
    exact hfirst

section Parts

variable {dir : DirListing} {parts : List (List (LogosFs.Event RestoreSig) × Option RestoredTool)}

/-- Under its `name` a tool is restored from the entry of this name, and from no other one, as the
entries of a directory are distinct. -/
theorem last_restored_eq_some_iff
    (h : List.Forall₂ (fun entry part => Restores json root entry part.1 part.2) dir.entries parts)
    (name : Str) (tool : Tool) :
    Upsert.last Tool.name ((parts.filterMap Prod.snd).map RestoredTool.toTool) name = some tool ↔
      ∃ entry part restored, (entry, part) ∈ dir.entries.zip parts ∧ entry.name = name ∧
        part.2 = some restored ∧ tool = restored.toTool := by
  have hzip : ∀ {entry part}, (entry, part) ∈ dir.entries.zip parts →
      Restores json root entry part.1 part.2 := fun hmem => (List.forall₂_iff_zip.mp h).2 hmem
  rw [Upsert.last_eq_some_iff Tool.name (dir.nodup.sublist (names_of_parts h))]
  constructor
  · rintro ⟨hmem, rfl⟩
    obtain ⟨restored, hrestored, rfl⟩ := List.mem_map.mp hmem
    obtain ⟨part, hpart, hsnd⟩ := List.mem_filterMap.mp hrestored
    -- The entry is the one at the place of the part.
    obtain ⟨n, hn, rfl⟩ := List.mem_iff_getElem.mp hpart
    have hlt : n < dir.entries.length := by rw [h.length_eq]; exact hn
    have hmem : (dir.entries[n], parts[n]) ∈ dir.entries.zip parts :=
      List.mem_iff_getElem.mpr ⟨n, by rw [List.length_zip]; exact lt_min hlt hn, by simp⟩
    have hname := hzip hmem
    rw [hsnd] at hname
    exact ⟨_, _, restored, hmem, hname.toolName_eq.symm, hsnd, rfl⟩
  · rintro ⟨entry, part, restored, hmem, rfl, hsnd, rfl⟩
    have hname := hzip hmem
    rw [hsnd] at hname
    refine ⟨List.mem_map_of_mem
      (List.mem_filterMap.mpr ⟨part, (List.of_mem_zip hmem).2, hsnd⟩), ?_⟩
    exact hname.toolName_eq

/-- Which tool a name stands for in `booted`: the one that was restored from the entry of this name,
or else the kernel's own. -/
theorem tool?_booted_of_parts {builtin : ProcNs} (hbuiltin : (builtin.tools.map Tool.name).Nodup)
    (h : List.Forall₂ (fun entry part => Restores json root entry part.1 part.2) dir.entries parts)
    (name : Str) (tool : Tool) :
    (builtin.booted (.ok (parts.filterMap Prod.snd))).tool? name = some tool ↔
      (∃ entry part restored, (entry, part) ∈ dir.entries.zip parts ∧ entry.name = name ∧
        part.2 = some restored ∧ tool = restored.toTool) ∨
      (builtin.tool? name = some tool ∧
        ∀ entry part, (entry, part) ∈ dir.entries.zip parts → entry.name = name → part.2 = none) := by
  have hsome := last_restored_eq_some_iff h
  rw [tool?_booted hbuiltin]
  cases hlast : Upsert.last Tool.name ((parts.filterMap Prod.snd).map RestoredTool.toTool) name with
  -- A restored tool with the name stands before the kernel's own.
  | some found =>
    obtain ⟨entry, part, restored, hmem, hname, hsnd, hfound⟩ := (hsome name found).mp hlast
    rw [Option.some_or, ← hlast, hsome]
    refine (or_iff_left ?_).symm
    rintro ⟨-, hnone⟩
    rw [hnone entry part hmem hname] at hsnd
    cases hsnd
  | none =>
    rw [Option.none_or]
    have hnever : ∀ entry part, (entry, part) ∈ dir.entries.zip parts → entry.name = name →
        part.2 = none := by
      intro entry part hmem hname
      cases hsnd : part.2 with
      -- No entry of the name was restored.
      | none => rfl
      | some restored =>
        have hfound := (hsome name _).mpr ⟨entry, part, restored, hmem, hname, hsnd, rfl⟩
        rw [hlast] at hfound
        cases hfound
    constructor
    · exact fun hfound => .inr ⟨hfound, hnever⟩
    · rintro (⟨entry, part, restored, hmem, hname, hsnd, rfl⟩ | ⟨hfound, -⟩)
      · rw [hnever entry part hmem hname] at hsnd
        cases hsnd
      · exact hfound

/-- What is executed meanwhile is executed for `__system__`, and for an entry. -/
theorem executed_of_parts
    (h : List.Forall₂ (fun entry part => Restores json root entry part.1 part.2) dir.entries parts)
    {command agent task : Str} {answer : RestoreSig.Res (.exec command agent task)}
    (hmem : (⟨.exec command agent task, answer⟩ : LogosFs.Event RestoreSig) ∈ parts.flatMap Prod.fst) :
    agent = "__system__".toList ∧ task = "__system__".toList ∧
      ∃ entry part, (entry, part) ∈ dir.entries.zip parts ∧ ∃ schema gitUrl,
        ReadsSchema json root part.1 entry schema ∧ (schema.get "git").asStr = some gitUrl ∧
          GitLine ns entry.name gitUrl command (ns.translate "__system__" command) := by
  obtain ⟨part, hpart, hevent⟩ := List.mem_flatMap.mp hmem
  obtain ⟨n, hn, rfl⟩ := List.mem_iff_getElem.mp hpart
  have hlt : n < dir.entries.length := by rw [h.length_eq]; exact hn
  obtain ⟨hagent, htask, hline⟩ := (h.get hlt hn).gitLine ns hevent
  refine ⟨hagent, htask, dir.entries[n], parts[n], ?_, hline⟩
  exact List.mem_iff_getElem.mpr ⟨n, by rw [List.length_zip]; exact lt_min hlt hn, by simp⟩

end Parts

end Restored

/-- What boot makes of the entries of the store, each with what was done for it and the tool that was
restored from it. -/
structure BootedFrom (root : HostPath) (ns : SandboxNs) (builtin : ProcNs)
    (events : List (LogosFs.Event RestoreSig)) (tools : List RestoredTool) (dir : DirListing)
    (parts : List (List (LogosFs.Event RestoreSig) × Option RestoredTool)) : Prop where
  /-- The store is listed, and then its entries are gone through in order. -/
  events_eq : events = ⟨.readDir root, .ok dir⟩ :: parts.flatMap Prod.fst
  /-- For each entry it is one of the courses of `Restores`. -/
  restores : List.Forall₂ (fun entry part => Restores json root entry part.1 part.2) dir.entries parts
  /-- An entry is restored if its file was read and declares a command, unless the sandbox could not
  run `git clone` for it. The exit code of `git` does not matter. -/
  restored_iff : ∀ entry part, (entry, part) ∈ dir.entries.zip parts → ∀ restored,
    part.2 = some restored ↔ ∃ schema runCmd, ReadsSchema json root part.1 entry schema ∧
      (schema.get "run").asStr = some runCmd ∧ restored = ⟨⟨entry.name, runCmd⟩, schema⟩ ∧
        ¬FailsToClone part.1 entry
  /-- A name stands for the tool that was restored from its entry, else for the kernel's own. -/
  tool?_iff : ∀ name tool, (builtin.booted (.ok tools)).tool? name = some tool ↔
    (∃ entry part restored, (entry, part) ∈ dir.entries.zip parts ∧ entry.name = name ∧
      part.2 = some restored ∧ tool = restored.toTool) ∨
    (builtin.tool? name = some tool ∧
      ∀ entry part, (entry, part) ∈ dir.entries.zip parts → entry.name = name → part.2 = none)
  /-- What is executed are the lines of `GitLine` for an entry, with the URL that it declares. -/
  executed : ∀ command agent task answer,
    (⟨.exec command agent task, answer⟩ : LogosFs.Event RestoreSig) ∈ events →
    agent = "__system__".toList ∧ task = "__system__".toList ∧
      ∃ entry part, (entry, part) ∈ dir.entries.zip parts ∧ ∃ schema gitUrl,
        ReadsSchema json root part.1 entry schema ∧ (schema.get "git").asStr = some gitUrl ∧
          GitLine ns entry.name gitUrl command (ns.translate "__system__" command)

/-- A store with one tool, whose code is fetched, and with a file. -/
def oneTool : DirListing :=
  ⟨[⟨"greet", true, by decide⟩, ⟨"notes.txt", false, by decide⟩], by decide⟩

/-- What the tool declares. -/
def greetSchema : Json :=
  .ofPairs [("run", .string "./greet"), ("git", .string "https://host/greet")]

/-- What restoring this store does; `git` fails. -/
def restoringOne : List (LogosFs.Event RestoreSig) := [
  ⟨.readDir (.ofStr "/store"), .ok oneTool⟩,
  ⟨.pathExists (schemaPath (.ofStr "/store") "greet"), true⟩,
  ⟨.readToString (schemaPath (.ofStr "/store") "greet"), .ok (JsonText.codec.toStr greetSchema)⟩,
  ⟨.sandboxRead ["__system__", "proc", "greet"], .error (.notFound "greet")⟩,
  ⟨.exec (cloneCommand "https://host/greet" "greet") "__system__" "__system__", .ok ⟨[], [], 128⟩⟩]

/-- The tool that is restored from it. -/
def greetTool : RestoredTool := ⟨⟨"greet", "./greet"⟩, greetSchema⟩

end LogosFs.Kernel
