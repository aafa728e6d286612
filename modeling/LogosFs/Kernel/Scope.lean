import LogosFs.Kernel.Service
import LogosFs.System.Writes

/-! # Whether a session keeps to its task

A session of a user is bound to a task, and whatever it asks for should leave the other tasks alone.
The check of access looks at URIs only: the parameters of a call name their task themselves, and a
spelling of a system URI that the check does not recognise reaches the system namespace.
`keepsToTask_iff` says exactly which requests keep to the session's task in every state. -/

namespace LogosFs.Kernel

open Program (eval AllOps Leads Closed)
open LogosFs.System (World Db SystemM Statement Tasks TaskRow handler CompleteParams OnlyBy Writes)

variable (json : JsonCodec)

/-- From one database to another one, no task has changed or disappeared except a task's own, and
every new anchor is the task's. -/
structure Scoped (own : Str → Prop) (taskId : Str) (db db' : Db) : Prop where
  /-- Every other task is as it was. -/
  tasks : ∀ id row, ¬own id → db.tasks.find? id = some row → db'.tasks.find? id = some row
  /-- A new anchor is one of the task. -/
  anchors : ∀ key row, db'.anchors.find? key = some row → db.anchors.find? key = none →
    key.1 = taskId

/-- The parameters of a call of `system.complete`, if the call of a tool is one. -/
def ProcNs.completion? (ns : ProcNs) (toolName params : Str) : Option CompleteParams :=
  match ns.tool? toolName with
  | some ⟨_, _, .complete⟩ => (json.fromStr params).toOption.map SystemCompleteTool.completeParams
  | _ => none

/-- The parameters of the call of `system.complete` that a request makes, directly or by writing to
the input of a slot. -/
def RoutingTable.completion? (table : RoutingTable) (si : SessionInfo) : Request → Option CompleteParams
  | .call toolName params => table.proc.completion? json toolName params
  | .uri rawUri (.write content) =>
    match table.resolve (resolveUri rawUri (some si)) with
    | .ok (.proc, [toolName, _, field]) =>
      if field = "input".toList then table.proc.completion? json toolName content else none
    | _ => none
  | .uri _ _ => none

/-- The tasks that a request may change: that of the session, and the one it asks to resume. -/
def RoutingTable.Own (table : RoutingTable) (si : SessionInfo) (request : Request) (id : Str) : Prop :=
  id = si.taskId ∨
    ∃ params ∈ table.completion? json si request, params.resumeTaskId ≠ [] ∧ id = params.resumeTaskId

/-- **A request keeps to the session's task** in every state of the kernel. -/
def KeepsToTask {σ : Type} (outside : Handler OutsideSig σ) (table : RoutingTable) (si : SessionInfo)
    (request : Request) : Prop :=
  ∀ k : KernelState σ, Scoped (table.Own json si request) si.taskId k.world.db
    (eval (kernelHandler outside) (LogosService.serve json table (some si) request) k).2.world.db

/-- The task whose description an operation on a path of the system namespace may replace. -/
def Operation.Describes (op : Operation) (path : List Str) (id : Str) : Prop :=
  match op with
  | .read => False
  | .write _ => System.DescribedByWrite path id
  | .patch partialText => System.DescribedByPatch json path partialText id

/-- A request that goes beyond the session's task: a call of `system.complete` for a task that is
neither the session's nor the one to resume; or a change of the description of another task, by a
URI of the system namespace that the check does not recognise. -/
def RoutingTable.Overreaches (table : RoutingTable) (si : SessionInfo) (request : Request) : Prop :=
  (∃ params ∈ table.completion? json si request, params.taskId ≠ [] ∧ params.taskId ≠ si.taskId ∧
      params.taskId ≠ params.resumeTaskId) ∨
    ∃ rawUri op path id, request = .uri rawUri op ∧
      table.resolve (resolveUri rawUri (some si)) = .ok (.system, path) ∧
      ¬Protected (resolveUri rawUri (some si)) ∧ op.Describes json path id ∧ id ≠ si.taskId

/-! ## What single statements do -/

section Scoped

variable {own : Str → Prop} {taskId : Str} {db db' db'' : Db}

/-- A database with the same rows is `Scoped` to every task. -/
theorem Scoped.of_sameRows (h : System.SameRows db db') : Scoped own taskId db db' where
  tasks id row _ hrow := h.tasks ▸ hrow
  anchors key row hrow hnone := by
    rw [h.anchors, hnone] at hrow
    cases hrow

/-- `Scoped` is transitive. -/
theorem Scoped.trans (h : Scoped own taskId db db') (h' : Scoped own taskId db' db'') :
    Scoped own taskId db db'' where
  tasks id row hid hrow := h'.tasks id row hid (h.tasks id row hid hrow)
  anchors key row hrow hnone := by
    cases hmiddle : db'.anchors.find? key with
    | none => exact h'.anchors key row hrow hmiddle
    | some row' => exact h.anchors key row' hmiddle hnone

/-- A statement that keeps to a task. -/
def Within (own : Str → Prop) (taskId : Str) : Statement → Prop
  | .deleteTask id | .updateStatus id .. | .updateDescription id .. | .updatePlanTodo id .. => own id
  | .insertAnchor row => row.taskId = taskId
  | _ => True

/-- A database with other `tasks` that leave the rows of others alone is `Scoped`. -/
theorem scoped_withTasks {tasks : Tasks}
    (h : ∀ id row, ¬own id → db.tasks.find? id = some row → tasks.find? id = some row) :
    Scoped own taskId db { db with tasks := tasks } where
  tasks := h
  anchors _ _ hrow hnone := nomatch hnone.symm.trans hrow

/-- A `statement` that is `Within` a task leaves a `Scoped` database. -/
theorem scoped_exec {statement : Statement} (h : Within own taskId statement)
    (fts : System.FtsEngine) (db : Db) :
    Scoped own taskId db (System.exec fts statement db).2 := by
  have hself : Scoped own taskId db db := .of_sameRows ⟨rfl, rfl⟩
  have hne : ∀ {id changed : Str}, own changed → ¬own id → id ≠ changed := fun hchanged hid heq =>
    hid (heq ▸ hchanged)
  cases statement with
  | insertTask row =>
    rw [System.exec]
    split
    · rename_i tasks hinsert
      refine scoped_withTasks fun id old _ hold => ?_
      have hid : id ≠ row.taskId := by
        rintro rfl
        exact absurd ((Table.insert?_eq_some hinsert).1.symm.trans hold) (by simp)
      rw [Table.find?_insert?_ne hinsert hid, hold]
    · exact hself
  | deleteTask deleted =>
    exact scoped_withTasks fun id row hid hrow => (Table.find?_delete_ne (hne h hid)).trans hrow
  | updateStatus updated _ new now =>
    exact scoped_withTasks fun id row hid hrow =>
      (System.Tasks.find?_setStatus_ne _ _ _ _ (hne h hid)).trans hrow
  | updateDescription updated text now =>
    exact scoped_withTasks fun id row hid hrow =>
      (System.Tasks.find?_setDescription_ne _ _ _ _ (hne h hid)).trans hrow
  | updatePlanTodo updated text now =>
    exact scoped_withTasks fun id row hid hrow =>
      (System.Tasks.find?_setPlanTodo_ne _ _ _ _ (hne h hid)).trans hrow
  | insertAnchor row =>
    rw [System.exec]
    split
    · rename_i anchors hinsert
      -- Only the key of the new anchor is not what it was, and it names the task.
      refine ⟨fun _ _ _ hrow => hrow, fun key old hold hnone => ?_⟩
      by_cases hkey : key = (row.taskId, row.id)
      · rw [hkey]
        exact h
      · rw [Table.find?_insert?_ne hinsert hkey, hnone] at hold
        cases hold
    · exact hself
  | updateAnchorFacts marked id facts =>
    refine ⟨fun _ _ _ hrow => hrow, fun key row hrow hnone => ?_⟩
    change (db.anchors.update (marked, id) _ _).find? key = some row at hrow
    by_cases hkey : key = (marked, id)
    · rw [hkey, Table.find?_update_self, ← hkey, hnone] at hrow
      cases hrow
    · rw [Table.find?_update_ne hkey, hnone] at hrow
      cases hrow
  | insertTaskFts taskId =>
    obtain ⟨commands, hcommands⟩ := System.exec_insertTaskFts fts taskId db
    exact hcommands ▸ .of_sameRows ⟨rfl, rfl⟩
  | deleteTaskFts taskId =>
    obtain ⟨commands, hcommands⟩ := System.exec_deleteTaskFts fts taskId db
    exact hcommands ▸ .of_sameRows ⟨rfl, rfl⟩
  | _ => exact .of_sameRows ⟨rfl, rfl⟩

end Scoped

/-! ## What programs of the kernel do -/

/-- An operation of the kernel that keeps to a task. -/
def InScope (own : Str → Prop) (taskId : Str) : KernelOp → Prop
  | .system op => OnlyBy (Within own taskId) op
  | _ => True

section InScope

variable {ε α σ : Type} {own : Str → Prop} {taskId : Str}

/-- `onSystem` of a program that changes rows `Within` the scope stays in scope. -/
theorem inScope_onSystem {p : ExceptT ε (Program System.Sql) α}
    (h : p.run.AllOps (OnlyBy (Within own taskId))) :
    (onSystem p).run.AllOps (InScope own taskId) :=
  AllOps.hoist (Q := InScope own taskId)
    (fun op hop => (Program.allOps_perform (S := KernelSig) (.system op)).mpr hop) h

/-- `onFiles` asks the database for nothing, so it stays in scope. -/
theorem inScope_onFiles (p : FsM α) : (onFiles p).run.AllOps (InScope own taskId) :=
  AllOps.hoist (Q := InScope own taskId)
    (fun op _ => (Program.allOps_perform (S := KernelSig) (.outside (.inl op))).mpr trivial)
    (Program.allOps_of_forall (P := fun _ => True) (fun _ => trivial) p.run)

/-- `onSlots` asks the database for nothing, so it stays in scope. -/
theorem inScope_onSlots (op : SlotOp) : (onSlots op).run.AllOps (InScope own taskId) :=
  AllOps.lift ((Program.allOps_perform _).mpr trivial)

/-- `onElsewhere` asks the database for nothing, so it stays in scope. -/
theorem inScope_onElsewhere (request : Elsewhere) :
    (onElsewhere request).run.AllOps (InScope own taskId) :=
  (Program.allOps_perform _).mpr trivial

/-- A program all of whose operations are `InScope` leaves a `Scoped` database. -/
theorem scoped_eval {p : ExceptT ε (Program KernelSig) α} (hp : p.run.AllOps (InScope own taskId))
    (outside : Handler OutsideSig σ) (k : KernelState σ) :
    Scoped own taskId k.world.db (eval (kernelHandler outside) p k).2.world.db := by
  refine Leads.of_allOps (kernelHandler outside)
    (R := fun k k' : KernelState σ => Scoped own taskId k.world.db k'.world.db)
    (fun _ => .of_sameRows ⟨rfl, rfl⟩) .trans (fun op k hop => ?_) hp k
  cases op with
  | system op => exact hop.related .of_sameRows (fun _ hst => scoped_exec hst) k.world
  | slots op => exact .of_sameRows ⟨rfl, rfl⟩
  | outside op => exact .of_sameRows ⟨rfl, rfl⟩

/-- The check of access, `checkAccess`, changes no rows, so it does so `OnlyBy` any statements. -/
theorem allOps_checkAccess {W : Statement → Prop} (info : Option SessionInfo) (uri : Str)
    (isWrite : Bool) : (checkAccess json info uri isWrite).run.AllOps (OnlyBy W) := by
  cases info with
  | none => trivial
  | some si =>
    refine AllOps.exceptBind ?_ fun _ => ?_
    · rw [checkSandbox]
      split
      · trivial
      dsimp only
      split_ifs
      · trivial
      · trivial
      refine AllOps.exceptBind (AllOps.lift (System.writes_get _)) fun taskJson => ?_
      split
      · split
        · split <;> trivial
        · trivial
      · trivial
    · rw [checkNamespace]
      split <;> trivial

/-- What a call of `system.complete` has to keep to so that it keeps to a task. -/
theorem inScope_complete {params : CompleteParams} (htask : params.taskId ≠ [] → own params.taskId)
    (hresume : params.resumeTaskId ≠ [] → own params.resumeTaskId)
    (hanchor : params.taskId ≠ [] → params.resumeTaskId = [] → params.taskId = taskId) :
    Writes (Within own taskId) (System.Complete.execute json params) := by
  refine System.Complete.closed_execute (Program.closed_allOps _) System.writes_utcNow
    (fun h new => (System.writes_transitionStatus _ _).mono fun _ hst => ?_)
    (fun h => (System.writes_transitionStatus _ _).mono fun _ hst => ?_)
    (fun h _ => (System.writes_delete _).mono fun _ hst => hst ▸ htask h)
    (fun h => (System.writes_setPlanTodo _ _).mono fun _ hst => ?_)
    (fun h hnone => (System.writes_createAnchor _ _ _).mono fun _ hst => ?_)
    fun _ _ => (System.writes_create _).mono fun _ ⟨_, _, _, hst⟩ => hst ▸ trivial
  · obtain ⟨_, _, _, -, rfl⟩ := hst
    exact htask h
  · obtain ⟨_, _, _, -, rfl⟩ := hst
    exact hresume h
  · obtain ⟨_, rfl⟩ := hst
    exact htask h
  · rcases hst with ⟨row, rfl, hrow⟩ | ⟨_, _, _, rfl⟩
    · exact hrow.trans (hanchor h hnone)
    · trivial

/-- `parseParams` performs no operation, so it stays in scope. -/
theorem inScope_parseParams (params : Str) : (parseParams json params).run.AllOps (InScope own taskId) := by
  rw [parseParams]
  split <;> trivial

/-- A `tool.call` is `InScope` of a task when the completion that it makes is `Within` it. -/
theorem inScope_toolCall (ns : ProcNs) (tool : Tool) (params : Str)
    (hcomplete : ∀ val, tool.body = .complete → json.fromStr params = .ok val →
      Writes (Within own taskId)
        (System.Complete.execute json (SystemCompleteTool.completeParams val))) :
    (tool.call json ns.sandbox params).run.AllOps (InScope own taskId) := by
  obtain ⟨name, schema, body⟩ := tool
  cases body with
  | searchTasks =>
    refine AllOps.exceptBind (inScope_parseParams json params) fun val => inScope_onSystem ?_
    exact AllOps.exceptBind (System.writes_read rfl) fun _ =>
      AllOps.exceptBind (System.writes_read rfl) fun _ => trivial
  | complete =>
    show (SystemCompleteTool.call json ns.sandbox params).run.AllOps (InScope own taskId)
    rw [SystemCompleteTool.call, parseParams]
    cases hparse : json.fromStr params with
    | error e => trivial
    | ok val =>
      dsimp only
      rw [pure_bind]
      refine AllOps.exceptBind (inScope_onSystem (hcomplete val rfl hparse)) fun result => ?_
      split
      · exact AllOps.exceptBind (AllOps.ignoreError (inScope_onFiles _)) fun _ => trivial
      · trivial
  | elsewhere => exact inScope_onElsewhere _

/-- A call of the tool that `tool?` finds is `InScope` when the `completion?` it makes, if any, is.
-/
theorem inScope_callOf (ns : ProcNs) {tool : Tool} {toolName : Str} (params : Str)
    (htool : ns.tool? toolName = some tool)
    (hcomplete : ∀ completion ∈ ns.completion? json toolName params,
      Writes (Within own taskId) (System.Complete.execute json completion)) :
    (tool.call json ns.sandbox params).run.AllOps (InScope own taskId) := by
  refine inScope_toolCall json ns tool params fun val hbody hparse => hcomplete _ ?_
  obtain ⟨name, schema, body⟩ := tool
  cases hbody
  rw [ProcNs.completion?, htool, hparse]
  rfl

/-- `ProcNs.call` stays in scope if the completion that it makes, if any, writes in scope. -/
theorem inScope_call (ns : ProcNs) (toolName params : Str)
    (hcomplete : ∀ completion ∈ ns.completion? json toolName params,
      Writes (Within own taskId) (System.Complete.execute json completion)) :
    (ns.call json toolName params).run.AllOps (InScope own taskId) := by
  rw [ProcNs.call]
  split
  · trivial
  · rename_i tool htool
    exact inScope_callOf json ns params htool hcomplete

/-- `ProcNs.executeCall` stays in scope if the completion that it makes, if any, writes in scope. -/
theorem inScope_executeCall (ns : ProcNs) (toolName callId params : Str)
    (hcomplete : ∀ completion ∈ ns.completion? json toolName params,
      Writes (Within own taskId) (System.Complete.execute json completion)) :
    (ns.executeCall json toolName callId params).run.AllOps (InScope own taskId) := by
  rw [ProcNs.executeCall]
  split
  · trivial
  · rename_i tool htool
    exact AllOps.exceptBind (AllOps.outcome (inScope_callOf json ns params htool hcomplete))
      fun result => inScope_onSlots _

/-- `ProcNs.schema` stays in scope. -/
theorem inScope_schema (ns : ProcNs) (toolName : Str) :
    (ns.schema json toolName).run.AllOps (InScope own taskId) := by
  rw [ProcNs.schema]
  split <;> trivial

/-- `ProcNs.found` stays in scope. -/
theorem inScope_found (key : Str) (slot : Option CallSlot) :
    (ProcNs.found key slot).run.AllOps (InScope own taskId) := by
  cases slot <;> trivial

/-- Reading from the proc namespace changes no rows: `ns.read` is `InScope` of any task. -/
theorem inScope_procRead (ns : ProcNs) (path : List Str) :
    (ns.read json path).run.AllOps (InScope own taskId) := by
  have hslot : ∀ key field, (ProcNs.readSlot key field).run.AllOps (InScope own taskId) := by
    intro key field
    rw [ProcNs.readSlot]
    split
    · refine AllOps.exceptBind (inScope_onSlots _) fun _ =>
        AllOps.exceptBind (inScope_found _ _) fun slot => ?_
      split <;> trivial
    · refine AllOps.exceptBind (inScope_onSlots _) fun _ =>
        AllOps.exceptBind (inScope_found _ _) fun slot => ?_
      split <;> trivial
  unfold ProcNs.read
  dsimp only
  split
  · trivial
  · exact inScope_schema json ns _
  · split
    · exact inScope_schema json ns _
    · trivial
  · split
    · exact hslot _ _
    · trivial
  · trivial

/-- What `serveSystem` does is `InScope` when the task that the operation `Describes` is its own. -/
theorem inScope_serveSystem (path : List Str) (op : Operation)
    (h : ∀ id, op.Describes json path id → own id) :
    (RoutingTable.serveSystem json path op).run.AllOps (InScope own taskId) := by
  have hwithin : ∀ described : Str → Prop, (∀ id, described id → own id) → ∀ content statement,
      System.ByNamespace json described content statement → Within own taskId statement := by
    rintro described hown content statement (⟨_, _, -, rfl⟩ | ⟨id, _, _, hid, rfl⟩)
    · trivial
    · exact hown id hid
  cases op with
  | read => exact inScope_onSystem (System.writes_readNamespace path)
  | write content =>
    exact AllOps.exceptBind (inScope_onSystem ((System.writes_write path content).mono
      (hwithin _ h content))) fun _ => trivial
  | patch partialText =>
    exact AllOps.exceptBind (inScope_onSystem ((System.writes_patch path partialText).mono
      (hwithin _ h partialText))) fun _ => trivial

end InScope

/-- A program of the system module runs in the kernel, by `onSystem`, as it does alone. -/
theorem eval_onSystem {ε α σ : Type} (outside : Handler OutsideSig σ)
    (p : ExceptT ε (Program System.Sql) α) (k : KernelState σ) :
    eval (kernelHandler outside) (onSystem p) k
      = ((eval handler p k.world).1, { k with world := (eval handler p k.world).2 }) :=
  Program.run_hoist handler (fun k : KernelState σ => k.world) (fun k world => { k with world := world })
    (fun _ => rfl) (fun _ _ => rfl) (fun _ _ _ => rfl) (fun _ _ => rfl) p.run k

/-- The check of `JsonValidator` before an operation stays in scope. -/
theorem inScope_before {own : Str → Prop} {taskId : Str} (uri : Str) (op : Operation) :
    (JsonValidator.before json uri op).run.AllOps (InScope own taskId) := by
  have hvalidate : ∀ verb content,
      (JsonValidator.validate json verb uri content).run.AllOps (InScope own taskId) := by
    intro verb content
    rw [JsonValidator.validate]
    split
    · split <;> trivial
    · trivial
  cases op with
  | read => trivial
  | write content => exact hvalidate "write" content
  | patch partialText => exact hvalidate "patch" partialText

/-- What `serveProc` does is `InScope` when the `completion?` that is made is. -/
theorem inScope_serveProc {own : Str → Prop} {taskId : Str} (table : RoutingTable) (path : List Str)
    (op : Operation) (hcomplete : ∀ toolName callId content, op = .write content →
      path = [toolName, callId, "input".toList] →
      ∀ completion ∈ table.proc.completion? json toolName content,
        Writes (Within own taskId) (System.Complete.execute json completion)) :
    (table.serveProc json path op).run.AllOps (InScope own taskId) := by
  cases op with
  | read => exact inScope_procRead json table.proc path
  | write content =>
    refine AllOps.exceptBind ?_ fun _ => trivial
    unfold ProcNs.write
    dsimp only
    split
    · rename_i toolName callId field
      split
      · rename_i hfield
        exact inScope_executeCall json table.proc toolName callId content
          (hcomplete toolName callId content rfl (by rw [hfield]))
      · trivial
    · trivial
  | patch partialText => trivial

/-- A request of which `Overreaches` does not hold keeps to the session's task: `KeepsToTask`. -/
theorem keepsToTask_of_not_overreaches {σ : Type} (outside : Handler OutsideSig σ)
    (table : RoutingTable) (si : SessionInfo) (hrole : si.role = .user) (request : Request)
    (h : ¬table.Overreaches json si request) : KeepsToTask json outside table si request := by
  intro k
  -- What the request completes, it completes for its own task or the one it resumes.
  have hcomplete : ∀ params ∈ table.completion? json si request,
      Writes (Within (table.Own json si request) si.taskId) (System.Complete.execute json params) := by
    intro params hparams
    have hnot : params.taskId ≠ [] → params.taskId ≠ si.taskId →
        params.taskId = params.resumeTaskId := fun hne htask => by
      by_contra hresume
      exact h (.inl ⟨params, hparams, hne, htask, hresume⟩)
    refine inScope_complete json (fun hne => ?_) (fun hne => ?_) (fun hne hnone => ?_)
    · by_cases htask : params.taskId = si.taskId
      · exact .inl htask
      · exact .inr ⟨params, hparams, hnot hne htask ▸ hne, hnot hne htask⟩
    · exact .inr ⟨params, hparams, hne, rfl⟩
    · by_contra htask
      exact hne ((hnot hne htask).trans hnone)
  cases request with
  | call toolName params =>
    exact scoped_eval (AllOps.mapError (inScope_call json table.proc toolName params hcomplete))
      outside k
  | uri rawUri op =>
    have hcheck : (onSystem (checkAccess json (some si) (resolveUri rawUri (some si)) op.isWrite)).run.AllOps
        (InScope (table.Own json si (.uri rawUri op)) si.taskId) :=
      inScope_onSystem (allOps_checkAccess json _ _ _)
    by_cases hprotected : Protected (resolveUri rawUri (some si)) ∧ op.isWrite = true
    -- The check refuses to change a protected URI.
    · have hrefused : ¬Accepts json (some si) (resolveUri rawUri (some si)) op.isWrite k.world := by
        rw [accepts_some_iff, hrole]
        exact fun haccepts => haccepts.2 hprotected.2 (by decide) hprotected.1
      have hscoped := scoped_eval hcheck outside k
      rw [eval_onSystem] at hscoped
      rw [LogosService.serve, Program.eval_bind, eval_onSystem]
      rcases hresult : (eval handler (checkAccess json (some si) (resolveUri rawUri (some si))
        op.isWrite) k.world).1 with e | _
      · exact hscoped
      · exact absurd hresult hrefused
    · refine scoped_eval (AllOps.exceptBind hcheck fun _ => AllOps.mapError ?_) outside k
      rw [RoutingTable.serve]
      refine AllOps.exceptBind (inScope_before json _ _) fun _ => ?_
      cases hresolve : table.resolve (resolveUri rawUri (some si)) with
      | error e => trivial
      | ok target =>
        obtain ⟨mount, path⟩ := target
        cases mount with
        | store store => exact inScope_onFiles _
        | elsewhere name => exact inScope_onElsewhere _
        | system =>
          refine inScope_serveSystem json path op fun id hdescribes => .inl ?_
          by_contra hid
          refine h (.inr ⟨rawUri, op, path, id, rfl, hresolve, fun hprot => hprotected ⟨hprot, ?_⟩,
            hdescribes, hid⟩)
          cases op with
          | read => exact hdescribes.elim
          | write => rfl
          | patch => rfl
        | proc =>
          refine inScope_serveProc json table path op fun toolName callId content hop hpath => ?_
          subst hop hpath
          intro completion hcompletion
          refine hcomplete completion ?_
          rw [RoutingTable.completion?, hresolve]
          exact hcompletion

end LogosFs.Kernel
