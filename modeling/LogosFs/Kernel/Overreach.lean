import LogosFs.Kernel.Routing
import LogosFs.Kernel.Scope
import LogosFs.Kernel.Slots
import LogosFs.Kernel.TaskLog
import LogosFs.Kernel.Validation
import LogosFs.Lib.JsonMerge
import LogosFs.System.Atomicity
import LogosFs.System.Namespace

/-! # What a session can do to other tasks

`keepsToTask_of_not_overreaches` says which requests keep to the session's task. Here it is shown that
no other request does: whoever overreaches changes another task, at the latest one that has just been
created. `keepsToTask_iff` puts both together. -/

namespace LogosFs.Kernel

open Program (eval AllOps Leads Closed)
open LogosFs.System (World Db SystemM Statement TaskRow TaskStatus handler CompleteParams Writes)

variable {json : JsonCodec}

/-! ## Completing the turn of another task -/

section Complete

variable {params : CompleteParams} {w : World} {row : TaskRow}

/-- A program that `Writes` within no task leaves every row that is there as it is. -/
theorem find?_of_writes {ε : Type} {taskId : Str} {p : SystemM ε}
    (h : Writes (Within (fun _ => False) taskId) p) {id : Str} (hrow : w.db.tasks.find? id = some row) :
    (eval handler p w).2.db.tasks.find? id = some row := by
  have hscoped : Scoped (fun _ => False) taskId w.db (eval handler p w).2.db :=
    Writes.leads .of_sameRows .trans (fun _ hst => scoped_exec hst) h w
  exact hscoped.tasks id row not_false hrow

/-- What comes after the end of a turn, `anchorIfRequested`, changes no tasks that there are. -/
theorem writes_anchorIfRequested (params : CompleteParams) :
    Writes (Within (fun _ => False) params.taskId) (System.Complete.anchorIfRequested json params) := by
  refine System.Complete.closed_anchorIfRequested (Program.closed_allOps _) fun _ => ?_
  refine (System.writes_createAnchor _ _ _).mono fun _ hst => ?_
  rcases hst with ⟨row, rfl, hrow⟩ | ⟨_, _, _, rfl⟩
  · exact hrow
  · trivial

/-- `regenSummary` inserts a task and nothing else, so it stays `Within` every scope. -/
theorem writes_regenSummary (taskId anchorId : Str) :
    Writes (Within (fun _ => False) taskId) (System.Complete.regenSummary json anchorId) := by
  refine AllOps.exceptBind System.writes_utcNow fun now => AllOps.ignoreError ?_
  exact (System.writes_create _).mono fun _ ⟨_, _, _, hst⟩ => hst ▸ trivial

/-- **A turn ends for a task that has not begun one**: after `execute` its row is not what it was.
-/
theorem find?_execute_ne (htask : params.taskId ≠ []) (hother : params.taskId ≠ params.resumeTaskId)
    (hrow : w.db.tasks.find? params.taskId = some row) (hpending : row.status = .pending) :
    (eval handler (System.Complete.execute json params) w).2.db.tasks.find? params.taskId ≠ some row := by
  have hunfinished : row.status ≠ .finished := by
    rw [hpending]
    decide
  by_cases hresume : params.resumeTaskId ≠ []
  · -- The task is discarded.
    have hgone : ((System.Complete.activated params.taskId w).withTasks
        ((System.Complete.activated params.taskId w).db.tasks.delete params.taskId)).db.tasks.find?
          params.taskId = none := Table.find?_delete_self
    rw [System.Complete.eval_execute_resume json w hresume htask]
    generalize (System.Complete.activated params.taskId w).withTasks
      ((System.Complete.activated params.taskId w).db.tasks.delete params.taskId) = w₁ at hgone ⊢
    by_cases hmove : System.TaskDb.CanMove w₁.db.tasks params.resumeTaskId .active
    · rw [System.TaskDb.eval_transitionStatus_of_canMove w₁ hmove, Program.evalNext_ok,
        Program.eval_pure, World.withTasks_tasks, System.Tasks.find?_setStatus_ne _ _ _ _ hother, hgone]
      exact nofun
    · obtain ⟨e, hfails⟩ := System.TaskDb.eval_transitionStatus_of_not_canMove w₁ hmove
      rw [hfails, Program.evalNext_error, hgone]
      exact nofun
  · rw [not_not] at hresume
    -- The turn begins: the task is active before anything else is done with it.
    obtain ⟨now, hactive⟩ := System.Complete.activated_became hrow hunfinished
    have hmoved : ∀ {row' : TaskRow} {status : TaskStatus} {now : Str}, status ≠ .pending →
        some (row'.withStatus status now) ≠ some row := by
      rintro row' status now hne heq
      rw [← Option.some_inj.mp heq] at hpending
      exact hne hpending
    by_cases hplan : params.planTodo ≠ []
    · -- It gets a plan and sleeps.
      have hplanned := hactive.setPlanTodo (json.toStr (.strings params.planTodo))
        ((System.Complete.activated params.taskId w).clock 0).isoSecond
      have hslept := hplanned.setStatus .sleep
        ((System.Complete.activated params.taskId w).clock 1).isoSecond
      have hvalid : (TaskStatus.active, TaskStatus.sleep) ∈ System.validTransitions := by decide
      rw [System.Complete.eval_execute_plan json w hresume hplan htask,
        System.TaskDb.eval_transitionStatus_of_valid _ hplanned.self hvalid, Program.evalNext_ok]
      have hend : Writes (Within (fun _ => False) params.taskId)
          (System.Complete.anchorIfRequested json params >>= fun anchorId =>
            pure (⟨params.reply, anchorId, params.taskLog, params.taskId⟩ : System.CompleteResult)) :=
        AllOps.exceptBind (writes_anchorIfRequested params) fun _ => trivial
      rw [find?_of_writes hend hslept.self]
      exact hmoved (by decide)
    · -- It sleeps or is finished.
      rw [not_not] at hplan
      have hended := hactive.setStatus (System.Complete.newStatus params)
        ((System.Complete.activated params.taskId w).clock 0).isoSecond
      have hvalid : (TaskStatus.active, System.Complete.newStatus params) ∈ System.validTransitions := by
        rw [System.Complete.newStatus]
        split <;> decide
      rw [System.Complete.eval_execute_settle json w hresume hplan htask,
        System.TaskDb.eval_transitionStatus_of_valid _ hactive.self hvalid, Program.evalNext_ok]
      have hend : Writes (Within (fun _ => False) params.taskId)
          (System.Complete.anchorIfRequested json params >>= fun anchorId => do
            if params.anchor ∧ params.taskId ≠ [] then
              System.Complete.regenSummary json anchorId
            pure (⟨params.reply, anchorId, params.taskLog, params.taskId⟩ : System.CompleteResult)) :=
        AllOps.exceptBind (writes_anchorIfRequested params) fun anchorId =>
          (Program.closed_allOps _).of_when_bind (fun _ => writes_regenSummary _ anchorId) fun _ => trivial
      rw [find?_of_writes hend hended.self]
      refine hmoved ?_
      rw [System.Complete.newStatus]
      split <;> decide

end Complete

/-! ## What requests do to the database -/

section Requests

variable {ε α σ : Type} (outside : Handler OutsideSig σ) (k : KernelState σ)

/-- An operation of the kernel that is not on the system database. -/
def SparesSystem : KernelOp → Prop
  | .system _ => False
  | _ => True

/-- A program all of whose operations are `SparesSystem` leaves the `world` of the system as it is.
-/
theorem world_of_sparesSystem {p : ExceptT ε (Program KernelSig) α}
    (h : p.run.AllOps SparesSystem) : (eval (kernelHandler outside) p k).2.world = k.world := by
  refine Leads.of_allOps (kernelHandler outside)
    (R := fun k k' : KernelState σ => k'.world = k.world) (fun _ => rfl)
    (fun h h' => h'.trans h) (fun op k hop => ?_) h k
  cases op with
  | system op => exact hop.elim
  | slots op => rfl
  | outside op => rfl

/-- `onFiles` spares the system. -/
theorem sparesSystem_onFiles (p : FsM α) : (onFiles p).run.AllOps SparesSystem :=
  AllOps.hoist (Q := SparesSystem)
    (fun op _ => (Program.allOps_perform (S := KernelSig) (.outside (.inl op))).mpr trivial)
    (Program.allOps_of_forall (P := fun _ => True) (fun _ => trivial) p.run)

/-- A call of `system.complete` does to the database what completing the turn does. -/
theorem world_toolCall {ns : ProcNs} {toolName text : Str} {params : CompleteParams}
    (h : params ∈ ns.completion? json toolName text) : ∃ tool, ns.tool? toolName = some tool ∧
      (eval (kernelHandler outside) (tool.call json ns.sandbox text) k).2.world
        = (eval handler (System.Complete.execute json params) k.world).2 := by
  rw [Option.mem_def, ProcNs.completion?] at h
  split at h
  · rename_i name schema htool
    refine ⟨_, htool, ?_⟩
    cases hparse : json.fromStr text with
    | error e =>
      rw [hparse] at h
      cases h
    | ok val =>
      rw [hparse] at h
      obtain rfl := Option.some_inj.mp h
      show (eval (kernelHandler outside) (SystemCompleteTool.call json ns.sandbox text) k).2.world = _
      rw [SystemCompleteTool.call, parseParams, hparse]
      dsimp only
      rw [pure_bind, Program.eval_bind, eval_onSystem]
      unfold System.SystemModule.complete
      generalize eval handler (System.Complete.execute json (SystemCompleteTool.completeParams val))
        k.world = ended
      obtain ⟨e | result, w⟩ := ended
      · rfl
      · rw [Program.evalNext_ok]
        refine world_of_sparesSystem outside _ ?_
        split
        · exact AllOps.exceptBind (AllOps.ignoreError (sparesSystem_onFiles _)) fun _ => trivial
        · trivial
  · cases h

/-- The check of access, `checkAccess`, changes nothing. -/
theorem eval_checkAccess_snd (info : Option SessionInfo) (uri : Str) (isWrite : Bool) (w : World) :
    (eval handler (checkAccess json info uri isWrite) w).2 = w := by
  cases info with
  | none => rfl
  | some si =>
    obtain ⟨result, heval, -⟩ := eval_checkSandbox json si uri isWrite w
    rw [checkAccess, Program.eval_bind, heval]
    cases result with
    | error e => rfl
    | ok _ =>
      rw [Program.evalNext_ok, checkNamespace]
      split <;> rfl

variable {table : RoutingTable} {uri : Str} {mount : Mount} {path : List Str}

/-- A URI that begins like one of a namespace `name` is resolved to what is mounted there. -/
theorem ns_of_resolve {name : Str} (hne : name ≠ []) (hsep : '/' ∉ name)
    (hstart : Uri.logosScheme ++ (name ++ ['/']) <+: uri) (h : table.resolve uri = .ok (mount, path)) :
    mount? name = some mount := by
  obtain ⟨rest, rfl⟩ := hstart
  rw [List.append_assoc, List.append_assoc, List.singleton_append, RoutingTable.resolve_eq] at h
  cases hresolve : table.toVfs.resolve (Uri.logosScheme ++ (name ++ '/' :: rest)) with
  | error e =>
    rw [hresolve] at h
    cases h
  | ok target =>
    obtain ⟨ns, parsed⟩ := target
    rw [hresolve] at h
    cases h
    obtain ⟨-, hparse, hmounted⟩ := (resolve_eq_ok_iff table.toVfs).mp hresolve
    rw [Uri.parse_logos_eq_ok_iff, Str.segments_cons_of_notMem hne hsep] at hparse
    rw [(List.cons.inj hparse).1]
    exact hmounted

/-- A URI that is resolved to the system or to the proc namespace does not begin with the `name` of
another one. -/
theorem not_startsWith_of_resolve (hmount : mount = .system ∨ mount = .proc)
    (h : table.resolve uri = .ok (mount, path)) {name : Str} (hne : name ≠ []) (hsep : '/' ∉ name)
    (hother : mount? name ≠ some .system ∧ mount? name ≠ some .proc) :
    ¬Uri.logosScheme ++ (name ++ ['/']) <+: uri := by
  intro hstart
  have hname := ns_of_resolve hne hsep hstart h
  rcases hmount with rfl | rfl
  · exact hother.1 hname
  · exact hother.2 hname

/-- A URI of the proc namespace is not `Protected`. -/
theorem not_protected_of_resolve (h : table.resolve uri = .ok (.proc, path)) : ¬Protected uri := by
  have hscheme : ∀ name : Str, name ∈ ["services".toList, "system".toList, "devices".toList] →
      ¬Uri.logosScheme ++ (name ++ ['/']) <+: uri := by
    intro name hname hstart
    have hother : ∀ name ∈ ["services".toList, "system".toList, "devices".toList],
        name ≠ [] ∧ '/' ∉ name ∧ mount? name ≠ some .proc := by decide
    obtain ⟨hne, hsep, hmount⟩ := hother name hname
    exact hmount (ns_of_resolve hne hsep hstart h)
  rintro (hstart | hstart | hstart)
  all_goals rw [Str.startsWith_iff] at hstart
  · exact hscheme "services" (by decide) hstart
  · exact hscheme "system" (by decide) hstart
  · exact hscheme "devices" (by decide) hstart

/-- **What a change of the system or of the proc namespace does to the database**, when its URI is
not `Protected`: `serve` does what the namespace does. -/
theorem world_serve {si : SessionInfo} {rawUri : Str} {op : Operation}
    (hmount : mount = .system ∨ mount = .proc)
    (h : table.resolve (resolveUri rawUri (some si)) = .ok (mount, path))
    (hunprotected : ¬Protected (resolveUri rawUri (some si))) :
    (eval (kernelHandler outside) (LogosService.serve json table (some si) (.uri rawUri op)) k).2.world
      = (eval (kernelHandler outside) (table.serveMount json path op mount) k).2.world := by
  rw [LogosService.serve]
  generalize resolveUri rawUri (some si) = uri at h hunprotected ⊢
  have hsandbox : ¬Uri.logosScheme ++ ("sandbox".toList ++ ['/']) <+: uri :=
    not_startsWith_of_resolve hmount h (by decide) (by decide) (by decide)
  have hmemory : ¬Uri.logosScheme ++ ("memory".toList ++ ['/']) <+: uri :=
    not_startsWith_of_resolve hmount h (by decide) (by decide) (by decide)
  have haccepts : Accepts json (some si) uri op.isWrite k.world := by
    rw [accepts_some_iff]
    refine ⟨fun rest hrest => absurd ?_ hsandbox, fun _ _ => hunprotected⟩
    rw [Str.stripPrefix_eq_some_iff] at hrest
    exact ⟨rest, hrest.symm⟩
  have hcheck : eval handler (checkAccess json (some si) uri op.isWrite) k.world = (.ok (), k.world) :=
    Prod.ext haccepts (eval_checkAccess_snd (some si) uri op.isWrite k.world)
  have hbefore : JsonValidator.before json uri op = pure () := by
    rw [before_eq_pure_iff]
    rintro ⟨hneeds, -⟩
    rw [JsonValidator.needsJsonValidation, decide_eq_true_eq] at hneeds
    rcases hneeds.2 with hsystem | hstart
    · exact hunprotected (.inr (.inl hsystem))
    · rw [Str.startsWith_iff] at hstart
      exact hmemory hstart
  rw [Program.eval_bind, eval_onSystem, hcheck, Program.evalNext_ok, Program.eval_mapError,
    RoutingTable.serve, hbefore, pure_bind, h]

/-- **A task that is described is not what it was**: the time of the change is written into its row,
where the operation `Describes` it. -/
theorem find?_serveSystem_ne {op : Operation} {path : List Str} {id : Str} {row : TaskRow}
    (h : op.Describes json path id) (hrow : k.world.db.tasks.find? id = some row)
    (hplan : System.PlanText json row.planTodo) (hnow : (k.world.clock 0).isoSecond ≠ row.updatedAt) :
    (eval (kernelHandler outside) (RoutingTable.serveSystem json path op) k).2.world.db.tasks.find? id
      ≠ some row := by
  have hupdate : ∀ text, (eval handler (System.TaskDb.updateDescription id text) k.world).2.db.tasks.find?
      id ≠ some row := by
    intro text heq
    obtain ⟨w', heval, hsame⟩ := System.eval_updateDescription_task k.world id text
    rw [heval, hsame.tasks, World.withTasks_tasks, System.Tasks.find?_setDescription_self, hrow,
      Option.map_some, Option.some_inj] at heq
    exact hnow (congrArg TaskRow.updatedAt heq)
  -- What the kernel adds to the program of the system module leaves the world alone.
  have hworld : ∀ p : SystemM Unit, (eval (kernelHandler outside) (do
      onSystem p
      return [] : KernelM Str) k).2.world = (eval handler p k.world).2 := by
    intro p
    rw [Program.eval_bind, eval_onSystem]
    generalize eval handler p k.world = ended
    obtain ⟨_ | _, w⟩ := ended <;> rfl
  have hwrite : ∀ rest text, System.SystemModule.write json
      ("tasks".toList :: id :: "description".toList :: rest) text
        = System.TaskDb.updateDescription id text := by
    intro rest text
    unfold System.SystemModule.write
    dsimp only
    rw [if_pos rfl, if_pos rfl]
  cases op with
  | read => exact h.elim
  | write content =>
    obtain ⟨rest, rfl⟩ := h
    rw [RoutingTable.serveSystem, hworld, hwrite]
    exact hupdate content
  | patch partialText =>
    rw [RoutingTable.serveSystem, hworld]
    rcases h with ⟨rest, rfl⟩ | ⟨rfl, fields, hpatch, hdescription⟩
    · unfold System.SystemModule.patch
      dsimp only
      rw [hwrite]
      exact hupdate partialText
    · -- The patch is merged into the JSON of the task, which has a description.
      have hget : eval handler (System.SystemModule.read json ["tasks".toList, id]) k.world
          = (.ok (json.toStr (System.taskRowToJson json row)), k.world) := by
        unfold System.SystemModule.read
        dsimp only
        rw [if_pos rfl, Program.eval_bind, System.TaskDb.eval_get, hrow]
        rfl
      obtain ⟨text, htext⟩ : ∃ text,
          ((Json.deepMerge (System.taskRowToJson json row) (.object fields)).get "description").asStr
            = some text := by
        have hown : ((System.taskRowToJson json row).get? "description").bind Json.asStr
            = some row.description := by
          rw [System.taskRowToJson, Json.get?_ofPairs]
          rfl
        rw [Json.asStr_get, Json.get?_deepMerge _ (json.fromStr_sorted hpatch)]
        cases hlookup : Json.lookup "description" fields with
        | none => exact ⟨_, hown⟩
        | some value =>
          dsimp only
          rw [Option.bind_some, Json.asStr_deepMerge]
          exact Option.ne_none_iff_exists'.mp (hdescription value hlookup)
      unfold System.SystemModule.patch
      dsimp only
      rw [if_pos rfl, Program.eval_bind, hget, Program.evalNext_ok,
        json.fromStr_toStr _ (exact_taskRowToJson json hplan), hpatch]
      dsimp only
      rw [System.SystemModule.applyPatch, htext]
      exact hupdate text

end Requests

/-! ## Whoever overreaches does not keep to a task -/

section Overreaching

variable {σ : Type} (outside : Handler OutsideSig σ) {table : RoutingTable} {si : SessionInfo}
  {request : Request}

/-- **A request that completes a turn**, by `completion?`, does to the database what
`Complete.execute` does. -/
theorem world_completion {params : CompleteParams} (h : params ∈ table.completion? json si request)
    (k : KernelState σ) :
    (eval (kernelHandler outside) (LogosService.serve json table (some si) request) k).2.world
      = (eval handler (System.Complete.execute json params) k.world).2 := by
  cases request with
  | call toolName text =>
    obtain ⟨tool, htool, hworld⟩ := world_toolCall outside k h
    rw [LogosService.serve, Program.eval_mapError, ProcNs.call, htool]
    exact hworld
  | uri rawUri op =>
    cases op with
    | read => cases h
    | patch partialText => cases h
    | write content =>
      rw [RoutingTable.completion?] at h
      split at h
      · rename_i toolName callId field hresolve
        split at h
        · rename_i hfield
          subst hfield
          obtain ⟨tool, htool, hworld⟩ := world_toolCall outside k h
          have hcall : table.proc.write json [toolName, callId, "input".toList] content
              = table.proc.executeCall json toolName callId content := rfl
          rw [world_serve outside k (.inr rfl) hresolve (not_protected_of_resolve hresolve),
            RoutingTable.serveMount, RoutingTable.serveProc, hcall, ProcNs.executeCall, htool]
          dsimp only
          rw [Program.eval_bind, Program.eval_bind, Program.eval_outcome, Program.evalNext_ok,
            eval_onSlots, Program.evalNext_ok]
          exact hworld
        · cases h
      · cases h

/-- There is a kernel in which the task `id` has been created, and the clock has gone on since. -/
theorem exists_stranger [Inhabited σ] (json : JsonCodec) (id : Str) :
    ∃ (k : KernelState σ) (row : TaskRow), k.world.db.tasks.find? id = some row ∧
      row.status = .pending ∧ System.PlanText json row.planTodo ∧
        (k.world.clock 0).isoSecond ≠ row.updatedAt := by
  have hfree : (Table.empty : System.Tasks).find? (TaskRow.fresh id [] [] [] [] "user_message" []
      "2026-03-12T14:00:00Z").taskId = none := Table.find?_empty _
  obtain ⟨tasks, hinsert⟩ := Table.exists_insert?_of_find?_none hfree
  have htime : (⟨2026, 3, 12, 14, 0, 1⟩ : System.DateTime).isoSecond ≠ "2026-03-12T14:00:00Z" := by decide
  refine ⟨⟨⟨{ Db.empty with tasks := tasks }, fun _ => ⟨2026, 3, 12, 14, 0, 1⟩, .blind⟩,
    ⟨fun _ => none, fun _ => 0⟩, default⟩, _, Table.find?_insert?_self hinsert, rfl, ?_, ?_⟩
  · exact System.planText_nil
  · exact htime

/-- **A request that `Overreaches` does not keep to the session's task**: it changes the row of a
task that has been created before. -/
theorem not_keepsToTask_of_overreaches [Inhabited σ] (h : table.Overreaches json si request) :
    ¬KeepsToTask json outside table si request := by
  intro hkeeps
  rcases h with ⟨params, hparams, htask, hown, hother⟩ | ⟨rawUri, op, path, id, rfl, hresolve, hunprotected, hdescribes, hid⟩
  · obtain ⟨k, row, hrow, hpending, -, -⟩ := exists_stranger (σ := σ) json params.taskId
    have hstranger : ¬table.Own json si request params.taskId := by
      rintro (heq | ⟨params', hparams', -, heq⟩)
      · exact hown heq
      · rw [Option.mem_unique hparams' hparams] at heq
        exact hother heq
    have hkept := (hkeeps k).tasks _ _ hstranger hrow
    rw [world_completion outside hparams] at hkept
    exact find?_execute_ne htask hother hrow hpending hkept
  · obtain ⟨k, row, hrow, -, hplan, hnow⟩ := exists_stranger (σ := σ) json id
    have hstranger : ¬table.Own json si (.uri rawUri op) id := by
      rintro (heq | ⟨params, hparams, -, -⟩)
      · exact hid heq
      · cases op with
        | read => cases hparams
        | patch partialText => cases hparams
        | write content =>
          rw [RoutingTable.completion?, hresolve] at hparams
          cases hparams
    have hkept := (hkeeps k).tasks _ _ hstranger hrow
    rw [world_serve outside k (.inl rfl) hresolve hunprotected] at hkept
    exact find?_serveSystem_ne outside k hdescribes hrow hplan hnow hkept

end Overreaching

/-- The user of another task. -/
def userOfTwo : SessionInfo := ⟨"t-2", "a-1", .user⟩

/-- The namespaces, with the tool that ends turns. -/
def turnTable : RoutingTable :=
  ⟨true, onData, ⟨[⟨"system.complete", .null, .complete⟩], onData.sandbox⟩⟩

/-- The end of the turn of `t-1`, as a call. -/
def endTurn : Request := .call "system.complete" (JsonText.codec.toStr turn)

end LogosFs.Kernel
