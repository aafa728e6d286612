import LogosFs.System.Atomicity
import LogosFs.System.Namespace

/-! # What a successful call of `logos_complete` has done

A call of `execute` takes one of four ways, chosen by its parameters (`CompleteParams.mode`).
`Succeeded` says what the two tables look like after a call that succeeded, for each way, and that
all other rows are as they were: `succeeded_of_ok`. -/

namespace LogosFs.System

open Program (eval)

/-- The ways a turn can end. -/
inductive Mode where
  /-- The current task is discarded, another one resumed. -/
  | resume
  /-- The current task sleeps on a plan. -/
  | plan
  /-- The current task sleeps. -/
  | sleep
  /-- The current task is finished. -/
  | finish
deriving DecidableEq, Repr

/-- The way that the parameters choose. -/
def CompleteParams.mode (params : CompleteParams) : Mode :=
  if params.resumeTaskId ≠ [] then .resume
  else if params.planTodo ≠ [] ∧ params.taskId ≠ [] then .plan
  else if params.sleepReason ≠ [] then .sleep
  else .finish

/-- Whether the parameters ask for an anchor, in a way of ending that makes one. -/
def CompleteParams.Anchored (params : CompleteParams) : Prop :=
  params.anchor = true ∧ params.taskId ≠ [] ∧ params.mode ≠ .resume

instance (params : CompleteParams) : Decidable params.Anchored :=
  inferInstanceAs (Decidable (_ ∧ _))

/-- The tasks that the parameters name. -/
def CompleteParams.Names (params : CompleteParams) (taskId : Str) : Prop :=
  taskId ≠ [] ∧ (taskId = params.taskId ∨ taskId = params.resumeTaskId)

namespace Complete

variable (json : JsonCodec)

/-- What resuming has done: the current task, if there is one, is gone, and the one to resume,
another one that was pending or asleep, is active. -/
structure Resumed (params : CompleteParams) (tasks tasks' : Tasks) : Prop where
  /-- The current task is gone. -/
  discarded : params.taskId ≠ [] → tasks'.find? params.taskId = none
  /-- The task to resume is another one. -/
  other : params.resumeTaskId ≠ params.taskId
  /-- It was pending or asleep and is active now. -/
  activated : ∃ row now, tasks.find? params.resumeTaskId = some row ∧
    (row.status = .pending ∨ row.status = .sleep) ∧
    tasks'.find? params.resumeTaskId = some (row.withStatus .active now)

/-- The row of the current task before and after a turn that did not resume another one. -/
def Ended (params : CompleteParams) (row row' : TaskRow) : Prop :=
  match params.mode with
  | .resume => False
  | .plan => row'.status = .sleep ∧ json.stringsFromStr row'.planTodo = some params.planTodo
  | .sleep => row'.status = .sleep ∧ row'.planTodo = row.planTodo
  | .finish => row'.status = .finished ∧ row'.planTodo = row.planTodo

/-- A task that regenerates a summary, not yet started. -/
structure Regenerates (row : TaskRow) : Prop where
  /-- It is pending. -/
  pending : row.status = .pending
  /-- An anchor triggered it. -/
  trigger : row.trigger = "anchor"
  /-- Its name. -/
  name : ("regen-summary-" : Str) <+: row.taskId

/-- The tasks that a call does not name: as they were, but for at most one new one. -/
structure OthersKept (params : CompleteParams) (new : Option TaskRow) (tasks tasks' : Tasks) :
    Prop where
  /-- The new task regenerates a summary, after an anchor outside a plan. -/
  regenerates : ∀ row ∈ new, Regenerates row ∧ params.Anchored ∧ params.mode ≠ .plan
  /-- All others are as they were. -/
  others : ∀ id, ¬params.Names id →
    tasks'.find? id = (tasks.find? id).or (new.filter fun row => row.taskId = id)

/-- What a successful call has done. -/
structure Succeeded (params : CompleteParams) (result : CompleteResult) (db db' : Db) : Prop where
  /-- A call that resumes has discarded one task and activated another one. -/
  resumed : params.mode = .resume → Resumed params db.tasks db'.tasks
  /-- Any other call has moved the current task, which existed and was not finished. -/
  ended : params.mode ≠ .resume → params.taskId ≠ [] → ∃ row row',
    db.tasks.find? params.taskId = some row ∧ row.status ∈ [.pending, .active, .sleep] ∧
    db'.tasks.find? params.taskId = some row' ∧ Ended json params row row'
  /-- An anchor was added if one was asked for, and no other one. -/
  anchors : db'.anchors.contents.map (fun row => (row.taskId, row.id))
    = db.anchors.contents.map (fun row => (row.taskId, row.id))
      ++ if params.Anchored then [(params.taskId, result.anchorId)] else []
  /-- All other tasks are as they were, but for one that regenerates a summary. -/
  others : ∃ new, OthersKept params new db.tasks db'.tasks

/-! ## The parts of a successful call -/

section Parts

variable {json} {params : CompleteParams} {w w' : World}

/-- A `transitionStatus` that succeeds was possible by `CanMove`, and has set the status. -/
theorem of_transitionStatus_ok {taskId : Str} {new : TaskStatus}
    (h : eval handler (TaskDb.transitionStatus taskId new.text) w = (.ok (), w')) :
    TaskDb.CanMove w.db.tasks taskId new ∧
      w' = w.tick.withTasks (w.db.tasks.setStatus taskId new (w.clock 0).isoSecond) := by
  by_cases hmove : TaskDb.CanMove w.db.tasks taskId new
  · rw [TaskDb.eval_transitionStatus_of_canMove w hmove] at h
    exact ⟨hmove, (congrArg Prod.snd h).symm⟩
  · obtain ⟨e, hrun⟩ := TaskDb.eval_transitionStatus_of_not_canMove w hmove
    rw [hrun] at h
    cases h

/-- A task that `CanMove` after activation was there before it, and not finished. -/
theorem exists_row_of_canMove {taskId : Str} {tasks : Tasks} {new : TaskStatus}
    (hmove : TaskDb.CanMove tasks taskId new)
    (hstatus : (tasks.find? taskId).map (·.status)
      = ((activated taskId w).db.tasks.find? taskId).map (·.status)) :
    ∃ row, w.db.tasks.find? taskId = some row ∧ row.status ≠ .finished := by
  obtain ⟨moved, hmoved, hvalid⟩ := hmove
  rw [hmoved, Option.map_some] at hstatus
  cases hrow : w.db.tasks.find? taskId with
  | none =>
    rw [activated_of_none hrow, hrow] at hstatus
    cases hstatus
  | some row =>
    refine ⟨row, rfl, fun hfinished => ?_⟩
    rw [activated_of_finished hrow hfinished, hrow, Option.map_some, Option.some_inj, hfinished]
      at hstatus
    rw [hstatus] at hvalid
    exact finished_not_mem_validTransitions new hvalid

/-- `insertRow` that succeeds adds one row to the anchors; the tasks are as they were. -/
theorem of_insertRow_ok {row : AnchorRow} {anchorId : Str}
    (h : eval handler (AnchorDb.insertRow row) w = (.ok anchorId, w')) :
    anchorId = row.id ∧ w.db.anchors.insert? row = some w'.db.anchors ∧
      w'.db.tasks = w.db.tasks := by
  cases hold : w.db.anchors.find? (row.taskId, row.id) with
  | none =>
    obtain ⟨anchors, w₁, hrun, hinsert, hsame⟩ := AnchorDb.eval_insertRow_of_free w row hold
    rw [hrun] at h
    cases h
    exact ⟨rfl, hinsert.trans (congrArg some hsame.anchors.symm), hsame.tasks⟩
  | some old =>
    obtain ⟨e, hrun⟩ := AnchorDb.eval_insertRow_of_conflict w hold
    rw [hrun] at h
    cases h

/-- `anchorIfRequested` that succeeds adds one anchor where one is asked for; the tasks are as they
were. -/
theorem of_anchorIfRequested_ok {anchorId : Str} (hmode : params.mode ≠ .resume)
    (h : eval handler (anchorIfRequested json params) w = (.ok anchorId, w')) :
    w'.db.tasks = w.db.tasks ∧
      w'.db.anchors.contents.map (fun row => (row.taskId, row.id))
        = w.db.anchors.contents.map (fun row => (row.taskId, row.id))
          ++ if params.Anchored then [(params.taskId, anchorId)] else [] := by
  rw [anchorIfRequested] at h
  split at h
  · rename_i hrequested
    rw [AnchorDb.eval_create] at h
    obtain ⟨rfl, hinsert, htasks⟩ := of_insertRow_ok h
    refine ⟨htasks, ?_⟩
    rw [if_pos ⟨hrequested.1, hrequested.2, hmode⟩, (Table.insert?_eq_some hinsert).2,
      List.map_append]
    -- before the insertion only facts have changed
    exact congrArg (· ++ _) (AnchorDb.keys_supersede ..)
  · rename_i hrequested
    rw [if_neg fun hanchored => hrequested ⟨hanchored.1, hanchored.2.1⟩, List.append_nil]
    cases h
    exact ⟨rfl, rfl⟩

/-- `find?` after `insert?` finds the new row under its key, and what was there under the others. -/
theorem find?_of_insert? {tasks tasks' : Tasks} {row : TaskRow}
    (h : tasks.insert? row = some tasks') (id : Str) :
    tasks'.find? id = (tasks.find? id).or ((some row).filter fun row => row.taskId = id) := by
  by_cases hid : id = row.taskId
  · have hfree : tasks.find? row.taskId = none := (Table.insert?_eq_some h).1
    rw [hid, Table.find?_insert?_self h, hfree, Option.none_or]
    simp [Option.filter]
  · have hother : row.taskId ≠ id := fun h => hid h.symm
    rw [Table.find?_insert?_ne h hid]
    simp [Option.filter, hother]

variable (json w) in
/-- `regenSummary` never fails: the task that regenerates a summary is created, or its name is
taken, and no other row changes. -/
theorem eval_regenSummary (anchorId : Str) :
    ∃ (new : Option TaskRow) (w' : World), eval handler (regenSummary json anchorId) w = (.ok (), w') ∧
      w'.db.anchors = w.db.anchors ∧ (∀ row ∈ new, Regenerates row) ∧ ∀ id, w'.db.tasks.find? id
        = (w.db.tasks.find? id).or (new.filter fun row => row.taskId = id) := by
  simp only [regenSummary, Program.eval_bind, eval_utcNow, Program.evalNext_ok,
    Program.eval_ignoreError]
  rcases eval_create_task json w.tick (json.toStr (regenContent anchorId (w.clock 0)))
    with ⟨e, w', hrun, hsame⟩ | ⟨value, tasks, w', hparse, hinsert, hrun, hsame⟩
  · rw [hrun]
    refine ⟨none, w', rfl, hsame.anchors, fun _ h => (by cases h), fun id => ?_⟩
    rw [hsame.tasks, Option.filter_none, Option.or_none, World.tick_db]
  · rw [json.fromStr_toStr _ (exact_regenContent anchorId (w.clock 0))] at hparse
    cases hparse
    rw [hrun]
    refine ⟨some (TaskDb.newRow (regenContent anchorId (w.clock 0)) (w.tick.clock 0)), w', rfl,
      hsame.anchors, ?_, fun id => ?_⟩
    · rintro row ⟨⟩
      rw [newRow_regenContent]
      exact ⟨rfl, rfl, List.prefix_append _ _⟩
    · rw [hsame.tasks]
      exact find?_of_insert? hinsert id

/-! ## The four ways -/

variable {result : CompleteResult}

/-- Activating the task to resume, once the current one is gone, leaves what `Resumed` says. -/
theorem resumed_of_canMove {tasks : Tasks} (hresume : params.resumeTaskId ≠ [])
    (hgone : params.taskId ≠ [] → tasks.find? params.taskId = none)
    (hothers : ∀ id, ¬(id = params.taskId ∧ id ≠ []) → tasks.find? id = w.db.tasks.find? id)
    (hmove : TaskDb.CanMove tasks params.resumeTaskId .active) (now : Str) :
    Resumed params w.db.tasks (tasks.setStatus params.resumeTaskId .active now) := by
  obtain ⟨row, hrow, hvalid⟩ := hmove
  have hother : params.resumeTaskId ≠ params.taskId := by
    intro hsame
    rw [hsame, hgone (hsame ▸ hresume)] at hrow
    cases hrow
  refine ⟨fun htask => ?_, hother, row, now, ?_, ?_, ?_⟩
  · rw [Tasks.find?_setStatus_ne _ _ _ _ hother.symm, hgone htask]
  · rw [← hothers _ fun h => hother h.1, hrow]
  · -- the life cycle has two steps to `active`
    revert hvalid
    cases row.status <;> decide
  · rw [Tasks.find?_setStatus_self, hrow, Option.map_some]

/-- A call that resumes and succeeds leaves what `Succeeded` says. -/
theorem succeeded_of_resume (hresume : params.resumeTaskId ≠ [])
    (h : eval handler (execute json params) w = (.ok result, w')) :
    Succeeded json params result w.db w'.db := by
  have hmode : params.mode = .resume := if_pos hresume
  have hnothing : ¬params.Anchored := fun hanchored => hanchored.2.2 hmode
  -- the world in which the task to resume is activated
  have hlast : ∃ w₁, eval handler (TaskDb.transitionStatus params.resumeTaskId
        TaskStatus.active.text) w₁ = (.ok (), w') ∧ w₁.db.anchors = w.db.anchors ∧
      (params.taskId ≠ [] → w₁.db.tasks.find? params.taskId = none) ∧
      ∀ id, ¬(id = params.taskId ∧ id ≠ []) → w₁.db.tasks.find? id = w.db.tasks.find? id := by
    by_cases htask : params.taskId = []
    · refine ⟨w, ?_, rfl, fun hne => absurd htask hne, fun _ _ => rfl⟩
      simp only [execute, Program.eval_bind, eval_activate_of_nil w htask, Program.evalNext_ok,
        if_pos hresume, resume, htask, ne_eq, not_true_eq_false, if_false] at h
      obtain ⟨⟨⟩, w₂, hmove, hpure⟩ := Program.exists_of_eval_bind_ok handler
        ((Program.eval_bind ..).trans h)
      cases hpure
      exact hmove
    · rw [eval_execute_resume json w hresume htask, ← Program.eval_bind] at h
      obtain ⟨⟨⟩, w₂, hmove, hpure⟩ := Program.exists_of_eval_bind_ok handler h
      cases hpure
      refine ⟨_, hmove, activated_anchors, fun _ => Table.find?_delete_self, fun id hid => ?_⟩
      have hne : id ≠ params.taskId := fun hsame => hid ⟨hsame, hsame ▸ htask⟩
      exact (Table.find?_delete_ne hne).trans (find?_activated_ne hne)
  obtain ⟨w₁, hrun, hanchors, hgone, hothers⟩ := hlast
  obtain ⟨hmove, rfl⟩ := of_transitionStatus_ok hrun
  refine ⟨fun _ => resumed_of_canMove hresume hgone hothers hmove _, fun hne => absurd hmode hne,
    ?_, none, fun _ h => (by cases h), fun id hid => ?_⟩
  · rw [if_neg hnothing, List.append_nil]
    exact congrArg (fun anchors : Anchors => anchors.contents.map _) hanchors
  · have hresumed : id ≠ params.resumeTaskId := fun hsame => hid ⟨hsame ▸ hresume, .inr hsame⟩
    rw [Option.filter_none, Option.or_none, World.withTasks_tasks,
      Tasks.find?_setStatus_ne _ _ _ _ hresumed]
    exact hothers id fun hsame => hid ⟨hsame.2, .inl hsame.1⟩

/-- What `Succeeded` says of a call that does not resume: the row of the current task `Became`
another one, then the anchor is created where it is asked for, and then perhaps the task that
regenerates a summary. -/
theorem succeeded_of_became {row row' : TaskRow} {w₁ w₂ : World} {new : Option TaskRow}
    (hmode : params.mode ≠ .resume) (htask : params.taskId ≠ [])
    (hrow : w.db.tasks.find? params.taskId = some row) (hfinished : row.status ≠ .finished)
    (hanchor : eval handler (anchorIfRequested json params) w₁ = (.ok result.anchorId, w₂))
    (hbecame : Became params.taskId row' w.db.tasks w₁.db.tasks) (hended : Ended json params row row')
    (hanchors : w₁.db.anchors = w.db.anchors)
    (hanchors' : w'.db.anchors = w₂.db.anchors)
    (hnew : ∀ row ∈ new, Regenerates row ∧ params.Anchored ∧ params.mode ≠ .plan)
    (hothers : ∀ id, w'.db.tasks.find? id
      = (w₂.db.tasks.find? id).or (new.filter fun row => row.taskId = id)) :
    Succeeded json params result w.db w'.db := by
  obtain ⟨htasks, hkeys⟩ := of_anchorIfRequested_ok hmode hanchor
  rw [htasks] at hothers
  refine ⟨fun h => absurd h hmode, fun _ _ => ⟨row, row', hrow, ?_, ?_, hended⟩, ?_, new, hnew, ?_⟩
  · revert hfinished
    cases row.status <;> decide
  · rw [hothers, hbecame.self, Option.some_or]
  · rw [hanchors', hkeys, hanchors]
  · intro id hid
    rw [hothers, hbecame.others id fun hsame => hid ⟨hsame ▸ htask, .inl hsame⟩]

/-- A call with a plan that succeeds leaves what `Succeeded` says. -/
theorem succeeded_of_plan (hresume : params.resumeTaskId = []) (hplan : params.planTodo ≠ [])
    (htask : params.taskId ≠ [])
    (h : eval handler (execute json params) w = (.ok result, w')) :
    Succeeded json params result w.db w'.db := by
  have hmode : params.mode = .plan := by
    rw [CompleteParams.mode, if_neg (not_not.mpr hresume), if_pos ⟨hplan, htask⟩]
  rw [eval_execute_plan json w hresume hplan htask, ← Program.eval_bind] at h
  obtain ⟨⟨⟩, w₁, hmove, h⟩ := Program.exists_of_eval_bind_ok handler h
  obtain ⟨anchorId, w₂, hanchor, hpure⟩ := Program.exists_of_eval_bind_ok handler h
  cases hpure
  obtain ⟨hcan, rfl⟩ := of_transitionStatus_ok hmove
  obtain ⟨row, hrow, hfinished⟩ := exists_row_of_canMove hcan (by
    rw [World.withTasks_tasks, Tasks.find?_setPlanTodo_self, Option.map_map]; rfl)
  obtain ⟨now, hactive⟩ := activated_became hrow hfinished
  have hplanned := hactive.setPlanTodo (json.toStr (.strings params.planTodo))
    ((activated params.taskId w).clock 0).isoSecond
  have hslept := hplanned.setStatus .sleep ((activated params.taskId w).clock 1).isoSecond
  have hanchors : (activated params.taskId w).db.anchors = w.db.anchors := activated_anchors
  refine succeeded_of_became (by rw [hmode]; decide) htask hrow hfinished hanchor hslept ?_ hanchors
    rfl (fun row (hrow : row ∈ none) => by cases hrow) fun id => ?_
  · rw [Ended, hmode]
    exact ⟨rfl, json.stringsFromStr_strings params.planTodo⟩
  · rw [Option.filter_none, Option.or_none]

/-- Any other call that succeeds leaves what `Succeeded` says. -/
theorem succeeded_of_settle (hresume : params.resumeTaskId = [])
    (hplan : ¬(params.planTodo ≠ [] ∧ params.taskId ≠ []))
    (h : eval handler (execute json params) w = (.ok result, w')) :
    Succeeded json params result w.db w'.db := by
  have hmode : params.mode = if params.sleepReason ≠ [] then .sleep else .finish := by
    rw [CompleteParams.mode, if_neg (not_not.mpr hresume), if_neg hplan]
  by_cases htask : params.taskId = []
  · -- without a current task the call only answers
    have hnothing : ¬params.Anchored := fun hanchored => hanchored.2.1 htask
    simp only [execute, Program.eval_bind, eval_activate_of_nil w htask, Program.evalNext_ok,
      hresume, htask, ne_eq, not_true_eq_false, if_false, and_false, settle, anchorIfRequested,
      Program.eval_pure, Prod.mk.injEq, Except.ok.injEq] at h
    obtain ⟨-, rfl⟩ := h
    refine ⟨fun h => ?_, fun _ hne => absurd htask hne, ?_, none, fun _ h => (by cases h),
      fun id _ => ?_⟩
    · rw [hmode] at h
      split at h <;> cases h
    · rw [if_neg hnothing, List.append_nil]
    · rw [Option.filter_none, Option.or_none]
  · have hnil : params.planTodo = [] := by
      by_contra hne
      exact hplan ⟨hne, htask⟩
    have hnotResume : params.mode ≠ .resume := by rw [hmode]; split <;> decide
    have hnotPlan : params.mode ≠ .plan := by rw [hmode]; split <;> decide
    rw [eval_execute_settle json w hresume hnil htask, ← Program.eval_bind] at h
    obtain ⟨⟨⟩, w₁, hmove, hsettle⟩ := Program.exists_of_eval_bind_ok handler h
    obtain ⟨anchorId, w₂, hanchor, hlast⟩ := Program.exists_of_eval_bind_ok handler hsettle
    obtain ⟨hcan, rfl⟩ := of_transitionStatus_ok hmove
    obtain ⟨row, hrow, hfinished⟩ := exists_row_of_canMove hcan rfl
    obtain ⟨now, hactive⟩ := activated_became hrow hfinished
    have hmoved := hactive.setStatus (newStatus params)
      ((activated params.taskId w).clock 0).isoSecond
    have hended : Ended json params row ((row.withStatus .active now).withStatus
        (newStatus params) ((activated params.taskId w).clock 0).isoSecond) := by
      rw [Ended, hmode, newStatus]
      split_ifs <;> exact ⟨rfl, rfl⟩
    have hanchors : (activated params.taskId w).db.anchors = w.db.anchors := activated_anchors
    -- the task that regenerates a summary comes after an anchor only
    by_cases hrequested : params.anchor ∧ params.taskId ≠ []
    · rw [if_pos hrequested] at hlast
      obtain ⟨new, w₃, hregen, hanchors', hnew, hothers⟩ := eval_regenSummary json w₂ anchorId
      rw [Program.eval_bind, hregen] at hlast
      cases hlast
      exact succeeded_of_became hnotResume htask hrow hfinished hanchor hmoved hended hanchors
        hanchors' (fun row hrow => ⟨hnew row hrow, ⟨hrequested.1, htask, hnotResume⟩, hnotPlan⟩)
        hothers
    · rw [if_neg hrequested] at hlast
      cases hlast
      refine succeeded_of_became hnotResume htask hrow hfinished hanchor hmoved hended hanchors
        rfl (fun row (hrow : row ∈ none) => by cases hrow) fun id => ?_
      rw [Option.filter_none, Option.or_none]

end Parts

variable {params : CompleteParams} {result : CompleteResult} {w : World}

/-- **The success contract of `logos_complete`**: what a call that answers with a result has done,
for every state of the tables and all parameters. -/
theorem succeeded_of_ok (h : (eval handler (execute json params) w).1 = .ok result) :
    Succeeded json params result w.db (eval handler (execute json params) w).2.db := by
  have hrun : eval handler (execute json params) w
      = (.ok result, (eval handler (execute json params) w).2) := Prod.ext h rfl
  by_cases hresume : params.resumeTaskId = []
  · by_cases hplan : params.planTodo ≠ [] ∧ params.taskId ≠ []
    · exact succeeded_of_plan hresume hplan.1 hplan.2 hrun
    · exact succeeded_of_settle hresume hplan hrun
  · exact succeeded_of_resume hresume hrun

/-- A call on `t-1` that leaves an anchor and goes to sleep. -/
def sleepWithAnchor : CompleteParams where
  taskId := "t-1"
  summary := "waiting for review"
  reply := "will continue later"
  anchor := true
  anchorFacts := "[]"
  taskLog := []
  sleepReason := "review"
  sleepRetry := false
  resumeTaskId := []
  planTodo := []

/-- The contract `Succeeded` of a call that leaves an anchor and goes to sleep. -/
theorem succeeded_of_ok_sleepWithAnchor :
    Succeeded JsonText.codec sleepWithAnchor
      ⟨"will continue later", "2026-03-12T14:00", [], "t-1"⟩ onePending.db
      (eval handler (execute JsonText.codec sleepWithAnchor) onePending).2.db :=
  succeeded_of_ok JsonText.codec (by decide +kernel)

end Complete

end LogosFs.System
