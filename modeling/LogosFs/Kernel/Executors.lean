import LogosFs.Kernel.PlanItems
import LogosFs.System.Lifecycle

/-! # One executor per planner

Before the scheduler takes an item off a plan it asks whether an executor of the planner is active.
Executors are born pending, and may sleep, so the question does not see all that are unfinished.
`oneExecutor_of_reached` follows the ticks of the scheduler, the ends of turns and the transitions in
any order: as long as no tick meets an unfinished executor that the question does not see, no planner
ever has two. -/

namespace LogosFs.Kernel

open Program (eval Leads Closed)
open LogosFs.System (World Db SystemM Statement Tasks TaskRow handler)

variable (json : JsonCodec)

/-- A task that the scheduler created for an item of a planner's plan, and that is not finished. -/
def Outstanding (tasks : Tasks) (plannerId id : Str) : Prop :=
  ∃ row, tasks.find? id = some row ∧ row.trigger = "plan".toList ∧ row.planParent = plannerId ∧
    row.status ≠ .finished

/-- No planner has two unfinished executors. -/
def OneExecutor (tasks : Tasks) : Prop :=
  ∀ plannerId id id', Outstanding tasks plannerId id → Outstanding tasks plannerId id' → id = id'

/-- Executors that are new are created only for planners without an unfinished one. -/
def SpawnsAlone (tasks tasks' : Tasks) : Prop :=
  ∀ plannerId id, Outstanding tasks' plannerId id → Outstanding tasks plannerId id ∨
    tasks.find? id = none ∧ ∀ id', ¬Outstanding tasks plannerId id'

/-- Whether the scheduler's question finds an executor of the planner. -/
def ExecutorActive (tasks : Tasks) (plannerId : Str) : Prop :=
  ∃ row ∈ tasks.contents, row.planParent = plannerId ∧ row.status = .active

/-- The question whether an executor is active sees enough: a planner that has items left has an
active executor, or no unfinished one. -/
def Guarded (tasks : Tasks) (plannerId : Str) : Prop :=
  planItems json tasks plannerId ≠ [] →
    ExecutorActive tasks plannerId ∨ ∀ id, ¬Outstanding tasks plannerId id

/-- The question sees enough for every planner that a tick looks at. -/
def TickGuarded (tasks : Tasks) : Prop :=
  ∀ row ∈ tasks.contents, row.status = .sleep → Guarded json tasks row.taskId

section Decidable

variable {json} {tasks : Tasks}

instance (plannerId id : Str) : Decidable (Outstanding tasks plannerId id) :=
  inferInstanceAs (Decidable (∃ row ∈ tasks.find? id, row.trigger = "plan".toList ∧
    row.planParent = plannerId ∧ row.status ≠ .finished))

/-- An unfinished executor, `Outstanding`, is a row of the tasks that names its planner. -/
theorem Outstanding.exists_row {plannerId id : Str} (h : Outstanding tasks plannerId id) :
    ∃ row ∈ tasks.contents, row.taskId = id ∧ row.planParent = plannerId := by
  obtain ⟨row, hrow, -, hparent, -⟩ := h
  exact ⟨row, Table.mem_of_find? hrow, Table.key_of_find? hrow, hparent⟩

/-- Looking at the rows is enough to see whether a planner has an `Outstanding` executor. -/
theorem forall_not_outstanding_iff {plannerId : Str} :
    (∀ row ∈ tasks.contents, ¬Outstanding tasks plannerId row.taskId) ↔
      ∀ id, ¬Outstanding tasks plannerId id := by
  refine ⟨fun h id hid => ?_, fun h row _ => h row.taskId⟩
  obtain ⟨row, hrow, rfl, -⟩ := hid.exists_row
  exact h row hrow hid

/-- `OneExecutor` can be checked row by row. -/
theorem forall_eq_iff_oneExecutor :
    (∀ row ∈ tasks.contents, ∀ row' ∈ tasks.contents,
      Outstanding tasks row.planParent row.taskId → Outstanding tasks row.planParent row'.taskId →
        row.taskId = row'.taskId) ↔ OneExecutor tasks := by
  refine ⟨fun h plannerId id id' hid hid' => ?_, fun h row _ row' _ => h _ _ _⟩
  obtain ⟨row, hrow, rfl, rfl⟩ := hid.exists_row
  obtain ⟨row', hrow', rfl, -⟩ := hid'.exists_row
  exact h row hrow row' hrow' hid hid'

instance : Decidable (OneExecutor tasks) := decidable_of_iff _ forall_eq_iff_oneExecutor

instance (plannerId : Str) : Decidable (ExecutorActive tasks plannerId) :=
  inferInstanceAs (Decidable (∃ row ∈ tasks.contents, row.planParent = plannerId ∧
    row.status = .active))

instance (plannerId : Str) : Decidable (∀ id, ¬Outstanding tasks plannerId id) :=
  decidable_of_iff _ forall_not_outstanding_iff

instance (plannerId : Str) : Decidable (Guarded json tasks plannerId) :=
  inferInstanceAs (Decidable (planItems json tasks plannerId ≠ [] →
    ExecutorActive tasks plannerId ∨ ∀ id, ¬Outstanding tasks plannerId id))

instance : Decidable (TickGuarded json tasks) :=
  inferInstanceAs (Decidable (∀ row ∈ tasks.contents, row.status = .sleep →
    Guarded json tasks row.taskId))

end Decidable

/-! ## Ends of turns and transitions -/

/-- No task becomes an unfinished executor that was none before. -/
def NoneAppears (db db' : Db) : Prop :=
  ∀ plannerId id, Outstanding db'.tasks plannerId id → Outstanding db.tasks plannerId id

/-- Where the rows are the same, `NoneAppears`. -/
theorem NoneAppears.of_sameRows {db db' : Db} (h : System.SameRows db db') : NoneAppears db db' := by
  intro plannerId id hid
  exact h.tasks ▸ hid

/-- Where nothing happens, `NoneAppears`. -/
theorem NoneAppears.refl (db : Db) : NoneAppears db db := fun _ _ => id

/-- `NoneAppears` is transitive. -/
theorem NoneAppears.trans {db db' db'' : Db} (h : NoneAppears db db') (h' : NoneAppears db' db'') :
    NoneAppears db db'' := fun plannerId id hid => h plannerId id (h' plannerId id hid)

/-- A program that makes no unfinished executor appear. -/
abbrev Quiet {α : Type} (p : SystemM α) : Prop :=
  Leads handler (fun w w' : World => NoneAppears w.db w'.db) p

section NoneAppears

variable {tasks tasks' : Tasks} {plannerId id : Str}

/-- An `update` that keeps the origin of a row and does not wake it up makes no executor
`Outstanding`. -/
theorem outstanding_of_update {taskId : Str} {f : TaskRow → TaskRow}
    {hf : ∀ row, (f row).taskId = row.taskId}
    (h : Outstanding (tasks.update taskId f hf) plannerId id)
    (hkeeps : ∀ row, tasks.find? taskId = some row → (f row).trigger = row.trigger ∧
      (f row).planParent = row.planParent ∧ (row.status = .finished → (f row).status = .finished)) :
    Outstanding tasks plannerId id := by
  obtain ⟨row', hrow', htrigger, hparent, hstatus⟩ := h
  by_cases hid : id = taskId
  · subst hid
    rw [Table.find?_update_self, Option.map_eq_some_iff] at hrow'
    obtain ⟨row, hrow, rfl⟩ := hrow'
    obtain ⟨hsameTrigger, hsameParent, hfinished⟩ := hkeeps row hrow
    exact ⟨row, hrow, hsameTrigger ▸ htrigger, hsameParent ▸ hparent,
      fun hstill => hstatus (hfinished hstill)⟩
  · exact ⟨row', Table.find?_update_ne hid ▸ hrow', htrigger, hparent, hstatus⟩

/-- A task that was inserted is `Outstanding` only if its trigger is `plan` and its parent the
planner. -/
theorem outstanding_of_insert {row : TaskRow} (h : tasks.insert? row = some tasks')
    (hid : Outstanding tasks' plannerId id) : Outstanding tasks plannerId id ∨
      id = row.taskId ∧ row.trigger = "plan".toList ∧ row.planParent = plannerId := by
  obtain ⟨row', hrow', htrigger, hparent, hstatus⟩ := hid
  by_cases hnew : id = row.taskId
  · subst hnew
    rw [Table.find?_insert?_self h, Option.some_inj] at hrow'
    subst hrow'
    exact .inr ⟨rfl, htrigger, hparent⟩
  · exact .inl ⟨row', Table.find?_insert?_ne h hnew ▸ hrow', htrigger, hparent, hstatus⟩

/-- An executor that is `Outstanding` after `delete` was so before. -/
theorem outstanding_of_delete {taskId : Str} (h : Outstanding (tasks.delete taskId) plannerId id) :
    Outstanding tasks plannerId id := by
  obtain ⟨row, hrow, hrest⟩ := h
  by_cases hid : id = taskId
  · rw [hid, Table.find?_delete_self] at hrow
    cases hrow
  · exact ⟨row, Table.find?_delete_ne hid ▸ hrow, hrest⟩

end NoneAppears

/-- A statement that changes rows and makes no unfinished executor appear: not a change of a status,
nor the insertion of a task for a plan item. -/
def Harmless : Statement → Prop
  | .insertTask row => row.trigger ≠ "plan".toList
  | .updateStatus .. => False
  | _ => True

/-- A statement that is `Harmless` makes no unfinished executor appear: `NoneAppears` in
`System.exec` of it. -/
theorem noneAppears_exec {statement : Statement} (h : Harmless statement)
    (fts : System.FtsEngine) (db : Db) :
    NoneAppears db (System.exec fts statement db).2 := by
  intro plannerId id hid
  cases statement with
  | insertTask row =>
    rw [System.exec] at hid
    split at hid
    · rename_i tasks hinsert
      exact (outstanding_of_insert hinsert hid).resolve_right fun hnew => h hnew.2.1
    · exact hid
  | deleteTask => exact outstanding_of_delete hid
  | updateStatus => exact h.elim
  | updateDescription => exact outstanding_of_update hid fun _ _ => ⟨rfl, rfl, fun hrow => hrow⟩
  | updatePlanTodo => exact outstanding_of_update hid fun _ _ => ⟨rfl, rfl, fun hrow => hrow⟩
  | insertAnchor =>
    rw [System.exec] at hid
    split at hid <;> exact hid
  | insertTaskFts taskId =>
    obtain ⟨commands, hcommands⟩ := System.exec_insertTaskFts fts taskId db
    rw [hcommands] at hid
    exact hid
  | deleteTaskFts taskId =>
    obtain ⟨commands, hcommands⟩ := System.exec_deleteTaskFts fts taskId db
    rw [hcommands] at hid
    exact hid
  | _ => exact hid

/-- A program that `Writes` by `Harmless` statements only is `Quiet`. -/
theorem quiet_of_writes {α : Type} {W : Statement → Prop} {p : SystemM α} (h : System.Writes W p)
    (hW : ∀ statement, W statement → Harmless statement) : Quiet p :=
  h.leads NoneAppears.of_sameRows NoneAppears.trans fun statement hst =>
    noneAppears_exec (hW statement hst)

/-- A transition by `transitionStatus` is `Quiet`: it wakes no finished task up. -/
theorem quiet_transitionStatus (taskId newStatus : Str) :
    Quiet (System.TaskDb.transitionStatus taskId newStatus) := by
  intro w
  rw [System.TaskDb.transitionStatus, Program.eval_bind, System.eval_selectStatus,
    Program.evalNext_ok]
  cases hrow : w.db.tasks.find? taskId with
  | none => exact NoneAppears.refl w.db
  | some row =>
    dsimp only [Option.map_some]
    split
    · exact NoneAppears.refl w.db
    · rename_i seen new hfind
      have hvalid := System.mem_validTransitions_of_find? hfind
      rw [Program.eval_bind, System.eval_utcNow, Program.evalNext_ok, System.eval_updateStatus]
      intro plannerId id hid
      change Outstanding (w.db.tasks.setStatus taskId new (w.clock 0).isoSecond) plannerId id at hid
      refine outstanding_of_update hid fun found hfound => ⟨rfl, rfl, fun hfinished => ?_⟩
      -- The life cycle has no step from `finished`.
      rw [hrow, Option.some_inj] at hfound
      rw [hfound, hfinished] at hvalid
      exact absurd hvalid (System.finished_not_mem_validTransitions new)

/-- **The end of a turn**, `Complete.execute`, is `Quiet`: it makes no unfinished executor appear,
in any of its modes. -/
theorem quiet_execute (params : System.CompleteParams) :
    Quiet (System.Complete.execute json params) := by
  have hclosed : Closed fun {α} (p : SystemM α) => Quiet p :=
    Program.closed_leads handler (fun w => NoneAppears.refl w.db) NoneAppears.trans
  refine System.Complete.closed_execute hclosed (quiet_of_writes System.writes_utcNow fun _ => id)
    (fun _ _ => quiet_transitionStatus _ _) (fun _ => quiet_transitionStatus _ _)
    (fun _ _ => quiet_of_writes (System.writes_delete _) fun _ h => h ▸ trivial)
    (fun _ => quiet_of_writes (System.writes_setPlanTodo _ _) fun _ ⟨_, h⟩ => h ▸ trivial)
    (fun _ _ => quiet_of_writes (System.writes_createAnchor _ _ _) fun _ h => ?_)
    fun anchorId now => quiet_of_writes (System.writes_create _) fun _ h => ?_
  · rcases h with ⟨row, rfl, -⟩ | ⟨marked, id, text, rfl⟩ <;> trivial
  · obtain ⟨value, now', hparse, rfl⟩ := h
    rw [json.fromStr_toStr _ (System.Complete.exact_regenContent anchorId now)] at hparse
    cases hparse
    -- the task that regenerates a summary is not an executor
    show (System.TaskDb.newRow _ now').trigger ≠ _
    rw [System.Complete.newRow_regenContent]
    show "anchor".toList ≠ "plan".toList
    decide

/-! ## Rounds and ticks -/

/-- Every task is still there, with its origin and status. -/
def Grew (tasks tasks' : Tasks) : Prop :=
  ∀ id row, tasks.find? id = some row → ∃ row', tasks'.find? id = some row' ∧
    row'.trigger = row.trigger ∧ row'.planParent = row.planParent ∧ row'.status = row.status

section Grew

variable {tasks tasks' tasks'' : Tasks} {plannerId id : Str}

/-- `Grew` is reflexive. -/
theorem Grew.refl (tasks : Tasks) : Grew tasks tasks := fun _ row h => ⟨row, h, rfl, rfl, rfl⟩

/-- `Grew` is transitive. -/
theorem Grew.trans (h : Grew tasks tasks') (h' : Grew tasks' tasks'') : Grew tasks tasks'' := by
  intro id row hrow
  obtain ⟨row', hrow', htrigger, hparent, hstatus⟩ := h id row hrow
  obtain ⟨row'', hrow'', htrigger', hparent', hstatus'⟩ := h' id row' hrow'
  exact ⟨row'', hrow'', htrigger'.trans htrigger, hparent'.trans hparent, hstatus'.trans hstatus⟩

/-- An executor that is `Outstanding` stays so when the tasks `Grew`. -/
theorem Grew.outstanding (h : Grew tasks tasks') (hid : Outstanding tasks plannerId id) :
    Outstanding tasks' plannerId id := by
  obtain ⟨row, hrow, htrigger, hparent, hstatus⟩ := hid
  obtain ⟨row', hrow', hsame⟩ := h id row hrow
  exact ⟨row', hrow', hsame.1.trans htrigger, hsame.2.1.trans hparent, hsame.2.2 ▸ hstatus⟩

/-- A planner with `ExecutorActive` keeps it when the tasks `Grew`. -/
theorem Grew.executorActive (h : Grew tasks tasks') (hactive : ExecutorActive tasks plannerId) :
    ExecutorActive tasks' plannerId := by
  obtain ⟨row, hrow, hparent, hstatus⟩ := hactive
  obtain ⟨row', hrow', hsame⟩ := h _ row (Table.find?_key hrow)
  exact ⟨row', Table.mem_of_find? hrow', hsame.2.1.trans hparent, hsame.2.2.trans hstatus⟩

/-- An id that is free after the tasks `Grew` was free before. -/
theorem Grew.find?_eq_none (h : Grew tasks tasks') (hid : tasks'.find? id = none) :
    tasks.find? id = none := by
  cases hrow : tasks.find? id with
  | none => rfl
  | some row =>
    obtain ⟨row', hrow', -⟩ := h id row hrow
    exact nomatch hid.symm.trans hrow'

/-- `setPlanTodo` keeps the origin and the status of every task. -/
theorem grew_setPlanTodo (tasks : Tasks) (plannerId text now : Str) :
    Grew tasks (tasks.setPlanTodo plannerId text now) := by
  intro id row hrow
  by_cases hid : id = plannerId
  · subst hid
    exact ⟨row.withPlanTodo text now, by rw [System.Tasks.find?_setPlanTodo_self, hrow]; rfl,
      rfl, rfl, rfl⟩
  · exact ⟨row, by rw [System.Tasks.find?_setPlanTodo_ne _ _ _ _ hid, hrow], rfl, rfl, rfl⟩

/-- `insert?` keeps every task. -/
theorem grew_insert {row : TaskRow} (h : tasks.insert? row = some tasks') : Grew tasks tasks' := by
  intro id old hold
  have hid : id ≠ row.taskId := by
    rintro rfl
    exact nomatch (Table.insert?_eq_some h).1.symm.trans hold
  exact ⟨old, Table.find?_insert?_ne h hid ▸ hold, rfl, rfl, rfl⟩

end Grew

/-- What a round for a planner does to the tasks. -/
structure Round (plannerId : Str) (tasks tasks' : Tasks) : Prop where
  /-- Every task is still there. -/
  grew : Grew tasks tasks'
  /-- The plans of all other planners are as before. -/
  plans : ∀ id, id ≠ plannerId → planItems json tasks' id = planItems json tasks id
  /-- At most one unfinished executor is new; it is the planner's, and the question found none. -/
  spawned : ∃ new, ∀ parent id, Outstanding tasks' parent id → Outstanding tasks parent id ∨
    id = new ∧ parent = plannerId ∧ tasks.find? id = none ∧ planItems json tasks plannerId ≠ [] ∧
      ¬ExecutorActive tasks plannerId

/-- **One round** of the scheduler's loop: what `servePlanner` does to the tasks is a `Round`. -/
theorem round_servePlanner (w : World) (plannerId : Str) : Round json plannerId w.db.tasks
    (eval handler (CronScheduler.servePlanner json plannerId) w).2.db.tasks := by
  obtain ⟨result, s', hrun, hcases⟩ := servePlanner_cases json (.reliable w) plannerId
  rw [eval_reliable, Prod.mk.injEq] at hrun
  have htasks : (eval handler (CronScheduler.servePlanner json plannerId) w).2.db.tasks = s'.tasks :=
    congrArg FaultyWorld.tasks hrun.2
  rw [htasks]
  rcases hcases with ⟨-, hsame⟩ | ⟨head, rest, now, hitems, hnone, hspawn⟩
  · change s'.tasks = w.db.tasks at hsame
    rw [hsame]
    exact ⟨Grew.refl _, fun _ _ => rfl, [], fun _ _ => .inl⟩
  change planItems json w.db.tasks plannerId = head :: rest at hitems
  have hactive : ¬ExecutorActive w.db.tasks plannerId :=
    fun ⟨row, hrow, hparent, hstatus⟩ => hnone rfl row hrow hparent hstatus
  -- What taking the item off the plan does; the task of the item may then follow.
  have hpopped : ∀ parent id, Outstanding (w.db.tasks.setPlanTodo plannerId
      (json.toStr (.strings rest)) now) parent id → Outstanding w.db.tasks parent id :=
    fun _ _ h => outstanding_of_update h fun _ _ => ⟨rfl, rfl, fun hrow => hrow⟩
  rcases hspawn with ⟨-, -, ts, now', hinsert⟩ | ⟨-, -, hsame⟩
  · change Table.insert? (w.db.tasks.setPlanTodo _ _ _) _ = _ at hinsert
    refine ⟨(grew_setPlanTodo _ _ _ _).trans (grew_insert hinsert), fun id hid => ?_,
      CronScheduler.executorId plannerId ts, fun parent id hid => ?_⟩
    · rw [planItems_insert (by rw [executorRow_eq]; rfl) hinsert, planItems_setPlanTodo_ne _ hid]
    · rcases outstanding_of_insert hinsert hid with hold | ⟨hnew, -, hparent⟩
      · exact .inl (hpopped _ _ hold)
      · rw [executorRow_eq] at hinsert hnew hparent
        refine .inr ⟨hnew, hparent.symm, ?_, hitems ▸ List.cons_ne_nil head rest, hactive⟩
        subst hnew
        exact (grew_setPlanTodo _ _ _ _).find?_eq_none (Table.insert?_eq_some hinsert).1
  · change s'.tasks = w.db.tasks.setPlanTodo _ _ _ at hsame
    rw [hsame]
    exact ⟨grew_setPlanTodo _ _ _ _, fun id hid => planItems_setPlanTodo_ne _ hid, [],
      fun parent id hid => .inl (hpopped parent id hid)⟩

/-- What the rounds of a tick do to the tasks when the question sees enough. -/
structure Spawned (tasks tasks' : Tasks) : Prop where
  /-- Every task is still there. -/
  grew : Grew tasks tasks'
  /-- New executors are created only for planners without an unfinished one. -/
  alone : SpawnsAlone tasks tasks'
  /-- Still no planner has two unfinished executors. -/
  one : OneExecutor tasks → OneExecutor tasks'

section Spawned

variable {json} {tasks tasks' tasks'' : Tasks} {plannerId : Str}

/-- Nothing is `Spawned` where nothing happens. -/
theorem Spawned.refl (tasks : Tasks) : Spawned tasks tasks :=
  ⟨Grew.refl tasks, fun _ _ => .inl, id⟩

/-- `Spawned` is transitive: the second part starts from what the first has left. -/
theorem Spawned.trans (h : Spawned tasks tasks') (h' : Spawned tasks' tasks'') :
    Spawned tasks tasks'' where
  grew := h.grew.trans h'.grew
  alone := fun plannerId id hid => by
    rcases h'.alone plannerId id hid with hid | ⟨hfree, hnone⟩
    · exact h.alone plannerId id hid
    · exact .inr ⟨h.grew.find?_eq_none hfree,
        fun id' hid' => hnone id' (h.grew.outstanding hid')⟩
  one := fun hone => h'.one (h.one hone)

/-- A `Round` for a planner that is `Guarded`, so that the question sees its executors, has at most
`Spawned` one for a planner without any. -/
theorem Round.spawned_of_guarded (h : Round json plannerId tasks tasks')
    (hguard : Guarded json tasks plannerId) : Spawned tasks tasks' := by
  obtain ⟨new, hnew⟩ := h.spawned
  -- A new executor is the planner's, and it had none.
  have halone : ∀ parent id, Outstanding tasks' parent id → Outstanding tasks parent id ∨
      id = new ∧ tasks.find? id = none ∧ ∀ id', ¬Outstanding tasks parent id' := by
    intro parent id hid
    rcases hnew parent id hid with hold | ⟨hid, rfl, hfree, hitems, hactive⟩
    · exact .inl hold
    · exact .inr ⟨hid, hfree, (hguard hitems).resolve_left hactive⟩
  refine ⟨h.grew, fun parent id hid => (halone parent id hid).imp_right And.right, ?_⟩
  intro hone parent id id' hid hid'
  rcases halone parent id hid with hold | ⟨heq, -, hnone⟩ <;>
    rcases halone parent id' hid' with hold' | ⟨heq', -, hnone'⟩
  · exact hone parent id id' hold hold'
  · exact absurd hold (hnone' id)
  · exact absurd hold' (hnone id')
  · exact heq.trans heq'.symm

/-- A `Round` for one planner leaves another one `Guarded`. -/
theorem Round.guarded {id : Str} (h : Round json plannerId tasks tasks') (hid : id ≠ plannerId)
    (hguard : Guarded json tasks id) : Guarded json tasks' id := by
  intro hitems
  rw [h.plans id hid] at hitems
  obtain ⟨new, hnew⟩ := h.spawned
  refine (hguard hitems).imp h.grew.executorActive fun hnone id' hid' => ?_
  rcases hnew id id' hid' with hold | ⟨-, hparent, -⟩
  · exact hnone id' hold
  · exact hid hparent

end Spawned

/-- The loop of a tick over distinct `planners`, all of them `Guarded`, round by round. -/
theorem spawned_forM (planners : List (Str × Str)) (hnodup : (planners.map Prod.fst).Nodup) (w : World)
    (hguard : ∀ planner ∈ planners, Guarded json w.db.tasks planner.1) :
    Spawned w.db.tasks (eval handler (planners.forM fun planner =>
      CronScheduler.servePlanner json planner.1) w).2.db.tasks := by
  induction planners generalizing w with
  | nil => exact Spawned.refl _
  | cons planner planners ih =>
    rw [List.map_cons, List.nodup_cons] at hnodup
    rw [List.forall_mem_cons] at hguard
    have hround := round_servePlanner json w planner.1
    have hspawned := hround.spawned_of_guarded hguard.1
    show Spawned w.db.tasks (eval handler (CronScheduler.servePlanner json planner.1 >>= fun _ =>
      planners.forM fun planner => CronScheduler.servePlanner json planner.1) w).2.db.tasks
    rw [Program.eval_bind]
    rcases hrun : eval handler (CronScheduler.servePlanner json planner.1) w with ⟨e | value, w'⟩
    · rw [hrun] at hspawned
      exact hspawned
    · rw [hrun] at hround hspawned
      rw [Program.evalNext_ok]
      refine hspawned.trans (ih hnodup.2 w' fun other hother => ?_)
      refine hround.guarded (fun heq => hnodup.1 ?_) (hguard.2 other hother)
      exact heq ▸ List.mem_map_of_mem hother

/-- **A tick** that is `TickGuarded` has at most `Spawned` executors for planners without any. -/
theorem spawned_tickPlans (w : World) (hguard : TickGuarded json w.db.tasks) :
    Spawned w.db.tasks (eval handler (CronScheduler.tickPlans json) w).2.db.tasks := by
  have hlist : eval handler System.SystemModule.listPlanPending w = _ := System.eval_listPlanPending w
  rw [CronScheduler.tickPlans, Program.eval_bind, hlist, Program.evalNext_ok]
  refine spawned_forM json _ ?_ w fun planner hplanner => ?_
  · rw [List.map_map]
    exact (Table.contents_keys_nodup w.db.tasks).sublist (List.filter_sublist.map _)
  · obtain ⟨row, hrow, rfl⟩ := List.mem_map.mp hplanner
    rw [List.mem_filter, decide_eq_true_eq] at hrow
    exact hguard row hrow.1 hrow.2.1

/-! ## Runs -/

/-- What happens to the tasks of plans. -/
inductive Event where
  /-- A tick of the scheduler. -/
  | tick
  /-- A call of `system.complete`. -/
  | complete (params : System.CompleteParams)
  /-- A transition. -/
  | transition (taskId newStatus : Str)

/-- The world after an event. -/
def Event.after (w : World) : Event → World
  | .tick => (eval handler (CronScheduler.tickPlans json) w).2
  | .complete params => (eval handler (System.SystemModule.complete json params) w).2
  | .transition taskId newStatus =>
    (eval handler (System.SystemModule.transitionTask taskId newStatus) w).2

/-- The worlds that events lead to of which each meets `Meets` in the world it happens in. -/
inductive Reached (Meets : Event → World → Prop) (w₀ : World) : World → Prop
  /-- Nothing has happened. -/
  | start : Reached Meets w₀ w₀
  /-- One more event. -/
  | step {w : World} (run : Reached Meets w₀ w) (event : Event) (meets : Meets event w) :
    Reached Meets w₀ (event.after json w)

/-- A tick is guarded. Nothing is asked of the other events. -/
def Event.Guarded (event : Event) (w : World) : Prop :=
  event = .tick → TickGuarded json w.db.tasks

/-- One `event` that is `Guarded` keeps `OneExecutor`, and spawns for planners without an executor
only. -/
theorem Event.after_spawns {event : Event} {w : World} (h : event.Guarded json w)
    (hone : OneExecutor w.db.tasks) : OneExecutor (event.after json w).db.tasks ∧
      SpawnsAlone w.db.tasks (event.after json w).db.tasks := by
  have hnone : ∀ {w' : World}, NoneAppears w.db w'.db →
      OneExecutor w'.db.tasks ∧ SpawnsAlone w.db.tasks w'.db.tasks := fun hnone =>
    ⟨fun parent id id' hid hid' => hone parent id id' (hnone _ _ hid) (hnone _ _ hid'),
      fun parent id hid => .inl (hnone parent id hid)⟩
  cases event with
  | tick =>
    have hspawned := spawned_tickPlans json w (h rfl)
    exact ⟨hspawned.one hone, hspawned.alone⟩
  | complete params => exact hnone (quiet_execute json params w)
  | transition taskId newStatus => exact hnone (quiet_transitionStatus taskId newStatus w)

/-- **One executor per planner**: in every run whose ticks are `Guarded`, no planner ever has two
unfinished executors, and an executor is created only when its planner has none that is unfinished.
-/
theorem oneExecutor_of_reached {w₀ w : World} (hone : OneExecutor w₀.db.tasks)
    (run : Reached json (Event.Guarded json) w₀ w) : OneExecutor w.db.tasks ∧
      ∀ event : Event, event.Guarded json w →
        SpawnsAlone w.db.tasks (event.after json w).db.tasks := by
  have hreached : OneExecutor w.db.tasks := by
    induction run with
    | start => exact hone
    | step _ event meets ih => exact (event.after_spawns json meets ih).1
  exact ⟨hreached, fun event meets => (event.after_spawns json meets hreached).2⟩

/-- The world in which `t-1` has submitted a plan of two items, on a clock that moves on by a minute
at each reading. -/
def planning : World :=
  (eval handler (System.Complete.execute JsonText.codec submission)
    { System.onePending with clock := fun n => ⟨2026, 3, 12, 15, n, 0⟩ }).2

/-- The executor of the first item. -/
def firstExecutor : Str := "plan-exec-t-1-20260312T150400"

/-- What happens at work on the first item. -/
def work : List Event :=
  [.tick, .transition firstExecutor "active", .transition firstExecutor "finished"]

/-- In the run of a tick, the `work` on the first item, and another tick there is only ever one
executor. -/
theorem oneExecutor_of_reached_work :
    OneExecutor (Event.after JsonText.codec (work.foldl (Event.after JsonText.codec) planning)
      .tick).db.tasks := by
  have hfirst : TickGuarded JsonText.codec planning.db.tasks := by decide +kernel
  have hsecond : TickGuarded JsonText.codec
      (work.foldl (Event.after JsonText.codec) planning).db.tasks := by decide +kernel
  have hone : OneExecutor planning.db.tasks := by decide +kernel
  have run : Reached JsonText.codec (Event.Guarded JsonText.codec) planning
      (work.foldl (Event.after JsonText.codec) planning) :=
    ((Reached.start.step .tick fun _ => hfirst).step
      (.transition firstExecutor "active") fun h => Event.noConfusion h).step
      (.transition firstExecutor "finished") fun h => Event.noConfusion h
  exact (oneExecutor_of_reached JsonText.codec hone (run.step .tick fun _ => hsecond)).1

/-- Two ticks from `planning` while the first executor is still pending: now there are two. -/
theorem two_ticks_two_executors :
    OneExecutor planning.db.tasks ∧ ∃ w, Reached JsonText.codec (fun _ _ => True) planning w ∧
      ¬OneExecutor w.db.tasks :=
  ⟨by decide +kernel, _, (Reached.start.step .tick trivial).step .tick trivial, by decide +kernel⟩

end LogosFs.Kernel
