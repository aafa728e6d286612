import Mathlib.Data.List.Chain
import LogosFs.System.KeepsSchema

/-! # The life cycle of a task under concurrency

A transition reads the status in one statement and writes it in another, so between the two some
other call may have moved the task. The callers of the system module are programs over single
statements and run interleaved in any order; a task's history is the statuses it has before each
move of a run and after the last one. `history_isChain` says that the history follows the life cycle
in every run in which no update is stale. -/

namespace LogosFs.System

open Program (eval)

variable (json : JsonCodec)

/-- A caller of the system module. -/
inductive Caller where
  /-- A call of `system.complete`. -/
  | complete (params : CompleteParams)
  /-- A call of `transition_task`. -/
  | transition (taskId newStatus : Str)

/-- What a caller does, statement by statement. -/
def Caller.program : Caller → Program Sql Unit
  | .complete params => (Complete.execute json params).run >>= fun _ => .done ()
  | .transition taskId newStatus =>
    (TaskDb.transitionStatus taskId newStatus).run >>= fun _ => .done ()

/-- The status of a task, if it exists. -/
def Db.status? (db : Db) (taskId : Str) : Option TaskStatus :=
  (db.tasks.find? taskId).map (·.status)

/-- What the life cycle allows from one moment to the next: a task appears pending, stays as it is,
takes a step, or disappears. -/
def Allowed : Option TaskStatus → Option TaskStatus → Prop
  | none, some status => status = .pending
  | some status, some status' => status' = status ∨ (status, status') ∈ validTransitions
  | _, none => True

instance : (s s' : Option TaskStatus) → Decidable (Allowed s s')
  | none, some status => inferInstanceAs (Decidable (status = .pending))
  | some status, some status' =>
    inferInstanceAs (Decidable (status' = status ∨ (status, status') ∈ validTransitions))
  | none, none => .isTrue trivial
  | some _, none => .isTrue trivial

/-- `Allowed` is reflexive: a status may stay as it is. -/
theorem Allowed.refl (s : Option TaskStatus) : Allowed s s := by
  cases s with
  | none => trivial
  | some status => exact .inl rfl

/-- By `Allowed` a finished task stays finished as long as it exists. -/
theorem Allowed.of_finished {s : Option TaskStatus} (h : Allowed (some .finished) s) :
    s = none ∨ s = some .finished := by
  cases s with
  | none => exact .inl rfl
  | some status => revert h; cases status <;> decide

/-- The task, the status seen and the new status of an operation that updates a status. -/
def statusUpdate? : SystemOp → Option (Str × TaskStatus × TaskStatus)
  | .sql (.updateStatus taskId seen new _) => some (taskId, seen, new)
  | _ => none

/-- A move that does not write a status on outdated grounds: when it updates the status of a task,
the task still has the status that the caller saw, or already has the new one. -/
def Fresh (move : Move Sql World) : Prop :=
  ∀ update ∈ statusUpdate? move.op, ∀ status ∈ move.before.state.db.status? update.1,
    status = update.2.1 ∨ status = update.2.2

instance (move : Move Sql World) : Decidable (Fresh move) :=
  inferInstanceAs (Decidable (∀ update ∈ statusUpdate? move.op,
    ∀ status ∈ move.before.state.db.status? update.1, status = update.2.1 ∨ status = update.2.2))

/-- The statuses of a task over a run: before each move and after the last one. -/
def history (taskId : Str) (moves : List (Move Sql World)) (c : Config Sql World) :
    List (Option TaskStatus) :=
  moves.map (fun move => move.before.state.db.status? taskId) ++ [c.state.db.status? taskId]

/-- Whatever the answers it gets, a `Caller` only sends operations that `KeepsSchema` allows. -/
theorem allOps_program (caller : Caller) : (caller.program json).AllOps (KeepsSchema json) := by
  cases caller with
  | complete params => exact (keeps_execute params).bind fun _ => trivial
  | transition taskId newStatus =>
    exact (keeps_transitionStatus taskId newStatus).bind fun _ => trivial

/-! ## What one move does -/

/-- An operation that leaves the tasks alone is `Allowed` for each of them. -/
theorem allowed_of_tasks_eq {w w' : World} {taskId : Str} (h : w'.db.tasks = w.db.tasks) :
    Allowed (w.db.status? taskId) (w'.db.status? taskId) := by
  rw [Db.status?, Db.status?, h]
  exact Allowed.refl _

/-- A new task appears pending, which is `Allowed`. -/
theorem allowed_insert {db : Db} {tasks : Tasks} {row : TaskRow} (hrow : row.status = .pending)
    (h : db.tasks.insert? row = some tasks) (taskId : Str) :
    Allowed (db.status? taskId) (({ db with tasks := tasks } : Db).status? taskId) := by
  by_cases hid : taskId = row.taskId
  · have hbefore : db.status? taskId = none := by
      rw [Db.status?, hid, (Table.insert?_eq_some h).1, Option.map_none]
    have hafter : ({ db with tasks := tasks } : Db).status? taskId = some .pending := by
      rw [Db.status?, hid, Table.find?_insert?_self h, Option.map_some, hrow]
    rw [hbefore, hafter]
    rfl
  · have hsame : ({ db with tasks := tasks } : Db).status? taskId = db.status? taskId := by
      rw [Db.status?, Db.status?, Table.find?_insert?_ne h hid]
    rw [hsame]
    exact Allowed.refl _

/-- A task that is deleted disappears, which is `Allowed`. -/
theorem allowed_delete (db : Db) (deleted taskId : Str) :
    Allowed (db.status? taskId)
      (({ db with tasks := db.tasks.delete deleted } : Db).status? taskId) := by
  by_cases hid : taskId = deleted
  · have hafter : ({ db with tasks := db.tasks.delete deleted } : Db).status? taskId = none := by
      rw [Db.status?, hid, Table.find?_delete_self, Option.map_none]
    rw [hafter]
    cases db.status? taskId <;> trivial
  · have hsame : ({ db with tasks := db.tasks.delete deleted } : Db).status? taskId
        = db.status? taskId := by
      rw [Db.status?, Db.status?, Table.find?_delete_ne hid]
    rw [hsame]
    exact Allowed.refl _

/-- An `update` that keeps the status of the row is `Allowed` for every task. -/
theorem allowed_update_of_status (db : Db) (f : TaskRow → TaskRow)
    (hf : ∀ row, (f row).taskId = row.taskId) (hstatus : ∀ row, (f row).status = row.status)
    (updated taskId : Str) : Allowed (db.status? taskId)
      (({ db with tasks := db.tasks.update updated f hf } : Db).status? taskId) := by
  have hsame : ({ db with tasks := db.tasks.update updated f hf } : Db).status? taskId
      = db.status? taskId := by
    by_cases hid : taskId = updated
    · rw [Db.status?, Db.status?, hid, Table.find?_update_self, Option.map_map]
      congr 1
      exact funext hstatus
    · rw [Db.status?, Db.status?, Table.find?_update_ne hid]
  rw [hsame]
  exact Allowed.refl _

/-- `setStatus` while the task still has the status it was decided on, or already has the new one,
is `Allowed`. -/
theorem allowed_setStatus {db : Db} {updated : Str} {seen new : TaskStatus} (now : Str)
    (hvalid : (seen, new) ∈ validTransitions)
    (hfresh : ∀ status, db.status? updated = some status → status = seen ∨ status = new)
    (taskId : Str) : Allowed (db.status? taskId)
      (({ db with tasks := db.tasks.setStatus updated new now } : Db).status? taskId) := by
  by_cases hid : taskId = updated
  · subst hid
    have hafter : ({ db with tasks := db.tasks.setStatus taskId new now } : Db).status? taskId
        = (db.status? taskId).map fun _ => new := by
      rw [Db.status?, Tasks.find?_setStatus_self, Option.map_map, Db.status?, Option.map_map]
      rfl
    rw [hafter]
    cases hbefore : db.status? taskId with
    | none => trivial
    | some status =>
      rcases hfresh status hbefore with rfl | rfl
      · exact .inr hvalid
      · exact .inl rfl
  · have hsame : ({ db with tasks := db.tasks.setStatus updated new now } : Db).status? taskId
        = db.status? taskId := by
      rw [Db.status?, Tasks.find?_setStatus_ne _ _ _ _ hid, Db.status?]
    rw [hsame]
    exact Allowed.refl _

/-- **One move**: an operation that `KeepsSchema` allows and that is `Fresh` takes every task along
`Allowed` steps. -/
theorem allowed_handler {op : SystemOp} {w : World} (hop : KeepsSchema json op)
    {threads : List (Program Sql Unit)} {i : Nat} (hfresh : Fresh ⟨i, op, ⟨threads, w⟩⟩)
    (taskId : Str) : Allowed (w.db.status? taskId) ((handler op w).2.db.status? taskId) := by
  cases op with
  | now => exact Allowed.refl _
  | sql statement =>
    cases statement with
    | insertTask row =>
      show Allowed _ ((exec w.fts (.insertTask row) w.db).2.status? taskId)
      rw [exec]
      split
      · exact allowed_insert hop.1 ‹_› taskId
      · exact Allowed.refl _
    | deleteTask deleted => exact allowed_delete w.db deleted taskId
    -- The only statement that changes a status: it was checked against one that is still current.
    | updateStatus updated seen new now =>
      exact allowed_setStatus now hop
        (fun status hstatus => hfresh (updated, seen, new) rfl status hstatus) taskId
    | updateDescription updated description now =>
      exact allowed_update_of_status w.db (fun row => row.withDescription description now)
        (fun _ => rfl) (fun _ => rfl) updated taskId
    | updatePlanTodo updated planTodo now =>
      exact allowed_update_of_status w.db (fun row => row.withPlanTodo planTodo now)
        (fun _ => rfl) (fun _ => rfl) updated taskId
    | insertTaskFts indexed =>
      refine allowed_of_tasks_eq ?_
      obtain ⟨commands, hcommands⟩ := exec_insertTaskFts w.fts indexed w.db
      show (exec w.fts (.insertTaskFts indexed) w.db).2.tasks = _
      rw [hcommands]
    | deleteTaskFts indexed =>
      refine allowed_of_tasks_eq ?_
      obtain ⟨commands, hcommands⟩ := exec_deleteTaskFts w.fts indexed w.db
      show (exec w.fts (.deleteTaskFts indexed) w.db).2.tasks = _
      rw [hcommands]
    | insertAnchor row =>
      refine allowed_of_tasks_eq ?_
      show (exec w.fts (.insertAnchor row) w.db).2.tasks = _
      rw [exec]
      split <;> rfl
    | _ => exact Allowed.refl _

/-! ## Runs -/

/-- **The life cycle under concurrency**: in every `Interleaving` of calls, at the granularity of
single statements, in which no status is written on outdated grounds, every task's `history` follows
the life cycle. -/
theorem history_isChain (callers : List Caller) (w : World) {moves : List (Move Sql World)}
    {c : Config Sql World}
    (run : Interleaving handler ⟨callers.map (Caller.program json), w⟩ moves c)
    (fresh : ∀ move ∈ moves, Fresh move) (taskId : Str) :
    (history taskId moves c).IsChain Allowed := by
  have hops : ∀ p ∈ callers.map (Caller.program json), p.AllOps (KeepsSchema json) := by
    intro p hp
    obtain ⟨caller, -, rfl⟩ := List.mem_map.mp hp
    exact allOps_program json caller
  induction run with
  | start => exact List.isChain_singleton _
  | @step moves c i op next run ready ih =>
    rw [List.forall_mem_append] at fresh
    have hop : KeepsSchema json op :=
      ((run.allOps hops).1 _ (List.mem_of_getElem? ready)).1
    have hmove := allowed_handler json hop (fresh.2 ⟨i, op, c⟩ (List.mem_singleton.mpr rfl)) taskId
    have hhistory : history taskId (moves ++ [⟨i, op, c⟩]) (c.after handler i op next)
        = history taskId moves c ++ [(handler op c.state).2.db.status? taskId] := by
      simp only [history, List.map_append, List.map_cons, List.map_nil, Config.after]
    rw [hhistory, List.isChain_append]
    refine ⟨ih fresh.1, List.isChain_singleton _, ?_⟩
    intro status hlast status' hhead
    rw [history, List.getLast?_concat, Option.mem_some_iff] at hlast
    rw [List.head?_cons, Option.mem_some_iff] at hhead
    rw [← hlast, ← hhead]
    exact hmove

/-- A call that ends the turn of `t-1`; with a reason it sleeps, without one it finishes. -/
def endTurn (sleepReason : Str) : CompleteParams where
  taskId := "t-1"
  summary := "done"
  reply := []
  anchor := false
  anchorFacts := "[]"
  taskLog := []
  sleepReason := sleepReason
  sleepRetry := false
  resumeTaskId := []
  planTodo := []

/-- Two calls on the active task `t-1`: one finishes it, the other one puts it to sleep. -/
def race : Config Sql World where
  threads := [Caller.complete (endTurn []), Caller.complete (endTurn "waiting")].map
    (Caller.program JsonText.codec)
  state := (eval handler (TaskDb.transitionStatus "t-1" TaskStatus.active.text) onePending).2

/-- `history_isChain` for one call after the other: the task is active and then finished. -/
theorem history_isChain_one_after_other :
    (history "t-1" (race.play handler [0, 0, 0, 0, 1, 1, 1, 1]).1
      (race.play handler [0, 0, 0, 0, 1, 1, 1, 1]).2).IsChain Allowed :=
  history_isChain JsonText.codec [.complete (endTurn []), .complete (endTurn "waiting")] race.state
    (Interleaving.of_play handler race [0, 0, 0, 0, 1, 1, 1, 1]) (by decide) "t-1"

/-- In this `race` both calls see the active task before either of them writes: the task is
finished, and then sleeps. -/
theorem race_wakes_finished : ∃ moves c, Interleaving handler race moves c ∧
    ¬(history "t-1" moves c).IsChain Allowed :=
  ⟨_, _, Interleaving.of_play handler race [0, 1, 0, 1, 0, 0, 1, 1], by decide⟩

end LogosFs.System
