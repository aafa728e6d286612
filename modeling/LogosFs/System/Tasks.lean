import LogosFs.Lib.JsonText
import LogosFs.System.Sql

/-! # The task table

The functions of `TaskDb`, statement by statement. Each has a lemma that says what it does when it
runs alone; the life cycle of a task is the table `validTransitions`, and `transitionStatus` is the
only function that moves a task along it. -/

namespace LogosFs.System

open Program (eval)

variable (json : JsonCodec)

/-- Parse a text, or fail with the parser's message. -/
def parseJson (text : Str) : SystemM Json :=
  match json.fromStr text with
  | .ok value => pure value
  | .error e => throw (.invalidJson e)

/-- The text of a member, or the empty text if there is none. -/
def strField (value : Json) (key : Str) : Str := (value.get key).asStr.getD []

/-- A row of `tasks` as JSON; a plan that is not JSON shows as the empty list. -/
def taskRowToJson (row : TaskRow) : Json :=
  .ofPairs [
    ("task_id", .string row.taskId),
    ("description", .string row.description),
    ("workspace", .string row.workspace),
    ("resource", .string row.resource),
    ("status", .string row.status.text),
    ("chat_id", .string row.chatId),
    ("trigger", .string row.trigger),
    ("plan_todo", (json.fromStr row.planTodo).toOption.getD (.array [])),
    ("plan_parent", .string row.planParent),
    ("created_at", .string row.createdAt),
    ("updated_at", .string row.updatedAt)]

/-- The life cycle: pending → active → finished, active ↔ sleep. -/
def validTransitions : List (TaskStatus × TaskStatus) :=
  [(.pending, .active), (.active, .finished), (.active, .sleep), (.sleep, .active)]

/-- No step leads out of `finished`. -/
theorem finished_not_mem_validTransitions (new : TaskStatus) :
    (.finished, new) ∉ validTransitions := by
  cases new <;> decide

/-- What looking a step up in `validTransitions` finds is a step from the current status. -/
theorem mem_validTransitions_of_find? {current seen new : TaskStatus} {newStatus : Str}
    (h : (validTransitions.find? fun pair => pair.1 = current ∧ pair.2.text = newStatus)
      = some (seen, new)) : (current, new) ∈ validTransitions := by
  have hmem : (seen, new) ∈ validTransitions := List.mem_of_find?_eq_some h
  have hseen : seen = current ∧ new.text = newStatus := by simpa using List.find?_some h
  exact hseen.1 ▸ hmem

namespace TaskDb

/-- List the tasks that are not pending, newest first, of a chat and a status where given. -/
def list (chatId status : Option Str) : SystemM Str := do
  let rows ← listTasks chatId status
  return json.toStr (.ofPairs [("tasks", .array (rows.map (taskRowToJson json)))])

/-- A task by its id, as JSON text. -/
def get (taskId : Str) : SystemM (Option Str) := do
  let row ← selectTask taskId
  return row.map fun row => json.toStr (taskRowToJson json row)

/-- The row that creating a task from a JSON value inserts. -/
def newRow (value : Json) (now : DateTime) : TaskRow :=
  .fresh (strField value "task_id") (strField value "description") (strField value "workspace")
    (strField value "resource") (strField value "chat_id")
    ((value.get "trigger").asStr.getD "user_message") (strField value "plan_parent") now.isoSecond

/-- Create a task from its JSON text. -/
def create (content : Str) : SystemM Unit := do
  let value ← parseJson json content
  let now ← utcNow
  let row := newRow value now
  insertTask row
  if row.description ≠ [] then
    insertTaskFts row.taskId

/-- Delete a task by its id. -/
def delete (taskId : Str) : SystemM Unit := deleteTask taskId

/-- Replace the description of a task. -/
def updateDescription (taskId description : Str) : SystemM Unit := do
  let now ← utcNow
  System.updateDescription taskId description now.isoSecond
  deleteTaskFts taskId
  insertTaskFts taskId

/-- Store a plan on a task. -/
def setPlanTodo (taskId todoJson : Str) : SystemM Unit := do
  let now ← utcNow
  updatePlanTodo "set plan_todo: " taskId todoJson now.isoSecond

/-- The sleeping tasks whose plan is not empty, with their plans. -/
def listPlanPending : SystemM (List (Str × Str)) := System.listPlanPending

/-- Take the first item off a task's plan and store the rest. -/
def popPlanHead (taskId : Str) : SystemM (Option Str) := do
  match ← selectPlanTodo taskId with
  | none => return none
  | some todoStr => match (json.stringsFromStr todoStr).getD [] with
    | [] => return none
    | head :: todo =>
      let now ← utcNow
      updatePlanTodo "pop plan head: " taskId (json.toStr (.strings todo)) now.isoSecond
      return some head

/-- The error for a task that does not exist. -/
def noRows : VfsError := .sqlite ("get task status: "
  ++ "no rows returned by a query that expected to return at least one row")

/-- The error for a step that the life cycle does not have. -/
def invalidTransition (current : TaskStatus) (newStatus : Str) : VfsError :=
  .invalidPath ("invalid transition: " ++ current.text ++ " → " ++ newStatus)

/-- Move a task to a new status, if the life cycle allows it from its current one. -/
def transitionStatus (taskId newStatus : Str) : SystemM Unit := do
  match ← selectStatus taskId with
  | none => throw noRows
  | some current =>
    match validTransitions.find? fun pair => pair.1 = current ∧ pair.2.text = newStatus with
    | none => throw (invalidTransition current newStatus)
    | some (_, new) =>
      let now ← utcNow
      updateStatus taskId current new now.isoSecond

/-! ## Running alone -/

section Alone

variable (w : World)

/-- Looking a step up in `validTransitions` finds it exactly when it is there. -/
theorem find?_validTransitions (current new : TaskStatus) :
    (validTransitions.find? fun pair => pair.1 = current ∧ pair.2.text = new.text)
      = if (current, new) ∈ validTransitions then some (current, new) else none := by
  cases current <;> cases new <;> decide

/-- `transitionStatus` of a task that does not exist fails with `noRows` and changes nothing. -/
theorem eval_transitionStatus_of_none {taskId : Str} (new : TaskStatus)
    (h : w.db.tasks.find? taskId = none) :
    eval handler (transitionStatus taskId new.text) w = (.error noRows, w) := by
  simp only [transitionStatus, Program.eval_bind, eval_selectStatus, h, Option.map_none,
    Program.evalNext_ok, Program.eval_throw]

/-- `transitionStatus` sets a status that is in `validTransitions` after the one of the row. -/
theorem eval_transitionStatus_of_valid {taskId : Str} {new : TaskStatus} {row : TaskRow}
    (h : w.db.tasks.find? taskId = some row) (hvalid : (row.status, new) ∈ validTransitions) :
    eval handler (transitionStatus taskId new.text) w = (.ok (), w.tick.withTasks
      (w.db.tasks.setStatus taskId new (w.clock 0).isoSecond)) := by
  simp only [transitionStatus, Program.eval_bind, eval_selectStatus, h, Option.map_some,
    Program.evalNext_ok, find?_validTransitions, if_pos hvalid, eval_utcNow,
    eval_updateStatus, World.tick_db]

/-- `transitionStatus` to any other status fails with `invalidTransition` and changes nothing. -/
theorem eval_transitionStatus_of_invalid {taskId : Str} {new : TaskStatus} {row : TaskRow}
    (h : w.db.tasks.find? taskId = some row) (hinvalid : (row.status, new) ∉ validTransitions) :
    eval handler (transitionStatus taskId new.text) w
      = (.error (invalidTransition row.status new.text), w) := by
  simp only [transitionStatus, Program.eval_bind, eval_selectStatus, h, Option.map_some,
    Program.evalNext_ok, find?_validTransitions, if_neg hinvalid, Program.eval_throw]

/-- The task exists and the life cycle has a step to the new status. -/
def CanMove (tasks : Tasks) (taskId : Str) (new : TaskStatus) : Prop :=
  ∃ row, tasks.find? taskId = some row ∧ (row.status, new) ∈ validTransitions

/-- `transitionStatus` succeeds where `CanMove` holds. -/
theorem eval_transitionStatus_of_canMove {taskId : Str} {new : TaskStatus}
    (h : CanMove w.db.tasks taskId new) : eval handler (transitionStatus taskId new.text) w
      = (.ok (), w.tick.withTasks (w.db.tasks.setStatus taskId new (w.clock 0).isoSecond)) := by
  obtain ⟨row, hrow, hvalid⟩ := h
  exact eval_transitionStatus_of_valid w hrow hvalid

/-- `transitionStatus` fails where `CanMove` does not hold, and changes nothing. -/
theorem eval_transitionStatus_of_not_canMove {taskId : Str} {new : TaskStatus}
    (h : ¬CanMove w.db.tasks taskId new) :
    ∃ e, eval handler (transitionStatus taskId new.text) w = (.error e, w) := by
  cases hrow : w.db.tasks.find? taskId with
  | none => exact ⟨_, eval_transitionStatus_of_none w new hrow⟩
  | some row =>
    exact ⟨_, eval_transitionStatus_of_invalid w hrow fun hvalid => h ⟨row, hrow, hvalid⟩⟩

/-- `get` answers the row of the task as JSON, if there is one, and changes nothing. -/
theorem eval_get (taskId : Str) : eval handler (get json taskId) w
    = (.ok ((w.db.tasks.find? taskId).map fun row => json.toStr (taskRowToJson json row)), w) := by
  simp only [get, Program.eval_bind, eval_selectTask, Program.evalNext_ok, Program.eval_pure]

/-- `delete` deletes the row of the task and never fails. -/
@[simp] theorem eval_delete (taskId : Str) :
    eval handler (delete taskId) w = (.ok (), w.withTasks (w.db.tasks.delete taskId)) :=
  eval_deleteTask w taskId

/-- `setPlanTodo` sets the plan and the time of the update, and never fails. -/
@[simp] theorem eval_setPlanTodo (taskId todoJson : Str) :
    eval handler (setPlanTodo taskId todoJson) w = (.ok (), w.tick.withTasks
      (w.db.tasks.setPlanTodo taskId todoJson (w.clock 0).isoSecond)) := by
  simp only [setPlanTodo, Program.eval_bind, eval_utcNow, Program.evalNext_ok,
    eval_updatePlanTodo, World.tick_db]

end Alone

end TaskDb

/-! ## One row at a time -/

/-- A table of tasks in which one row has become another one, and every other row is as before. -/
structure Became (taskId : Str) (row : TaskRow) (tasks tasks' : Tasks) : Prop where
  /-- The row of the task. -/
  self : tasks'.find? taskId = some row
  /-- The rows of all other tasks. -/
  others : ∀ id, id ≠ taskId → tasks'.find? id = tasks.find? id

namespace Became

variable {taskId : Str} {row : TaskRow} {tasks tasks' : Tasks}

/-- A row that is found `Became` itself. -/
theorem refl (h : tasks.find? taskId = some row) : Became taskId row tasks tasks :=
  ⟨h, fun _ _ => rfl⟩

/-- A row that `Became` another one is changed once more by `f`. -/
theorem update (h : Became taskId row tasks tasks') (f : TaskRow → TaskRow)
    (hf : ∀ row, (f row).taskId = row.taskId) :
    Became taskId (f row) tasks (tasks'.update taskId f hf) :=
  ⟨by rw [Table.find?_update_self, h.self, Option.map_some],
    fun id hid => (Table.find?_update_ne hid).trans (h.others id hid)⟩

/-- A row that `Became` another one gets the status by `setStatus`. -/
theorem setStatus (h : Became taskId row tasks tasks') (status : TaskStatus) (now : Str) :
    Became taskId (row.withStatus status now) tasks (tasks'.setStatus taskId status now) :=
  h.update (fun row => row.withStatus status now) fun _ => rfl

/-- A row that `Became` another one gets the plan by `setPlanTodo`. -/
theorem setPlanTodo (h : Became taskId row tasks tasks') (planTodo now : Str) :
    Became taskId (row.withPlanTodo planTodo now) tasks (tasks'.setPlanTodo taskId planTodo now) :=
  h.update (fun row => row.withPlanTodo planTodo now) fun _ => rfl

/-- A table in which a row `Became` another one is unchanged exactly when the row is what it was. -/
theorem unchanged_iff {old : TaskRow} (h : Became taskId row tasks tasks')
    (hold : tasks.find? taskId = some old) :
    (∀ id, tasks'.find? id = tasks.find? id) ↔ row = old := by
  constructor
  · intro hall
    have hself := hall taskId
    rwa [h.self, hold, Option.some_inj] at hself
  · rintro rfl id
    by_cases hid : id = taskId
    · rw [hid, h.self, hold]
    · exact h.others id hid

end Became

/-- A database with one pending task, as creating it leaves it. -/
def onePending : World :=
  (eval handler (TaskDb.create JsonText.codec (JsonText.codec.toStr
      (.ofPairs [("task_id", .string "t-1"), ("description", .string "draft")])))
    ⟨.empty, fun _ => ⟨2026, 3, 12, 14, 0, 0⟩, .blind⟩).2

end LogosFs.System
