import LogosFs.Lib.Table
import LogosFs.Lib.Text

/-! # The system database

The two tables of the system database, `tasks` and `anchors`, and the commands its two full-text
indices have received. A status is one of four, stored under its name; a plan and the facts of an
anchor are stored as JSON text. Points in time are the calendar fields the kernel formats. -/

namespace LogosFs.System

/-! ## Time -/

/-- A point in time (UTC), to the second. -/
structure DateTime where
  /-- The year. -/
  year : Nat
  /-- The month, from 1. -/
  month : Nat
  /-- The day of the month, from 1. -/
  day : Nat
  /-- The hour. -/
  hour : Nat
  /-- The minute. -/
  minute : Nat
  /-- The second. -/
  second : Nat
deriving DecidableEq, Repr

namespace DateTime

/-- Decimal notation with leading zeros up to `width` digits. -/
def pad (width n : Nat) : Str :=
  List.replicate (width - (Str.ofNat n).length) '0' ++ Str.ofNat n

variable (t : DateTime)

/-- `%Y-%m-%dT%H` -/
def isoHour : Str :=
  pad 4 t.year ++ "-" ++ pad 2 t.month ++ "-" ++ pad 2 t.day ++ "T" ++ pad 2 t.hour

/-- `%Y-%m-%dT%H:%M` -/
def isoMinute : Str := t.isoHour ++ ":" ++ pad 2 t.minute

/-- `%Y-%m-%dT%H:%M:%SZ` -/
def isoSecond : Str := t.isoMinute ++ ":" ++ pad 2 t.second ++ "Z"

/-- `%Y%m%dT%H%M%S` -/
def compact : Str :=
  pad 4 t.year ++ pad 2 t.month ++ pad 2 t.day ++ "T" ++ pad 2 t.hour ++ pad 2 t.minute
    ++ pad 2 t.second

end DateTime

example : (DateTime.mk 2026 3 12 14 5 9).isoSecond = ("2026-03-12T14:05:09Z" : Str) := by decide

/-! ## Tables -/

/-- The status of a task. -/
inductive TaskStatus where
  /-- Created, not yet started. -/
  | pending
  /-- Being worked on. -/
  | active
  /-- Waiting. -/
  | sleep
  /-- Done. -/
  | finished
deriving DecidableEq, Repr

/-- The name a status is stored under. -/
def TaskStatus.text : TaskStatus → Str
  | .pending => "pending"
  | .active => "active"
  | .sleep => "sleep"
  | .finished => "finished"

/-- Different statuses have different names: `TaskStatus.text` is injective. -/
@[simp] theorem TaskStatus.text_inj {s t : TaskStatus} : s.text = t.text ↔ s = t := by
  cases s <;> cases t <;> decide

/-- A row of `tasks`. -/
structure TaskRow where
  /-- The primary key. -/
  taskId : Str
  /-- What is to be done. -/
  description : Str
  /-- The workspace. -/
  workspace : Str
  /-- The resource the task is about. -/
  resource : Str
  /-- The status. -/
  status : TaskStatus
  /-- The chat the task came from. -/
  chatId : Str
  /-- What created the task. -/
  trigger : Str
  /-- The remaining plan, as the JSON text of a list of strings. -/
  planTodo : Str
  /-- The planner that an executor task works for. -/
  planParent : Str
  /-- The time of creation. -/
  createdAt : Str
  /-- The time of the last update. -/
  updatedAt : Str
deriving DecidableEq, Repr

/-- The row of a new task: pending, with an empty plan. -/
def TaskRow.fresh (taskId description workspace resource chatId trigger planParent now : Str) :
    TaskRow where
  taskId := taskId
  description := description
  workspace := workspace
  resource := resource
  status := .pending
  chatId := chatId
  trigger := trigger
  planTodo := "[]"
  planParent := planParent
  createdAt := now
  updatedAt := now

/-- A task with another status. -/
def TaskRow.withStatus (row : TaskRow) (status : TaskStatus) (now : Str) : TaskRow :=
  { row with status := status, updatedAt := now }

/-- A task with another description. -/
def TaskRow.withDescription (row : TaskRow) (description now : Str) : TaskRow :=
  { row with description := description, updatedAt := now }

/-- A task with another plan. -/
def TaskRow.withPlanTodo (row : TaskRow) (planTodo now : Str) : TaskRow :=
  { row with planTodo := planTodo, updatedAt := now }

/-- A row of `anchors`. -/
structure AnchorRow where
  /-- The second part of the primary key. -/
  id : Str
  /-- The task, the first part of the primary key. -/
  taskId : Str
  /-- A summary. -/
  summary : Str
  /-- The facts, as JSON text. -/
  facts : Str
  /-- The time of creation. -/
  createdAt : Str
deriving DecidableEq, Repr

/-- The table of tasks. -/
abbrev Tasks : Type := Table TaskRow Str TaskRow.taskId

/-- The table of anchors. -/
abbrev Anchors : Type := Table AnchorRow (Str × Str) fun row => (row.taskId, row.id)

/-- Set the status of a task. -/
def Tasks.setStatus (tasks : Tasks) (taskId : Str) (status : TaskStatus) (now : Str) : Tasks :=
  tasks.update taskId fun row => row.withStatus status now

/-- Set the description of a task. -/
def Tasks.setDescription (tasks : Tasks) (taskId description now : Str) : Tasks :=
  tasks.update taskId fun row => row.withDescription description now

/-- Set the plan of a task. -/
def Tasks.setPlanTodo (tasks : Tasks) (taskId planTodo now : Str) : Tasks :=
  tasks.update taskId fun row => row.withPlanTodo planTodo now

section TaskUpdates

variable (tasks : Tasks) (taskId : Str) {id : Str} (status : TaskStatus) (text now : Str)

/-- `setStatus` leaves the other tasks alone. -/
theorem Tasks.find?_setStatus_ne (hne : id ≠ taskId) :
    (tasks.setStatus taskId status now).find? id = tasks.find? id := Table.find?_update_ne hne

/-- `setDescription` leaves the other tasks alone. -/
theorem Tasks.find?_setDescription_ne (hne : id ≠ taskId) :
    (tasks.setDescription taskId text now).find? id = tasks.find? id := Table.find?_update_ne hne

/-- `setPlanTodo` leaves the other tasks alone. -/
theorem Tasks.find?_setPlanTodo_ne (hne : id ≠ taskId) :
    (tasks.setPlanTodo taskId text now).find? id = tasks.find? id := Table.find?_update_ne hne

/-- `setStatus` changes the row of the task by `withStatus`, if there is one. -/
@[simp] theorem Tasks.find?_setStatus_self : (tasks.setStatus taskId status now).find? taskId
    = (tasks.find? taskId).map fun row => row.withStatus status now :=
  Table.find?_update_self

/-- `setDescription` changes the row of the task by `withDescription`, if there is one. -/
@[simp] theorem Tasks.find?_setDescription_self :
    (tasks.setDescription taskId text now).find? taskId
      = (tasks.find? taskId).map fun row => row.withDescription text now :=
  Table.find?_update_self

/-- `setPlanTodo` changes the row of the task by `withPlanTodo`, if there is one. -/
@[simp] theorem Tasks.find?_setPlanTodo_self : (tasks.setPlanTodo taskId text now).find? taskId
    = (tasks.find? taskId).map fun row => row.withPlanTodo text now :=
  Table.find?_update_self

/-- `setDescription` changes the rows with the id, and keeps the order of all. -/
theorem Tasks.contents_setDescription : (tasks.setDescription taskId text now).contents
    = tasks.contents.map fun row =>
      if row.taskId = taskId then row.withDescription text now else row := Table.contents_update

/-- `setPlanTodo` changes the rows with the id, and keeps the order of all. -/
theorem Tasks.contents_setPlanTodo : (tasks.setPlanTodo taskId text now).contents
    = tasks.contents.map fun row =>
      if row.taskId = taskId then row.withPlanTodo text now else row := Table.contents_update

variable {tasks taskId} {status text now} {n : Nat} {row' : TaskRow}

/-- `setStatus` keeps the row numbers. -/
theorem Tasks.mem_rows_setStatus : (n, row') ∈ (tasks.setStatus taskId status now).rows ↔
    ∃ row, (n, row) ∈ tasks.rows ∧
      row' = if row.taskId = taskId then row.withStatus status now else row :=
  Table.mem_rows_update

/-- `setDescription` keeps the row numbers. -/
theorem Tasks.mem_rows_setDescription :
    (n, row') ∈ (tasks.setDescription taskId text now).rows ↔
      ∃ row, (n, row) ∈ tasks.rows ∧
        row' = if row.taskId = taskId then row.withDescription text now else row :=
  Table.mem_rows_update

/-- `setPlanTodo` keeps the row numbers. -/
theorem Tasks.mem_rows_setPlanTodo : (n, row') ∈ (tasks.setPlanTodo taskId text now).rows ↔
    ∃ row, (n, row) ∈ tasks.rows ∧
      row' = if row.taskId = taskId then row.withPlanTodo text now else row :=
  Table.mem_rows_update

variable (status text now)

/-- `setDescription` of a task that is missing changes nothing. -/
theorem Tasks.setDescription_of_none (h : tasks.find? taskId = none) :
    tasks.setDescription taskId text now = tasks := Table.update_of_find?_none h

/-- `setPlanTodo` of a task that is missing changes nothing. -/
theorem Tasks.setPlanTodo_of_none (h : tasks.find? taskId = none) :
    tasks.setPlanTodo taskId text now = tasks := Table.update_of_find?_none h

end TaskUpdates

/-- Set the facts of an anchor. -/
def Anchors.setFacts (anchors : Anchors) (taskId id facts : Str) : Anchors :=
  anchors.update (taskId, id) fun row => { row with facts := facts }

/-- A command to a full-text index, with the row number and the texts of the indexed columns. -/
inductive FtsCommand where
  /-- Add the texts under the row number. -/
  | insert (rowid : Nat) (texts : List Str)
  /-- Remove the texts, as they stand in the indexed table now, from under the row number. -/
  | delete (rowid : Nat) (texts : List Str)
  /-- A removal that failed. What the index finds from then on is the engine's own matter. -/
  | refused (rowid : Nat) (texts : List Str)
deriving DecidableEq, Repr

/-- A full-text engine, in terms of the commands that an index has received. -/
structure FtsEngine where
  /-- The row numbers that an index finds for a phrase, best match first. -/
  find : List FtsCommand → Str → List Nat
  /-- Whether an index carries out one more command, or fails. -/
  accepts : List FtsCommand → FtsCommand → Bool

/-- An engine is applied to an index and a phrase, as `FtsEngine.find` is. -/
instance : CoeFun FtsEngine fun _ => List FtsCommand → Str → List Nat := ⟨FtsEngine.find⟩

/-- An engine that carries out everything and finds nothing. -/
def FtsEngine.blind : FtsEngine := ⟨fun _ _ => [], fun _ _ => true⟩

/-- The system database. -/
structure Db where
  /-- The table of tasks. -/
  tasks : Tasks
  /-- The table of anchors. -/
  anchors : Anchors
  /-- What the full-text index of task descriptions was told, in order. -/
  tasksFts : List FtsCommand
  /-- What the full-text index of facts and summaries was told, in order. -/
  anchorsFts : List FtsCommand

/-- The database after its schema was created. -/
def Db.empty : Db := ⟨.empty, .empty, [], []⟩

end LogosFs.System
