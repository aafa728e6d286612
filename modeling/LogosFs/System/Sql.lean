import LogosFs.Lib.Program
import LogosFs.System.Schema
import LogosFs.Vfs.Uri

/-! # SQL statements

The statements the system module sends, one operation each, and what each does to the database. A
statement commits on its own: no transaction is ever opened. The programs over these statements run
alone (`Program.eval`) or interleaved with others (`Interleaving`), and both readings use the same
`handler`.

The full-text engine is a parameter of the world the statements run in, an `FtsEngine`: given the
commands an index has received, it finds row numbers for a phrase, and it may refuse the next command.
A removal that it refuses stands in the log of the index, as `FtsCommand.refused`, since the index is
not what it was from then on. -/

namespace LogosFs.System

/-- A statement on the system database. -/
inductive Statement where
  /-- `INSERT INTO tasks (…) VALUES (…)` -/
  | insertTask (row : TaskRow)
  /-- `DELETE FROM tasks WHERE task_id = …` -/
  | deleteTask (taskId : Str)
  /-- `SELECT … FROM tasks WHERE task_id = …` -/
  | selectTask (taskId : Str)
  /-- `SELECT … FROM tasks WHERE status != 'pending' AND … ORDER BY created_at DESC`, for a chat and
  a status where they are given. -/
  | listTasks (chatId status : Option Str)
  /-- `SELECT status FROM tasks WHERE task_id = …` -/
  | selectStatus (taskId : Str)
  /-- `UPDATE tasks SET status = …, updated_at = … WHERE task_id = …`. The statement does not look
  at `seen`: it records the status that the caller read before it decided on `new`. -/
  | updateStatus (taskId : Str) (seen new : TaskStatus) (now : Str)
  /-- `UPDATE tasks SET description = …, updated_at = … WHERE task_id = …` -/
  | updateDescription (taskId description now : Str)
  /-- `SELECT plan_todo FROM tasks WHERE task_id = …` -/
  | selectPlanTodo (taskId : Str)
  /-- `UPDATE tasks SET plan_todo = …, updated_at = … WHERE task_id = …` -/
  | updatePlanTodo (taskId planTodo now : Str)
  /-- `SELECT task_id, plan_todo FROM tasks WHERE status = 'sleep' AND plan_todo != '[]'` -/
  | listPlanPending
  /-- `SELECT COUNT(*) FROM tasks WHERE plan_parent = … AND status = 'active'` -/
  | countActiveExecutors (plannerId : Str)
  /-- `INSERT INTO tasks_fts(rowid, description) SELECT rowid, description FROM tasks WHERE …` -/
  | insertTaskFts (taskId : Str)
  /-- `DELETE FROM tasks_fts WHERE rowid = (SELECT rowid FROM tasks WHERE task_id = …)` -/
  | deleteTaskFts (taskId : Str)
  /-- `INSERT INTO anchors (…) VALUES (…)` -/
  | insertAnchor (row : AnchorRow)
  /-- `SELECT … FROM anchors WHERE task_id = … AND id = …` -/
  | selectAnchor (taskId id : Str)
  /-- `SELECT … FROM anchors WHERE task_id = … ORDER BY created_at ASC` -/
  | listAnchors (taskId : Str)
  /-- `UPDATE anchors SET facts = … WHERE task_id = … AND id = …` -/
  | updateAnchorFacts (taskId id facts : Str)
  /-- `SELECT rowid FROM anchors WHERE task_id = … AND id = …` -/
  | selectAnchorRowid (taskId id : Str)
  /-- `INSERT INTO anchors_fts(rowid, facts, summary) VALUES (…)` -/
  | insertAnchorFts (rowid : Nat) (facts summary : Str)
  /-- `SELECT … FROM anchors_fts f JOIN anchors a … WHERE anchors_fts MATCH … LIMIT …` -/
  | searchAnchors (phrase : Str) (limit : Nat)
  /-- `SELECT … FROM tasks_fts f JOIN tasks t … MATCH … AND t.status != 'pending' … LIMIT …` -/
  | searchTasks (phrase : Str) (limit : Nat)

/-- What a statement answers with. -/
def Statement.Answer : Statement → Type
  | .selectTask _ => Option TaskRow
  | .listTasks .. | .searchTasks .. => List TaskRow
  | .selectStatus _ => Option TaskStatus
  | .selectPlanTodo _ => Option Str
  | .listPlanPending => List (Str × Str)
  | .countActiveExecutors _ => Nat
  | .selectAnchor .. => Option AnchorRow
  | .listAnchors _ | .searchAnchors .. => List AnchorRow
  | .selectAnchorRowid .. => Option Nat
  | _ => Unit

/-- What the system module asks of its surroundings: the time, or a statement, which may fail with
the database's message. -/
inductive SystemOp where
  /-- Read the clock. -/
  | now
  /-- Send a statement. -/
  | sql (statement : Statement)

/-- The operations of the system module. -/
abbrev Sql : Signature where
  Op := SystemOp
  Res
    | .now => DateTime
    | .sql statement => Except Str statement.Answer

/-- What the system module runs in. -/
structure World where
  /-- The database. -/
  db : Db
  /-- The times the clock will show, reading by reading. -/
  clock : Nat → DateTime
  /-- The full-text engine. -/
  fts : FtsEngine

/-- The row a number stands for. -/
def rowOf {Row Key : Type} {key : Row → Key} (t : Table Row Key key) (rowid : Nat) : Option Row :=
  (t.rows.find? fun entry => entry.1 = rowid).map Prod.snd

/-- The message of a primary key conflict. -/
def conflict (columns : Str) : Str :=
  VfsError.database 1555 ("UNIQUE constraint failed: " ++ columns)

/-- What a statement does: its answer, and the database after it. -/
def exec (fts : FtsEngine) : (statement : Statement) → Db →
    Except Str statement.Answer × Db
  | .insertTask row, db =>
    match db.tasks.insert? row with
    | some tasks => (.ok (), { db with tasks := tasks })
    | none => (.error (conflict "tasks.task_id"), db)
  | .deleteTask taskId, db => (.ok (), { db with tasks := db.tasks.delete taskId })
  | .selectTask taskId, db => (.ok (db.tasks.find? taskId), db)
  | .listTasks chatId status, db =>
    (.ok ((db.tasks.contents.filter fun row => row.status ≠ .pending ∧
      (∀ chat ∈ chatId, row.chatId = chat) ∧ ∀ text ∈ status, row.status.text = text).mergeSort
      fun row row' => row'.createdAt ≤ row.createdAt), db)
  | .selectStatus taskId, db => (.ok ((db.tasks.find? taskId).map (·.status)), db)
  | .updateStatus taskId _ new now, db =>
    (.ok (), { db with tasks := db.tasks.setStatus taskId new now })
  | .updateDescription taskId description now, db =>
    (.ok (), { db with tasks := db.tasks.setDescription taskId description now })
  | .selectPlanTodo taskId, db => (.ok ((db.tasks.find? taskId).map (·.planTodo)), db)
  | .updatePlanTodo taskId planTodo now, db =>
    (.ok (), { db with tasks := db.tasks.setPlanTodo taskId planTodo now })
  | .listPlanPending, db =>
    (.ok ((db.tasks.contents.filter fun row =>
      row.status = .sleep ∧ row.planTodo ≠ ("[]" : Str)).map fun row => (row.taskId, row.planTodo)),
      db)
  | .countActiveExecutors plannerId, db =>
    (.ok (db.tasks.contents.countP fun row => row.planParent = plannerId ∧ row.status = .active), db)
  | .insertTaskFts taskId, db =>
    match db.tasks.find? taskId, db.tasks.rowid? taskId with
    | some row, some rowid =>
      if fts.accepts db.tasksFts (.insert rowid [row.description]) then
        (.ok (), { db with tasksFts := db.tasksFts ++ [.insert rowid [row.description]] })
      else (.error (VfsError.database 5 "database is locked"), db)
    | _, _ => (.ok (), db)
  | .deleteTaskFts taskId, db =>
    match db.tasks.find? taskId, db.tasks.rowid? taskId with
    | some row, some rowid =>
      if fts.accepts db.tasksFts (.delete rowid [row.description]) then
        (.ok (), { db with tasksFts := db.tasksFts ++ [.delete rowid [row.description]] })
      else (.error (VfsError.database 267 "database disk image is malformed"),
        { db with tasksFts := db.tasksFts ++ [.refused rowid [row.description]] })
    | _, _ => (.ok (), db)
  | .insertAnchor row, db =>
    match db.anchors.insert? row with
    | some anchors => (.ok (), { db with anchors := anchors })
    | none => (.error (conflict "anchors.task_id, anchors.id"), db)
  | .selectAnchor taskId id, db => (.ok (db.anchors.find? (taskId, id)), db)
  | .listAnchors taskId, db =>
    (.ok ((db.anchors.contents.filter fun row => row.taskId = taskId).mergeSort
      fun row row' => row.createdAt ≤ row'.createdAt), db)
  | .updateAnchorFacts taskId id facts, db =>
    (.ok (), { db with anchors := db.anchors.setFacts taskId id facts })
  | .selectAnchorRowid taskId id, db => (.ok (db.anchors.rowid? (taskId, id)), db)
  | .insertAnchorFts rowid facts summary, db =>
    (.ok (), { db with anchorsFts := db.anchorsFts ++ [.insert rowid [facts, summary]] })
  | .searchAnchors phrase limit, db =>
    (.ok (((fts db.anchorsFts phrase).filterMap (rowOf db.anchors)).take limit), db)
  | .searchTasks phrase limit, db =>
    (.ok ((((fts db.tasksFts phrase).filterMap (rowOf db.tasks)).filter fun row =>
      row.status ≠ .pending).take limit), db)

/-- Indexing a description changes at most what `tasksFts` was told. -/
theorem exec_insertTaskFts (fts : FtsEngine) (taskId : Str) (db : Db) : ∃ commands,
    (exec fts (.insertTaskFts taskId) db).2 = { db with tasksFts := commands } := by
  rw [exec]
  split
  · split
    · exact ⟨_, rfl⟩
    · exact ⟨db.tasksFts, rfl⟩
  · exact ⟨db.tasksFts, rfl⟩

/-- Taking a description off the index changes at most what `tasksFts` was told. -/
theorem exec_deleteTaskFts (fts : FtsEngine) (taskId : Str) (db : Db) : ∃ commands,
    (exec fts (.deleteTaskFts taskId) db).2 = { db with tasksFts := commands } := by
  rw [exec]
  split
  · split <;> exact ⟨_, rfl⟩
  · exact ⟨db.tasksFts, rfl⟩

/-- What an operation of the system module does. -/
def handler : Handler Sql World
  | .now, w => (w.clock 0, { w with clock := fun n => w.clock (n + 1) })
  | .sql statement, w =>
    ((exec w.fts statement w.db).1, { w with db := (exec w.fts statement w.db).2 })

/-! ## The world's parts -/

namespace World

/-- The world after one reading of the clock. -/
def tick (w : World) : World := { w with clock := fun n => w.clock (n + 1) }

/-- The world with another database. -/
def withDb (w : World) (db : Db) : World := { w with db := db }

/-- The world with another table of tasks. -/
def withTasks (w : World) (tasks : Tasks) : World := w.withDb { w.db with tasks := tasks }

/-- The world with another table of anchors. -/
def withAnchors (w : World) (anchors : Anchors) : World := w.withDb { w.db with anchors := anchors }

/-- Two worlds with the same tables, clock and search engine; their indices may differ. -/
structure SameTables (w w' : World) : Prop where
  /-- The tasks are the same. -/
  tasks : w'.db.tasks = w.db.tasks
  /-- The anchors are the same. -/
  anchors : w'.db.anchors = w.db.anchors
  /-- The clock will show the same times. -/
  clock : w'.clock = w.clock
  /-- The search engine is the same. -/
  fts : w'.fts = w.fts

variable (w : World) (tasks tasks' : Tasks) (anchors anchors' : Anchors) (db : Db) (n : Nat)

/-- `tick` leaves the database alone. -/
@[simp] theorem tick_db : w.tick.db = w.db := rfl

/-- `tick` shifts the clock by one reading. -/
@[simp] theorem tick_clock : w.tick.clock n = w.clock (n + 1) := rfl

/-- `tick` leaves the full text engine alone. -/
@[simp] theorem tick_fts : w.tick.fts = w.fts := rfl

/-- `withDb` sets the database. -/
@[simp] theorem withDb_db : (w.withDb db).db = db := rfl

/-- `withDb` leaves the clock alone. -/
@[simp] theorem withDb_clock : (w.withDb db).clock = w.clock := rfl

/-- `withDb` leaves the full text engine alone. -/
@[simp] theorem withDb_fts : (w.withDb db).fts = w.fts := rfl

/-- `withDb` of the database that is there changes nothing. -/
@[simp] theorem withDb_self : w.withDb w.db = w := rfl

/-- `tick` and `withDb` commute. -/
@[simp] theorem tick_withDb : (w.withDb db).tick = w.tick.withDb db := rfl

/-- `withTasks` sets the table of tasks. -/
@[simp] theorem withTasks_tasks : (w.withTasks tasks).db.tasks = tasks := rfl

/-- `withTasks` leaves the anchors alone. -/
@[simp] theorem withTasks_anchors : (w.withTasks tasks).db.anchors = w.db.anchors := rfl

/-- `withTasks` leaves the clock alone. -/
@[simp] theorem withTasks_clock : (w.withTasks tasks).clock = w.clock := rfl

/-- `withTasks` leaves the full text engine alone. -/
@[simp] theorem withTasks_fts : (w.withTasks tasks).fts = w.fts := rfl

/-- `tick` and `withTasks` commute. -/
@[simp] theorem tick_withTasks : (w.withTasks tasks).tick = w.tick.withTasks tasks := rfl

/-- `withAnchors` leaves the tasks alone. -/
@[simp] theorem withAnchors_tasks : (w.withAnchors anchors).db.tasks = w.db.tasks := rfl

/-- `withAnchors` sets the table of anchors. -/
@[simp] theorem withAnchors_anchors : (w.withAnchors anchors).db.anchors = anchors := rfl

/-- `withAnchors` leaves the clock alone. -/
@[simp] theorem withAnchors_clock : (w.withAnchors anchors).clock = w.clock := rfl

/-- `withAnchors` leaves the full text engine alone. -/
@[simp] theorem withAnchors_fts : (w.withAnchors anchors).fts = w.fts := rfl

/-- `tick` and `withAnchors` commute. -/
@[simp] theorem tick_withAnchors : (w.withAnchors anchors).tick = w.tick.withAnchors anchors := rfl

/-- The second `withTasks` overrides the first. -/
@[simp] theorem withTasks_withTasks :
    (w.withTasks tasks).withTasks tasks' = w.withTasks tasks' := rfl

/-- The second `withAnchors` overrides the first. -/
@[simp] theorem withAnchors_withAnchors :
    (w.withAnchors anchors).withAnchors anchors' = w.withAnchors anchors' := rfl

/-- `withTasks` of the tasks that are there changes nothing. -/
@[simp] theorem withTasks_self : w.withTasks w.db.tasks = w := rfl

/-- `withAnchors` of the anchors that are there changes nothing. -/
@[simp] theorem withAnchors_self : w.withAnchors w.db.anchors = w := rfl

/-- `SameTables` is reflexive. -/
theorem SameTables.refl : w.SameTables w := ⟨rfl, rfl, rfl, rfl⟩

variable {w}

/-- `SameTables` is transitive. -/
theorem SameTables.trans {w' w'' : World} (h : w.SameTables w') (h' : w'.SameTables w'') :
    w.SameTables w'' :=
  ⟨h'.tasks.trans h.tasks, h'.anchors.trans h.anchors, h'.clock.trans h.clock, h'.fts.trans h.fts⟩

end World

/-! ## Programs of the system module -/

open Program (eval)

/-- A program of the system module that may fail. -/
abbrev SystemM (α : Type) : Type := ExceptT VfsError (Program Sql) α

/-- Read the clock. -/
def utcNow : SystemM DateTime := liftM (Program.perform (S := Sql) .now)

/-- Send a statement; a failure of the database becomes an error with `context` in front. -/
def send (context : Str) (statement : Statement) : SystemM statement.Answer :=
  Program.attempt (Program.perform (S := Sql) (.sql statement) >>= fun answer =>
    .done (answer.mapError fun e => .sqlite (context ++ e)))

/-- `INSERT` a task. -/
def insertTask (row : TaskRow) : SystemM Unit := send "insert task: " (.insertTask row)

/-- `DELETE` a task. -/
def deleteTask (taskId : Str) : SystemM Unit := send "delete task: " (.deleteTask taskId)

/-- `SELECT` a task. -/
def selectTask (taskId : Str) : SystemM (Option TaskRow) := send "" (.selectTask taskId)

/-- `SELECT` the tasks that are not pending. -/
def listTasks (chatId status : Option Str) : SystemM (List TaskRow) :=
  send "" (.listTasks chatId status)

/-- `SELECT` the status of a task. -/
def selectStatus (taskId : Str) : SystemM (Option TaskStatus) :=
  send "get task status: " (.selectStatus taskId)

/-- `UPDATE` the status of a task that was seen with status `seen`. -/
def updateStatus (taskId : Str) (seen new : TaskStatus) (now : Str) : SystemM Unit :=
  send "transition status: " (.updateStatus taskId seen new now)

/-- `UPDATE` the description of a task. -/
def updateDescription (taskId description now : Str) : SystemM Unit :=
  send "update description: " (.updateDescription taskId description now)

/-- `SELECT` the plan of a task. -/
def selectPlanTodo (taskId : Str) : SystemM (Option Str) :=
  send "get plan_todo: " (.selectPlanTodo taskId)

/-- `UPDATE` the plan of a task. -/
def updatePlanTodo (context taskId planTodo now : Str) : SystemM Unit :=
  send context (.updatePlanTodo taskId planTodo now)

/-- `SELECT` the sleeping tasks whose plan is not empty. -/
def listPlanPending : SystemM (List (Str × Str)) := send "list plan pending: " .listPlanPending

/-- `SELECT` the number of a planner's active executors. -/
def countActiveExecutors (plannerId : Str) : SystemM Nat :=
  send "check active executor: " (.countActiveExecutors plannerId)

/-- Index the description of a task, whatever comes of it. -/
def insertTaskFts (taskId : Str) : SystemM Unit :=
  Program.ignoreError (send "" (.insertTaskFts taskId))

/-- Take the description of a task off the index, whatever comes of it. -/
def deleteTaskFts (taskId : Str) : SystemM Unit :=
  Program.ignoreError (send "" (.deleteTaskFts taskId))

/-- `INSERT` an anchor. -/
def insertAnchor (row : AnchorRow) : SystemM Unit := send "insert anchor: " (.insertAnchor row)

/-- `SELECT` an anchor. -/
def selectAnchor (context taskId id : Str) : SystemM (Option AnchorRow) :=
  send context (.selectAnchor taskId id)

/-- `SELECT` the anchors of a task. -/
def listAnchors (taskId : Str) : SystemM (List AnchorRow) := send "" (.listAnchors taskId)

/-- `UPDATE` the facts of an anchor. -/
def updateAnchorFacts (taskId id facts : Str) : SystemM Unit :=
  send "update superseded: " (.updateAnchorFacts taskId id facts)

/-- `SELECT` the row number of an anchor. -/
def selectAnchorRowid (taskId id : Str) : SystemM (Option Nat) :=
  send "get anchor rowid: " (.selectAnchorRowid taskId id)

/-- Index the facts and the summary of an anchor. -/
def insertAnchorFts (rowid : Nat) (facts summary : Str) : SystemM Unit :=
  send "sync anchors fts: " (.insertAnchorFts rowid facts summary)

/-- Search the index of anchors. -/
def searchAnchors (phrase : Str) (limit : Nat) : SystemM (List AnchorRow) :=
  send "search anchors fts: " (.searchAnchors phrase limit)

/-- Search the index of task descriptions. -/
def searchTasks (phrase : Str) (limit : Nat) : SystemM (List TaskRow) :=
  send "search tasks fts: " (.searchTasks phrase limit)

/-! ## Statements sent alone -/

section Alone

variable (w : World)

/-- `utcNow` answers the next reading of the clock, which `tick` takes away. -/
@[simp] theorem eval_utcNow : eval handler utcNow w = (.ok (w.clock 0), w.tick) := by
  simp only [utcNow, Program.eval_lift]; rfl

/-- A statement sent alone does what `exec` says. -/
theorem eval_send (context : Str) (statement : Statement) :
    eval handler (send context statement) w
      = ((exec w.fts statement w.db).1.mapError fun e => .sqlite (context ++ e),
        w.withDb (exec w.fts statement w.db).2) := by
  simp only [send, Program.eval_attempt, Program.run_bind]; rfl

/-- `insertTask` appends the row, or fails with a `conflict` where its id is taken. -/
theorem eval_insertTask (row : TaskRow) :
    eval handler (insertTask row) w = match w.db.tasks.insert? row with
      | some tasks => (.ok (), w.withTasks tasks)
      | none => (.error (.sqlite ("insert task: " ++ conflict "tasks.task_id")), w) := by
  refine (eval_send ..).trans ?_
  simp only [exec]
  cases w.db.tasks.insert? row <;> rfl

/-- `deleteTask` deletes the rows with the id and never fails. -/
@[simp] theorem eval_deleteTask (taskId : Str) :
    eval handler (deleteTask taskId) w = (.ok (), w.withTasks (w.db.tasks.delete taskId)) :=
  eval_send ..

/-- `selectTask` answers the row that `find?` finds, and changes nothing. -/
@[simp] theorem eval_selectTask (taskId : Str) :
    eval handler (selectTask taskId) w = (.ok (w.db.tasks.find? taskId), w) := eval_send ..

/-- `selectStatus` answers the status of the row that `find?` finds. -/
@[simp] theorem eval_selectStatus (taskId : Str) :
    eval handler (selectStatus taskId) w = (.ok ((w.db.tasks.find? taskId).map (·.status)), w) :=
  eval_send ..

/-- `updateStatus` sets the status whatever it was; the status `seen` before plays no part. -/
@[simp] theorem eval_updateStatus (taskId : Str) (seen new : TaskStatus) (now : Str) :
    eval handler (updateStatus taskId seen new now) w
      = (.ok (), w.withTasks (w.db.tasks.setStatus taskId new now)) := eval_send ..

/-- `updateDescription` sets the description of the task, and nothing where it is missing. -/
@[simp] theorem eval_updateDescription (taskId description now : Str) :
    eval handler (updateDescription taskId description now) w
      = (.ok (), w.withTasks (w.db.tasks.setDescription taskId description now)) :=
  eval_send ..

/-- `selectPlanTodo` answers the plan of the row that `find?` finds. -/
@[simp] theorem eval_selectPlanTodo (taskId : Str) :
    eval handler (selectPlanTodo taskId) w = (.ok ((w.db.tasks.find? taskId).map (·.planTodo)), w) :=
  eval_send ..

/-- `updatePlanTodo` sets the plan of the task, and nothing where it is missing. -/
@[simp] theorem eval_updatePlanTodo (context taskId planTodo now : Str) :
    eval handler (updatePlanTodo context taskId planTodo now) w
      = (.ok (), w.withTasks (w.db.tasks.setPlanTodo taskId planTodo now)) := eval_send ..

/-- `listPlanPending` answers the sleeping tasks whose plan is not the text `[]`. -/
@[simp] theorem eval_listPlanPending :
    eval handler listPlanPending w = (.ok ((w.db.tasks.contents.filter fun row =>
      row.status = .sleep ∧ row.planTodo ≠ ("[]" : Str)).map fun row =>
        (row.taskId, row.planTodo)), w) := eval_send ..

/-- `countActiveExecutors` counts the rows of the planner that are `active`. -/
@[simp] theorem eval_countActiveExecutors (plannerId : Str) :
    eval handler (countActiveExecutors plannerId) w = (.ok (w.db.tasks.contents.countP fun row =>
      row.planParent = plannerId ∧ row.status = .active), w) := eval_send ..

/-- `insertAnchor` appends the row, or fails with a `conflict` where its key is taken. -/
theorem eval_insertAnchor (row : AnchorRow) :
    eval handler (insertAnchor row) w = match w.db.anchors.insert? row with
      | some anchors => (.ok (), w.withAnchors anchors)
      | none =>
        (.error (.sqlite ("insert anchor: " ++ conflict "anchors.task_id, anchors.id")), w) := by
  refine (eval_send ..).trans ?_
  simp only [exec]
  cases w.db.anchors.insert? row <;> rfl

/-- `selectAnchor` answers the row that `find?` finds for the task and the id. -/
@[simp] theorem eval_selectAnchor (context taskId id : Str) :
    eval handler (selectAnchor context taskId id) w = (.ok (w.db.anchors.find? (taskId, id)), w) :=
  eval_send ..

/-- `updateAnchorFacts` sets the facts of the anchor, and nothing where it is missing. -/
@[simp] theorem eval_updateAnchorFacts (taskId id facts : Str) :
    eval handler (updateAnchorFacts taskId id facts) w
      = (.ok (), w.withAnchors (w.db.anchors.setFacts taskId id facts)) := eval_send ..

/-- `selectAnchorRowid` answers the row number of the anchor, if it is there. -/
@[simp] theorem eval_selectAnchorRowid (taskId id : Str) :
    eval handler (selectAnchorRowid taskId id) w = (.ok (w.db.anchors.rowid? (taskId, id)), w) :=
  eval_send ..

/-- `insertTaskFts` never fails, and leaves the `SameTables`. -/
theorem eval_insertTaskFts (taskId : Str) :
    ∃ w', eval handler (insertTaskFts taskId) w = (.ok (), w') ∧ w.SameTables w' := by
  refine ⟨_, Program.eval_ignoreError handler _ w, ?_⟩
  have h := congrArg Prod.snd (eval_send w "" (.insertTaskFts taskId))
  obtain ⟨commands, hcommands⟩ := exec_insertTaskFts w.fts taskId w.db
  rw [h, hcommands]
  exact ⟨rfl, rfl, rfl, rfl⟩

/-- `deleteTaskFts` never fails, and leaves the `SameTables`. -/
theorem eval_deleteTaskFts (taskId : Str) :
    ∃ w', eval handler (deleteTaskFts taskId) w = (.ok (), w') ∧ w.SameTables w' := by
  refine ⟨_, Program.eval_ignoreError handler _ w, ?_⟩
  have h := congrArg Prod.snd (eval_send w "" (.deleteTaskFts taskId))
  obtain ⟨commands, hcommands⟩ := exec_deleteTaskFts w.fts taskId w.db
  rw [h, hcommands]
  exact ⟨rfl, rfl, rfl, rfl⟩

/-- `insertAnchorFts` never fails, and leaves the `SameTables`. -/
theorem eval_insertAnchorFts (rowid : Nat) (facts summary : Str) :
    ∃ w', eval handler (insertAnchorFts rowid facts summary) w = (.ok (), w') ∧ w.SameTables w' :=
  ⟨_, eval_send .., rfl, rfl, rfl, rfl⟩

end Alone

end LogosFs.System
