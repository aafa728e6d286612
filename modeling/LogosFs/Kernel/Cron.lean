import LogosFs.System.KeepsSchema

/-! # The scheduler of plans

Every minute the scheduler looks at the sleeping tasks whose plan is not empty. For each one without
an active executor it takes the first item off the plan, in one statement, and creates a task for it,
in another one, under an id made of the planner's id and the time in seconds. The first error ends
the tick.

The database may fail any statement: `faultyHandler` consults a list of faults before each one. -/

namespace LogosFs.Kernel

open Program (eval EvalAlong AllOps allOps_perform)
open LogosFs.System (World Sql SystemM SystemOp Statement handler utcNow send DateTime Db Tasks)

variable (json : JsonCodec)

namespace CronScheduler

/-- The id of the task that executes a plan item. -/
def executorId (plannerId : Str) (ts : DateTime) : Str :=
  "plan-exec-" ++ plannerId ++ "-" ++ ts.compact

/-- The task that executes a plan item. -/
def taskContent (executorId description plannerId : Str) : Json :=
  .ofPairs [
    ("task_id", .string executorId),
    ("description", .string description),
    ("chat_id", .string []),
    ("trigger", .string "plan"),
    ("plan_parent", .string plannerId)]

/-- One round of the loop: take the first item off the plan and create a task for it, unless an
executor is active or the plan is empty. -/
def servePlanner (plannerId : Str) : SystemM Unit := do
  let active ← Program.recover false (System.SystemModule.hasActiveExecutor plannerId)
  if active then return
  else match ← System.SystemModule.popPlanHead json plannerId with
    | none => return
    | some description =>
      let ts ← utcNow
      System.SystemModule.createTask json
        (json.toStr (taskContent (executorId plannerId ts) description plannerId))

/-- The tick of the plans. -/
def tickPlans : SystemM Unit := do
  let pending ← System.SystemModule.listPlanPending
  pending.forM fun planner => servePlanner json planner.1

end CronScheduler

/-! ## A database that may fail -/

/-- A world with the failures that its database will answer statements with. -/
structure FaultyWorld where
  /-- The world. -/
  world : World
  /-- For each statement to come, the message it fails with, if it does. -/
  faults : Nat → Option Str

namespace FaultyWorld

/-- The tasks. -/
def tasks (s : FaultyWorld) : Tasks := s.world.db.tasks

/-- The world after a statement that did nothing. -/
def next (s : FaultyWorld) : FaultyWorld := ⟨s.world, fun n => s.faults (n + 1)⟩

/-- The world with another database. -/
def withDb (s : FaultyWorld) (db : Db) : FaultyWorld := ⟨s.world.withDb db, s.faults⟩

/-- A statement that did nothing, after which the world is `s.next`, leaves the tasks alone. -/
@[simp] theorem next_tasks (s : FaultyWorld) : s.next.tasks = s.tasks := rfl

/-- `withDb` sets the tasks to those of the database. -/
@[simp] theorem withDb_tasks (s : FaultyWorld) (db : Db) : (s.withDb db).tasks = db.tasks := rfl

/-- The world in which no statement fails. -/
def reliable (w : World) : FaultyWorld := ⟨w, fun _ => none⟩

end FaultyWorld

/-- What an operation does when the database may fail. A statement that fails does nothing. -/
def faultyHandler : Handler Sql FaultyWorld
  | .now, s => ((handler .now s.world).1, ⟨(handler .now s.world).2, s.faults⟩)
  | .sql statement, s => match s.faults 0 with
    | some e => (.error e, ⟨s.world, fun n => s.faults (n + 1)⟩)
    | none => ((handler (.sql statement) s.world).1,
        ⟨(handler (.sql statement) s.world).2, fun n => s.faults (n + 1)⟩)

/-- In a world that is `reliable` everything is as under the handler without failures. -/
theorem run_reliable {α : Type} (p : Program Sql α) (w : World) :
    p.run faultyHandler (.reliable w) = ((p.run handler w).1, .reliable (p.run handler w).2) := by
  induction p generalizing w with
  | done value => rfl
  | call op next ih =>
    cases op with
    | now => exact ih _ _
    | sql statement => exact ih _ _

/-- In a `reliable` world a program does what it does by `handler`. -/
theorem eval_reliable {α : Type} (p : SystemM α) (w : World) :
    eval faultyHandler p (.reliable w) = ((eval handler p w).1, .reliable (eval handler p w).2) :=
  run_reliable p.run w

/-- The `INSERT` of a task is accepted: the database does not fail it, and its id is free. -/
def InsertAccepted (op : SystemOp) (s : FaultyWorld) : Prop :=
  ∀ row, op = .sql (.insertTask row) → s.faults 0 = none ∧ s.tasks.find? row.taskId = none

section Faulty

variable {α : Type} (s : FaultyWorld)

/-- A statement for which `faults` has an error fails with it and does nothing. -/
theorem eval_send_of_fault (context : Str) (statement : Statement) {e : Str} (h : s.faults 0 = some e) :
    eval faultyHandler (send context statement) s = (.error (.sqlite (context ++ e)), s.next) := by
  have hhandler : faultyHandler (.sql statement) s = (.error e, s.next) := by
    rw [faultyHandler, h]
    rfl
  rw [send, Program.eval_attempt, Program.run_bind, Program.run_perform, hhandler]
  rfl

/-- A statement for which `faults` has no error does what `System.exec` does. -/
theorem eval_send_of_no_fault (context : Str) (statement : Statement) (h : s.faults 0 = none) :
    eval faultyHandler (send context statement) s
      = ((System.exec s.world.fts statement s.world.db).1.mapError fun e => .sqlite (context ++ e),
        s.next.withDb (System.exec s.world.fts statement s.world.db).2) := by
  have hhandler : faultyHandler (.sql statement) s
      = ((System.exec s.world.fts statement s.world.db).1,
        s.next.withDb (System.exec s.world.fts statement s.world.db).2) := by
    rw [faultyHandler, h]
    rfl
  rw [send, Program.eval_attempt, Program.run_bind, Program.run_perform, hhandler]
  rfl

/-- A statement fails and does nothing, or does what `System.exec` does. -/
theorem eval_send_cases (context : Str) (statement : Statement) {answer : statement.Answer} {db : Db}
    (h : System.exec s.world.fts statement s.world.db = (.ok answer, db)) :
    (∃ e, eval faultyHandler (send context statement) s = (.error e, s.next)) ∨
      eval faultyHandler (send context statement) s = (.ok answer, s.next.withDb db) := by
  cases hfault : s.faults 0 with
  | some e => exact .inl ⟨_, eval_send_of_fault s context statement hfault⟩
  | none =>
    right
    rw [eval_send_of_no_fault s context statement hfault, h]
    rfl

/-- `utcNow` answers the next reading of the clock and is no statement, so it meets no fault. -/
theorem eval_utcNow_faulty :
    eval faultyHandler utcNow s = (.ok (s.world.clock 0), ⟨s.world.tick, s.faults⟩) := rfl

end Faulty

/-- An operation other than the `INSERT` of a task. -/
def NoInsert (op : SystemOp) : Prop := ∀ row, op ≠ .sql (.insertTask row)

/-- A program without an `INSERT` of a task is never refused one. -/
theorem evalAlong_of_noInsert {α : Type} {p : SystemM α} (h : p.run.AllOps NoInsert)
    (s : FaultyWorld) : EvalAlong faultyHandler InsertAccepted p s :=
  h.along faultyHandler (fun _ _ hop row hrow => absurd hrow (hop row)) s

/-- A program whose statements `W` insert no task is one without an `INSERT` of a task. -/
theorem noInsert_of_writes {α : Type} {W : Statement → Prop} {p : SystemM α} (h : System.Writes W p)
    (hW : ∀ row, ¬W (.insertTask row)) : p.run.AllOps NoInsert :=
  AllOps.mono h fun _ hop row hrow => hW row (by subst hrow; exact hop rfl)

/-- A program that changes no rows is one without an `INSERT` of a task. -/
theorem noInsert_read {α : Type} {p : SystemM α} (h : System.Writes (fun _ => False) p) :
    p.run.AllOps NoInsert := noInsert_of_writes h fun _ => id

/-- `popPlanHead` inserts no task. -/
theorem noInsert_popPlanHead (plannerId : Str) :
    (System.SystemModule.popPlanHead json plannerId).run.AllOps NoInsert :=
  noInsert_of_writes (System.writes_popPlanHead plannerId) fun _ ⟨_, _, h⟩ => nomatch h

/-- `listPlanPending` inserts no task. -/
theorem noInsert_listPlanPending : System.SystemModule.listPlanPending.run.AllOps NoInsert :=
  noInsert_read (System.writes_read rfl)

/-- `hasActiveExecutor` inserts no task. -/
theorem noInsert_hasActiveExecutor (plannerId : Str) :
    (System.SystemModule.hasActiveExecutor plannerId).run.AllOps NoInsert :=
  noInsert_read (AllOps.exceptBind (System.writes_read rfl) fun _ => trivial)

/-! ## What the parts of a tick do -/

/-- The items of a planner's plan. -/
def planItems (tasks : Tasks) (plannerId : Str) : List Str :=
  match tasks.find? plannerId with
  | some row => (json.stringsFromStr row.planTodo).getD []
  | none => []

/-- The executors created for a planner, in the order of their creation. -/
def executors (tasks : Tasks) (plannerId : Str) : List System.TaskRow :=
  tasks.contents.filter fun row => row.planParent = plannerId

/-- What `popPlanHead` comes to: the plan is left alone; or it had a first item, which is returned,
and the rest is stored. -/
theorem popPlanHead_cases (s : FaultyWorld) (plannerId : Str) :
    ∃ result s', eval faultyHandler (System.SystemModule.popPlanHead json plannerId) s = (result, s') ∧
      ((∀ head, result ≠ .ok (some head)) ∧ s'.tasks = s.tasks ∨
        ∃ head rest now, result = .ok (some head) ∧ planItems json s.tasks plannerId = head :: rest ∧
          s'.tasks = s.tasks.setPlanTodo plannerId (json.toStr (.strings rest)) now) := by
  have hselect := eval_send_cases s "get plan_todo: " (.selectPlanTodo plannerId) rfl
  change (∃ e, eval faultyHandler (System.selectPlanTodo plannerId) s = (.error e, s.next)) ∨
    eval faultyHandler (System.selectPlanTodo plannerId) s
      = (.ok ((s.tasks.find? plannerId).map (·.planTodo)), s.next) at hselect
  rw [System.SystemModule.popPlanHead, System.TaskDb.popPlanHead, Program.eval_bind]
  -- Both statements may fail: the one that reads the plan,
  rcases hselect with ⟨e, hselect⟩ | hselect
  · rw [hselect]
    exact ⟨.error e, s.next, rfl, .inl ⟨fun _ h => (by cases h), rfl⟩⟩
  · rw [hselect, Program.evalNext_ok]
    cases hrow : s.tasks.find? plannerId with
    | none => exact ⟨.ok none, s.next, rfl, .inl ⟨fun _ h => (by cases h), rfl⟩⟩
    | some row =>
      dsimp only [Option.map_some]
      cases htodo : (json.stringsFromStr row.planTodo).getD [] with
      | nil => exact ⟨.ok none, s.next, rfl, .inl ⟨fun _ h => (by cases h), rfl⟩⟩
      | cons head rest =>
        have hitems : planItems json s.tasks plannerId = head :: rest := by
          rw [planItems, hrow]; exact htodo
        dsimp only
        rw [Program.eval_bind, eval_utcNow_faulty, Program.evalNext_ok, Program.eval_bind]
        generalize hnow : (s.next.world.clock 0).isoSecond = now
        generalize hs : (⟨s.next.world.tick, s.next.faults⟩ : FaultyWorld) = s₁
        have htasks : s₁.tasks = s.tasks := by rw [← hs]; rfl
        have hupdate := eval_send_cases s₁ "pop plan head: "
          (.updatePlanTodo plannerId (json.toStr (.strings rest)) now) rfl
        change (∃ e, eval faultyHandler (System.updatePlanTodo "pop plan head: " plannerId
              (json.toStr (.strings rest)) now) s₁ = (.error e, s₁.next)) ∨
          eval faultyHandler (System.updatePlanTodo "pop plan head: " plannerId
              (json.toStr (.strings rest)) now) s₁ = (.ok (), _) at hupdate
        -- and the one that writes the rest back.
        rcases hupdate with ⟨e, hupdate⟩ | hupdate
        · rw [hupdate]
          exact ⟨.error e, s₁.next, rfl, .inl ⟨fun _ h => (by cases h), htasks⟩⟩
        · rw [hupdate, Program.evalNext_ok]
          refine ⟨.ok (some head), _, rfl, .inr ⟨head, rest, now, rfl, hitems, ?_⟩⟩
          rw [← htasks]
          rfl

/-- What `hasActiveExecutor` comes to: an answer, which is right unless the database failed; then it
is `false`. -/
theorem hasActiveExecutor_cases (s : FaultyWorld) (plannerId : Str) :
    ∃ active, eval faultyHandler
        (Program.recover false (System.SystemModule.hasActiveExecutor plannerId)) s
        = (.ok active, s.next) ∧
      (s.faults 0 = none → (active = true ↔
        ∃ row ∈ s.tasks.contents, row.planParent = plannerId ∧ row.status = .active)) := by
  rw [Program.eval_recover, System.SystemModule.hasActiveExecutor, Program.eval_bind]
  cases hfault : s.faults 0 with
  | some e =>
    have hcount : eval faultyHandler (System.countActiveExecutors plannerId) s = _ :=
      eval_send_of_fault s _ _ hfault
    rw [hcount]
    exact ⟨false, rfl, fun h => nomatch h⟩
  | none =>
    have hcount : eval faultyHandler (System.countActiveExecutors plannerId) s = _ :=
      eval_send_of_no_fault s _ _ hfault
    rw [hcount]
    refine ⟨_, rfl, fun _ => ?_⟩
    show decide (0 < List.countP _ _) = true ↔ _
    simp [List.countP_pos_iff, FaultyWorld.tasks]

/-- `insertTask` is accepted if the next statement does not fail and the id is free. -/
theorem evalAlong_insertTask (s : FaultyWorld) (row : System.TaskRow) :
    EvalAlong faultyHandler InsertAccepted (System.insertTask row) s ↔
      s.faults 0 = none ∧ s.tasks.find? row.taskId = none := by
  constructor
  · intro h; exact h.1 row rfl
  · rintro h
    refine ⟨fun row' hrow' => ?_, trivial⟩
    cases hrow'
    exact h

/-- An `INSERT` that is accepted succeeds. -/
theorem eval_insertTask_of_accepted {s : FaultyWorld} {row : System.TaskRow}
    (hfault : s.faults 0 = none) (hfree : s.tasks.find? row.taskId = none) :
    ∃ s', eval faultyHandler (System.insertTask row) s = (.ok (), s') ∧
      s.tasks.insert? row = some s'.tasks := by
  obtain ⟨tasks, htasks⟩ := Table.exists_insert?_of_find?_none hfree
  refine ⟨s.next.withDb { s.world.db with tasks := tasks }, ?_, htasks⟩
  have hexec : System.exec s.world.fts (.insertTask row) s.world.db
      = (.ok (), { s.world.db with tasks := tasks }) := by
    rw [System.exec, show s.world.db.tasks.insert? row = some tasks from htasks]
  have hrun : eval faultyHandler (System.insertTask row) s = _ :=
    eval_send_of_no_fault s "insert task: " (.insertTask row) hfault
  rw [hrun, hexec]
  rfl

/-- An `INSERT` that is refused fails and changes nothing. -/
theorem eval_insertTask_of_refused {s : FaultyWorld} {row : System.TaskRow}
    (h : ¬(s.faults 0 = none ∧ s.tasks.find? row.taskId = none)) :
    ∃ e s', eval faultyHandler (System.insertTask row) s = (.error e, s') ∧ s'.tasks = s.tasks := by
  cases hfault : s.faults 0 with
  | some e => exact ⟨_, s.next, eval_send_of_fault s "insert task: " (.insertTask row) hfault, rfl⟩
  | none =>
    obtain ⟨old, hold⟩ := Option.ne_none_iff_exists'.mp fun hfree => h ⟨hfault, hfree⟩
    have hexec : System.exec s.world.fts (.insertTask row) s.world.db
        = (.error (System.conflict "tasks.task_id"), s.world.db) := by
      rw [System.exec, show s.world.db.tasks.insert? row = none from
        Table.insert?_eq_none_iff.mpr ⟨old, hold⟩]
    have hrun : eval faultyHandler (System.insertTask row) s = _ :=
      eval_send_of_no_fault s "insert task: " (.insertTask row) hfault
    rw [hrun, hexec]
    exact ⟨_, _, rfl, rfl⟩

/-- Indexing a description by `insertTaskFts` leaves the tasks alone and never fails. -/
theorem eval_insertTaskFts_faulty (s : FaultyWorld) (taskId : Str) :
    ∃ s', eval faultyHandler (System.insertTaskFts taskId) s = (.ok (), s') ∧ s'.tasks = s.tasks := by
  rw [System.insertTaskFts, Program.eval_ignoreError]
  refine ⟨_, rfl, ?_⟩
  cases hfault : s.faults 0 with
  | some e => rw [eval_send_of_fault s "" (.insertTaskFts taskId) hfault]; rfl
  | none =>
    rw [eval_send_of_no_fault s "" (.insertTaskFts taskId) hfault]
    obtain ⟨commands, hcommands⟩ := System.exec_insertTaskFts s.world.fts taskId s.world.db
    show (System.exec s.world.fts (.insertTaskFts taskId) s.world.db).2.tasks = s.world.db.tasks
    rw [hcommands]

/-- What creating a task from JSON comes to: its `INSERT` is accepted, and the row is there; or it is
refused, and nothing has changed. -/
theorem createTask_cases (s : FaultyWorld) {value : Json} (hexact : value.Exact) :
    ∃ now result s', eval faultyHandler (System.SystemModule.createTask json (json.toStr value)) s
        = (result, s') ∧
      ((EvalAlong faultyHandler InsertAccepted
            (System.SystemModule.createTask json (json.toStr value)) s ∧ result = .ok () ∧
          s.tasks.insert? (System.TaskDb.newRow value now) = some s'.tasks) ∨
        ¬EvalAlong faultyHandler InsertAccepted
            (System.SystemModule.createTask json (json.toStr value)) s ∧
          (∃ e, result = .error e) ∧ s'.tasks = s.tasks) := by
  have hparse : System.parseJson json (json.toStr value) = pure value := by
    rw [System.parseJson, json.fromStr_toStr _ hexact]
  rw [System.SystemModule.createTask, System.TaskDb.create, hparse, pure_bind]
  simp only [Program.evalAlong_bind, Program.eval_bind, eval_utcNow_faulty, Program.evalNext_ok,
    Except.ok.injEq, forall_eq', evalAlong_insertTask]
  generalize hs : (⟨s.world.tick, s.faults⟩ : FaultyWorld) = s₁
  have htasks : s₁.tasks = s.tasks := by rw [← hs]; rfl
  have hfaults : s₁.faults = s.faults := by rw [← hs]
  rw [← hfaults]
  have hnow : EvalAlong faultyHandler InsertAccepted utcNow s := evalAlong_of_noInsert (noInsert_read System.writes_utcNow) s
  refine ⟨s.world.clock 0, ?_⟩
  generalize System.TaskDb.newRow value (s.world.clock 0) = row
  -- The row is inserted if the database works and the id is free; indexing it cannot fail after
  -- that.
  by_cases haccepted : s₁.faults 0 = none ∧ s₁.tasks.find? row.taskId = none
  · obtain ⟨s₂, hrun, hinsert⟩ := eval_insertTask_of_accepted haccepted.1 haccepted.2
    rw [hrun, Program.evalNext_ok, ← htasks]
    have hindex : ∃ s', eval faultyHandler
          (if row.description ≠ [] then System.insertTaskFts row.taskId else pure ()) s₂
          = (.ok (), s') ∧ s'.tasks = s₂.tasks ∧
        EvalAlong faultyHandler InsertAccepted
          (if row.description ≠ [] then System.insertTaskFts row.taskId else pure ()) s₂ := by
      split
      · obtain ⟨s', hfts, hsame⟩ := eval_insertTaskFts_faulty s₂ row.taskId
        exact ⟨s', hfts, hsame, evalAlong_of_noInsert (noInsert_read (System.writes_insertTaskFts _)) s₂⟩
      · exact ⟨s₂, rfl, rfl, trivial⟩
    obtain ⟨s', hfts, hsame, halong⟩ := hindex
    exact ⟨.ok (), s', hfts, .inl ⟨⟨hnow, haccepted, fun _ _ => halong⟩, rfl, hsame ▸ hinsert⟩⟩
  · obtain ⟨e, s', hrun, hsame⟩ := eval_insertTask_of_refused haccepted
    rw [hrun, Program.evalNext_error]
    exact ⟨_, _, rfl, .inr ⟨fun h => haccepted h.2.1, ⟨e, rfl⟩, hsame.trans htasks⟩⟩

/-! ## One round of the loop -/

/-- The row of an executor. -/
def executorRow (plannerId description : Str) (ts now : DateTime) : System.TaskRow :=
  System.TaskDb.newRow
    (CronScheduler.taskContent (CronScheduler.executorId plannerId ts) description plannerId) now

/-- A `taskContent` has no numbers in it, so it is `Exact`. -/
theorem exact_taskContent (executorId description plannerId : Str) :
    (CronScheduler.taskContent executorId description plannerId).Exact := by
  refine Json.exactAt_ofPairs fun pair hpair => ?_
  simp only [List.mem_cons, List.not_mem_nil, or_false] at hpair
  rcases hpair with rfl | rfl | rfl | rfl | rfl <;> exact .string

/-- What the JSON of an executor becomes as a row: `executorRow` is a `fresh` row, of trigger `plan`
and with the planner as its parent. -/
theorem executorRow_eq (plannerId description : Str) (ts now : DateTime) :
    executorRow plannerId description ts now
      = .fresh (CronScheduler.executorId plannerId ts) description [] [] [] "plan" plannerId
        now.isoSecond := by
  rw [executorRow, System.TaskDb.newRow]
  simp only [System.strField, Json.get, CronScheduler.taskContent, Json.get?_ofPairs]
  rfl

/-- **One round of the loop**, `servePlanner`: the planner is passed over, and no task changes; or
its plan loses its first item, and then either the task for it is there or the tick ends with an
error. -/
theorem servePlanner_cases (s : FaultyWorld) (plannerId : Str) :
    ∃ result s', eval faultyHandler (CronScheduler.servePlanner json plannerId) s = (result, s') ∧
      (EvalAlong faultyHandler InsertAccepted (CronScheduler.servePlanner json plannerId) s ∧
          s'.tasks = s.tasks ∨
        ∃ head rest now, planItems json s.tasks plannerId = head :: rest ∧
          (s.faults 0 = none →
            ∀ row ∈ s.tasks.contents, row.planParent = plannerId → row.status ≠ .active) ∧
          (EvalAlong faultyHandler InsertAccepted (CronScheduler.servePlanner json plannerId) s ∧
              result = .ok () ∧ (∃ ts now', (s.tasks.setPlanTodo plannerId
                (json.toStr (.strings rest)) now).insert? (executorRow plannerId head ts now')
                  = some s'.tasks) ∨
            ¬EvalAlong faultyHandler InsertAccepted (CronScheduler.servePlanner json plannerId) s ∧
              (∃ e, result = .error e) ∧
              s'.tasks = s.tasks.setPlanTodo plannerId (json.toStr (.strings rest)) now)) := by
  have hguard : EvalAlong faultyHandler InsertAccepted
      (Program.recover false (System.SystemModule.hasActiveExecutor plannerId)) s :=
    (Program.evalAlong_recover ..).mpr
      (evalAlong_of_noInsert (noInsert_hasActiveExecutor plannerId) s)
  obtain ⟨active, hactive, hright⟩ := hasActiveExecutor_cases s plannerId
  rw [CronScheduler.servePlanner, Program.eval_bind, Program.evalAlong_bind, hactive,
    Program.evalNext_ok]
  simp only [hguard, true_and, Except.ok.injEq, forall_eq']
  cases active with
  | true => exact ⟨.ok (), s.next, rfl, .inl ⟨trivial, rfl⟩⟩
  | false =>
    simp only [Bool.false_eq_true, if_false]
    have hnone : s.faults 0 = none →
        ∀ row ∈ s.tasks.contents, row.planParent = plannerId → row.status ≠ .active := by
      intro hfault row hrow hparent hstatus
      exact Bool.false_ne_true ((hright hfault).mpr ⟨row, hrow, hparent, hstatus⟩)
    have hpopAlong : EvalAlong faultyHandler InsertAccepted
        (System.SystemModule.popPlanHead json plannerId) s.next :=
      evalAlong_of_noInsert (noInsert_popPlanHead json plannerId) s.next
    obtain ⟨popped, s₁, hpop, hcases⟩ := popPlanHead_cases json s.next plannerId
    rw [Program.eval_bind, Program.evalAlong_bind, hpop]
    simp only [hpopAlong, true_and]
    rcases hcases with ⟨hno, hsame⟩ | ⟨head, rest, now, rfl, hitems, htasks⟩
    -- Nothing was popped: the planner is passed over, or the tick ends.
    · rcases popped with e | _ | head
      · exact ⟨.error e, s₁, rfl, .inl ⟨fun _ h => (nomatch h), hsame⟩⟩
      · refine ⟨.ok (), s₁, rfl, .inl ⟨?_, hsame⟩⟩
        rintro _ ⟨⟩
        trivial
      · exact absurd rfl (hno head)
    · rw [Program.evalNext_ok]
      simp only [Except.ok.injEq, forall_eq']
      rw [Program.eval_bind, Program.evalAlong_bind, eval_utcNow_faulty, Program.evalNext_ok]
      obtain ⟨now', result, s', hcreate, houtcome⟩ := createTask_cases json
        ⟨s₁.world.tick, s₁.faults⟩ (exact_taskContent
          (CronScheduler.executorId plannerId (s₁.world.clock 0)) head plannerId)
      have hclock : EvalAlong faultyHandler InsertAccepted utcNow s₁ :=
        evalAlong_of_noInsert (noInsert_read System.writes_utcNow) s₁
      simp only [hclock, true_and, Except.ok.injEq, forall_eq', hcreate]
      refine ⟨result, s', rfl, .inr ⟨head, rest, now, hitems, hnone, ?_⟩⟩
      rcases houtcome with ⟨halong, hok, hinsert⟩ | ⟨halong, herror, hsame⟩
      · exact .inl ⟨halong, hok, s₁.world.clock 0, now', htasks ▸ hinsert⟩
      · exact .inr ⟨halong, herror, hsame.trans htasks⟩

end LogosFs.Kernel
