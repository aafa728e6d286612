import LogosFs.Lib.Watch
import LogosFs.Kernel.PlanItems
import LogosFs.System.Lifecycle

/-! # Plans that are replaced while the scheduler is at work

The scheduler reads a plan in one statement, writes its tail back in another one, and creates the
task in a third. A planner that is woken up may submit a new plan at any moment in between. The
scheduler is watched (`Stage`), and for each planner an account is kept of its newest plan
(`Ledger`): what was submitted, what the scheduler has taken off since, and for what of it it has
created a task. `followsNewest_of_run` says that in every interleaving in which no plan is submitted
while the scheduler is serving its planner, nothing but the newest plan is ever served, item by
item. -/

namespace LogosFs.Kernel

open Program (AllOps)
open LogosFs.System (World Sql SystemM SystemOp Statement Tasks TaskRow handler utcNow send)

variable (json : JsonCodec)

/-- The ticks of the scheduler, one after another. An error is reported and ends its tick only. -/
def CronScheduler.ticks : Nat → Program Sql Unit
  | 0 => .done ()
  | n + 1 => (CronScheduler.tickPlans json).run >>= fun _ => ticks n

/-! ## Where the scheduler is -/

/-- Where the scheduler is between two statements. -/
inductive Stage where
  /-- It is not serving a planner. -/
  | idle
  /-- It has read a planner's plan. -/
  | read (plannerId head : Str) (rest : List Str)
  /-- It has taken the first item off the plan, and not yet created a task for it. -/
  | popped (plannerId head : Str)
deriving DecidableEq, Repr

namespace Stage

/-- The planner that is served. -/
def serves : Stage → Option Str
  | .idle => none
  | .read plannerId _ _ | .popped plannerId _ => some plannerId

/-- The item that was taken off a planner's plan and not yet created a task for. -/
def inHand (plannerId : Str) : Stage → List Str
  | .popped id head => if id = plannerId then [head] else []
  | _ => []

/-- The items in the text of a plan. -/
def itemsOf (text : Str) : List Str := (json.stringsFromStr text).getD []

/-- Where an operation of the scheduler leads. -/
def next (stage : Stage) : (op : SystemOp) → Sql.Res op → Stage
  | .sql (.selectPlanTodo plannerId), answer => match answer with
    | .ok (some text) => match itemsOf json text with
      | [] => .idle
      | head :: rest => .read plannerId head rest
    | _ => .idle
  | .sql (.updatePlanTodo ..), _ => match stage with
    | .read plannerId head _ => .popped plannerId head
    | stage => stage
  | .sql (.insertTask _), _ => .idle
  | _, _ => stage

/-- What the scheduler may do at a stage. -/
def Allows (stage : Stage) : SystemOp → Prop
  | .sql (.selectPlanTodo _) => stage = .idle
  | .sql (.updatePlanTodo plannerId text _) =>
    ∃ head rest, stage = .read plannerId head rest ∧ text = json.toStr (.strings rest)
  | .sql (.insertTask row) =>
    stage = .popped row.planParent row.description ∧ row.planTodo = "[]".toList
  | .sql (.deleteTask _) => False
  | _ => True

/-- A statement succeeds, unless it inserts a row or is about the index of tasks. -/
def Expects : (op : SystemOp) → Sql.Res op → Prop
  | .now, _ | .sql (.insertTask _), _ | .sql (.insertAnchor _), _ => True
  | .sql (.insertTaskFts _), _ | .sql (.deleteTaskFts _), _ => True
  | .sql _, answer => answer.isOk

/-- The watcher of the scheduler. -/
def watch : Watch Sql Stage := ⟨Allows json, Expects, next json⟩

/-- Every answer of `handler` is one that `Expects` allows. -/
theorem expects_handler (op : SystemOp) (w : World) : Expects op (handler op w).1 := by
  cases op with
  | now => trivial
  | sql statement =>
    cases statement with
    | insertTask | insertAnchor | insertTaskFts | deleteTaskFts => trivial
    | _ => rfl

end Stage

open Stage (Expects watch itemsOf)

section Scheduler

variable {json} {α : Type} {stage : Stage}

/-- Sending a `statement` that the stage `Allows`: what holds of its answers in the next stage holds
of the program. -/
theorem under_send {context : Str} {statement : Statement}
    {Q : Except VfsError statement.Answer → Stage → Prop}
    (hallows : stage.Allows json (.sql statement))
    (hQ : ∀ answer : Except Str statement.Answer, Expects (.sql statement) answer →
      Q (answer.mapError fun e => .sqlite (context ++ e)) (stage.next json (.sql statement) answer)) :
    (send context statement).run.Under (watch json) Q stage :=
  ⟨hallows, hQ⟩

variable (stage) in
/-- Reading the clock by `utcNow` moves nothing: it answers, and the stage is what it was. -/
theorem under_utcNow_ok : utcNow.run.Under (watch json)
    (fun result stage' => (∃ now, result = .ok now) ∧ stage' = stage) stage :=
  ⟨trivial, fun now _ => ⟨⟨now, rfl⟩, rfl⟩⟩

/-- Creating a task for the item in hand, of the stage `.popped`, leads back to `.idle`. -/
theorem under_createTask {value : Json} (hexact : value.Exact)
    (hrow : ∀ now, stage = .popped (System.TaskDb.newRow value now).planParent
        (System.TaskDb.newRow value now).description ∧
      (System.TaskDb.newRow value now).planTodo = "[]".toList) :
    (System.SystemModule.createTask json (json.toStr value)).run.Under (watch json)
      (fun _ stage => stage = .idle) stage := by
  have hparse : System.parseJson json (json.toStr value) = pure value := by
    rw [System.parseJson, json.fromStr_toStr _ hexact]
  rw [System.SystemModule.createTask, System.TaskDb.create, hparse, pure_bind]
  refine Program.Under.exceptBind (under_utcNow_ok stage) (fun now stage' h => ?_)
    fun e stage h => absurd h.1 (by simp)
  obtain ⟨-, rfl⟩ := h
  refine Program.Under.exceptBind (Q := fun _ stage => stage = .idle)
    (under_send (hrow now) fun _ _ => rfl) (fun _ stage h => ?_) fun _ _ h => h
  subst h
  split
  · exact Program.Under.ignoreError (Q := fun _ stage => stage = .idle)
      (under_send trivial fun _ _ => rfl) fun _ _ h => h
  · rfl

/-- Taking an item off a plan by `popPlanHead`: the scheduler has it in hand afterwards, in the
stage `.popped`, or it is `.idle`. -/
theorem under_popPlanHead (plannerId : Str) :
    (System.SystemModule.popPlanHead json plannerId).run.Under (watch json) (fun
      | .ok (some head), stage => stage = .popped plannerId head
      | _, stage => stage = .idle) .idle := by
  -- After the plan is read the stage knows its head, or there is none to serve.
  refine Program.Under.exceptBind (Q := fun
      | .ok (some text), stage => stage = match itemsOf json text with
        | [] => .idle
        | head :: rest => .read plannerId head rest
      | _, stage => stage = .idle)
    (under_send rfl fun answer hanswer => ?_) (fun todoStr stage hstage => ?_)
    fun e stage hstage => hstage
  · rcases answer with e | _ | text
    · rfl
    · rfl
    · rfl
  · cases todoStr with
    | none => exact hstage
    | some text =>
      dsimp only at hstage ⊢
      rw [← itemsOf]
      cases hitems : itemsOf json text with
      | nil =>
        rw [hitems] at hstage
        exact hstage
      | cons head todo =>
        rw [hitems] at hstage
        subst hstage
        refine Program.Under.exceptBind (under_utcNow_ok (.read plannerId head todo))
          (fun now stage hread => ?_) fun e stage h => absurd h.1 nofun
        obtain ⟨-, rfl⟩ := hread
        refine Program.Under.exceptBind (Q := fun result stage =>
          (∃ value, result = .ok value) ∧ stage = .popped plannerId head)
          (under_send ⟨head, todo, rfl, rfl⟩ fun answer hanswer => ?_) (fun _ stage hpopped => ?_)
          fun e stage h => absurd h.1 nofun
        swap
        · exact hpopped.2
        rcases answer with e | value
        · cases hanswer
        · exact ⟨⟨_, rfl⟩, rfl⟩

/-- One round of the loop, `servePlanner`, starts and ends `.idle`, where no planner is served. -/
theorem under_servePlanner (plannerId : Str) :
    (CronScheduler.servePlanner json plannerId).run.Under (watch json)
      (fun _ stage => stage = .idle) .idle := by
  refine Program.Under.exceptBind (Q := fun _ stage => stage = .idle) ?_ (fun active stage h => ?_)
    fun _ _ h => h
  · have hcount : (System.countActiveExecutors plannerId).run.Under (watch json)
        (fun _ stage => stage = .idle) .idle := under_send trivial fun _ _ => rfl
    have hquestion : (System.SystemModule.hasActiveExecutor plannerId).run.Under (watch json)
        (fun _ stage => stage = .idle) .idle :=
      Program.Under.exceptBind hcount (fun _ _ h => h) fun _ _ h => h
    exact Program.Under.recover hquestion fun _ _ h => h
  subst h
  cases active with
  | true => rfl
  | false =>
    refine Program.Under.exceptBind (under_popPlanHead plannerId) (fun popped stage h => ?_)
      fun _ _ h => h
    cases popped with
    | none => exact h
    | some head =>
      subst h
      refine Program.Under.exceptBind (under_utcNow_ok (.popped plannerId head))
        (fun ts stage h => ?_) fun e stage h => absurd h.1 nofun
      obtain ⟨-, rfl⟩ := h
      exact under_createTask (exact_taskContent ..) fun now => by
        rw [← executorRow, executorRow_eq]
        exact ⟨rfl, rfl⟩

variable (json) in
/-- **The scheduler keeps to its stages**: `ticks json n` starts and ends `.idle`. -/
theorem under_ticks (n : Nat) :
    (CronScheduler.ticks json n).Under (watch json) (fun _ stage => stage = .idle) .idle := by
  induction n with
  | zero => rfl
  | succ n ih =>
    refine Program.Under.bind (Q := fun _ stage => stage = .idle) ?_ fun _ stage h => h ▸ ih
    have hlist : System.SystemModule.listPlanPending.run.Under (watch json)
        (fun _ stage => stage = .idle) .idle := under_send trivial fun _ _ => rfl
    refine Program.Under.exceptBind hlist (fun pending stage h => ?_) fun _ _ h => h
    subst h
    refine (Program.Under.forM (I := fun stage => stage = .idle) (E := fun _ stage => stage = .idle)
      (fun planner stage h => ?_) pending rfl).mono ?_
    · subst h
      refine (under_servePlanner planner.1).mono fun result stage h => ?_
      cases result <;> exact h
    · intro result stage h
      cases result <;> exact h

end Scheduler

/-! ## The other callers -/

/-- An operation that stores plans as lists of strings, and gives new tasks the empty plan. -/
def StoresPlans : SystemOp → Prop
  | .sql (.insertTask row) => row.planTodo = "[]".toList
  | .sql (.updatePlanTodo _ text _) => System.PlanText json text
  | _ => True

section Callers

variable {json} {α : Type}

/-- A program that writes by statements that `StoresPlans` allows stores plans as lists of strings.
-/
theorem storesPlans_of_writes {W : Statement → Prop} {p : SystemM α} (h : System.Writes W p)
    (hW : ∀ statement, W statement → StoresPlans json (.sql statement)) :
    p.run.AllOps (StoresPlans json) := by
  refine AllOps.mono h fun op hop => ?_
  cases op with
  | now => trivial
  | sql statement =>
    cases hchanges : statement.changesRows with
    | true => exact hW statement (hop hchanges)
    | false =>
      cases statement with
      | insertTask | updatePlanTodo => cases hchanges
      | _ => trivial

/-- The program of a `caller`, which completes a turn or makes a transition, stores plans as printed
lists of strings only. -/
theorem storesPlans_program (caller : System.Caller) :
    (caller.program json).AllOps (StoresPlans json) := by
  have htransition : ∀ taskId newStatus : Str,
      (System.TaskDb.transitionStatus taskId newStatus).run.AllOps (StoresPlans json) :=
    fun taskId newStatus => storesPlans_of_writes (System.writes_transitionStatus taskId newStatus)
      fun _ ⟨_, _, _, _, h⟩ => h ▸ trivial
  cases caller with
  | transition taskId newStatus => exact (htransition taskId newStatus).bind fun _ => trivial
  | complete params =>
    refine AllOps.bind (System.Complete.closed_execute (Program.closed_allOps (StoresPlans json))
      (storesPlans_of_writes System.writes_utcNow fun _ => id) (fun _ _ => htransition _ _)
      (fun _ => htransition _ _) (fun _ _ => ?_) (fun _ => ?_) (fun _ _ => ?_) fun _ _ => ?_)
      fun _ => trivial
    · exact storesPlans_of_writes (System.writes_delete _) fun _ h => h ▸ trivial
    · exact storesPlans_of_writes (System.writes_setPlanTodo _ _) fun _ ⟨_, h⟩ =>
        h ▸ System.planText_strings _
    · refine storesPlans_of_writes (System.writes_createAnchor _ _ _) fun _ h => ?_
      rcases h with ⟨row, rfl, -⟩ | ⟨marked, id, text, rfl⟩ <;> trivial
    · exact storesPlans_of_writes (System.writes_create _) fun _ ⟨_, _, _, h⟩ => h ▸ rfl

/-- So do the `ticks` of the scheduler. -/
theorem storesPlans_ticks (n : Nat) : (CronScheduler.ticks json n).AllOps (StoresPlans json) := by
  induction n with
  | zero => trivial
  | succ n ih =>
    refine AllOps.bind ?_ fun _ => ih
    have hread : ∀ {context : Str} {statement : Statement}, statement.changesRows = false →
        (send context statement).run.AllOps (StoresPlans json) := fun h =>
      storesPlans_of_writes (W := fun _ => False) (System.writes_read h) fun _ => False.elim
    refine AllOps.exceptBind (hread rfl) fun pending => AllOps.forM (fun planner => ?_) pending
    have hactive : (Program.recover false (System.SystemModule.hasActiveExecutor planner.1)).run.AllOps
        (StoresPlans json) := AllOps.recover (AllOps.exceptBind (hread rfl) fun _ => trivial)
    refine AllOps.exceptBind hactive fun active => ?_
    split
    · trivial
    · refine AllOps.exceptBind (storesPlans_of_writes (System.writes_popPlanHead planner.1)
        fun _ ⟨_, _, h⟩ => h ▸ System.planText_strings _) fun popped => ?_
      cases popped with
      | none => trivial
      | some head =>
        refine AllOps.exceptBind (AllOps.lift ⟨trivial, fun _ => trivial⟩) fun ts => ?_
        exact storesPlans_of_writes (System.writes_create _) fun _ ⟨_, _, _, h⟩ => h ▸ rfl

end Callers

/-! ## The text of a plan -/

/-- The text of a task's plan. -/
def planTodo? (tasks : Tasks) (plannerId : Str) : Option Str :=
  (tasks.find? plannerId).map fun row => row.planTodo

section Plan

variable {tasks tasks' : Tasks} {plannerId : Str}

/-- The plan `planTodo?` of a planner that `find?` finds is that of its row. -/
theorem planTodo?_eq_some {row : TaskRow} (h : tasks.find? plannerId = some row) :
    planTodo? tasks plannerId = some row.planTodo := by
  rw [planTodo?, h, Option.map_some]

/-- An `update` by a function that keeps `planTodo` leaves every `planTodo?`. -/
theorem planTodo?_update {taskId : Str} {f : TaskRow → TaskRow}
    {hf : ∀ row, (f row).taskId = row.taskId} (hplan : ∀ row, (f row).planTodo = row.planTodo) :
    planTodo? (tasks.update taskId f hf) plannerId = planTodo? tasks plannerId := by
  by_cases hid : plannerId = taskId
  · subst hid
    rw [planTodo?, Table.find?_update_self, Option.map_map, planTodo?]
    exact congrArg (Option.map · _) (funext hplan)
  · rw [planTodo?, Table.find?_update_ne hid, planTodo?]

/-- Inserting another task by `insert?` leaves the plan of `plannerId` alone. -/
theorem planTodo?_insert_ne {row : TaskRow} (h : tasks.insert? row = some tasks')
    (hid : row.taskId ≠ plannerId) : planTodo? tasks' plannerId = planTodo? tasks plannerId := by
  rw [planTodo?, Table.find?_insert?_ne h hid.symm, planTodo?]

/-- **What an operation does to a plan**: `planTodo?` stays, unless it is an `updatePlanTodo` or
`deleteTask` of the planner, or an `insertTask` of it. -/
theorem planTodo?_handler (op : SystemOp) (w : World) (plannerId : Str) :
    ((∀ text now, op ≠ .sql (.updatePlanTodo plannerId text now)) ∧
        op ≠ .sql (.deleteTask plannerId) ∧
        planTodo? (handler op w).2.db.tasks plannerId = planTodo? w.db.tasks plannerId) ∨
      (∃ text now, op = .sql (.updatePlanTodo plannerId text now) ∧
        planTodo? (handler op w).2.db.tasks plannerId
          = (planTodo? w.db.tasks plannerId).map fun _ => text) ∨
      (op = .sql (.deleteTask plannerId) ∧
        planTodo? (handler op w).2.db.tasks plannerId = none) ∨
      ∃ row, op = .sql (.insertTask row) ∧ planTodo? w.db.tasks plannerId = none ∧
        planTodo? (handler op w).2.db.tasks plannerId = some row.planTodo := by
  cases op with
  | now => exact .inl ⟨(by simp), (by simp), rfl⟩
  | sql statement =>
    have hsame : (∀ text now, statement ≠ .updatePlanTodo plannerId text now) →
        statement ≠ .deleteTask plannerId →
        planTodo? (System.exec w.fts statement w.db).2.tasks plannerId
          = planTodo? w.db.tasks plannerId →
        (∀ text now, SystemOp.sql statement ≠ .sql (.updatePlanTodo plannerId text now)) ∧
          SystemOp.sql statement ≠ .sql (.deleteTask plannerId) ∧
          planTodo? (handler (.sql statement) w).2.db.tasks plannerId
            = planTodo? w.db.tasks plannerId :=
      fun hplan hdelete heq => ⟨fun text now h => hplan text now (SystemOp.sql.inj h),
        fun h => hdelete (SystemOp.sql.inj h), heq⟩
    -- Only the statements that change rows are left to look at one by one.
    cases hchanges : statement.changesRows with
    | false =>
      refine .inl (hsame ?_ ?_ ?_)
      · rintro text now rfl; cases hchanges
      · rintro rfl; cases hchanges
      · rw [(System.exec_of_not_changesRows hchanges w.fts w.db).1]
    | true =>
      cases statement with
      | insertTask row =>
        cases hinsert : w.db.tasks.insert? row with
        | none =>
          refine .inl (hsame (by simp) (by simp) ?_)
          rw [System.exec, hinsert]
        | some tasks =>
          by_cases hid : row.taskId = plannerId
          · subst hid
            refine .inr (.inr (.inr ⟨row, rfl, ?_, ?_⟩))
            · cases hold : w.db.tasks.find? row.taskId with
              | none => rw [planTodo?, hold, Option.map_none]
              | some old =>
                rw [Table.insert?_eq_none_iff.mpr ⟨old, hold⟩] at hinsert
                cases hinsert
            · change planTodo? (System.exec w.fts (.insertTask row) w.db).2.tasks row.taskId = _
              rw [System.exec, hinsert]
              exact planTodo?_eq_some (Table.find?_insert?_self hinsert)
          · refine .inl (hsame (by simp) (by simp) ?_)
            rw [System.exec, hinsert]
            exact planTodo?_insert_ne hinsert hid
      | deleteTask taskId =>
        by_cases hid : taskId = plannerId
        · subst hid
          refine .inr (.inr (.inl ⟨rfl, ?_⟩))
          change planTodo? (w.db.tasks.delete taskId) taskId = none
          rw [planTodo?, Table.find?_delete_self, Option.map_none]
        · refine .inl (hsame (by simp) (fun h => hid (Statement.deleteTask.inj h)) ?_)
          change planTodo? (w.db.tasks.delete taskId) plannerId = _
          rw [planTodo?, Table.find?_delete_ne fun h => hid h.symm, planTodo?]
      | updatePlanTodo taskId text now =>
        by_cases hid : taskId = plannerId
        · subst hid
          refine .inr (.inl ⟨text, now, rfl, ?_⟩)
          change planTodo? (w.db.tasks.setPlanTodo taskId text now) taskId = _
          rw [planTodo?, System.Tasks.find?_setPlanTodo_self, planTodo?, Option.map_map, Option.map_map]
          rfl
        · refine .inl (hsame (fun _ _ h => hid (Statement.updatePlanTodo.inj h).1) (by simp) ?_)
          change planTodo? (w.db.tasks.setPlanTodo taskId text now) plannerId = _
          rw [planTodo?, System.Tasks.find?_setPlanTodo_ne _ _ _ _ fun h => hid h.symm, planTodo?]
      | updateStatus => exact .inl (hsame (by simp) (by simp) (planTodo?_update fun _ => rfl))
      | updateDescription => exact .inl (hsame (by simp) (by simp) (planTodo?_update fun _ => rfl))
      | insertAnchor row =>
        refine .inl (hsame (by simp) (by simp) ?_)
        rw [System.exec]
        split <;> rfl
      | updateAnchorFacts => exact .inl (hsame (by simp) (by simp) rfl)
      | _ => cases hchanges

end Plan

/-! ## The account of the newest plan -/

/-- What has become of the newest plan of a planner. -/
structure Ledger where
  /-- The plan that was submitted. -/
  submitted : List Str
  /-- The items that the scheduler has taken off it since. -/
  popped : List Str
  /-- The items that the scheduler has created a task for since. -/
  dispatched : List Str
  /-- The planner was there when the plan was submitted, and has not been deleted since. -/
  kept : Bool
deriving DecidableEq, Repr

/-- What an operation of a thread, in a world, does to the account of a planner. The scheduler is the
first thread. -/
def Ledger.step (plannerId : Str) (stage : Stage) (thread : Nat) (op : SystemOp) (w : World)
    (ledger : Option Ledger) : Option Ledger :=
  match op with
  | .sql (.updatePlanTodo id text _) =>
    if id ≠ plannerId then ledger
    else if thread ≠ 0 then
      some ⟨itemsOf json text, [], [], (w.db.tasks.find? plannerId).isSome⟩
    else match stage with
      | .read _ head _ => ledger.map fun l => { l with popped := l.popped ++ [head] }
      | _ => ledger
  | .sql (.insertTask row) =>
    if thread = 0 ∧ row.planParent = plannerId then
      ledger.map fun l => { l with dispatched := l.dispatched ++ [row.description] }
    else ledger
  | .sql (.deleteTask id) =>
    if id = plannerId then ledger.map fun l => { l with kept := false } else ledger
  | _ => ledger

/-- Where the scheduler is after some moves. -/
def stageAfter (moves : List (Move Sql World)) : Stage := (watch json).after handler 0 .idle moves

/-- Where the scheduler is after some moves, and the account of a planner. -/
def account (plannerId : Str) (moves : List (Move Sql World)) : Stage × Option Ledger :=
  moves.foldl (fun before move =>
    (if move.thread = 0 then
        before.1.next json move.op (handler move.op move.before.state).1
      else before.1,
      Ledger.step json plannerId before.1 move.thread move.op move.before.state before.2))
    (.idle, none)

/-- The account of the newest plan of a planner. -/
def ledger (plannerId : Str) (moves : List (Move Sql World)) : Option Ledger :=
  (account json plannerId moves).2

/-- The planner whose plan an operation stores. -/
def planWrite? : SystemOp → Option Str
  | .sql (.updatePlanTodo plannerId _ _) => some plannerId
  | _ => none

/-- The move does not submit a plan for the planner that the scheduler is serving. -/
def Undisturbed (before : List (Move Sql World)) (move : Move Sql World) : Prop :=
  move.thread ≠ 0 → ∀ plannerId ∈ planWrite? move.op,
    (stageAfter json before).serves ≠ some plannerId

instance (before : List (Move Sql World)) (move : Move Sql World) :
    Decidable (Undisturbed json before move) :=
  inferInstanceAs (Decidable (move.thread ≠ 0 → ∀ plannerId ∈ planWrite? move.op,
    (stageAfter json before).serves ≠ some plannerId))

/-- What is in order about the newest plan of a planner, while the scheduler is at some stage and the
planner's plan has some text, if it is there. -/
structure Balanced (plannerId : Str) (stage : Stage) (l : Ledger) (text? : Option Str) : Prop where
  /-- What the scheduler has read is the newest plan, after the items taken off it. -/
  reading : ∀ head rest, stage = .read plannerId head rest → l.popped ++ head :: rest = l.submitted
  /-- An item was taken off for each task created, and one may be in hand. -/
  inHand : l.popped = l.dispatched ++ stage.inHand plannerId
  /-- The items were taken off in order. -/
  popped : l.popped <+: l.submitted
  /-- A stored plan is what is left of the newest one, or empty. -/
  stored : ∀ text, text? = some text → ∃ items, text = json.toStr (.strings items) ∧
    (items = [] ∨ l.popped ++ items = l.submitted)
  /-- A planner that was kept has what is left of it. -/
  kept : l.kept = true → ∃ items, text? = some (json.toStr (.strings items)) ∧
    l.popped ++ items = l.submitted

section Account

variable {json} {plannerId : Str} {stage : Stage} {l l' : Ledger} {w : World} {op : SystemOp}

/-- The `account` follows the scheduler by `stageAfter`. -/
theorem account_fst (moves : List (Move Sql World)) :
    (account json plannerId moves).1 = stageAfter json moves := by
  induction moves using List.reverseRecOn with
  | nil => rfl
  | append_singleton moves move ih =>
    rw [stageAfter, Watch.after_append_singleton, ← stageAfter, ← ih, account, List.foldl_append]
    rfl

/-- One more move changes the `ledger` by `Ledger.step`. -/
theorem ledger_append_singleton (moves : List (Move Sql World)) (move : Move Sql World) :
    ledger json plannerId (moves ++ [move]) = Ledger.step json plannerId (stageAfter json moves)
      move.thread move.op move.before.state (ledger json plannerId moves) := by
  rw [← @account_fst _ plannerId, ledger, account, List.foldl_append]
  rfl

/-- The items that `itemsOf` reads of a printed list of strings are those of the list. -/
@[simp] theorem itemsOf_strings (items : List Str) :
    itemsOf json (json.toStr (.strings items)) = items := by
  rw [itemsOf, json.stringsFromStr_strings, Option.getD_some]

/-- The empty plan `[]` is in order, whatever was `popped` and `submitted`. -/
theorem stored_nil (popped submitted : List Str) {text : Str} (h : "[]".toList = text) :
    ∃ items, text = json.toStr (.strings items) ∧ (items = [] ∨ popped ++ items = submitted) :=
  ⟨[], h ▸ json.toStr_nil.symm, .inl rfl⟩

/-- The account is `Balanced` for a planner that has just been inserted with the empty plan. -/
theorem Balanced.inserted (h : Balanced json plannerId stage l none) {text : Str}
    (htext : "[]".toList = text) : Balanced json plannerId stage l (some text) where
  reading := h.reading
  inHand := h.inHand
  popped := h.popped
  stored := by
    rintro _ ⟨⟩
    exact stored_nil l.popped l.submitted htext
  kept hkept := by
    obtain ⟨items, hnone, -⟩ := h.kept hkept
    cases hnone

/-- A `selectPlanTodo` of the scheduler keeps the account `Balanced`, and tells the stage what was
read. -/
theorem Balanced.select {id : Str} (h : Balanced json plannerId .idle l (planTodo? w.db.tasks plannerId)) :
    Balanced json plannerId (Stage.idle.next json (.sql (.selectPlanTodo id))
      (handler (.sql (.selectPlanTodo id)) w).1) l (planTodo? w.db.tasks plannerId) := by
  have hanswer : (handler (.sql (.selectPlanTodo id)) w).1
      = (.ok (planTodo? w.db.tasks id) : Except Str (Option Str)) := rfl
  rw [hanswer]
  cases hplan : planTodo? w.db.tasks id with
  | none => exact h
  | some text =>
    change Balanced json plannerId (match itemsOf json text with
      | [] => .idle
      | head :: rest => .read id head rest) l _
    cases hitems : itemsOf json text with
    | nil => exact h
    | cons head rest =>
      refine ⟨?_, h.inHand, h.popped, h.stored, h.kept⟩
      rintro _ _ ⟨⟩
      obtain ⟨items, rfl, hstored⟩ := h.stored text hplan
      rw [itemsOf_strings] at hitems
      subst hitems
      exact hstored.resolve_left (List.cons_ne_nil _ _)

/-- The `updatePlanTodo` by which the scheduler writes the tail of a plan back keeps the account
`Balanced`: the head has been popped. -/
theorem Balanced.pop {id head now : Str} {rest : List Str}
    (h : Balanced json plannerId (.read id head rest) l (planTodo? w.db.tasks plannerId))
    (hstep : Ledger.step json plannerId (.read id head rest) 0
      (.sql (.updatePlanTodo id (json.toStr (.strings rest)) now)) w (some l) = some l') :
    Balanced json plannerId (.popped id head) l' (planTodo? (handler
      (.sql (.updatePlanTodo id (json.toStr (.strings rest)) now)) w).2.db.tasks plannerId) := by
  rw [Ledger.step] at hstep
  -- Either the tail of this planner's plan is written back, or that of another one.
  by_cases hid : id = plannerId
  · subst hid
    simp only [ne_eq, not_true_eq_false, if_false, Option.map_some, Option.some_inj] at hstep
    subst hstep
    have hread := h.reading head rest rfl
    have hsubmitted : l.popped ++ [head] ++ rest = l.submitted := by
      rw [List.append_assoc, List.singleton_append, hread]
    have hbefore : l.popped = l.dispatched := h.inHand.trans (List.append_nil _)
    have hplan : planTodo? (handler (.sql (.updatePlanTodo id (json.toStr (.strings rest)) now))
        w).2.db.tasks id = (planTodo? w.db.tasks id).map fun _ => json.toStr (.strings rest) := by
      rcases planTodo?_handler (.sql (.updatePlanTodo id (json.toStr (.strings rest)) now)) w id with
        ⟨h, -⟩ | ⟨text, now', hop, h⟩ | ⟨hop, -⟩ | ⟨row, hop, -⟩
      · exact absurd rfl (h _ _)
      · cases hop
        exact h
      · cases hop
      · cases hop
    rw [hplan]
    refine ⟨(by simp), ?_, ⟨rest, hsubmitted⟩, fun text htext => ?_, fun hkept => ?_⟩
    · rw [Stage.inHand, if_pos rfl, hbefore]
    · obtain ⟨old, -, rfl⟩ := Option.map_eq_some_iff.mp htext
      exact ⟨rest, rfl, .inr hsubmitted⟩
    · obtain ⟨items, hsome, -⟩ := h.kept hkept
      exact ⟨rest, by rw [hsome, Option.map_some], hsubmitted⟩
  · rw [if_pos hid, Option.some_inj] at hstep
    subst hstep
    have hplan : planTodo? (handler (.sql (.updatePlanTodo id (json.toStr (.strings rest)) now))
        w).2.db.tasks plannerId = planTodo? w.db.tasks plannerId := by
      rcases planTodo?_handler (.sql (.updatePlanTodo id (json.toStr (.strings rest)) now)) w plannerId
        with ⟨-, -, h⟩ | ⟨text, now', hop, -⟩ | ⟨hop, -⟩ | ⟨row, hop, -⟩
      · exact h
      · cases hop
        exact absurd rfl hid
      · cases hop
      · cases hop
    rw [hplan]
    refine ⟨(by simp), ?_, h.popped, h.stored, h.kept⟩
    rw [Stage.inHand, if_neg hid]
    exact h.inHand

/-- The `insertTask` for the item in hand keeps the account `Balanced`: the scheduler is `.idle`
again. -/
theorem Balanced.dispatch {row : TaskRow} (hrow : row.planTodo = "[]".toList)
    (h : Balanced json plannerId (.popped row.planParent row.description) l
      (planTodo? w.db.tasks plannerId))
    (hstep : Ledger.step json plannerId (.popped row.planParent row.description) 0
      (.sql (.insertTask row)) w (some l) = some l') :
    Balanced json plannerId .idle l'
      (planTodo? (handler (.sql (.insertTask row)) w).2.db.tasks plannerId) := by
  -- In the account only the item in hand moves on.
  have hmoved : Balanced json plannerId .idle l' (planTodo? w.db.tasks plannerId) := by
    rw [Ledger.step] at hstep
    have hinHand := h.inHand
    rw [Stage.inHand] at hinHand
    by_cases hparent : row.planParent = plannerId
    · rw [if_pos ⟨rfl, hparent⟩, Option.map_some, Option.some_inj] at hstep
      rw [if_pos hparent] at hinHand
      subst hstep
      exact ⟨(by simp), hinHand.trans (List.append_nil _).symm, h.popped, h.stored, h.kept⟩
    · rw [if_neg fun h => hparent h.2, Option.some_inj] at hstep
      rw [if_neg hparent] at hinHand
      subst hstep
      exact ⟨(by simp), hinHand, h.popped, h.stored, h.kept⟩
  rcases planTodo?_handler (.sql (.insertTask row)) w plannerId with
    ⟨-, -, hplan⟩ | ⟨text, now, hop, -⟩ | ⟨hop, -⟩ | ⟨row', hop, hnone, hplan⟩
  · rw [hplan]
    exact hmoved
  · cases hop
  · cases hop
  · cases hop
    rw [hplan]
    rw [hnone] at hmoved
    exact hmoved.inserted hrow.symm

/-- **A move of the scheduler** that its stage `Allows` keeps the account `Balanced`. -/
theorem Balanced.scheduler (h : Balanced json plannerId stage l (planTodo? w.db.tasks plannerId))
    (hallows : stage.Allows json op)
    (hstep : Ledger.step json plannerId stage 0 op w (some l) = some l') :
    Balanced json plannerId (stage.next json op (handler op w).1) l'
      (planTodo? (handler op w).2.db.tasks plannerId) := by
  cases op with
  | now => cases hstep; exact h
  | sql statement =>
    cases statement with
    | selectPlanTodo id =>
      obtain rfl : stage = .idle := hallows
      cases hstep
      exact h.select
    | updatePlanTodo id text now =>
      obtain ⟨head, rest, rfl, rfl⟩ := hallows
      exact h.pop hstep
    | insertTask row =>
      obtain ⟨rfl, hrow⟩ := hallows
      exact h.dispatch hrow hstep
    | deleteTask id => exact hallows.elim
    | insertTaskFts | deleteTaskFts | insertAnchor | updateStatus | updateDescription =>
      cases hstep
      rcases planTodo?_handler (.sql _) w plannerId with
        ⟨-, -, hplan⟩ | ⟨text, now, hop, -⟩ | ⟨hop, -⟩ | ⟨row, hop, -⟩
      · rw [hplan]
        exact h
      · cases hop
      · cases hop
      · cases hop
    | _ => cases hstep; exact h

/-- The scheduler opens no account: its step leads from `none` to no ledger. -/
theorem step_none : Ledger.step json plannerId stage 0 op w none ≠ some l := by
  unfold Ledger.step
  split
  · split
    · simp
    · rw [if_neg (not_not.mpr rfl)]
      split <;> simp
  · split <;> simp
  · split <;> simp
  · simp

/-- **A move of another caller** keeps the account `Balanced`, or opens a new one, if it does not
submit a plan for the planner that the stage `serves`. -/
theorem step_other {thread : Nat} (hthread : thread ≠ 0) (hop : StoresPlans json op)
    (hclean : ∀ id ∈ planWrite? op, stage.serves ≠ some id) {before : Option Ledger}
    (h : ∀ l, before = some l → Balanced json plannerId stage l (planTodo? w.db.tasks plannerId))
    (hstep : Ledger.step json plannerId stage thread op w before = some l') :
    Balanced json plannerId stage l' (planTodo? (handler op w).2.db.tasks plannerId) := by
  rcases planTodo?_handler op w plannerId with
    ⟨hplan, hdelete, heq⟩ | ⟨text, now, rfl, heq⟩ | ⟨rfl, heq⟩ | ⟨row, rfl, hnone, heq⟩
  · -- the planner's plan and its account stay as they are
    have hsame : Ledger.step json plannerId stage thread op w before = before := by
      unfold Ledger.step
      split
      · rename_i id text now
        exact if_pos fun hid : id = plannerId => hplan text now (by rw [hid])
      · exact if_neg fun hid => hthread hid.1
      · rename_i id
        exact if_neg fun hid : id = plannerId => hdelete (by rw [hid])
      · rfl
    rw [heq]
    exact h l' (hsame ▸ hstep)
  · -- a new plan
    obtain ⟨items, rfl⟩ := hop
    unfold Ledger.step at hstep
    dsimp only at hstep
    rw [if_neg (not_not.mpr rfl), if_pos hthread, itemsOf_strings, Option.some_inj] at hstep
    have hfree := hclean plannerId rfl
    subst hstep
    rw [heq]
    refine ⟨?_, ?_, List.nil_prefix, fun text htext => ?_, fun hkept => ?_⟩
    · rintro head rest rfl
      exact absurd rfl hfree
    · cases stage with
      | popped id head =>
        have hid : id ≠ plannerId := by
          rintro rfl
          exact hfree rfl
        rw [Stage.inHand, if_neg hid]
        rfl
      | _ => rfl
    · obtain ⟨old, -, rfl⟩ := Option.map_eq_some_iff.mp htext
      exact ⟨items, rfl, .inr rfl⟩
    · obtain ⟨row, hrow⟩ := Option.isSome_iff_exists.mp hkept
      exact ⟨items, by rw [planTodo?_eq_some hrow, Option.map_some], rfl⟩
  · -- the planner is deleted
    rw [Ledger.step, if_pos rfl] at hstep
    obtain ⟨l, hl, rfl⟩ := Option.map_eq_some_iff.mp hstep
    rw [heq]
    exact ⟨(h l hl).reading, (h l hl).inHand, (h l hl).popped, (by simp), (by simp)⟩
  · -- a task with the planner's id is new
    rw [Ledger.step, if_neg fun hid => hthread hid.1] at hstep
    have hbefore := h l' hstep
    rw [hnone] at hbefore
    rw [heq]
    exact hbefore.inserted (Eq.symm hop)

end Account

/-! ## Runs -/

/-- The scheduler and other callers of the system module, in a world. -/
def withScheduler (n : Nat) (callers : List System.Caller) (w : World) : Config Sql World :=
  ⟨CronScheduler.ticks json n :: callers.map (System.Caller.program json), w⟩

/-- Nothing but the newest plan is served: the items taken off and those that tasks were created for
are the first ones of it, and what is stored is a rest of it. As long as the planner is not deleted,
that is exactly what is left. -/
structure FollowsNewest (l : Ledger) (text? : Option Str) : Prop where
  /-- The items taken off since are the first ones. -/
  popped : l.popped <+: l.submitted
  /-- The tasks created since are for the items taken off. -/
  dispatched : l.dispatched <+: l.popped
  /-- What is stored is a rest of the plan. -/
  stored : ∀ text, text? = some text →
    ∃ items, text = json.toStr (.strings items) ∧ items <:+ l.submitted
  /-- Nothing is lost. -/
  kept : l.kept = true → ∃ items, text? = some (json.toStr (.strings items)) ∧
    l.popped ++ items = l.submitted

/-- An account that is `Balanced` follows the newest plan. -/
theorem Balanced.followsNewest {json : JsonCodec} {plannerId : Str} {stage : Stage} {l : Ledger}
    {text? : Option Str} (h : Balanced json plannerId stage l text?) : FollowsNewest json l text? where
  popped := h.popped
  dispatched := ⟨_, h.inHand.symm⟩
  stored := by
    intro text htext
    obtain ⟨items, rfl, rfl | hitems⟩ := h.stored text htext
    · exact ⟨[], rfl, List.nil_suffix⟩
    · exact ⟨items, rfl, l.popped, hitems⟩
  kept := h.kept

/-- **Only the newest plan is served**, in every interleaving of `n` ticks with ends of turns and
transitions in which no plan is submitted while the scheduler is serving its planner: every move is
`Undisturbed`. -/
theorem followsNewest_of_run (n : Nat) (callers : List System.Caller) (w : World)
    {moves : List (Move Sql World)} {c : Config Sql World}
    (run : Interleaving handler (withScheduler json n callers w) moves c)
    (clean : ∀ before move, before ++ [move] <+: moves → Undisturbed json before move)
    (plannerId : Str) (l : Ledger) (hledger : ledger json plannerId moves = some l) :
    FollowsNewest json l (planTodo? c.state.db.tasks plannerId) := by
  have hops : ∀ p ∈ (withScheduler json n callers w).threads, p.AllOps (StoresPlans json) := by
    intro p hp
    rcases List.mem_cons.mp hp with rfl | hp
    · exact storesPlans_ticks n
    · obtain ⟨caller, -, rfl⟩ := List.mem_map.mp hp
      exact storesPlans_program caller
  have hscheduler : ∀ p ∈ (withScheduler json n callers w).threads[0]?,
      p.Under (watch json) (fun _ stage => stage = .idle) .idle := by
    rintro _ ⟨⟩
    exact under_ticks json n
  -- The account stays in order from move to move.
  suffices hbalanced : Balanced json plannerId (stageAfter json moves) l
      (planTodo? c.state.db.tasks plannerId) from hbalanced.followsNewest
  induction run generalizing l with
  | start => cases hledger
  | @step moves c i op next run ready ih =>
    have hbefore : ∀ before move, before ++ [move] <+: moves → Undisturbed json before move :=
      fun before move hinitial => clean before move (hinitial.trans (List.prefix_append _ _))
    rw [ledger_append_singleton] at hledger
    rw [stageAfter, Watch.after_append_singleton, ← stageAfter, Config.after]
    dsimp only at hledger ⊢
    by_cases hi : i = 0
    · subst hi
      have hallows : (stageAfter json moves).Allows json op :=
        (run.under Stage.expects_handler hscheduler _ ready).1
      rw [if_pos rfl]
      cases hl : ledger json plannerId moves with
      | none =>
        rw [hl] at hledger
        exact absurd hledger step_none
      | some l₀ =>
        rw [hl] at hledger
        exact (ih hbefore l₀ hl).scheduler hallows hledger
    · rw [if_neg hi]
      refine step_other hi ((run.allOps hops).1 _ (List.mem_of_getElem? ready)).1
        (clean moves ⟨i, op, c⟩ List.prefix_rfl hi) (fun l₀ hl => ih hbefore l₀ hl) hledger

/-! ## A planner that changes its mind -/

/-- The planner `t-1` sleeps with a plan of two items. -/
def asleep : World :=
  (Program.eval handler (System.Complete.execute JsonText.codec submission) System.onePending).2

/-- A tick, and a call by which the planner submits another plan. -/
def secondThought : Config Sql World :=
  withScheduler JsonText.codec 1 [.complete { submission with planTodo := ["new"] }] asleep

/-- The new plan is submitted, and then the tick serves it. -/
def inTurn : List (Move Sql World) × Config Sql World :=
  secondThought.play handler [1, 1, 1, 1, 1, 1, 1, 1, 0, 0, 0, 0, 0, 0, 0, 0, 0]

/-- The new plan is submitted after the tick has read the old one. -/
def inBetween : List (Move Sql World) × Config Sql World :=
  secondThought.play handler [0, 0, 0, 1, 1, 1, 1, 1, 1, 1, 1, 0, 0, 0, 0, 0, 0]

/-- `inTurn` is an interleaving of the tick and the submission. -/
theorem interleaving_inTurn : Interleaving handler secondThought inTurn.1 inTurn.2 :=
  Interleaving.of_play handler secondThought [1, 1, 1, 1, 1, 1, 1, 1, 0, 0, 0, 0, 0, 0, 0, 0, 0]

/-- In `inTurn` the new plan is submitted, taken off and dispatched. -/
theorem ledger_inTurn : ledger JsonText.codec "t-1" inTurn.1 =
    some ⟨["new"], ["new"], ["new"], true⟩ := by decide +kernel

/-- In `inTurn` what is served is the newest plan. -/
theorem followsNewest_of_run_in_turn : FollowsNewest JsonText.codec
    ⟨["new"], ["new"], ["new"], true⟩ (planTodo? inTurn.2.state.db.tasks "t-1") :=
  followsNewest_of_run JsonText.codec 1 [.complete { submission with planTodo := ["new"] }] asleep
    interleaving_inTurn (forall_prefix_of_zipIdx (by decide +kernel)) "t-1" _ ledger_inTurn

/-- `inBetween` is an interleaving of the tick and the submission. -/
theorem interleaving_inBetween : Interleaving handler secondThought inBetween.1 inBetween.2 :=
  Interleaving.of_play handler secondThought [0, 0, 0, 1, 1, 1, 1, 1, 1, 1, 1, 0, 0, 0, 0, 0, 0]

/-- In `inBetween` an item of the old plan is dispatched after the new plan was submitted. -/
theorem ledger_inBetween : ledger JsonText.codec "t-1" inBetween.1 =
    some ⟨["new"], ["a"], ["a"], true⟩ := by decide +kernel

/-- In `secondThought` a plan is submitted between a read and a write of the scheduler: the tail of
the old plan overwrites the new one. -/
theorem not_followsNewest_in_between : ∃ moves c l, Interleaving handler secondThought moves c ∧
    ledger JsonText.codec "t-1" moves = some l ∧
      ¬FollowsNewest JsonText.codec l (planTodo? c.state.db.tasks "t-1") := by
  refine ⟨inBetween.1, inBetween.2, _, interleaving_inBetween, ledger_inBetween, fun h => ?_⟩
  exact absurd h.popped (by decide)

end LogosFs.Kernel
