import LogosFs.System.Writes

/-! # What the system module may write

The columns of a task obey conventions that no constraint of the database enforces: a task is
inserted pending, a status is only replaced by a step of the life cycle from the status that was
read, and a plan is the JSON text of a list of strings. `KeepsSchema` states them for single
operations. Every function of the system module only ever sends such operations, whatever answers it
gets, so what they keep holds of every database it leaves behind. -/

namespace LogosFs.System

open Program

variable {json : JsonCodec} {α : Type}

/-- A text that is the JSON of a list of strings. -/
def PlanText (json : JsonCodec) (text : Str) : Prop :=
  ∃ items, text = json.toStr (.strings items)

/-- The text `[]` of the empty list, as the schema has it, is a `PlanText`. -/
theorem planText_nil : PlanText json "[]" := ⟨[], json.toStr_nil.symm⟩

/-- A list of strings that is printed is a `PlanText`. -/
theorem planText_strings (items : List Str) : PlanText json (json.toStr (.strings items)) :=
  ⟨items, rfl⟩

/-- An operation that keeps the conventions for the columns of a task. -/
def KeepsSchema (json : JsonCodec) : SystemOp → Prop
  | .sql (.insertTask row) => row.status = .pending ∧ PlanText json row.planTodo
  | .sql (.updateStatus _ seen new _) => (seen, new) ∈ validTransitions
  | .sql (.updatePlanTodo _ planTodo _) => PlanText json planTodo
  | _ => True

/-- A program that only sends operations that keep the conventions. -/
abbrev Keeps (json : JsonCodec) (p : SystemM α) : Prop := p.run.AllOps (KeepsSchema json)

/-- A program that `Writes` by statements that `KeepsSchema` allows only `Keeps` the schema. -/
theorem keeps_of_writes {W : Statement → Prop} {p : SystemM α} (h : Writes W p)
    (hW : ∀ statement, W statement → KeepsSchema json (.sql statement)) : Keeps json p := by
  refine AllOps.mono h fun op hop => ?_
  cases op with
  | now => trivial
  | sql statement =>
    cases hchanges : statement.changesRows with
    | true => exact hW statement (hop hchanges)
    | false =>
      cases statement with
      | insertTask | updateStatus | updatePlanTodo => cases hchanges
      | _ => trivial

/-- `create` keeps the schema: a new task has the empty plan. -/
theorem keeps_create (content : Str) : Keeps json (TaskDb.create json content) :=
  keeps_of_writes (writes_create content) fun _ ⟨_, _, _, h⟩ => h ▸ ⟨rfl, planText_nil⟩

/-- `setPlanTodo` of a `PlanText` keeps the schema. -/
theorem keeps_setPlanTodo {taskId todoJson : Str} (h : PlanText json todoJson) :
    Keeps json (TaskDb.setPlanTodo taskId todoJson) :=
  keeps_of_writes (writes_setPlanTodo taskId todoJson) fun _ ⟨_, hst⟩ => hst ▸ h

/-- `popPlanHead` keeps the schema: it stores the rest of the plan as a list of strings. -/
theorem keeps_popPlanHead (taskId : Str) : Keeps json (TaskDb.popPlanHead json taskId) :=
  keeps_of_writes (writes_popPlanHead taskId) fun _ ⟨todo, _, h⟩ => h ▸ planText_strings todo

/-- `transitionStatus` keeps the schema: it only writes a status that the life cycle has after the
one it read. -/
theorem keeps_transitionStatus (taskId newStatus : Str) :
    Keeps json (TaskDb.transitionStatus taskId newStatus) :=
  keeps_of_writes (writes_transitionStatus taskId newStatus) fun _ ⟨_, _, _, hvalid, h⟩ =>
    h ▸ hvalid

/-- `Complete.execute` keeps the schema, in each of its modes. -/
theorem keeps_execute (params : CompleteParams) : Keeps json (Complete.execute json params) := by
  refine Complete.closed_execute (closed_allOps (KeepsSchema json))
    (keeps_of_writes writes_utcNow fun _ => id)
    (fun _ _ => keeps_transitionStatus _ _) (fun _ => keeps_transitionStatus _ _)
    (fun _ _ => keeps_of_writes (writes_delete _) fun _ h => h ▸ trivial)
    (fun _ => keeps_setPlanTodo (planText_strings _)) (fun _ _ => ?_) fun _ _ => keeps_create _
  refine keeps_of_writes (writes_createAnchor _ _ _) fun _ h => ?_
  rcases h with ⟨row, rfl, -⟩ | ⟨marked, id, text, rfl⟩ <;> trivial

/-- What comes through the namespace, by statements `ByNamespace`, keeps the schema. -/
theorem keeps_of_byNamespace {described : Str → Prop} {content : Str} {p : SystemM α}
    (h : Writes (ByNamespace json described content) p) : Keeps json p := by
  refine keeps_of_writes h fun _ hst => ?_
  rcases hst with ⟨value, now, -, rfl⟩ | ⟨taskId, text, now, -, rfl⟩
  · exact ⟨rfl, planText_nil⟩
  · trivial

/-! ## Every plan is a list of strings -/

/-- Every stored plan is the JSON text of a list of strings. -/
def Db.PlansEncoded (json : JsonCodec) (db : Db) : Prop :=
  ∀ row ∈ db.tasks.contents, PlanText json row.planTodo

/-- The empty database has `PlansEncoded`: no tasks, no plans. -/
theorem plansEncoded_empty : Db.empty.PlansEncoded json := fun _ h => nomatch h

/-- `PlansEncoded` is kept by an `update` that keeps the plan encoded. -/
theorem Db.PlansEncoded.update {db : Db} (h : db.PlansEncoded json) {taskId : Str}
    {f : TaskRow → TaskRow} {hf : ∀ row, (f row).taskId = row.taskId}
    (hplan : ∀ row, PlanText json row.planTodo → PlanText json (f row).planTodo) :
    ({ db with tasks := db.tasks.update taskId f hf } : Db).PlansEncoded json := by
  intro row hrow
  have hupdated : row ∈ (db.tasks.update taskId f hf).contents := hrow
  obtain ⟨old, hold, ⟨-, rfl⟩ | ⟨-, rfl⟩⟩ := Table.mem_contents_update.mp hupdated
  · exact hplan old (h old hold)
  · exact h old hold

/-- `PlansEncoded` is kept by an operation that `KeepsSchema` allows. -/
theorem Db.PlansEncoded.handler {op : SystemOp} {w : World} (hop : KeepsSchema json op)
    (h : w.db.PlansEncoded json) : (System.handler op w).2.db.PlansEncoded json := by
  cases op with
  | now => exact h
  | sql statement =>
    show (exec w.fts statement w.db).2.PlansEncoded json
    cases statement with
    -- Two statements write a plan: the insertion of a task, and the one that stores it.
    | insertTask row =>
      rw [exec]
      split
      · rename_i tasks hinsert
        intro row' hrow'
        rw [show (({ w.db with tasks := tasks } : Db).tasks.contents) = _ from
          (Table.insert?_eq_some hinsert).2, List.mem_append, List.mem_singleton] at hrow'
        rcases hrow' with hrow' | rfl
        · exact h row' hrow'
        · exact hop.2
      · exact h
    | deleteTask deleted => exact fun row hrow => h row (Table.mem_contents_delete.mp hrow).1
    | updateStatus => exact h.update fun _ hrow => hrow
    | updateDescription => exact h.update fun _ hrow => hrow
    | updatePlanTodo => exact h.update fun _ _ => hop
    | insertTaskFts taskId =>
      obtain ⟨commands, hcommands⟩ := exec_insertTaskFts w.fts taskId w.db
      rw [hcommands]
      exact h
    | deleteTaskFts taskId =>
      obtain ⟨commands, hcommands⟩ := exec_deleteTaskFts w.fts taskId w.db
      rw [hcommands]
      exact h
    | insertAnchor => rw [exec]; split <;> exact h
    | _ => exact h

/-- **Every plan is a list of strings**: `PlansEncoded` is kept by any program that `Keeps` the
schema. -/
theorem Db.PlansEncoded.eval {p : SystemM α} (hp : Keeps json p) {w : World}
    (h : w.db.PlansEncoded json) : (Program.eval System.handler p w).2.db.PlansEncoded json :=
  AllOps.run_keeps System.handler (I := fun w : World => w.db.PlansEncoded json)
    (fun _ _ hop hw => Db.PlansEncoded.handler hop hw) hp h

end LogosFs.System
