import Mathlib.Logic.Function.Iterate
import LogosFs.Kernel.Cron

/-! # What becomes of the items of a plan

Between two moments a planner's items are accounted for as those that tasks were created for, those
that were lost, and those still in the plan (`Accounts`). A round of the scheduler's loop loses an
item exactly when the `INSERT` of its task is refused, and `conserved_iff` follows the items over
every sequence of ticks: nothing is ever lost exactly when every such `INSERT` is accepted. -/

namespace LogosFs.Kernel

open Program (eval EvalAlong)
open LogosFs.System (World SystemM SystemOp DateTime Tasks TaskRow)

variable (json : JsonCodec)

/-- The descriptions of the executors created for a planner, in the order of their creation. -/
def descriptions (tasks : Tasks) (plannerId : Str) : List Str :=
  (executors tasks plannerId).map fun row => row.description

/-- From one state of the tasks to another one, each item of a planner's plan was created as a task,
or lost, or is still in the plan, in this order. -/
def Accounts (plannerId : Str) (tasks tasks' : Tasks) (lost : List Str) : Prop :=
  ∃ created, descriptions tasks' plannerId = descriptions tasks plannerId ++ created ∧
    planItems json tasks plannerId = created ++ lost ++ planItems json tasks' plannerId

/-- The executors created since, followed by what is left of the plan, are the plan as it was. -/
def Conserved (plannerId : Str) (tasks tasks' : Tasks) : Prop :=
  ∃ created, descriptions tasks' plannerId = descriptions tasks plannerId ++ created ∧
    created ++ planItems json tasks' plannerId = planItems json tasks plannerId

section Accounts

variable {json} {plannerId : Str} {tasks tasks' tasks'' : Tasks} {lost : List Str}

/-- Where nothing happens, `Accounts` holds with nothing lost. -/
theorem Accounts.refl (plannerId : Str) (tasks : Tasks) : Accounts json plannerId tasks tasks [] :=
  ⟨[], (List.append_nil _).symm, rfl⟩

/-- Two `Accounts` in a row are one, if the first one lost nothing. -/
theorem Accounts.trans (h : Accounts json plannerId tasks tasks' [])
    (h' : Accounts json plannerId tasks' tasks'' lost) :
    Accounts json plannerId tasks tasks'' lost := by
  obtain ⟨created, hcreated, hitems⟩ := h
  obtain ⟨created', hcreated', hitems'⟩ := h'
  refine ⟨created ++ created', ?_, ?_⟩
  · rw [hcreated', hcreated, List.append_assoc]
  · rw [hitems, hitems', List.append_nil]
    simp only [List.append_assoc]

/-- To be `Conserved` is to have `Accounts` without a loss. -/
theorem conserved_iff_accounts :
    Conserved json plannerId tasks tasks' ↔ Accounts json plannerId tasks tasks' [] := by
  simp only [Conserved, Accounts, List.append_nil, eq_comm]

/-- An account with a loss excludes that the items are `Conserved`. -/
theorem Accounts.not_conserved (h : Accounts json plannerId tasks tasks' lost) (hlost : lost ≠ []) :
    ¬Conserved json plannerId tasks tasks' := by
  rintro ⟨created', hcreated', hitems'⟩
  obtain ⟨created, hcreated, hitems⟩ := h
  -- Both accounts speak of the same created tasks.
  rw [hcreated, List.append_cancel_left_eq] at hcreated'
  subst hcreated'
  rw [← hitems', List.append_assoc, List.append_cancel_left_eq] at hitems
  exact hlost (List.self_eq_append_left.mp hitems)

end Accounts

/-! ## Changes of the tasks -/

section Changes

variable {json} {tasks tasks' : Tasks} {plannerId : Str} {rest : List Str} {now : Str}

/-- Storing a plan by `setPlanTodo` creates no task, so `descriptions` are the same. -/
theorem descriptions_setPlanTodo (id : Str) (text : Str) :
    descriptions (tasks.setPlanTodo plannerId text now) id = descriptions tasks id := by
  rw [descriptions, descriptions, executors, executors, System.Tasks.contents_setPlanTodo]
  induction tasks.contents with
  | nil => rfl
  | cons row rows ih =>
    rw [List.map_cons, List.filter_cons, List.filter_cons]
    have hparent : (if row.taskId = plannerId then row.withPlanTodo text now else row).planParent
        = row.planParent := by split <;> rfl
    have hdescription : (if row.taskId = plannerId then row.withPlanTodo text now else row).description
        = row.description := by split <;> rfl
    rw [hparent]
    split
    · rw [List.map_cons, List.map_cons, hdescription, ih]
    · exact ih

/-- The plan that `setPlanTodo` has stored is the plan that `planItems` reads. -/
theorem planItems_setPlanTodo_self {row : TaskRow} (h : tasks.find? plannerId = some row) :
    planItems json (tasks.setPlanTodo plannerId (json.toStr (.strings rest)) now) plannerId
      = rest := by
  rw [planItems, System.Tasks.find?_setPlanTodo_self, h, Option.map_some]
  show (json.stringsFromStr (json.toStr (.strings rest))).getD [] = rest
  rw [json.stringsFromStr_strings, Option.getD_some]

/-- Every other plan stays what `planItems` reads. -/
theorem planItems_setPlanTodo_ne {id : Str} (text : Str) (hne : id ≠ plannerId) :
    planItems json (tasks.setPlanTodo plannerId text now) id = planItems json tasks id := by
  rw [planItems, planItems, System.Tasks.find?_setPlanTodo_ne _ _ _ _ hne]

/-- A new executor of a planner is the last one of its `descriptions`. -/
theorem descriptions_insert {row : TaskRow} (h : tasks.insert? row = some tasks') (id : Str) :
    descriptions tasks' id
      = descriptions tasks id ++ if row.planParent = id then [row.description] else [] := by
  rw [descriptions, descriptions, executors, executors, (Table.insert?_eq_some h).2,
    List.filter_append, List.map_append]
  by_cases hparent : row.planParent = id <;> simp [hparent]

/-- A new task with the plan `[]` has no `planItems`, and leaves those of the others. -/
theorem planItems_insert {row : TaskRow} (hplan : row.planTodo = "[]".toList)
    (h : tasks.insert? row = some tasks') (id : Str) :
    planItems json tasks' id = planItems json tasks id := by
  by_cases hid : id = row.taskId
  · subst hid
    have hempty : json.stringsFromStr "[]" = some [] := by
      rw [← json.toStr_nil]
      exact json.stringsFromStr_strings []
    rw [planItems, planItems, Table.find?_insert?_self h, (Table.insert?_eq_some h).1]
    show (json.stringsFromStr row.planTodo).getD [] = []
    rw [hplan, hempty, Option.getD_some]
  · rw [planItems, planItems, Table.find?_insert?_ne h hid]

/-- The `head` of a plan was taken off, and nothing else happened: `Accounts` says that it is lost.
-/
theorem accounts_pop {head : Str} (hitems : planItems json tasks plannerId = head :: rest) :
    Accounts json plannerId tasks
      (tasks.setPlanTodo plannerId (json.toStr (.strings rest)) now) [head] := by
  refine ⟨[], ?_, ?_⟩
  · rw [descriptions_setPlanTodo, List.append_nil]
  · cases hrow : tasks.find? plannerId with
    | none => rw [planItems, hrow] at hitems; cases hitems
    | some row => rw [hitems, planItems_setPlanTodo_self hrow]; rfl

/-- The `head` of a plan was taken off and a task was created for it: `Accounts` holds with nothing
lost. -/
theorem accounts_spawn {head : Str} {row : TaskRow}
    (hitems : planItems json tasks plannerId = head :: rest)
    (hparent : row.planParent = plannerId) (hdescription : row.description = head)
    (hplan : row.planTodo = "[]".toList)
    (h : (tasks.setPlanTodo plannerId (json.toStr (.strings rest)) now).insert? row = some tasks')
    (id : Str) : Accounts json id tasks tasks' [] := by
  by_cases hid : id = plannerId
  · subst hid
    refine ⟨[head], ?_, ?_⟩
    · rw [descriptions_insert h, descriptions_setPlanTodo, if_pos hparent, hdescription]
    · cases hrow : tasks.find? id with
      | none => rw [planItems, hrow] at hitems; cases hitems
      | some row =>
        rw [hitems, planItems_insert hplan h, planItems_setPlanTodo_self hrow]; rfl
  · refine ⟨[], ?_, ?_⟩
    · rw [descriptions_insert h, descriptions_setPlanTodo, if_neg (hparent ▸ Ne.symm hid)]
    · rw [planItems_insert hplan h, planItems_setPlanTodo_ne _ hid]; rfl

end Changes

/-! ## Rounds and ticks -/

/-- What a program leaves of the items: all of them if every `INSERT` is accepted, else some planner
loses one. -/
def AccountsFor {α : Type} (p : SystemM α) (s : FaultyWorld) : Prop :=
  (EvalAlong faultyHandler InsertAccepted p s →
    ∀ plannerId, Accounts json plannerId s.tasks (eval faultyHandler p s).2.tasks []) ∧
  (¬EvalAlong faultyHandler InsertAccepted p s →
    ∃ plannerId lost, lost ≠ [] ∧
      Accounts json plannerId s.tasks (eval faultyHandler p s).2.tasks lost)

section Bind

variable {json} {α β : Type} {p : SystemM α} {f : α → SystemM β} {s s' : FaultyWorld}

/-- What a program accounts for that loses nothing and hands its `value` to another one, `f value`.
-/
theorem AccountsFor.of_ok {value : α} (hp : eval faultyHandler p s = (.ok value, s'))
    (halong : EvalAlong faultyHandler InsertAccepted p s)
    (haccounts : ∀ plannerId, Accounts json plannerId s.tasks s'.tasks [])
    (hf : AccountsFor json (f value) s') : AccountsFor json (p >>= f) s := by
  have hiff : EvalAlong faultyHandler InsertAccepted (p >>= f) s ↔
      EvalAlong faultyHandler InsertAccepted (f value) s' := by
    rw [Program.evalAlong_bind, hp]
    simp only [halong, true_and, Except.ok.injEq, forall_eq']
  rw [AccountsFor, hiff, Program.eval_bind, hp, Program.evalNext_ok]
  refine ⟨fun h id => (haccounts id).trans (hf.1 h id), fun h => ?_⟩
  obtain ⟨id, lost, hlost, hrest⟩ := hf.2 h
  exact ⟨id, lost, hlost, (haccounts id).trans hrest⟩

/-- What a program accounts for that loses nothing and fails with `e`. -/
theorem AccountsFor.of_error {e : VfsError} (hp : eval faultyHandler p s = (.error e, s'))
    (halong : EvalAlong faultyHandler InsertAccepted p s)
    (haccounts : ∀ plannerId, Accounts json plannerId s.tasks s'.tasks []) :
    AccountsFor json (p >>= f) s := by
  have hall : EvalAlong faultyHandler InsertAccepted (p >>= f) s := by
    rw [Program.evalAlong_bind, hp]
    exact ⟨halong, fun _ h => (nomatch h)⟩
  rw [AccountsFor, Program.eval_bind, hp]
  exact ⟨fun _ => haccounts, fun h => absurd hall h⟩

/-- What a program accounts for that is refused an `INSERT`, loses an item and fails. -/
theorem AccountsFor.of_refused {e : VfsError} (hp : eval faultyHandler p s = (.error e, s'))
    (halong : ¬EvalAlong faultyHandler InsertAccepted p s) {plannerId : Str} {lost : List Str}
    (hlost : lost ≠ []) (haccounts : Accounts json plannerId s.tasks s'.tasks lost) :
    AccountsFor json (p >>= f) s := by
  rw [AccountsFor, Program.evalAlong_bind, Program.eval_bind, hp]
  exact ⟨fun h => absurd h.1 halong, fun _ => ⟨plannerId, lost, hlost, haccounts⟩⟩

end Bind

/-- The loop of a tick, one `servePlanner` after another, accounts for every item. -/
theorem accountsFor_forM (planners : List (Str × Str)) (s : FaultyWorld) :
    AccountsFor json (planners.forM fun planner => CronScheduler.servePlanner json planner.1) s := by
  induction planners generalizing s with
  | nil => exact ⟨fun _ _ => Accounts.refl _ _, fun h => absurd trivial h⟩
  | cons planner planners ih =>
    show AccountsFor json (CronScheduler.servePlanner json planner.1 >>= fun _ =>
      planners.forM fun planner => CronScheduler.servePlanner json planner.1) s
    obtain ⟨result, s₁, hround, hcases⟩ := servePlanner_cases json s planner.1
    rcases hcases with ⟨halong, hsame⟩ | ⟨head, rest, now, hitems, -, hspawn | hlost⟩
    -- The planner was passed over.
    · have haccounts : ∀ id, Accounts json id s.tasks s₁.tasks [] :=
        fun id => hsame ▸ Accounts.refl id s₁.tasks
      cases result with
      | error e => exact .of_error hround halong haccounts
      | ok value => exact .of_ok hround halong haccounts (ih s₁)
    -- A task was created for the item.
    · obtain ⟨halong, rfl, ts, now', hinsert⟩ := hspawn
      refine .of_ok hround halong (accounts_spawn hitems ?_ ?_ ?_ hinsert) (ih s₁) <;>
        rw [executorRow_eq] <;> rfl
    -- The item is gone, and the tick ends.
    · obtain ⟨halong, ⟨e, rfl⟩, htasks⟩ := hlost
      exact .of_refused hround halong (List.cons_ne_nil head []) (htasks ▸ accounts_pop hitems)

/-- A tick of the plans, `tickPlans`, accounts for every item. -/
theorem accountsFor_tickPlans (s : FaultyWorld) :
    AccountsFor json (CronScheduler.tickPlans json) s := by
  have hlist := eval_send_cases s "list plan pending: " .listPlanPending rfl
  change (∃ e, eval faultyHandler System.SystemModule.listPlanPending s = (.error e, s.next)) ∨
    eval faultyHandler System.SystemModule.listPlanPending s = (.ok _, s.next) at hlist
  have halong : EvalAlong faultyHandler InsertAccepted System.SystemModule.listPlanPending s :=
    evalAlong_of_noInsert noInsert_listPlanPending s
  have haccounts : ∀ id, Accounts json id s.tasks s.next.tasks [] := fun _ => Accounts.refl _ _
  rw [CronScheduler.tickPlans]
  rcases hlist with ⟨e, hlist⟩ | hlist
  · exact .of_error hlist halong haccounts
  · exact .of_ok hlist halong haccounts (accountsFor_forM json _ s.next)

/-- One tick; an error ends it and is only reported. -/
def tick (s : FaultyWorld) : FaultyWorld :=
  (eval faultyHandler (CronScheduler.tickPlans json) s).2

/-- Every `INSERT` of an executor in the coming tick is accepted: its id is free, and the database
does not fail it. -/
def TickAccepted (s : FaultyWorld) : Prop :=
  EvalAlong faultyHandler InsertAccepted (CronScheduler.tickPlans json) s

/-- **Plan items are conserved** over a sequence of ticks, whatever times they happen at and whatever
statements the database fails, exactly when every `INSERT` of an executor is accepted. -/
theorem conserved_iff (s : FaultyWorld) (n : Nat) :
    (∀ k ≤ n, ∀ plannerId, Conserved json plannerId s.tasks ((tick json)^[k] s).tasks) ↔
      ∀ k < n, TickAccepted json ((tick json)^[k] s) := by
  have hstep : ∀ k, (tick json)^[k + 1] s = tick json ((tick json)^[k] s) :=
    fun k => Function.iterate_succ_apply' (tick json) k s
  constructor
  · intro hconserved k hk
    by_contra hrefused
    -- Nothing was lost until tick `k`, so what it loses is lost altogether.
    obtain ⟨id, lost, hlost, haccounts⟩ := (accountsFor_tickPlans json _).2 hrefused
    have hbefore : Accounts json id s.tasks ((tick json)^[k] s).tasks [] :=
      conserved_iff_accounts.mp (hconserved k (le_of_lt hk) id)
    have hafter : Conserved json id s.tasks (tick json ((tick json)^[k] s)).tasks :=
      hstep k ▸ hconserved (k + 1) hk id
    exact (hbefore.trans haccounts).not_conserved hlost hafter
  · intro haccepted k hk id
    rw [conserved_iff_accounts]
    induction k with
    | zero => exact Accounts.refl id s.tasks
    | succ k ih =>
      rw [hstep]
      exact (ih (by omega)).trans
        ((accountsFor_tickPlans json _).1 (haccepted k (by omega)) id)

/-- The call by which `t-1` submits a plan of two items. -/
def submission : System.CompleteParams where
  taskId := "t-1"
  summary := []
  reply := []
  anchor := false
  anchorFacts := "[]"
  taskLog := []
  sleepReason := []
  sleepRetry := false
  resumeTaskId := []
  planTodo := ["a", "b"]

/-- The world after the submission. -/
def submitted : FaultyWorld :=
  .reliable (eval System.handler (System.Complete.execute JsonText.codec submission)
    System.onePending).2

/-- Two ticks of `submitted` in the same second: the second item is taken off the plan, but the id
of its task is taken, so it is not `Conserved`. -/
theorem second_tick_loses_item :
    ¬∀ k ≤ 2, ∀ plannerId, Conserved JsonText.codec plannerId submitted.tasks
      ((tick JsonText.codec)^[k] submitted).tasks := by
  intro h
  obtain ⟨created, hcreated, hitems⟩ := h 2 le_rfl "t-1"
  have hplan : planItems JsonText.codec submitted.tasks "t-1" = ["a".toList, "b".toList] := by
    decide +kernel
  have hdescriptions : descriptions ((tick JsonText.codec)^[2] submitted).tasks "t-1"
      = ["a".toList] := by
    decide +kernel
  have hrest : planItems JsonText.codec ((tick JsonText.codec)^[2] submitted).tasks "t-1" = [] := by
    decide +kernel
  rw [hrest, hplan, List.append_nil] at hitems
  rw [hdescriptions, hitems] at hcreated
  have hlength := congrArg List.length hcreated
  simp at hlength

end LogosFs.Kernel
