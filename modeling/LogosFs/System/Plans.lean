import LogosFs.System.KeepsSchema

/-! # The plans of tasks

A plan is stored as a text. The scheduler finds the tasks with something to do by comparing that text
with `[]`, and what cannot be decoded counts as an empty plan without a word. `plansWellFormed_of_run`
says that this is never noticed: in every state that requests can bring about, one after another or
interleaved in any way, each plan is the text of a list of strings, the comparison finds the plans
that are not empty, and taking items off a plan yields them in order. -/

namespace LogosFs.System

open Program (eval)

variable (json : JsonCodec)

/-- A request that may create or change a task. -/
inductive TaskRequest where
  /-- Create a task from a JSON text. -/
  | create (content : Str)
  /-- Write to the namespace. -/
  | write (path : List Str) (content : Str)
  /-- Patch the namespace. -/
  | patch (path : List Str) (partialText : Str)
  /-- Complete a turn. -/
  | complete (params : CompleteParams)
  /-- Move a task to a new status. -/
  | transition (taskId newStatus : Str)
  /-- Take the first item off a plan. -/
  | pop (taskId : Str)

/-- What the system module does for a request, statement by statement. -/
def TaskRequest.program : TaskRequest → Program Sql Unit
  | .create content => (SystemModule.createTask json content).run >>= fun _ => .done ()
  | .write path content => (SystemModule.write json path content).run >>= fun _ => .done ()
  | .patch path partialText => (SystemModule.patch json path partialText).run >>= fun _ => .done ()
  | .complete params => (SystemModule.complete json params).run >>= fun _ => .done ()
  | .transition taskId newStatus =>
    (SystemModule.transitionTask taskId newStatus).run >>= fun _ => .done ()
  | .pop taskId => (SystemModule.popPlanHead json taskId).run >>= fun _ => .done ()

/-- Every `TaskRequest` performs only operations that `KeepsSchema` allows. -/
theorem TaskRequest.allOps_program (request : TaskRequest) :
    (request.program json).AllOps (KeepsSchema json) := by
  cases request with
  | create content => exact .bind (keeps_create content) fun _ => trivial
  | write path content =>
    exact .bind (keeps_of_byNamespace (writes_write path content)) fun _ => trivial
  | patch path partialText =>
    exact .bind (keeps_of_byNamespace (writes_patch path partialText)) fun _ => trivial
  | complete params => exact .bind (keeps_execute params) fun _ => trivial
  | transition taskId newStatus =>
    exact .bind (keeps_transitionStatus taskId newStatus) fun _ => trivial
  | pop taskId => exact .bind (keeps_popPlanHead taskId) fun _ => trivial

/-- Take the first item off a plan some times: what each time returned. -/
def popTimes (taskId : Str) : Nat → SystemM (List (Option Str))
  | 0 => return []
  | times + 1 => do
    let head ← SystemModule.popPlanHead json taskId
    let rest ← popTimes taskId times
    return head :: rest

/-- The plans of a world are texts of lists of strings, and are found and used up as such. -/
structure PlansWellFormed (w : World) : Prop where
  /-- The column holds the text of a list of strings. -/
  encoded : ∀ row ∈ w.db.tasks.contents, PlanText json row.planTodo
  /-- The text is decoded, as a list by the pop, and as JSON by the view of a task. -/
  decoded : ∀ row ∈ w.db.tasks.contents, ∃ items,
    json.stringsFromStr row.planTodo = some items ∧ json.fromStr row.planTodo = .ok (.strings items)
  /-- The scheduler finds the sleeping tasks whose plan is not empty, and no others. -/
  pending : ∃ found, eval handler SystemModule.listPlanPending w = (.ok found, w) ∧
    ∀ taskId text, (taskId, text) ∈ found ↔ ∃ row first rest,
      w.db.tasks.find? taskId = some row ∧ row.status = .sleep ∧ row.planTodo = text ∧
      json.stringsFromStr text = some (first :: rest)
  /-- Taking items off a plan yields them in order, then nothing, and leaves the text of the empty
  list. -/
  pops : ∀ taskId row items, w.db.tasks.find? taskId = some row →
    json.stringsFromStr row.planTodo = some items → ∀ more, ∃ w' row',
      eval handler (popTimes json taskId (items.length + more)) w
        = (.ok (items.map some ++ List.replicate more none), w') ∧
      w'.db.tasks.find? taskId = some row' ∧ row'.planTodo = "[]"

section

variable {json} {w : World} {taskId : Str} {row : TaskRow}

/-- `popPlanHead` of an empty plan answers `none` and changes nothing. -/
theorem eval_popPlanHead_nil (hrow : w.db.tasks.find? taskId = some row)
    (hplan : row.planTodo = json.toStr (.strings [])) :
    eval handler (SystemModule.popPlanHead json taskId) w = (.ok none, w) := by
  rw [SystemModule.popPlanHead, TaskDb.popPlanHead, Program.eval_bind, eval_selectPlanTodo, hrow,
    Option.map_some, Program.evalNext_ok]
  dsimp only
  rw [hplan, json.stringsFromStr_strings, Option.getD_some]
  rfl

/-- `popPlanHead` answers the first item of a plan and stores the rest. -/
theorem eval_popPlanHead_cons {first : Str} {rest : List Str}
    (hrow : w.db.tasks.find? taskId = some row)
    (hplan : row.planTodo = json.toStr (.strings (first :: rest))) :
    eval handler (SystemModule.popPlanHead json taskId) w = (.ok (some first), w.tick.withTasks
      (w.db.tasks.setPlanTodo taskId (json.toStr (.strings rest)) (w.clock 0).isoSecond)) := by
  rw [SystemModule.popPlanHead, TaskDb.popPlanHead, Program.eval_bind, eval_selectPlanTodo, hrow,
    Option.map_some, Program.evalNext_ok]
  dsimp only
  rw [hplan, json.stringsFromStr_strings, Option.getD_some]
  dsimp only
  rw [Program.eval_bind, eval_utcNow, Program.evalNext_ok, Program.eval_bind, eval_updatePlanTodo,
    Program.evalNext_ok]
  rfl

/-- `popTimes` of an empty plan answers `none` each time and changes nothing. -/
theorem eval_popTimes_nil (hrow : w.db.tasks.find? taskId = some row)
    (hplan : row.planTodo = json.toStr (.strings [])) (times : Nat) :
    eval handler (popTimes json taskId times) w = (.ok (List.replicate times none), w) := by
  induction times with
  | zero => rfl
  | succ times ih =>
    rw [popTimes, Program.eval_bind, eval_popPlanHead_nil hrow hplan, Program.evalNext_ok,
      Program.eval_bind, ih, Program.evalNext_ok]
    rfl

/-- **A plan is used up in order** by `popTimes`, however often it is asked for more. -/
theorem eval_popTimes {items : List Str} (hrow : w.db.tasks.find? taskId = some row)
    (hplan : row.planTodo = json.toStr (.strings items)) (more : Nat) :
    ∃ w' row', eval handler (popTimes json taskId (items.length + more)) w
        = (.ok (items.map some ++ List.replicate more none), w') ∧
      w'.db.tasks.find? taskId = some row' ∧ row'.planTodo = "[]" := by
  induction items generalizing w row with
  | nil =>
    rw [List.length_nil, Nat.zero_add]
    exact ⟨w, row, eval_popTimes_nil hrow hplan more, hrow, hplan.trans json.toStr_nil⟩
  | cons first rest ih =>
    -- the next pop reads what this one stored
    have hrow' : (w.tick.withTasks (w.db.tasks.setPlanTodo taskId (json.toStr (.strings rest))
        (w.clock 0).isoSecond)).db.tasks.find? taskId
        = some (row.withPlanTodo (json.toStr (.strings rest)) (w.clock 0).isoSecond) := by
      rw [World.withTasks_tasks, Tasks.find?_setPlanTodo_self, hrow, Option.map_some]
    obtain ⟨w', row', heval, hfind, hempty⟩ := ih hrow' rfl
    refine ⟨w', row', ?_, hfind, hempty⟩
    rw [List.length_cons, Nat.add_right_comm, popTimes, Program.eval_bind,
      eval_popPlanHead_cons hrow hplan, Program.evalNext_ok, Program.eval_bind, heval,
      Program.evalNext_ok]
    rfl

/-- `PlansEncoded` comes to `PlansWellFormed`: what is stored is served in order. -/
theorem plansWellFormed_of_plansEncoded (h : w.db.PlansEncoded json) : PlansWellFormed json w where
  encoded := h
  decoded row hrow := by
    obtain ⟨items, hitems⟩ := h row hrow
    rw [hitems]
    exact ⟨items, json.stringsFromStr_strings items,
      json.fromStr_toStr _ (Json.exact_strings items)⟩
  pending := by
    refine ⟨_, eval_listPlanPending w, fun taskId text => ?_⟩
    rw [List.mem_map]
    constructor
    -- The statement compares the text with `[]`, which is the text of the empty plan only.
    · rintro ⟨row, hmem, heq⟩
      cases heq
      rw [List.mem_filter, decide_eq_true_iff] at hmem
      obtain ⟨hrow, hstatus, hplan⟩ := hmem
      obtain ⟨items, hitems⟩ := h row hrow
      cases items with
      | nil => exact absurd (hitems.trans json.toStr_nil) hplan
      | cons first rest =>
        refine ⟨row, first, rest, Table.find?_eq_some_iff.mpr ⟨hrow, rfl⟩, hstatus, rfl, ?_⟩
        rw [hitems]
        exact json.stringsFromStr_strings _
    · rintro ⟨row, first, rest, hrow, hstatus, rfl, hitems⟩
      obtain ⟨hmem, rfl⟩ := Table.find?_eq_some_iff.mp hrow
      refine ⟨row, ?_, rfl⟩
      rw [List.mem_filter, decide_eq_true_iff]
      refine ⟨hmem, hstatus, fun hempty => ?_⟩
      rw [hempty, ← json.toStr_nil] at hitems
      exact nomatch hitems.symm.trans (json.stringsFromStr_strings [])
  pops taskId row items hrow hitems := by
    obtain ⟨items', hitems'⟩ := h row (Table.mem_of_find? hrow)
    rw [hitems', json.stringsFromStr_strings, Option.some_inj] at hitems
    exact eval_popTimes hrow (hitems ▸ hitems')

end

/-- **Stored plans are always well formed**: `PlansWellFormed` holds after any `Interleaving` of
requests, from an empty database. -/
theorem plansWellFormed_of_run (requests : List TaskRequest) (w : World) (hempty : w.db = .empty)
    {moves : List (Move Sql World)} {c : Config Sql World}
    (run : Interleaving handler ⟨requests.map (TaskRequest.program json), w⟩ moves c) :
    PlansWellFormed json c.state := by
  have hops : ∀ p ∈ requests.map (TaskRequest.program json), p.AllOps (KeepsSchema json) := by
    intro p hp
    obtain ⟨request, -, rfl⟩ := List.mem_map.mp hp
    exact request.allOps_program json
  have hencoded : c.state.db.PlansEncoded json := by
    induction run with
    | start => exact hempty ▸ plansEncoded_empty
    | step run ready ih =>
      exact .handler ((run.allOps hops).1 _ (List.mem_of_getElem? ready)).1 ih
  exact plansWellFormed_of_plansEncoded hencoded

/-- A task, and a call that leaves it a plan of two items. -/
def planning : List TaskRequest :=
  [.create (JsonText.codec.toStr (.ofPairs [("task_id", .string "t-1"),
      ("plan_todo", .string "mine")])),
    .transition "t-1" "active",
    .complete ⟨"t-1", "planned", [], false, [], [], [], false, [], ["build", "test"]⟩]

/-- A world without tasks. -/
def noTasks : World := ⟨.empty, fun _ => ⟨2026, 3, 12, 14, 0, 0⟩, .blind⟩

/-- `PlansWellFormed` after `planning`, each request after the one before it. -/
theorem plansWellFormed_of_run_planning : ∃ moves c,
    Interleaving handler ⟨planning.map (TaskRequest.program JsonText.codec), noTasks⟩ moves c ∧
      PlansWellFormed JsonText.codec c.state :=
  ⟨_, _, .of_play handler _ [0, 0, 0, 0, 1, 1, 1, 2, 2, 2, 2, 2, 2, 2],
    plansWellFormed_of_run JsonText.codec planning noTasks rfl (.of_play ..)⟩

end LogosFs.System
