import LogosFs.System.Anchors

/-! # Completing a turn

`execute` ends an agent's turn. A pending or sleeping task is first activated, whatever comes of it.
Then one of four things happens: the task is discarded and another one resumed; a plan is stored and
the task sleeps; the task sleeps; or it finishes. The last three may also create an anchor, and an
anchor created at the end of a sleep or finish triggers a task that regenerates a summary. -/

namespace LogosFs.System

open Program (eval Closed)

variable (json : JsonCodec)

/-- The parameters of `logos_complete`. -/
structure CompleteParams where
  /-- The current task. -/
  taskId : Str
  /-- What happened this turn. -/
  summary : Str
  /-- The message to the user. -/
  reply : Str
  /-- Whether to create an anchor. -/
  anchor : Bool
  /-- The facts of the anchor, as JSON text. -/
  anchorFacts : Str
  /-- The log to append. -/
  taskLog : Str
  /-- If not empty, the task sleeps instead of finishing. -/
  sleepReason : Str
  /-- A hint for the adapter. -/
  sleepRetry : Bool
  /-- If not empty, the task to resume in place of the current one. -/
  resumeTaskId : Str
  /-- If not empty, the plan: descriptions of subtasks, in order. -/
  planTodo : List Str
deriving DecidableEq, Repr

/-- The result of `logos_complete`. -/
structure CompleteResult where
  /-- The message to the user. -/
  reply : Str
  /-- The anchor created, or the empty text. -/
  anchorId : Str
  /-- The log to append. -/
  taskLog : Str
  /-- The task whose log it is. -/
  taskId : Str
deriving DecidableEq, Repr

namespace Complete

/-- Create the anchor that the parameters ask for, if any. -/
def anchorIfRequested (params : CompleteParams) : SystemM Str :=
  if params.anchor ∧ params.taskId ≠ [] then
    AnchorDb.create json params.taskId params.summary params.anchorFacts
  else return []

/-- Activate the current task; a failure is ignored. -/
def activate (params : CompleteParams) : SystemM Unit := do
  if params.taskId ≠ [] then
    Program.ignoreError (TaskDb.transitionStatus params.taskId TaskStatus.active.text)

/-- Discard the current task and activate the one to resume. -/
def resume (params : CompleteParams) : SystemM CompleteResult := do
  if params.taskId ≠ [] then
    TaskDb.delete params.taskId
  TaskDb.transitionStatus params.resumeTaskId TaskStatus.active.text
  return { reply := params.reply, anchorId := [], taskLog := params.taskLog,
           taskId := params.resumeTaskId }

/-- Store the plan and put the current task to sleep. -/
def plan (params : CompleteParams) : SystemM CompleteResult := do
  TaskDb.setPlanTodo params.taskId (json.toStr (.strings params.planTodo))
  TaskDb.transitionStatus params.taskId TaskStatus.sleep.text
  let anchorId ← anchorIfRequested json params
  return { reply := params.reply, anchorId, taskLog := params.taskLog, taskId := params.taskId }

/-- The task that regenerates the short summary after an anchor. -/
def regenContent (anchorId : Str) (now : DateTime) : Json :=
  .ofPairs [
    ("task_id", .string ("regen-summary-" ++ now.compact)),
    ("description", .string ("Regenerate short summary for period " ++ now.isoHour
      ++ " (triggered by anchor " ++ anchorId ++ ")")),
    ("resource", .string "logos://memory/*/summary/short"),
    ("chat_id", .string []),
    ("trigger", .string "anchor")]

/-- A `regenContent` has no numbers in it, so it is `Exact`. -/
theorem exact_regenContent (anchorId : Str) (now : DateTime) : (regenContent anchorId now).Exact := by
  refine Json.exactAt_ofPairs fun pair hpair => ?_
  simp only [List.mem_cons, List.not_mem_nil, or_false] at hpair
  rcases hpair with rfl | rfl | rfl | rfl | rfl <;> exact .string

/-- `newRow` of a `regenContent` is a fresh task for the memory of all chats. -/
theorem newRow_regenContent (anchorId : Str) (now now' : DateTime) :
    TaskDb.newRow (regenContent anchorId now) now'
      = .fresh ("regen-summary-" ++ now.compact) ("Regenerate short summary for period "
          ++ now.isoHour ++ " (triggered by anchor " ++ anchorId ++ ")") []
        "logos://memory/*/summary/short" [] "anchor" [] now'.isoSecond := by
  rw [TaskDb.newRow]
  simp only [strField, Json.get, regenContent, Json.get?_ofPairs]
  rfl

/-- Create the task that regenerates the short summary; a failure is ignored. -/
def regenSummary (anchorId : Str) : SystemM Unit := do
  let now ← utcNow
  Program.ignoreError (TaskDb.create json (json.toStr (regenContent anchorId now)))

/-- The status a turn ends with that neither resumes nor plans. -/
def newStatus (params : CompleteParams) : TaskStatus :=
  if params.sleepReason ≠ [] then .sleep else .finished

/-- Put the current task to sleep or finish it. -/
def settle (params : CompleteParams) : SystemM CompleteResult := do
  if params.taskId ≠ [] then
    TaskDb.transitionStatus params.taskId (newStatus params).text
  let anchorId ← anchorIfRequested json params
  if params.anchor ∧ params.taskId ≠ [] then
    regenSummary json anchorId
  return { reply := params.reply, anchorId, taskLog := params.taskLog, taskId := params.taskId }

/-- Execute `logos_complete`. -/
def execute (params : CompleteParams) : SystemM CompleteResult := do
  activate params
  if params.resumeTaskId ≠ [] then resume params
  else if params.planTodo ≠ [] ∧ params.taskId ≠ [] then plan json params
  else settle json params

/-! ## What a turn's end is made of -/

section Closed

variable {json} {params : CompleteParams} {M : ∀ {α : Type}, SystemM α → Prop}

/-- A `Closed` property holds of `anchorIfRequested` if it holds of creating an anchor for the
current task. -/
theorem closed_anchorIfRequested (hM : Closed M)
    (hanchor : params.taskId ≠ [] →
      M (AnchorDb.create json params.taskId params.summary params.anchorFacts)) :
    M (anchorIfRequested json params) := by
  rw [anchorIfRequested]
  split
  · rename_i h
    exact hanchor h.2
  · exact hM.of_pure []

/-- A `Closed` property holds of the three modes that follow the activation if it holds of what they
are made of. -/
theorem closed_modes (hM : Closed M) (hclock : M utcNow)
    (hcurrent : params.taskId ≠ [] → ∀ new : TaskStatus,
      M (TaskDb.transitionStatus params.taskId new.text))
    (hresumed : params.resumeTaskId ≠ [] →
      M (TaskDb.transitionStatus params.resumeTaskId TaskStatus.active.text))
    (hdelete : params.taskId ≠ [] → params.resumeTaskId ≠ [] → M (TaskDb.delete params.taskId))
    (hplan : params.taskId ≠ [] →
      M (TaskDb.setPlanTodo params.taskId (json.toStr (.strings params.planTodo))))
    (hanchor : params.taskId ≠ [] → params.resumeTaskId = [] →
      M (AnchorDb.create json params.taskId params.summary params.anchorFacts))
    (hregen : ∀ anchorId now, M (TaskDb.create json (json.toStr (regenContent anchorId now)))) :
    M (if params.resumeTaskId ≠ [] then resume params
      else if params.planTodo ≠ [] ∧ params.taskId ≠ [] then plan json params
      else settle json params) := by
  split
  · rename_i hresume
    exact hM.of_when_bind (fun h => hdelete h hresume) fun _ =>
      hM.of_bind (hresumed hresume) fun _ => hM.of_pure _
  rename_i hresume
  have hanchorIf : M (anchorIfRequested json params) :=
    closed_anchorIfRequested hM fun h => hanchor h (not_not.mp hresume)
  split
  · rename_i h
    exact hM.of_bind (hplan h.2) fun _ => hM.of_bind (hcurrent h.2 .sleep) fun _ =>
      hM.of_bind hanchorIf fun _ => hM.of_pure _
  · have hregenSummary : ∀ anchorId, M (regenSummary json anchorId) := fun anchorId =>
      hM.of_bind hclock fun now => hM.of_ignoreError (hregen anchorId now)
    refine hM.of_when_bind (fun h => hcurrent h (newStatus params)) fun _ =>
      hM.of_bind hanchorIf fun anchorId => ?_
    exact hM.of_when_bind (fun _ => hregenSummary anchorId) fun _ => hM.of_pure _

/-- **What a turn's end is made of**: a `Closed` property holds of `execute` when it holds of the
transitions of the current task and the one to resume, of deleting the current task, of storing its
plan, of creating its anchor, and of creating the task that regenerates a summary. -/
theorem closed_execute (hM : Closed M) (hclock : M utcNow)
    (hcurrent : params.taskId ≠ [] → ∀ new : TaskStatus,
      M (TaskDb.transitionStatus params.taskId new.text))
    (hresumed : params.resumeTaskId ≠ [] →
      M (TaskDb.transitionStatus params.resumeTaskId TaskStatus.active.text))
    (hdelete : params.taskId ≠ [] → params.resumeTaskId ≠ [] → M (TaskDb.delete params.taskId))
    (hplan : params.taskId ≠ [] →
      M (TaskDb.setPlanTodo params.taskId (json.toStr (.strings params.planTodo))))
    (hanchor : params.taskId ≠ [] → params.resumeTaskId = [] →
      M (AnchorDb.create json params.taskId params.summary params.anchorFacts))
    (hregen : ∀ anchorId now, M (TaskDb.create json (json.toStr (regenContent anchorId now)))) :
    M (execute json params) :=
  hM.of_bind (hM.of_when fun h => hM.of_ignoreError (hcurrent h .active)) fun _ =>
    closed_modes hM hclock hcurrent hresumed hdelete hplan hanchor hregen

end Closed

/-! ## Running alone -/

section Alone

variable (w : World)

/-- The number of times the clock is read to activate a task of a given status. -/
def readings (status : TaskStatus) : Nat :=
  if (status, .active) ∈ validTransitions then 1 else 0

/-- The world after an attempt to activate a task. -/
def activated (taskId : Str) (w : World) : World :=
  match w.db.tasks.find? taskId with
  | none => w
  | some row =>
    if (row.status, .active) ∈ validTransitions then
      w.tick.withTasks (w.db.tasks.setStatus taskId .active (w.clock 0).isoSecond)
    else w

/-- `activate` of a task leads to the world `activated`, and never fails. -/
theorem eval_activate {params : CompleteParams} (h : params.taskId ≠ []) :
    eval handler (activate params) w = (.ok (), activated params.taskId w) := by
  simp only [activate, if_pos h, Program.eval_ignoreError, activated]
  by_cases hmove : TaskDb.CanMove w.db.tasks params.taskId .active
  · rw [TaskDb.eval_transitionStatus_of_canMove w hmove]
    obtain ⟨row, hrow, hvalid⟩ := hmove
    simp only [hrow, if_pos hvalid]
  · obtain ⟨e, hrun⟩ := TaskDb.eval_transitionStatus_of_not_canMove w hmove
    rw [hrun]
    cases hrow : w.db.tasks.find? params.taskId with
    | none => rfl
    | some row => exact congrArg _ (if_neg fun hvalid => hmove ⟨row, hrow, hvalid⟩).symm

/-- `activate` without a task does nothing. -/
theorem eval_activate_of_nil {params : CompleteParams} (h : params.taskId = []) :
    eval handler (activate params) w = (.ok (), w) := by
  simp only [activate, h, ne_eq, not_true_eq_false, if_false, Program.eval_pure]

variable {w} {taskId : Str} {row : TaskRow}

/-- `activated` changes nothing where the task is missing. -/
theorem activated_of_none (h : w.db.tasks.find? taskId = none) : activated taskId w = w := by
  rw [activated, h]

/-- `activated` leaves a finished task as it is. -/
theorem activated_of_finished (h : w.db.tasks.find? taskId = some row)
    (hfinished : row.status = .finished) : activated taskId w = w := by
  rw [activated, h]
  exact if_neg (by rw [hfinished]; decide)

/-- `activated` touches no other task. -/
theorem find?_activated_ne {id : Str} (hid : id ≠ taskId) :
    (activated taskId w).db.tasks.find? id = w.db.tasks.find? id := by
  rw [activated]
  split
  · rfl
  · split
    · rw [World.withTasks_tasks, Tasks.find?_setStatus_ne _ _ _ _ hid]
    · rfl

/-- `activated` leaves the anchors alone. -/
@[simp] theorem activated_anchors : (activated taskId w).db.anchors = w.db.anchors := by
  rw [activated]; split
  · rfl
  · split <;> rfl

/-- `activated` takes the `readings` of the clock that the status asks for. -/
theorem activated_clock (h : w.db.tasks.find? taskId = some row) (n : Nat) :
    (activated taskId w).clock n = w.clock (n + readings row.status) := by
  rw [activated, h, readings]; dsimp only; split <;> rfl

/-- **After activation** a task that was not finished is active: the row `Became` active, and
nothing else has changed. -/
theorem activated_became (h : w.db.tasks.find? taskId = some row)
    (hfinished : row.status ≠ .finished) :
    ∃ now, Became taskId (row.withStatus .active now) w.db.tasks
      (activated taskId w).db.tasks := by
  rw [activated, h]
  dsimp only
  split
  · exact ⟨_, (Became.refl h).setStatus .active _⟩
  · rename_i hinvalid
    have hactive : row.status = .active := by
      revert hinvalid hfinished; cases row.status <;> decide
    exact ⟨row.updatedAt, by rw [← hactive]; exact Became.refl h⟩

/-- `anchorIfRequested` succeeds where its key is free, or no anchor is asked for. -/
theorem eval_anchorIfRequested_of_free {params : CompleteParams}
    (h : params.anchor = false ∨ w.db.anchors.find? (params.taskId, (w.clock 0).isoMinute) = none) :
    ∃ anchorId w', eval handler (anchorIfRequested json params) w = (.ok anchorId, w') := by
  rw [anchorIfRequested]
  split
  · rename_i hrequested
    have hfree := h.resolve_left (by simp [hrequested.1])
    have hmarked : (AnchorDb.supersede json (AnchorDb.uri params.taskId (w.clock 0).isoMinute)
        params.anchorFacts w.db.anchors).find? (params.taskId, (w.clock 0).isoMinute) = none :=
      AnchorDb.find?_supersede_eq_none_iff.mpr hfree
    obtain ⟨anchors, w', hrun, -, -⟩ := AnchorDb.eval_insertRow_of_free
      (w.tick.tick.withAnchors _)
      ⟨(w.clock 0).isoMinute, params.taskId, params.summary, params.anchorFacts,
        (w.clock 1).isoSecond⟩ hmarked
    exact ⟨_, w', (AnchorDb.eval_create w ..).trans hrun⟩
  · exact ⟨[], w, rfl⟩

/-- `anchorIfRequested` marks the anchors that the facts name, by `supersede`, and fails where its
key is taken. -/
theorem eval_anchorIfRequested_of_conflict {params : CompleteParams} {old : AnchorRow}
    (hanchor : params.anchor = true) (htask : params.taskId ≠ [])
    (h : w.db.anchors.find? (params.taskId, (w.clock 0).isoMinute) = some old) :
    ∃ e, eval handler (anchorIfRequested json params) w = (.error e, w.tick.tick.withAnchors
      (AnchorDb.supersede json (AnchorDb.uri params.taskId (w.clock 0).isoMinute)
        params.anchorFacts w.db.anchors)) := by
  rw [anchorIfRequested, if_pos ⟨hanchor, htask⟩, AnchorDb.eval_create]
  have hsome : (AnchorDb.supersede json (AnchorDb.uri params.taskId (w.clock 0).isoMinute)
      params.anchorFacts w.db.anchors).find? (params.taskId, (w.clock 0).isoMinute) ≠ none := by
    rw [ne_eq, AnchorDb.find?_supersede_eq_none_iff, h]; exact Option.some_ne_none _
  obtain ⟨old', hold'⟩ := Option.ne_none_iff_exists'.mp hsome
  exact AnchorDb.eval_insertRow_of_conflict _ hold'

end Alone

end Complete

end LogosFs.System
