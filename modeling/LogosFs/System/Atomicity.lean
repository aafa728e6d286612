import LogosFs.System.Complete

/-! # When completing a turn is atomic

`execute` sends up to seven statements and each commits on its own, so a call that fails late has
already changed rows. `AtomicWhen` lists, for the three ways a turn can end, the states in which a
failing call changes no row; `errorKeeps_iff_atomicWhen` says that these are all of them. -/

namespace LogosFs.System

open Program (eval)

namespace Complete

variable (json : JsonCodec)

/-- Every row of both tables is what it was. -/
def Unchanged (w w' : World) : Prop :=
  (∀ taskId, w'.db.tasks.find? taskId = w.db.tasks.find? taskId) ∧
    ∀ key, w'.db.anchors.find? key = w.db.anchors.find? key

/-- A call of `execute` that fails leaves every row as it was. -/
def ErrorKeeps (params : CompleteParams) (w : World) : Prop :=
  ∀ e w', eval handler (execute json params) w = (.error e, w') → Unchanged w w'

/-- The anchor asked for, if any, does not clash with one that the task already has under the minute
that the clock's reading number `n` shows. -/
def AnchorFree (params : CompleteParams) (w : World) (n : Nat) : Prop :=
  params.anchor = false ∨ w.db.anchors.find? (params.taskId, (w.clock n).isoMinute) = none

/-- Every anchor that the facts name carries the mark of the new anchor already: marking it once
more changes nothing. -/
def AlreadyMarked (params : CompleteParams) (w : World) (n : Nat) : Prop :=
  ∀ key, (AnchorDb.supersede json (AnchorDb.uri params.taskId (w.clock n).isoMinute)
    params.anchorFacts w.db.anchors).find? key = w.db.anchors.find? key

/-- Resuming keeps the rows on failure: there is no current task to discard, or the one to resume is
another task that can be activated. -/
def ResumeAtomic (params : CompleteParams) (w : World) : Prop :=
  params.taskId = [] ∨ w.db.tasks.find? params.taskId = none ∨
    (params.resumeTaskId ≠ params.taskId ∧
      ∃ row, w.db.tasks.find? params.resumeTaskId = some row ∧
        (row.status, .active) ∈ validTransitions)

/-- Planning keeps the rows on failure: the task does not exist; or it is finished and its row
already shows this very plan with this very time stamp; or it is not, and its anchor does not clash,
or its row and the anchors named already are what the call would make of them. -/
def PlanAtomic (params : CompleteParams) (w : World) : Prop :=
  ∀ row, w.db.tasks.find? params.taskId = some row →
    if row.status = .finished then
      row.planTodo = json.toStr (.strings params.planTodo) ∧
        row.updatedAt = (w.clock 0).isoSecond
    else
      AnchorFree params w (readings row.status + 2) ∨
        (row.status = .sleep ∧ row.planTodo = json.toStr (.strings params.planTodo) ∧
          row.updatedAt = (w.clock (readings row.status + 1)).isoSecond ∧
          AlreadyMarked json params w (readings row.status + 2))

/-- Sleeping or finishing keeps the rows on failure: there is no current task, or it does not exist
or is finished; or its anchor does not clash; or its row and the anchors named already are what the
call would make of them. -/
def SettleAtomic (params : CompleteParams) (w : World) : Prop :=
  params.taskId = [] ∨ ∀ row, w.db.tasks.find? params.taskId = some row →
    row.status = .finished ∨ AnchorFree params w (readings row.status + 1) ∨
      (row.status = newStatus params ∧
        row.updatedAt = (w.clock (readings row.status)).isoSecond ∧
        AlreadyMarked json params w (readings row.status + 1))

/-- The states in which a failing call of `execute` changes no row. -/
def AtomicWhen (params : CompleteParams) (w : World) : Prop :=
  if params.resumeTaskId ≠ [] then ResumeAtomic params w
  else if params.planTodo ≠ [] ∧ params.taskId ≠ [] then PlanAtomic json params w
  else SettleAtomic json params w

section

variable {json} {params : CompleteParams} {w w' : World}

/-- A call that succeeds meets `ErrorKeeps`. -/
theorem errorKeeps_of_ok {result : CompleteResult}
    (h : eval handler (execute json params) w = (.ok result, w')) : ErrorKeeps json params w := by
  intro e w'' herror
  rw [h] at herror
  cases herror

/-- A call that fails meets `ErrorKeeps` if it leaves every row `Unchanged`. -/
theorem errorKeeps_iff_of_error {e : VfsError}
    (h : eval handler (execute json params) w = (.error e, w')) :
    ErrorKeeps json params w ↔ Unchanged w w' := by
  constructor
  · intro hkeeps; exact hkeeps e w' h
  · intro hsame e' w'' herror
    rw [h] at herror
    cases herror
    exact hsame

/-! ## Resuming -/

variable (json w) in
/-- `execute` that resumes succeeds if the other task can be activated once the current one is gone;
otherwise the current one is gone all the same. -/
theorem eval_execute_resume (hresume : params.resumeTaskId ≠ []) (htask : params.taskId ≠ []) :
    eval handler (execute json params) w = Program.evalNext handler
      (fun _ => pure ⟨params.reply, [], params.taskLog, params.resumeTaskId⟩)
      (eval handler (TaskDb.transitionStatus params.resumeTaskId TaskStatus.active.text)
        ((activated params.taskId w).withTasks
          ((activated params.taskId w).db.tasks.delete params.taskId))) := by
  simp only [execute, Program.eval_bind, eval_activate w htask, Program.evalNext_ok,
    if_pos hresume, resume, if_pos htask, TaskDb.eval_delete]

/-- `CanMove` after the current task is discarded holds of every other task that it held of. -/
theorem canMove_delete_activated_iff {new : TaskStatus} {id : Str} :
    TaskDb.CanMove ((activated params.taskId w).db.tasks.delete params.taskId) id new ↔
      id ≠ params.taskId ∧ TaskDb.CanMove w.db.tasks id new := by
  by_cases hid : id = params.taskId
  · subst hid
    simp [TaskDb.CanMove]
  · simp [TaskDb.CanMove, hid, Table.find?_delete_ne hid, find?_activated_ne hid]

/-- Discarding a task leaves every row `Unchanged` exactly when there is no such task. -/
theorem unchanged_delete_activated_iff :
    Unchanged w ((activated params.taskId w).withTasks
        ((activated params.taskId w).db.tasks.delete params.taskId)) ↔
      w.db.tasks.find? params.taskId = none := by
  constructor
  · intro h
    rw [← h.1 params.taskId]
    exact Table.find?_delete_self
  · intro h
    rw [activated_of_none h, Table.delete_eq_self_iff.mpr h]
    exact ⟨fun _ => rfl, fun _ => rfl⟩

/-- For a call that resumes, `ErrorKeeps` is `ResumeAtomic`. -/
theorem errorKeeps_resume_iff (hresume : params.resumeTaskId ≠ []) :
    ErrorKeeps json params w ↔ ResumeAtomic params w := by
  by_cases htask : params.taskId = []
  -- Without a current task nothing is deleted before the other one is woken up.
  · have hkeeps : ErrorKeeps json params w := by
      intro e w' herror
      simp only [execute, Program.eval_bind, eval_activate_of_nil w htask, Program.evalNext_ok,
        if_pos hresume, resume, htask, ne_eq, not_true_eq_false, if_false] at herror
      by_cases hmove : TaskDb.CanMove w.db.tasks params.resumeTaskId .active
      · rw [TaskDb.eval_transitionStatus_of_canMove w hmove] at herror
        cases herror
      · obtain ⟨e', hrun⟩ := TaskDb.eval_transitionStatus_of_not_canMove w hmove
        rw [hrun] at herror
        cases herror
        exact ⟨fun _ => rfl, fun _ => rfl⟩
    exact ⟨fun _ => .inl htask, fun _ => hkeeps⟩
  · have hrun := eval_execute_resume json w hresume htask
    by_cases hmove : TaskDb.CanMove ((activated params.taskId w).db.tasks.delete params.taskId)
        params.resumeTaskId .active
    -- The deletion has been committed by now; the call succeeds if the other task can be woken up.
    · rw [TaskDb.eval_transitionStatus_of_canMove _ hmove] at hrun
      have hother := canMove_delete_activated_iff.mp hmove
      exact ⟨fun _ => .inr (.inr hother), fun _ => errorKeeps_of_ok hrun⟩
    · obtain ⟨e, hfail⟩ := TaskDb.eval_transitionStatus_of_not_canMove
        ((activated params.taskId w).withTasks
          ((activated params.taskId w).db.tasks.delete params.taskId)) hmove
      rw [hfail] at hrun
      rw [errorKeeps_iff_of_error hrun, unchanged_delete_activated_iff, ResumeAtomic]
      rw [canMove_delete_activated_iff] at hmove
      constructor
      · intro hnone; exact .inr (.inl hnone)
      · rintro (hnil | hnone | hother)
        · exact absurd hnil htask
        · exact hnone
        · exact absurd hother hmove

/-! ## Ending with an anchor -/

/-- Where a call has come to the anchor, with the row of the task turned into `row'` and nothing
else changed, a failure keeps all rows exactly when the anchor does not clash, or neither the row
nor any anchor named has changed. -/
theorem errorKeeps_iff_of_anchor {next : Str → SystemM CompleteResult} {w₁ : World}
    {row row' : TaskRow} {n : Nat}
    (hrun : eval handler (execute json params) w
      = Program.evalNext handler next (eval handler (anchorIfRequested json params) w₁))
    (hnext : ∀ anchorId w', ∃ result w'', eval handler (next anchorId) w' = (.ok result, w''))
    (htask : params.taskId ≠ []) (hrow : w.db.tasks.find? params.taskId = some row)
    (hbecame : Became params.taskId row' w.db.tasks w₁.db.tasks)
    (hanchors : w₁.db.anchors = w.db.anchors) (hclock : w₁.clock 0 = w.clock n) :
    ErrorKeeps json params w ↔
      AnchorFree params w n ∨ (row' = row ∧ AlreadyMarked json params w n) := by
  by_cases hfree : AnchorFree params w n
  · have hfree' := hfree
    rw [AnchorFree, ← hclock, ← hanchors] at hfree'
    obtain ⟨anchorId, w', hanchor⟩ := eval_anchorIfRequested_of_free json hfree'
    obtain ⟨result, w'', hok⟩ := hnext anchorId w'
    rw [hanchor, Program.evalNext_ok, hok] at hrun
    exact ⟨fun _ => .inl hfree, fun _ => errorKeeps_of_ok hrun⟩
  · have hconflict := not_or.mp hfree
    obtain ⟨old, hold⟩ := Option.ne_none_iff_exists'.mp hconflict.2
    rw [← hclock, ← hanchors] at hold
    obtain ⟨e, hanchor⟩ := eval_anchorIfRequested_of_conflict json
      (by simpa using hconflict.1) htask hold
    rw [hanchor, Program.evalNext_error] at hrun
    rw [errorKeeps_iff_of_error hrun, or_iff_right hfree, Unchanged, ← hbecame.unchanged_iff hrow,
      AlreadyMarked, ← hclock, ← hanchors]
    rfl

/-- When a row that was activated, planned and put to sleep, by `withStatus` and `withPlanTodo`, is
the row it was. -/
theorem withStatus_withPlanTodo_eq_iff {row : TaskRow} {status status' : TaskStatus}
    {planTodo now now' now'' : Str} :
    ((row.withStatus status now).withPlanTodo planTodo now').withStatus status' now'' = row ↔
      row.status = status' ∧ row.planTodo = planTodo ∧ row.updatedAt = now'' := by
  cases row
  simp only [TaskRow.withStatus, TaskRow.withPlanTodo, TaskRow.mk.injEq, true_and]
  constructor <;> rintro ⟨rfl, rfl, rfl⟩ <;> exact ⟨rfl, rfl, rfl⟩

/-- When a row that was activated and moved on, by `withStatus`, is the row it was. -/
theorem withStatus_withStatus_eq_iff {row : TaskRow} {status status' : TaskStatus}
    {now now' : Str} : (row.withStatus status now).withStatus status' now' = row ↔
      row.status = status' ∧ row.updatedAt = now' := by
  cases row
  simp only [TaskRow.withStatus, TaskRow.mk.injEq, true_and]
  constructor <;> rintro ⟨rfl, rfl⟩ <;> exact ⟨rfl, rfl⟩

/-! ## Planning -/

variable (json w) in
/-- `execute` with a plan stores it on the world after activation and then moves the task. -/
theorem eval_execute_plan (hresume : params.resumeTaskId = []) (hplan : params.planTodo ≠ [])
    (htask : params.taskId ≠ []) :
    eval handler (execute json params) w = Program.evalNext handler
      (fun _ => anchorIfRequested json params >>= fun anchorId =>
        pure ⟨params.reply, anchorId, params.taskLog, params.taskId⟩)
      (eval handler (TaskDb.transitionStatus params.taskId TaskStatus.sleep.text)
        ((activated params.taskId w).tick.withTasks
          ((activated params.taskId w).db.tasks.setPlanTodo params.taskId
            (json.toStr (.strings params.planTodo))
            ((activated params.taskId w).clock 0).isoSecond))) := by
  simp only [execute, Program.eval_bind, eval_activate w htask, Program.evalNext_ok, hresume,
    ne_eq, not_true_eq_false, if_false, if_pos (And.intro hplan htask), plan,
    TaskDb.eval_setPlanTodo]

/-- For a call with a plan, `ErrorKeeps` is `PlanAtomic`. -/
theorem errorKeeps_plan_iff (hresume : params.resumeTaskId = []) (hplan : params.planTodo ≠ [])
    (htask : params.taskId ≠ []) : ErrorKeeps json params w ↔ PlanAtomic json params w := by
  have hrun := eval_execute_plan json w hresume hplan htask
  cases hrow : w.db.tasks.find? params.taskId with
  -- There is no such task: storing the plan changes no row, and then the transition fails.
  | none =>
    rw [activated_of_none hrow, Tasks.setPlanTodo_of_none _ _ hrow,
      TaskDb.eval_transitionStatus_of_none (w.tick.withTasks w.db.tasks) .sleep hrow] at hrun
    rw [errorKeeps_iff_of_error hrun, PlanAtomic]
    exact iff_of_true ⟨fun _ => rfl, fun _ => rfl⟩ fun row h => by rw [hrow] at h; cases h
  | some row =>
    have hcondition : PlanAtomic json params w ↔ if row.status = .finished then
          row.planTodo = json.toStr (.strings params.planTodo) ∧
            row.updatedAt = (w.clock 0).isoSecond
        else AnchorFree params w (readings row.status + 2) ∨
          (row.status = .sleep ∧ row.planTodo = json.toStr (.strings params.planTodo) ∧
            row.updatedAt = (w.clock (readings row.status + 1)).isoSecond ∧
            AlreadyMarked json params w (readings row.status + 2)) := by
      simp only [PlanAtomic, hrow, Option.some_inj, forall_eq']
    rw [hcondition]
    -- A finished task cannot sleep; its plan and the time of the change have been stored by then.
    by_cases hfinished : row.status = .finished
    · rw [if_pos hfinished]
      have hbecame := (Became.refl hrow).setPlanTodo (json.toStr (.strings params.planTodo))
        (w.clock 0).isoSecond
      have hinvalid : (row.status, TaskStatus.sleep) ∉ validTransitions := by
        rw [hfinished]; decide
      rw [activated_of_finished hrow hfinished,
        TaskDb.eval_transitionStatus_of_invalid (w.tick.withTasks (w.db.tasks.setPlanTodo
          params.taskId (json.toStr (.strings params.planTodo)) (w.clock 0).isoSecond))
          hbecame.self hinvalid] at hrun
      rw [errorKeeps_iff_of_error hrun]
      constructor
      · intro h
        have hrow' := (hbecame.unchanged_iff hrow).mp h.1
        rw [← hrow']
        exact ⟨rfl, rfl⟩
      · rintro ⟨hplanTodo, hupdated⟩
        refine ⟨(hbecame.unchanged_iff hrow).mpr ?_, fun _ => rfl⟩
        rw [← hplanTodo, ← hupdated]
        rfl
    · rw [if_neg hfinished]
      -- Any other task sleeps, and what can fail after that is creating the anchor.
      obtain ⟨now, hactive⟩ := activated_became hrow hfinished
      have hplanned := hactive.setPlanTodo (json.toStr (.strings params.planTodo))
        ((activated params.taskId w).clock 0).isoSecond
      rw [TaskDb.eval_transitionStatus_of_valid ((activated params.taskId w).tick.withTasks
          ((activated params.taskId w).db.tasks.setPlanTodo params.taskId
            (json.toStr (.strings params.planTodo))
            ((activated params.taskId w).clock 0).isoSecond))
          hplanned.self ?_,
        Program.evalNext_ok, Program.eval_bind] at hrun
      have hslept := hplanned.setStatus .sleep ((activated params.taskId w).clock 1).isoSecond
      rw [errorKeeps_iff_of_anchor hrun (fun anchorId w' => ⟨_, w', rfl⟩) htask hrow hslept
        activated_anchors (activated_clock hrow 2), activated_clock hrow, Nat.add_comm 2,
        withStatus_withPlanTodo_eq_iff, activated_clock hrow, Nat.add_comm 1, and_assoc, and_assoc]
      · show (TaskStatus.active, TaskStatus.sleep) ∈ validTransitions
        decide

/-! ## Sleeping and finishing -/

variable (json w) in
/-- `execute` that sleeps or finishes moves the task on the world after activation. -/
theorem eval_execute_settle (hresume : params.resumeTaskId = []) (hplan : params.planTodo = [])
    (htask : params.taskId ≠ []) :
    eval handler (execute json params) w = Program.evalNext handler
      (fun _ => anchorIfRequested json params >>= fun anchorId => do
        if params.anchor ∧ params.taskId ≠ [] then
          regenSummary json anchorId
        pure ⟨params.reply, anchorId, params.taskLog, params.taskId⟩)
      (eval handler (TaskDb.transitionStatus params.taskId (newStatus params).text)
        (activated params.taskId w)) := by
  simp only [execute, Program.eval_bind, eval_activate w htask, Program.evalNext_ok, hresume,
    hplan, ne_eq, not_true_eq_false, if_false, false_and, settle, if_pos htask]

/-- What `execute` does after the anchor, which may be `regenSummary`, never fails. -/
theorem exists_eval_regenSummary (anchorId : Str) (w : World) : ∃ result w', eval handler (do
      if params.anchor ∧ params.taskId ≠ [] then
        regenSummary json anchorId
      pure ⟨params.reply, anchorId, params.taskLog, params.taskId⟩ : SystemM CompleteResult) w
    = (.ok result, w') := by
  split_ifs
  · simp only [regenSummary, Program.eval_bind, eval_utcNow, Program.evalNext_ok,
      Program.eval_ignoreError]
    exact ⟨_, _, rfl⟩
  · exact ⟨_, _, rfl⟩

/-- For any other call, `ErrorKeeps` is `SettleAtomic`. -/
theorem errorKeeps_settle_iff (hresume : params.resumeTaskId = [])
    (hplan : ¬(params.planTodo ≠ [] ∧ params.taskId ≠ [])) :
    ErrorKeeps json params w ↔ SettleAtomic json params w := by
  by_cases htask : params.taskId = []
  -- Without a task nothing is done that can fail.
  · refine iff_of_true ?_ (.inl htask)
    have hrun : ∃ result w', eval handler (execute json params) w = (.ok result, w') := by
      simp only [execute, Program.eval_bind, eval_activate_of_nil w htask, Program.evalNext_ok,
        hresume, htask, ne_eq, not_true_eq_false, if_false, and_false, settle, anchorIfRequested]
      exact ⟨_, _, rfl⟩
    obtain ⟨result, w', hok⟩ := hrun
    exact errorKeeps_of_ok hok
  · have hnil : params.planTodo = [] := by
      by_contra hne; exact hplan ⟨hne, htask⟩
    have hrun := eval_execute_settle json w hresume hnil htask
    rw [SettleAtomic, or_iff_right htask]
    cases hrow : w.db.tasks.find? params.taskId with
    -- The transition finds no task, and fails before anything has changed.
    | none =>
      rw [activated_of_none hrow, TaskDb.eval_transitionStatus_of_none w _ hrow] at hrun
      rw [errorKeeps_iff_of_error hrun]
      exact iff_of_true ⟨fun _ => rfl, fun _ => rfl⟩ fun row h => by cases h
    | some row =>
      simp only [Option.some_inj, forall_eq']
      by_cases hfinished : row.status = .finished
      -- So does it for a task that is finished.
      · have hinvalid : (row.status, newStatus params) ∉ validTransitions := by
          rw [hfinished]; cases newStatus params <;> decide
        rw [activated_of_finished hrow hfinished,
          TaskDb.eval_transitionStatus_of_invalid w hrow hinvalid] at hrun
        rw [errorKeeps_iff_of_error hrun]
        exact iff_of_true ⟨fun _ => rfl, fun _ => rfl⟩ (.inl hfinished)
      -- Any other task is moved, and what can fail after that is creating the anchor.
      · obtain ⟨now, hactive⟩ := activated_became hrow hfinished
        have hvalid : (TaskStatus.active, newStatus params) ∈ validTransitions := by
          rw [newStatus]; split_ifs <;> decide
        rw [TaskDb.eval_transitionStatus_of_valid _ hactive.self hvalid, Program.evalNext_ok,
          Program.eval_bind] at hrun
        have hmoved := hactive.setStatus (newStatus params)
          ((activated params.taskId w).clock 0).isoSecond
        rw [or_iff_right hfinished, errorKeeps_iff_of_anchor hrun exists_eval_regenSummary htask
          hrow hmoved activated_anchors (activated_clock hrow 1), activated_clock hrow,
          Nat.add_comm 1, withStatus_withStatus_eq_iff, and_assoc, Nat.zero_add]

end

/-- **Atomicity of `logos_complete`**: a failing call leaves every row of both tables as it was
exactly in the states that `AtomicWhen` describes. -/
theorem errorKeeps_iff_atomicWhen (params : CompleteParams) (w : World) :
    ErrorKeeps json params w ↔ AtomicWhen json params w := by
  rw [AtomicWhen]
  split_ifs with hresume hplan
  · exact errorKeeps_resume_iff hresume
  · exact errorKeeps_plan_iff (not_not.mp hresume) hplan.1 hplan.2
  · exact errorKeeps_settle_iff (not_not.mp hresume) hplan

/-- A call on `t-1` that asks to resume a task that does not exist. -/
def resumeUnknown : CompleteParams where
  taskId := "t-1"
  summary := "switching"
  reply := []
  anchor := false
  anchorFacts := "[]"
  taskLog := []
  sleepReason := []
  sleepRetry := false
  resumeTaskId := "t-9"
  planTodo := []

/-- `resumeUnknown` fails, as the task to resume does not exist, and the current task is gone all
the same. -/
theorem not_errorKeeps_resumeUnknown : ¬ErrorKeeps JsonText.codec resumeUnknown onePending := by
  rw [errorKeeps_resume_iff (by decide)]
  rintro (hnil | hnone | ⟨-, row, hrow, -⟩)
  · exact absurd hnil (by decide)
  · exact absurd hnone (by decide)
  · have hunknown : onePending.db.tasks.find? resumeUnknown.resumeTaskId = none := by decide
    rw [hunknown] at hrow
    cases hrow

end Complete

end LogosFs.System
