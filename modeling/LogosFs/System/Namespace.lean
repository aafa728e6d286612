import Mathlib.Data.List.Forall2
import LogosFs.System.Writes

/-! # Direct writes

A write or a patch of the namespace `logos://system/` sends at most one statement that changes rows:
it replaces the description of the task named in the path, or inserts a new task, which is pending.
So the status of a task only moves through the functions of `TaskDb` that the namespace does not
reach. -/

namespace LogosFs.System

open Program (eval Leads)

variable {json : JsonCodec}

/-- The task that a path names: its second piece, under `tasks`. -/
def NamedByPath (path : List Str) (taskId : Str) : Prop :=
  ∃ rest, path = "tasks".toList :: taskId :: rest

/-- What a direct write does to the two tables: nothing, or it describes one of the tasks that may be
described, or it creates a pending task. -/
inductive DirectWrite (described : Str → Prop) (db db' : Db) : Prop
  /-- No row changes. -/
  | nothing (same : SameRows db db')
  /-- A task gets another description. -/
  | describes (taskId text now : Str) (named : described taskId)
    (tasks : db'.tasks = db.tasks.setDescription taskId text now) (anchors : db'.anchors = db.anchors)
  /-- A task is created. -/
  | creates (row : TaskRow) (pending : row.status = .pending)
    (tasks : db.tasks.insert? row = some db'.tasks) (anchors : db'.anchors = db.anchors)

namespace DirectWrite

variable {described described' : Str → Prop} {db db' db'' : Db}

/-- `DirectWrite` is monotone in the tasks that are `described`. -/
theorem mono (h : DirectWrite described db db') (hd : ∀ id, described id → described' id) :
    DirectWrite described' db db' := by
  cases h with
  | nothing same => exact .nothing same
  | describes taskId text now named tasks anchors =>
    exact .describes taskId text now (hd taskId named) tasks anchors
  | creates row pending tasks anchors => exact .creates row pending tasks anchors

/-- `DirectWrite` may come after what leaves the `SameRows`. -/
theorem after (hsame : SameRows db db') (h : DirectWrite described db' db'') :
    DirectWrite described db db'' := by
  cases h with
  | nothing same => exact .nothing ⟨same.tasks.trans hsame.tasks, same.anchors.trans hsame.anchors⟩
  | describes taskId text now named tasks anchors =>
    exact .describes taskId text now named (by rw [tasks, hsame.tasks])
      (anchors.trans hsame.anchors)
  | creates row pending tasks anchors =>
    exact .creates row pending (by rw [← hsame.tasks, tasks]) (anchors.trans hsame.anchors)

end DirectWrite

/-! ## The functions a direct write ends in -/

section Runs

variable (w : World)

/-- `TaskDb.updateDescription`, sent alone, replaces the description and leaves the other tables
alone. -/
theorem eval_updateDescription_task (taskId description : Str) :
    ∃ w', eval handler (TaskDb.updateDescription taskId description) w = (.ok (), w') ∧
      (w.tick.withTasks (w.db.tasks.setDescription taskId description
        (w.clock 0).isoSecond)).SameTables w' := by
  obtain ⟨w₁, hdelete, hsame₁⟩ := eval_deleteTaskFts
    (w.tick.withTasks (w.db.tasks.setDescription taskId description (w.clock 0).isoSecond)) taskId
  obtain ⟨w₂, hinsert, hsame₂⟩ := eval_insertTaskFts w₁ taskId
  refine ⟨w₂, ?_, hsame₁.trans hsame₂⟩
  simp only [TaskDb.updateDescription, Program.eval_bind, eval_utcNow, Program.evalNext_ok,
    eval_updateDescription, World.tick_db, hdelete, hinsert]

variable (json) in
/-- `TaskDb.create`, sent alone: the text is not JSON, or the name is taken, or the row is there. -/
theorem eval_create_task (content : Str) :
    (∃ e w', eval handler (TaskDb.create json content) w = (.error e, w') ∧ SameRows w.db w'.db) ∨
      ∃ value tasks w', json.fromStr content = .ok value ∧
        w.db.tasks.insert? (TaskDb.newRow value (w.clock 0)) = some tasks ∧
        eval handler (TaskDb.create json content) w = (.ok (), w') ∧
        (w.tick.withTasks tasks).SameTables w' := by
  rw [TaskDb.create, parseJson]
  cases hparse : json.fromStr content with
  | error e => exact .inl ⟨_, w, rfl, rfl, rfl⟩
  | ok value =>
    dsimp only
    rw [pure_bind]
    cases hinsert : w.db.tasks.insert? (TaskDb.newRow value (w.clock 0)) with
    | none =>
      refine .inl ⟨.sqlite ("insert task: " ++ conflict "tasks.task_id"), w.tick, ?_, rfl, rfl⟩
      simp only [Program.eval_bind, eval_utcNow, Program.evalNext_ok, eval_insertTask,
        World.tick_db, hinsert, Program.evalNext_error]
    | some tasks =>
      have hrun : eval handler (insertTask (TaskDb.newRow value (w.clock 0))) w.tick
          = (.ok (), w.tick.withTasks tasks) := by
        rw [eval_insertTask, World.tick_db, hinsert]
      simp only [Program.eval_bind, eval_utcNow, Program.evalNext_ok, hrun]
      split
      · obtain ⟨w', hfts, hsame⟩ := eval_insertTaskFts (w.tick.withTasks tasks)
          (TaskDb.newRow value (w.clock 0)).taskId
        exact .inr ⟨value, tasks, w', rfl, hinsert, hfts, hsame⟩
      · exact .inr ⟨value, tasks, _, rfl, hinsert, rfl, World.SameTables.refl _⟩

variable {w} {described : Str → Prop}

/-- `updateDescription` of a task that is `described` is a `DirectWrite`. -/
theorem directWrite_updateDescription {taskId : Str} (hdescribed : described taskId)
    (description : Str) : DirectWrite described w.db
      (eval handler (TaskDb.updateDescription taskId description) w).2.db := by
  obtain ⟨w', hrun, hsame⟩ := eval_updateDescription_task w taskId description
  rw [hrun]
  exact .describes taskId description _ hdescribed hsame.tasks hsame.anchors

/-- `create` is a `DirectWrite`, whatever task is described. -/
theorem directWrite_create (content : Str) :
    DirectWrite described w.db (eval handler (TaskDb.create json content) w).2.db := by
  rcases eval_create_task json w content with
    ⟨e, w', hrun, hsame⟩ | ⟨value, tasks, w', -, hinsert, hrun, hsame⟩
  · rw [hrun]
    exact .nothing hsame
  · rw [hrun]
    refine .creates (TaskDb.newRow value (w.clock 0)) rfl ?_ hsame.anchors
    rw [hinsert]
    exact congrArg some hsame.tasks.symm

end Runs

/-! ## Writes and patches -/

variable {w : World}

/-- A write is a `DirectWrite` of the task that its path names. -/
theorem directWrite_write (path : List Str) (content : Str) :
    DirectWrite (NamedByPath path) w.db
      (eval handler (SystemModule.write json path content) w).2.db := by
  unfold SystemModule.write
  rcases path with _ | ⟨resource, rest⟩
  · exact .nothing ⟨rfl, rfl⟩
  · dsimp only
    split
    · rename_i hresource
      -- a longer path is a description only when its third piece says so
      rcases rest with _ | ⟨taskId, _ | ⟨field, rest⟩⟩
      · exact directWrite_create content
      · exact directWrite_create content
      · dsimp only
        split
        · exact directWrite_updateDescription ⟨field :: rest, by rw [hresource]⟩ content
        · exact directWrite_create content
    · exact .nothing ⟨rfl, rfl⟩

/-- `SystemModule.read` leaves the `SameRows`. -/
theorem sameRows_read (path : List Str) :
    SameRows w.db (eval handler (SystemModule.read json path) w).2.db := by
  have hleads : Leads handler (fun w w' : World => SameRows w.db w'.db)
      (SystemModule.read json path) := by
    refine Writes.leads (W := fun _ => False) id ?_ ?_ (writes_readNamespace path)
    · intro db db' db'' h h'
      exact ⟨h'.tasks.trans h.tasks, h'.anchors.trans h.anchors⟩
    · intro statement hfalse
      exact hfalse.elim
  exact hleads w

/-- A patch is a `DirectWrite` of the task that its path names. -/
theorem directWrite_patch (path : List Str) (partialText : Str) :
    DirectWrite (NamedByPath path) w.db
      (eval handler (SystemModule.patch json path partialText) w).2.db := by
  have hwrite : ∀ path' w', path' = path → DirectWrite (NamedByPath path) w'.db
      (eval handler (SystemModule.write json path' partialText) w').2.db := by
    intro path' w' hpath
    rw [hpath]
    exact directWrite_write path partialText
  unfold SystemModule.patch
  split
  · rename_i resource taskId
    split
    · rename_i hresource
      have hread : SameRows w.db (eval handler (SystemModule.read json [resource, taskId]) w).2.db :=
        sameRows_read _
      rw [Program.eval_bind]
      rcases hrun : eval handler (SystemModule.read json [resource, taskId]) w
        with ⟨_ | existing, w'⟩ <;> rw [hrun] at hread
      · exact .nothing hread
      · rw [Program.evalNext_ok]
        refine DirectWrite.after hread ?_
        split
        · rw [SystemModule.applyPatch]
          split
          · exact directWrite_updateDescription ⟨[], by rw [hresource]⟩ _
          · exact .nothing ⟨rfl, rfl⟩
        · exact hwrite _ w' rfl
    · exact hwrite _ w rfl
  · exact hwrite _ w rfl

/-! ## What direct writes keep -/

/-- A row before and after a direct write: at most the description and the time of the last update
differ, and these only for the task the path names. -/
structure RowKept (path : List Str) (row row' : TaskRow) : Prop where
  /-- Everything but the description and the time of the last update is the same. -/
  same : row' = { row with description := row'.description, updatedAt := row'.updatedAt }
  /-- A task the path does not name is as it was. -/
  others : ¬NamedByPath path row.taskId → row' = row

/-- A row that did not change is `RowKept`. -/
theorem RowKept.refl (path : List Str) (row : TaskRow) : RowKept path row row := ⟨rfl, fun _ => rfl⟩

/-- What a direct write to a path keeps: the rows of the tasks that there were, in their order, and
all anchors; there may be one more task, which is pending. -/
structure StateMachineKept (path : List Str) (db db' : Db) : Prop where
  /-- The tasks that there were, and at most one more. -/
  tasks : ∃ kept new : List TaskRow, db'.tasks.contents = kept ++ new ∧
    List.Forall₂ (RowKept path) db.tasks.contents kept ∧ new.length ≤ 1 ∧
      ∀ row ∈ new, row.status = .pending
  /-- The anchors are the same. -/
  anchors : db'.anchors = db.anchors

/-- A `DirectWrite` moves no status: `StateMachineKept`. -/
theorem DirectWrite.stateMachineKept {path : List Str} {db db' : Db}
    (h : DirectWrite (NamedByPath path) db db') : StateMachineKept path db db' := by
  cases h with
  | nothing same =>
    refine ⟨⟨db.tasks.contents, [], ?_, ?_, Nat.zero_le 1, fun _ h => nomatch h⟩, same.anchors⟩
    · rw [same.tasks, List.append_nil]
    · exact List.forall₂_same.mpr fun row _ => RowKept.refl path row
  | describes taskId text now named tasks anchors =>
    refine ⟨⟨db'.tasks.contents, [], (List.append_nil _).symm, ?_, Nat.zero_le 1,
      fun _ h => nomatch h⟩, anchors⟩
    rw [tasks, Tasks.contents_setDescription, List.forall₂_map_right_iff, List.forall₂_same]
    intro row _
    by_cases hrow : row.taskId = taskId
    · rw [if_pos hrow]
      exact ⟨rfl, fun hother => absurd (hrow ▸ named) hother⟩
    · rw [if_neg hrow]
      exact RowKept.refl path row
  | creates row pending tasks anchors =>
    refine ⟨⟨db.tasks.contents, [row], (Table.insert?_eq_some tasks).2, ?_, Nat.le_refl 1, ?_⟩,
      anchors⟩
    · exact List.forall₂_same.mpr fun row _ => RowKept.refl path row
    · intro row' hrow'
      rw [List.mem_singleton.mp hrow', pending]

variable (json w)

/-- **Direct writes never move the state machine**: whatever a `write` or a `patch` of the namespace
answers, the tasks that there were keep everything but their description, which changes for the task
named in the path only, the anchors stay as they are, and at most one task is added, which is
pending. -/
theorem stateMachineKept_of_direct (path : List Str) (content : Str) :
    StateMachineKept path w.db (eval handler (SystemModule.write json path content) w).2.db ∧
      StateMachineKept path w.db (eval handler (SystemModule.patch json path content) w).2.db :=
  ⟨(directWrite_write path content).stateMachineKept,
    (directWrite_patch path content).stateMachineKept⟩

end LogosFs.System
