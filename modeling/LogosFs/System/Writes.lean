import LogosFs.System.Module

/-! # Which rows a function writes

Few statements change rows of `tasks` or `anchors`: the others read, or feed an index. For every
function of the system module there is a list of the statements by which alone it may change rows
(`Writes`), whatever answers it gets on the way. What the module keeps intact, and what it leaves
untouched, is then a matter of looking at single statements. -/

namespace LogosFs.System

open Program

variable {json : JsonCodec} {α : Type}

/-- Whether a statement changes rows of `tasks` or `anchors`. -/
def Statement.changesRows : Statement → Bool
  | .insertTask _ | .deleteTask _ | .updateStatus .. | .updateDescription .. | .updatePlanTodo ..
  | .insertAnchor _ | .updateAnchorFacts .. => true
  | _ => false

/-- `exec` of a statement without `changesRows` leaves both tables alone. -/
theorem exec_of_not_changesRows {statement : Statement} (h : statement.changesRows = false)
    (fts : FtsEngine) (db : Db) :
    (exec fts statement db).2.tasks = db.tasks ∧ (exec fts statement db).2.anchors = db.anchors := by
  cases statement with
  | insertTask | deleteTask | updateStatus | updateDescription | updatePlanTodo | insertAnchor
  | updateAnchorFacts => cases h
  | insertTaskFts taskId =>
    obtain ⟨commands, hcommands⟩ := exec_insertTaskFts fts taskId db
    rw [hcommands]
    exact ⟨rfl, rfl⟩
  | deleteTaskFts taskId =>
    obtain ⟨commands, hcommands⟩ := exec_deleteTaskFts fts taskId db
    rw [hcommands]
    exact ⟨rfl, rfl⟩
  | _ => exact ⟨rfl, rfl⟩

/-- An operation that changes rows, if at all, by a statement in `W`. -/
def OnlyBy (W : Statement → Prop) : SystemOp → Prop
  | .now => True
  | .sql statement => statement.changesRows = true → W statement

/-- A program that changes rows by statements in `W` only. -/
abbrev Writes (W : Statement → Prop) (p : SystemM α) : Prop := p.run.AllOps (OnlyBy W)

variable {W W' : Statement → Prop}

/-- `OnlyBy W` is monotone in `W`. -/
theorem OnlyBy.mono {op : SystemOp} (h : OnlyBy W op) (hW : ∀ statement, W statement → W' statement) :
    OnlyBy W' op := by
  cases op with
  | now => trivial
  | sql statement => exact fun hchanges => hW statement (h hchanges)

/-- `Writes W` is monotone in `W`. -/
theorem Writes.mono {p : SystemM α} (h : Writes W p) (hW : ∀ statement, W statement → W' statement) :
    Writes W' p := AllOps.mono h fun _ hop => hop.mono hW

/-- `send` of a statement in `W` writes by statements in `W`. -/
theorem writes_send {context : Str} {statement : Statement} (h : W statement) :
    Writes W (send context statement) :=
  AllOps.bind ((allOps_perform _).mpr fun _ => h) fun _ => trivial

/-- `send` of a statement without `changesRows` writes nothing. -/
theorem writes_read {context : Str} {statement : Statement} (h : statement.changesRows = false) :
    Writes W (send context statement) :=
  AllOps.bind ((allOps_perform _).mpr fun hchanges => absurd (h.symm.trans hchanges) Bool.false_ne_true)
    fun _ => trivial

/-- `utcNow` changes no rows. -/
theorem writes_utcNow : Writes W utcNow := AllOps.lift ⟨trivial, fun _ => trivial⟩

/-! ## What runs of a program lead to -/

/-- What the two tables of a database show. -/
structure SameRows (db db' : Db) : Prop where
  /-- The tasks are the same. -/
  tasks : db'.tasks = db.tasks
  /-- The anchors are the same. -/
  anchors : db'.anchors = db.anchors

variable {R : Db → Db → Prop}

/-- An operation that changes rows by statements in `W` only leads where these lead. -/
theorem OnlyBy.related (hsame : ∀ {db db'}, SameRows db db' → R db db')
    (hW : ∀ statement, W statement → ∀ fts db, R db (exec fts statement db).2) {op : SystemOp}
    (hop : OnlyBy W op) (w : World) : R w.db (handler op w).2.db := by
  cases op with
  | now => exact hsame ⟨rfl, rfl⟩
  | sql statement =>
    cases hchanges : statement.changesRows with
    | true => exact hW statement (hop hchanges) w.fts w.db
    | false =>
      obtain ⟨htasks, hanchors⟩ := exec_of_not_changesRows hchanges w.fts w.db
      exact hsame ⟨htasks, hanchors⟩

/-- A program that changes rows by statements in `W` only leads where these lead, for a transitive
relation that the same rows are in. -/
theorem Writes.leads (hsame : ∀ {db db'}, SameRows db db' → R db db')
    (htrans : ∀ {db db' db''}, R db db' → R db' db'' → R db db'')
    (hW : ∀ statement, W statement → ∀ fts db, R db (exec fts statement db).2) {p : SystemM α}
    (h : Writes W p) : Leads handler (fun w w' : World => R w.db w'.db) p := by
  refine Leads.of_allOps handler ?_ ?_ ?_ h
  · exact fun w => hsame ⟨rfl, rfl⟩
  · exact fun hfirst hsecond => htrans hfirst hsecond
  · exact fun op w hop => OnlyBy.related hsame hW hop w

/-! ## The task table -/

/-- `TaskDb.get` changes no rows. -/
theorem writes_get (taskId : Str) : Writes W (TaskDb.get json taskId) :=
  AllOps.exceptBind (writes_read rfl) fun _ => trivial

/-- `TaskDb.list` changes no rows. -/
theorem writes_list (chatId status : Option Str) : Writes W (TaskDb.list json chatId status) :=
  AllOps.exceptBind (writes_read rfl) fun _ => trivial

/-- `insertTaskFts` changes the index only, and no rows. -/
theorem writes_insertTaskFts (taskId : Str) : Writes W (insertTaskFts taskId) :=
  AllOps.ignoreError (writes_read rfl)

/-- `TaskDb.create` changes rows by inserting the `newRow` that the JSON text describes. -/
theorem writes_create (content : Str) :
    Writes (fun statement => ∃ value now, json.fromStr content = .ok value ∧
      statement = .insertTask (TaskDb.newRow value now)) (TaskDb.create json content) := by
  rw [Writes, TaskDb.create, parseJson]
  cases hparse : json.fromStr content with
  | error e => trivial
  | ok value =>
    dsimp only
    rw [pure_bind]
    refine AllOps.exceptBind writes_utcNow fun now =>
      AllOps.exceptBind (writes_send ?_) fun _ => ?_
    · exact ⟨value, now, rfl, rfl⟩
    · split
      · exact writes_insertTaskFts _
      · trivial

/-- `TaskDb.delete` changes rows by one `deleteTask` of the task. -/
theorem writes_delete (taskId : Str) :
    Writes (fun statement => statement = .deleteTask taskId) (TaskDb.delete taskId) :=
  writes_send rfl

/-- `TaskDb.updateDescription` changes rows by one `updateDescription` of the task. -/
theorem writes_updateDescription (taskId description : Str) :
    Writes (fun statement => ∃ now, statement = .updateDescription taskId description now)
      (TaskDb.updateDescription taskId description) :=
  AllOps.exceptBind writes_utcNow fun _ => AllOps.exceptBind (writes_send ⟨_, rfl⟩) fun _ =>
    AllOps.exceptBind (AllOps.ignoreError (writes_read rfl)) fun _ => writes_insertTaskFts _

/-- `TaskDb.setPlanTodo` changes rows by one `updatePlanTodo` of the task. -/
theorem writes_setPlanTodo (taskId todoJson : Str) :
    Writes (fun statement => ∃ now, statement = .updatePlanTodo taskId todoJson now)
      (TaskDb.setPlanTodo taskId todoJson) :=
  AllOps.exceptBind writes_utcNow fun _ => writes_send ⟨_, rfl⟩

/-- `popPlanHead` changes rows by storing the JSON text of a list of strings as a plan. -/
theorem writes_popPlanHead (taskId : Str) :
    Writes (fun statement => ∃ todo now,
      statement = .updatePlanTodo taskId (json.toStr (.strings todo)) now)
      (TaskDb.popPlanHead json taskId) := by
  rw [Writes, TaskDb.popPlanHead]
  refine AllOps.exceptBind (writes_read rfl) fun todoStr => ?_
  cases todoStr with
  | none => trivial
  | some todoStr =>
    dsimp only
    split
    · trivial
    · exact AllOps.exceptBind writes_utcNow fun _ =>
        AllOps.exceptBind (writes_send ⟨_, _, rfl⟩) fun _ => trivial

/-- `transitionStatus` only writes a status that is in `validTransitions` after the one it read. -/
theorem writes_transitionStatus (taskId newStatus : Str) :
    Writes (fun statement => ∃ seen new now, (seen, new) ∈ validTransitions ∧
      statement = .updateStatus taskId seen new now) (TaskDb.transitionStatus taskId newStatus) := by
  rw [Writes, TaskDb.transitionStatus]
  refine AllOps.exceptBind (writes_read rfl) fun current => ?_
  cases current with
  | none => trivial
  | some current =>
    dsimp only
    split
    · trivial
    · rename_i seen new hfind
      exact AllOps.exceptBind writes_utcNow fun _ =>
        writes_send ⟨current, new, _, mem_validTransitions_of_find? hfind, rfl⟩

/-! ## The anchor table -/

/-- `AnchorDb.create` inserts an anchor for its task, and replaces facts. -/
theorem writes_createAnchor (taskId summary facts : Str) :
    Writes (fun statement => (∃ row, statement = .insertAnchor row ∧ row.taskId = taskId) ∨
      ∃ marked id text, statement = .updateAnchorFacts marked id text)
      (AnchorDb.create json taskId summary facts) := by
  rw [Writes, AnchorDb.create]
  refine AllOps.exceptBind writes_utcNow fun _ => AllOps.exceptBind writes_utcNow fun _ =>
    AllOps.exceptBind (AllOps.forM (fun targetUri => AllOps.ignoreError ?_) _) fun _ =>
    AllOps.exceptBind (writes_send (.inl ⟨_, rfl, rfl⟩)) fun _ =>
    AllOps.exceptBind (writes_read rfl) fun rowid => ?_
  · rw [AnchorDb.markSuperseded]
    split
    · trivial
    · refine AllOps.exceptBind (writes_read rfl) fun row => ?_
      cases row with
      | none => trivial
      | some row => exact writes_send (.inr ⟨_, _, _, rfl⟩)
  · cases rowid with
    | none => trivial
    | some rowid => exact AllOps.exceptBind (writes_read rfl) fun _ => trivial

/-! ## The namespace -/

/-- The statements by which the namespace changes rows: the content becomes a task, or a task that is
described gets a description. -/
def ByNamespace (json : JsonCodec) (described : Str → Prop) (content : Str) (statement : Statement) :
    Prop :=
  (∃ value now, json.fromStr content = .ok value ∧
      statement = .insertTask (TaskDb.newRow value now)) ∨
    ∃ taskId text now, described taskId ∧ statement = .updateDescription taskId text now

/-- The task whose description a write to a path replaces. -/
def DescribedByWrite (path : List Str) (taskId : Str) : Prop :=
  ∃ rest, path = "tasks".toList :: taskId :: "description".toList :: rest

/-- A patch that leaves a task with a description: an object whose member `description`, if it has
one, is a text. -/
def LeavesDescription (json : JsonCodec) (partialText : Str) : Prop :=
  ∃ fields, json.fromStr partialText = .ok (.object fields) ∧
    ∀ value ∈ Json.lookup "description" fields, value.asStr ≠ none

/-- The task whose description a patch of a path may replace. -/
def DescribedByPatch (json : JsonCodec) (path : List Str) (partialText taskId : Str) : Prop :=
  DescribedByWrite path taskId ∨
    path = ["tasks".toList, taskId] ∧ LeavesDescription json partialText

/-- `SystemModule.write` changes rows by inserting its content or by describing the task of its
path. -/
theorem writes_write (path : List Str) (content : Str) :
    Writes (ByNamespace json (DescribedByWrite path) content)
      (SystemModule.write json path content) := by
  have hcreate : Writes (ByNamespace json (DescribedByWrite path) content)
      (TaskDb.create json content) := (writes_create content).mono fun _ => .inl
  unfold Writes SystemModule.write
  rcases path with _ | ⟨resource, rest⟩
  · trivial
  · dsimp only
    split
    · rename_i hresource
      rcases rest with _ | ⟨taskId, _ | ⟨field, rest⟩⟩
      · exact hcreate
      · exact hcreate
      · dsimp only
        split
        · rename_i hfield
          refine (writes_updateDescription taskId content).mono fun _ h => .inr ?_
          obtain ⟨now, rfl⟩ := h
          exact ⟨taskId, content, now, ⟨rest, by rw [hresource, hfield]⟩, rfl⟩
        · exact hcreate
    · trivial

/-- `SystemModule.read` changes no rows. -/
theorem writes_readNamespace (path : List Str) : Writes W (SystemModule.read json path) := by
  unfold Writes SystemModule.read
  rcases path with _ | ⟨resource, rest⟩
  · trivial
  · dsimp only
    split_ifs
    · rcases rest with _ | ⟨taskId, rest⟩
      · exact writes_list _ _
      · exact AllOps.exceptBind (writes_get _) fun _ => trivial
    · rcases rest with _ | ⟨taskId, _ | ⟨anchorId, rest⟩⟩
      · trivial
      · exact AllOps.exceptBind (writes_read rfl) fun _ => trivial
      · exact AllOps.exceptBind (AllOps.exceptBind (writes_read rfl) fun _ => trivial)
          fun _ => trivial
    · trivial

/-- A patch whose `deepMerge` leaves a text as the description `LeavesDescription`. -/
theorem leavesDescription_of_merge {base patch : Json} {partialText description : Str}
    (hpatch : json.fromStr partialText = .ok patch)
    (h : ((Json.deepMerge base patch).get "description").asStr = some description) :
    LeavesDescription json partialText := by
  cases patch with
  | object fields =>
    refine ⟨fields, hpatch, fun value hvalue => ?_⟩
    have hsorted := json.fromStr_sorted hpatch
    rw [Option.mem_def] at hvalue
    cases base with
    | object baseFields =>
      have hmerged := Json.asStr_lookup_mergeFields "description" hsorted baseFields
      rw [hvalue] at hmerged
      rw [Json.deepMerge, Json.asStr_get] at h
      exact fun hnone => absurd (h.symm.trans (hmerged.trans hnone)) (by simp)
    | _ =>
      simp only [Json.deepMerge, Json.asStr_get, Json.get?] at h
      rw [hvalue] at h
      exact fun hnone => absurd (h.symm.trans hnone) (by simp)
  | _ => simp [Json.deepMerge, Json.get, Json.get?, Json.asStr] at h

/-- `SystemModule.patch` changes rows by inserting its content or by describing the task it leaves
described. -/
theorem writes_patch (path : List Str) (partialText : Str) :
    Writes (ByNamespace json (DescribedByPatch json path partialText) partialText)
      (SystemModule.patch json path partialText) := by
  have hwrite : ∀ path', path' = path →
      Writes (ByNamespace json (DescribedByPatch json path partialText) partialText)
        (SystemModule.write json path' partialText) := by
    intro path' hpath
    rw [hpath]
    refine (writes_write path partialText).mono fun _ => Or.imp_right ?_
    rintro ⟨taskId, text, now, hdescribed, h⟩
    exact ⟨taskId, text, now, .inl hdescribed, h⟩
  unfold Writes SystemModule.patch
  split
  · rename_i resource taskId
    split
    · rename_i hresource
      refine AllOps.exceptBind (writes_readNamespace _) fun existing => ?_
      split
      · rename_i base patch _ hpatch
        rw [SystemModule.applyPatch]
        split
        · rename_i description hdescription
          refine (writes_updateDescription _ _).mono fun _ h => .inr ?_
          obtain ⟨now, rfl⟩ := h
          exact ⟨taskId, _, now, .inr ⟨by rw [hresource],
            leavesDescription_of_merge hpatch hdescription⟩, rfl⟩
        · trivial
      · exact hwrite _ rfl
    · exact hwrite _ rfl
  · exact hwrite _ rfl

end LogosFs.System
