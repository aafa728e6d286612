import LogosFs.System.Index

/-! # Pending tasks and what agents see

An agent reads the list of tasks, reads a task by its id, or searches. The list and the search leave
the pending tasks out; a read by id does not. `sameShown_iff` compares two databases that differ in
pending tasks only (`DiffersInPending`): it says for which queries their answers show the same tasks
(`SameShown`), whatever order the full-text engine ranks its finds in. The rank of a find depends on
the whole index, so a search that finds more than the fifty tasks it shows is the other one that tells
the databases apart. -/

namespace LogosFs.System

open Program (eval)
open FullText (Posting Matches)

/-! ## Rows as JSON -/

section Rows

variable (json : JsonCodec)

/-- What a plan shows as: the value of its text, or the empty list where it is not JSON. -/
def shownPlan (planTodo : Str) : Json := (json.fromStr planTodo).toOption.getD (.array [])

/-- Two rows agree in every column, except that their plans may be two spellings of one value. -/
structure SameButSpelling (row row' : TaskRow) : Prop where
  /-- The columns besides `plan_todo` are the same. -/
  columns : row' = { row with planTodo := row'.planTodo }
  /-- The plans show as the same value. -/
  plan : shownPlan json row'.planTodo = shownPlan json row.planTodo

variable {json}

/-- Two rows read the same exactly if they are `SameButSpelling`. -/
theorem taskRowToJson_eq_iff {row row' : TaskRow} :
    taskRowToJson json row' = taskRowToJson json row ↔ SameButSpelling json row row' := by
  constructor
  · intro h
    have hmember : ∀ key, (taskRowToJson json row').get? key = (taskRowToJson json row).get? key :=
      fun key => by rw [h]
    have htext : ∀ {text text' : Str}, some (Json.string text') = some (.string text) → text' = text :=
      fun hsome => Json.string.inj (Option.some.inj hsome)
    simp only [taskRowToJson, Json.get?_ofPairs] at hmember
    have hplan : some (shownPlan json row'.planTodo) = some (shownPlan json row.planTodo) :=
      hmember "plan_todo"
    refine ⟨?_, Option.some.inj hplan⟩
    obtain ⟨taskId, description, workspace, resource, status, chatId, trigger, planTodo, planParent,
      createdAt, updatedAt⟩ := row'
    simp only [TaskRow.mk.injEq, true_and]
    exact ⟨htext (hmember "task_id"), htext (hmember "description"), htext (hmember "workspace"),
      htext (hmember "resource"), TaskStatus.text_inj.mp (htext (hmember "status")),
      htext (hmember "chat_id"), htext (hmember "trigger"), htext (hmember "plan_parent"),
      htext (hmember "created_at"), htext (hmember "updated_at")⟩
  · rintro ⟨hcolumns, hplan⟩
    rw [shownPlan, shownPlan] at hplan
    rw [taskRowToJson, taskRowToJson, hplan, hcolumns]

end Rows

/-! ## Queries -/

/-- A query on tasks. -/
inductive TaskQuery where
  /-- Read `system/tasks`. -/
  | list
  /-- Read `system/tasks/{id}`. -/
  | get (taskId : Str)
  /-- Search with a limit. -/
  | search (query : Str) (limit : Int)

/-- The limit that a search keeps to. -/
def Search.clamp (limit : Int) : Nat := (max 1 (min limit 50)).toNat

namespace TaskQuery

variable (json : JsonCodec)

/-- What the system module does for a query. -/
def program : TaskQuery → SystemM Str
  | .list => SystemModule.read json ["tasks"]
  | .get taskId => SystemModule.read json ["tasks", taskId]
  | .search query limit => SystemModule.searchTasks json query limit

/-- The tasks that the answer to a query shows. -/
def shown (w : World) : TaskQuery → List Json
  | .list => ((w.db.tasks.contents.filter fun row => row.status ≠ .pending).mergeSort
      fun row row' => row'.createdAt ≤ row.createdAt).map (taskRowToJson json)
  | .get taskId => ((w.db.tasks.find? taskId).map (taskRowToJson json)).toList
  | .search query limit => ((taskHits w query).take (Search.clamp limit)).map Search.taskHit

/-- The text that shows these tasks. A search shows anchors in front of them. -/
def text (w : World) (q : TaskQuery) (tasks : List Json) : Str :=
  match q with
  | .list => json.toStr (.ofPairs [("tasks", .array tasks)])
  | .get _ => (tasks.head?.map json.toStr).getD "null"
  | .search query limit => json.toStr (.ofPairs [
      ("l1_hits", .array (((anchorHits w query).take (Search.clamp limit)).map Search.anchorHit)),
      ("l2_hits", .array tasks)])

/-- A query answers with the `text` of the tasks that it has `shown`, and changes nothing. -/
theorem eval_program (q : TaskQuery) (w : World) :
    eval handler (q.program json) w = (.ok (q.text json w (q.shown json w)), w) := by
  cases q with
  | list =>
    have hrows : eval handler (listTasks none none) w = (.ok
        ((w.db.tasks.contents.filter fun row => row.status ≠ .pending ∧
          (∀ chat ∈ (none : Option Str), row.chatId = chat) ∧
            ∀ text ∈ (none : Option Str), row.status.text = text).mergeSort
          fun row row' => row'.createdAt ≤ row.createdAt), w) := eval_send ..
    change eval handler (TaskDb.list json none none) w = _
    rw [TaskDb.list, Program.eval_bind, hrows]
    simp only [Option.mem_def, reduceCtorEq, false_implies, implies_true, and_true]
    rfl
  | get taskId =>
    change eval handler (do return (← TaskDb.get json taskId).getD "null") w = _
    rw [Program.eval_bind, TaskDb.eval_get, Program.evalNext_ok, text, shown]
    cases w.db.tasks.find? taskId <;> rfl
  | search query limit =>
    have hanchors : eval handler (searchAnchors (Search.phrase query) (Search.clamp limit)) w
        = (.ok ((anchorHits w query).take (Search.clamp limit)), w) := eval_send ..
    have htasks : eval handler (searchTasks (Search.phrase query) (Search.clamp limit)) w
        = (.ok ((taskHits w query).take (Search.clamp limit)), w) := eval_send ..
    change eval handler (Search.searchTasks json query limit) w = _
    rw [Search.searchTasks, Program.eval_bind, ← Search.clamp, hanchors, Program.evalNext_ok,
      Program.eval_bind, htasks]
    rfl

end TaskQuery

/-! ## Databases that differ in pending tasks -/

variable {Token : Type} [DecidableEq Token] (tokens : Str → List Token)

/-- Two databases differ at most in pending tasks and in what the index of tasks holds for them. -/
structure DiffersInPending (db db' : Db) : Prop where
  /-- The tasks that are not pending are the same. -/
  tasks : ∀ n row, row.status ≠ .pending → ((n, row) ∈ db.tasks.rows ↔ (n, row) ∈ db'.tasks.rows)
  /-- The index holds the same postings for them. -/
  held : ∀ n row, (n, row) ∈ db.tasks.rows → row.status ≠ .pending → ∀ p,
    p ∈ heldBy tokens db.tasksFts n ↔ p ∈ heldBy tokens db'.tasksFts n
  /-- The anchors are the same. -/
  anchors : db'.anchors = db.anchors
  /-- The index of anchors is the same. -/
  anchorsFts : db'.anchorsFts = db.anchorsFts

/-- A full-text engine finds each match once, a removal that failed having removed nothing. The order
of its finds is its own matter. -/
structure RanksOnce (fts : FtsEngine) : Prop where
  /-- The engine finds what matches. -/
  finds : ∀ commands query n, n ∈ fts commands (Search.phrase query) ↔
    Matches (heldBy tokens commands n) (tokens query)
  /-- No row number is found twice. -/
  once : ∀ commands phrase, (fts commands phrase).Nodup

/-- The tasks that match a query and are not pending, in the order of the table. -/
def matching (db : Db) (query : Str) : List TaskRow :=
  (db.tasks.rows.filter fun entry => entry.2.status ≠ .pending ∧
    Matches (heldBy tokens db.tasksFts entry.1) (tokens query)).map Prod.snd

section Finds

variable {tokens} {db db' : Db} {query : Str} {row : TaskRow}

/-- What it is for a task to be one of `matching`, row number included. -/
theorem mem_matching : row ∈ matching tokens db query ↔ row.status ≠ .pending ∧
    ∃ n, (n, row) ∈ db.tasks.rows ∧ Matches (heldBy tokens db.tasksFts n) (tokens query) := by
  simp only [matching, List.mem_map, List.mem_filter, decide_eq_true_iff, Prod.exists,
    exists_eq_right]
  constructor
  · rintro ⟨n, hrow, hstatus, hmatches⟩
    exact ⟨hstatus, n, hrow, hmatches⟩
  · rintro ⟨hstatus, n, hrow, hmatches⟩
    exact ⟨n, hrow, hstatus, hmatches⟩

/-- The tasks in `matching` are listed once each, since their keys differ. -/
theorem nodup_matching : (matching tokens db query).Nodup := by
  have hcontents : db.tasks.contents.Nodup := List.Nodup.of_map _ db.tasks.contents_keys_nodup
  exact hcontents.sublist (List.filter_sublist.map Prod.snd)

/-- `DiffersInPending` is symmetric. -/
theorem DiffersInPending.symm (h : DiffersInPending tokens db db') :
    DiffersInPending tokens db' db := by
  refine ⟨fun n row hstatus => (h.tasks n row hstatus).symm, fun n row hrow hstatus p => ?_,
    h.anchors.symm, h.anchorsFts.symm⟩
  exact (h.held n row ((h.tasks n row hstatus).mpr hrow) hstatus p).symm

/-- Under `DiffersInPending` the two databases have the same tasks `matching` a query. -/
theorem DiffersInPending.mem_matching_iff (h : DiffersInPending tokens db db') :
    row ∈ matching tokens db query ↔ row ∈ matching tokens db' query := by
  rw [mem_matching, mem_matching]
  refine and_congr_right fun hstatus => exists_congr fun n => ?_
  rw [← h.tasks n row hstatus]
  refine and_congr_right fun hrow => ?_
  exact FullText.matches_congr (h.held n row hrow hstatus) (tokens query)

/-- Under `DiffersInPending` as many tasks match in the one database as in the other. -/
theorem DiffersInPending.length_matching (h : DiffersInPending tokens db db') :
    (matching tokens db' query).length = (matching tokens db query).length :=
  ((List.perm_ext_iff_of_nodup nodup_matching nodup_matching).mpr fun _ =>
    h.symm.mem_matching_iff).length_eq

variable {w : World}

/-- A search finds the tasks of `matching`. -/
theorem mem_taskHits (hfts : RanksOnce tokens w.fts) :
    row ∈ taskHits w query ↔ row ∈ matching tokens w.db query := by
  simp only [taskHits, mem_matching, List.mem_filter, List.mem_filterMap, rowOf_eq_some_iff,
    decide_eq_true_iff, hfts.finds]
  rw [and_comm]
  exact and_congr_right fun _ => exists_congr fun _ => and_comm

/-- `taskHits` are the tasks in `matching`, each once, in some order. -/
theorem taskHits_perm (hfts : RanksOnce tokens w.fts) :
    (taskHits w query).Perm (matching tokens w.db query) := by
  refine (List.perm_ext_iff_of_nodup ?_ nodup_matching).mpr fun row =>
    mem_taskHits hfts
  refine List.Nodup.filter _ ((hfts.once ..).filterMap fun n m row hn hm => ?_)
  have hrowid := Table.rowid?_of_mem (rowOf_eq_some_iff.mp hn)
  rw [Table.rowid?_of_mem (rowOf_eq_some_iff.mp hm), Option.some_inj] at hrowid
  exact hrowid.symm

end Finds

/-! ## Engines that rank in different orders -/

/-- Put one number last. -/
def demote (n : Nat) (found : List Nat) : List Nat :=
  if n ∈ found then found.erase n ++ [n] else found

/-- An engine that puts one number last for one index. -/
def demoting (n : Nat) (index : List FtsCommand) : FtsEngine where
  find commands phrase :=
    if commands = index then demote n (unranked tokens commands phrase)
    else unranked tokens commands phrase
  accepts := (unranked tokens).accepts

/-- What `demote` changes is the order. -/
theorem demote_perm (n : Nat) (found : List Nat) : (demote n found).Perm found := by
  unfold demote
  split
  · rename_i hmem
    exact List.perm_append_comm.trans (List.perm_cons_erase hmem).symm
  · exact .refl _

variable {tokens}

/-- The engine `unranked` finds each match once. -/
theorem ranksOnce_unranked : RanksOnce tokens (unranked tokens) :=
  ⟨fun _ _ _ => mem_unranked, fun _ _ => (List.nodup_dedup _).filter _⟩

/-- The engine `demoting` finds each match once: the order of the finds is free. -/
theorem ranksOnce_demoting (n : Nat) (index : List FtsCommand) :
    RanksOnce tokens (demoting tokens n index) := by
  have hperm : ∀ commands phrase,
      (demoting tokens n index commands phrase).Perm (unranked tokens commands phrase) := by
    intro commands phrase
    simp only [demoting]
    split
    · exact demote_perm ..
    · exact .refl _
  refine ⟨fun commands query m => ?_, fun commands phrase => ?_⟩
  · rw [(hperm ..).mem_iff]
    exact ranksOnce_unranked.finds commands query m
  · exact (hperm ..).nodup_iff.mpr (ranksOnce_unranked.once commands phrase)

/-! ## What tells the databases apart -/

/-- The answers to a query show the same tasks. -/
structure SameShown (json : JsonCodec) (q : TaskQuery) (w w' : World) : Prop where
  /-- The one world answers with the text of the tasks that it shows. -/
  answer : eval handler (q.program json) w = (.ok (q.text json w (q.shown json w)), w)
  /-- So does the other one. -/
  answer' : eval handler (q.program json) w' = (.ok (q.text json w' (q.shown json w')), w')
  /-- The tasks that they show are the same. -/
  same : ∀ task, task ∈ q.shown json w ↔ task ∈ q.shown json w'

/-- Two worlds answer by `TaskQuery.eval_program`, so `SameShown` is about the tasks they show. -/
theorem sameShown_of_mem_iff {json : JsonCodec} {q : TaskQuery} {w w' : World}
    (h : ∀ task, task ∈ q.shown json w ↔ task ∈ q.shown json w') : SameShown json q w w' :=
  ⟨q.eval_program json w, q.eval_program json w', h⟩

namespace TaskQuery

variable (tokens) in
/-- The limit of a search is not below the number of tasks that match. -/
def Covers (db : Db) : TaskQuery → Prop
  | .search query limit => ((matching tokens db query).length : Int) ≤ limit
  | _ => True

variable (tokens) in
/-- A query does not look at what only pending tasks tell apart: a read by id is not of a pending
task, unless both databases have a row for the id and these are `SameButSpelling`; and a search finds
as many tasks as it can show at most, unless the index is the same in both. -/
def HidesPending (json : JsonCodec) (db db' : Db) : TaskQuery → Prop
  | .list => True
  | .get taskId => (∀ row, db.tasks.find? taskId = some row ∨ db'.tasks.find? taskId = some row →
      row.status ≠ .pending) ∨
    ∃ row row', db.tasks.find? taskId = some row ∧ db'.tasks.find? taskId = some row' ∧
      SameButSpelling json row row'
  | .search query _ => (matching tokens db query).length ≤ 50 ∨ db'.tasksFts = db.tasksFts

end TaskQuery

section Compare

variable {json : JsonCodec} {db db' : Db} {clock : Nat → DateTime}

/-- What `list` has `shown` are the tasks that are not pending. -/
theorem mem_shown_list {task : Json} {w : World} : task ∈ TaskQuery.list.shown json w ↔
    ∃ n row, (n, row) ∈ w.db.tasks.rows ∧ row.status ≠ .pending ∧ taskRowToJson json row = task := by
  simp only [TaskQuery.shown, List.mem_map, List.mem_mergeSort, List.mem_filter, decide_eq_true_iff,
    Table.mem_contents_iff]
  constructor
  · rintro ⟨row, ⟨⟨n, hrow⟩, hstatus⟩, htask⟩
    exact ⟨n, row, hrow, hstatus, htask⟩
  · rintro ⟨n, row, hrow, hstatus, htask⟩
    exact ⟨row, ⟨⟨n, hrow⟩, hstatus⟩, htask⟩

/-- Under `DiffersInPending` a task that is not pending in either database is the same in both. -/
theorem DiffersInPending.find?_eq (h : DiffersInPending tokens db db') {taskId : Str}
    (hvisible : ∀ row, db.tasks.find? taskId = some row ∨ db'.tasks.find? taskId = some row →
      row.status ≠ .pending) : db.tasks.find? taskId = db'.tasks.find? taskId := by
  refine Option.ext fun row => ?_
  simp only [Table.find?_eq_some_iff, Table.mem_contents_iff] at hvisible ⊢
  constructor
  · rintro ⟨⟨n, hrow⟩, hkey⟩
    exact ⟨⟨n, (h.tasks n row (hvisible row (.inl ⟨⟨n, hrow⟩, hkey⟩))).mp hrow⟩, hkey⟩
  · rintro ⟨⟨n, hrow⟩, hkey⟩
    exact ⟨⟨n, (h.tasks n row (hvisible row (.inr ⟨⟨n, hrow⟩, hkey⟩))).mpr hrow⟩, hkey⟩

/-- A read by id that answers alike in both databases is one of `TaskQuery.HidesPending`. -/
theorem hidesPending_get_of_same {taskId : Str}
    (h : (db.tasks.find? taskId).map (taskRowToJson json)
      = (db'.tasks.find? taskId).map (taskRowToJson json)) :
    (TaskQuery.get taskId).HidesPending tokens json db db' := by
  cases hrow : db.tasks.find? taskId with
  | none =>
    rw [hrow, Option.map_none, eq_comm, Option.map_eq_none_iff] at h
    refine .inl fun row hor => ?_
    rw [hrow, h] at hor
    rcases hor with hsome | hsome <;> cases hsome
  | some row =>
    rw [hrow, Option.map_some, eq_comm, Option.map_eq_some_iff] at h
    obtain ⟨row', hrow', hsame⟩ := h
    exact .inr ⟨row, row', hrow, hrow', taskRowToJson_eq_iff.mp hsame⟩

/-- **Where a query looks past pending tasks**, by `HidesPending`, the answers show the same tasks,
however the engine ranks what it finds. -/
theorem sameShown_of_hidesPending (h : DiffersInPending tokens db db') (q : TaskQuery)
    (hcovers : q.Covers tokens db) (hhides : q.HidesPending tokens json db db')
    {fts : FtsEngine} (hfts : RanksOnce tokens fts) :
    SameShown json q ⟨db, clock, fts⟩ ⟨db', clock, fts⟩ := by
  refine sameShown_of_mem_iff fun task => ?_
  cases q with
  -- The list shows no pending tasks at all.
  | list =>
    rw [mem_shown_list, mem_shown_list]
    refine exists_congr fun n => exists_congr fun row => ?_
    constructor
    · rintro ⟨hrow, hstatus, htask⟩
      exact ⟨(h.tasks n row hstatus).mp hrow, hstatus, htask⟩
    · rintro ⟨hrow, hstatus, htask⟩
      exact ⟨(h.tasks n row hstatus).mpr hrow, hstatus, htask⟩
  -- A read by id finds rows that read the same.
  | get taskId =>
    have hsame : (db.tasks.find? taskId).map (taskRowToJson json)
        = (db'.tasks.find? taskId).map (taskRowToJson json) := by
      rcases hhides with hvisible | ⟨row, row', hrow, hrow', hsame⟩
      · rw [h.find?_eq hvisible]
      · rw [hrow, hrow', Option.map_some, Option.map_some, taskRowToJson_eq_iff.mpr hsame]
    rw [TaskQuery.shown, TaskQuery.shown, hsame]
  | search query limit =>
    simp only [TaskQuery.shown, List.mem_map]
    refine exists_congr fun row => and_congr_left fun _ => ?_
    rcases hhides with hfew | hindex
    · -- nothing is cut off
      have hall : ∀ db₀ : Db, (matching tokens db₀ query).length = (matching tokens db query).length →
          (taskHits ⟨db₀, clock, fts⟩ query).take (Search.clamp limit)
            = taskHits ⟨db₀, clock, fts⟩ query := by
        intro db₀ hlength
        refine List.take_of_length_le ?_
        rw [(@taskHits_perm _ _ tokens _ ⟨db₀, clock, fts⟩ hfts).length_eq, hlength]
        rw [TaskQuery.Covers] at hcovers
        rw [Search.clamp]
        omega
      rw [hall db rfl, hall db' h.length_matching, mem_taskHits hfts, mem_taskHits hfts]
      exact h.mem_matching_iff
    · -- the engine finds the same numbers, and those of the visible tasks stand for the same rows
      have hrows : ∀ n, (rowOf db.tasks n).filter (fun row => row.status ≠ .pending)
          = (rowOf db'.tasks n).filter (fun row => row.status ≠ .pending) := by
        intro n
        refine Option.ext fun row => ?_
        simp only [Option.filter_eq_some_iff, rowOf_eq_some_iff, decide_eq_true_iff]
        exact and_congr_left (h.tasks n row)
      have hhits : taskHits ⟨db, clock, fts⟩ query = taskHits ⟨db', clock, fts⟩ query := by
        simp only [taskHits, List.filter_filterMap, hrows, hindex]
      rw [hhits]

/-- Found tasks of which `taskHit` reads the same are the same task. -/
theorem taskId_of_taskHit_eq {row row' : TaskRow} (h : Search.taskHit row = Search.taskHit row') :
    row.taskId = row'.taskId := by
  have hget : ∀ row : TaskRow, ((Search.taskHit row).get "task_id").asStr = some row.taskId := by
    intro row
    rw [Json.get, Search.taskHit, Json.get?_ofPairs]
    rfl
  have hsome := hget row
  rw [h, hget row', Option.some_inj] at hsome
  exact hsome.symm

/-- A search that finds more than it can show tells two different indices apart, under an engine
with `RanksOnce` that ranks the first find under one index last under the other. -/
theorem exists_not_sameShown (h : DiffersInPending tokens db db')
    {query : Str} (limit : Int) (hmany : 50 < (matching tokens db query).length)
    (hindex : db.tasksFts ≠ db'.tasksFts) : ∃ fts, RanksOnce tokens fts ∧
      ¬SameShown json (.search query limit) ⟨db, clock, fts⟩ ⟨db', clock, fts⟩ := by
  have hclamp : 1 ≤ Search.clamp limit ∧ Search.clamp limit ≤ 50 := by
    rw [Search.clamp]
    omega
  -- The first find under the index of `db`.
  have hplain : ∀ n phrase, demoting tokens n db'.tasksFts db.tasksFts phrase
      = unranked tokens db.tasksFts phrase := fun n phrase => if_neg hindex
  have hunranked := @ranksOnce_unranked _ _ tokens
  obtain ⟨first, rest, hhits⟩ :
      ∃ first rest, taskHits ⟨db, clock, unranked tokens⟩ query = first :: rest := by
    refine List.exists_cons_of_length_pos ?_
    rw [(taskHits_perm (w := ⟨db, clock, unranked tokens⟩) hunranked).length_eq]
    exact Nat.lt_trans (Nat.succ_pos _) hmany
  have hfirst : first ∈ matching tokens db query :=
    (mem_taskHits (w := ⟨db, clock, unranked tokens⟩) hunranked).mp
      (hhits ▸ List.mem_cons_self)
  obtain ⟨hstatus, n, hrow', hmatches'⟩ := mem_matching.mp (h.mem_matching_iff.mp hfirst)
  have hranks := @ranksOnce_demoting _ _ tokens n db'.tasksFts
  refine ⟨demoting tokens n db'.tasksFts, hranks, fun hsame => ?_⟩
  -- Under the index of `db'` it comes last.
  obtain ⟨front, hlast⟩ : ∃ front,
      taskHits ⟨db', clock, demoting tokens n db'.tasksFts⟩ query = front ++ [first] := by
    have hfound : n ∈ unranked tokens db'.tasksFts (Search.phrase query) :=
      (hunranked.finds ..).mpr hmatches'
    refine ⟨(((unranked tokens db'.tasksFts (Search.phrase query)).erase n).filterMap
      (rowOf db'.tasks)).filter fun row => row.status ≠ .pending, ?_⟩
    rw [taskHits]
    simp only [demoting, if_true, demote, if_pos hfound, List.filterMap_append, List.filter_append]
    rw [List.filterMap_cons_some (rowOf_eq_some_iff.mpr hrow'), List.filterMap_nil,
      List.filter_cons_of_pos (by simpa using hstatus), List.filter_nil]
  have hperm := @taskHits_perm _ _ tokens query
    ⟨db', clock, demoting tokens n db'.tasksFts⟩ hranks
  rw [hlast] at hperm
  have hnotMem : first ∉ front := by
    have hnodup := hperm.nodup_iff.mpr nodup_matching
    exact fun hmem => (List.nodup_append.mp hnodup).2.2 first hmem first List.mem_cons_self rfl
  have hlength : Search.clamp limit ≤ front.length := by
    have := hperm.length_eq
    rw [List.length_append, List.length_singleton, h.length_matching] at this
    omega
  -- So the answer shows it under the one index only.
  have hshown : Search.taskHit first ∈
      (TaskQuery.search query limit).shown json ⟨db, clock, demoting tokens n db'.tasksFts⟩ := by
    have hhits' : taskHits ⟨db, clock, demoting tokens n db'.tasksFts⟩ query = first :: rest := by
      rw [← hhits, taskHits, taskHits]
      simp only [hplain]
    rw [TaskQuery.shown, hhits']
    obtain ⟨k, hk⟩ : ∃ k, Search.clamp limit = k + 1 := ⟨Search.clamp limit - 1, by omega⟩
    rw [hk, List.take_succ_cons]
    exact List.mem_map_of_mem List.mem_cons_self
  have hmem := (hsame.same _).mp hshown
  rw [TaskQuery.shown, hlast, List.take_append_of_le_length hlength, List.mem_map] at hmem
  obtain ⟨row, hrow, hhit⟩ := hmem
  have hboth : row = first := by
    have hfront : row ∈ matching tokens db' query :=
      hperm.mem_iff.mp (List.mem_append_left _ (List.mem_of_mem_take hrow))
    obtain ⟨-, m, hrow, -⟩ := mem_matching.mp hfront
    exact Table.eq_of_key_eq (Table.mem_contents_iff.mpr ⟨m, hrow⟩)
      (Table.mem_contents_iff.mpr ⟨n, hrow'⟩) (taskId_of_taskHit_eq hhit)
  exact hnotMem (hboth ▸ List.mem_of_mem_take hrow)

end Compare

variable (tokens) in
/-- **Pending tasks are invisible** to a query exactly if it looks past them. Two databases that
differ in pending tasks only answer it with the same tasks (`SameShown`), under every engine, if and
only if the query is one of `TaskQuery.HidesPending`. -/
theorem sameShown_iff (json : JsonCodec) {db db' : Db} (h : DiffersInPending tokens db db')
    (clock : Nat → DateTime) (q : TaskQuery) (hcovers : q.Covers tokens db) :
    (∀ fts, RanksOnce tokens fts → SameShown json q ⟨db, clock, fts⟩ ⟨db', clock, fts⟩) ↔
      q.HidesPending tokens json db db' := by
  refine ⟨fun hall => ?_, fun hhides fts hfts => sameShown_of_hidesPending h q hcovers hhides hfts⟩
  cases q with
  | list => trivial
  | get taskId =>
    have hsame := (hall (unranked tokens) ranksOnce_unranked).same
    exact hidesPending_get_of_same (Option.ext fun task => by
      simpa [TaskQuery.shown] using hsame task)
  | search query limit =>
    by_contra hnot
    rw [TaskQuery.HidesPending, not_or, not_le] at hnot
    obtain ⟨fts, hfts, hdiffers⟩ := @exists_not_sameShown _ _ tokens json _ _ clock h _
      limit hnot.1 fun heq => hnot.2 heq.symm
    exact hdiffers (hall fts hfts)

/-! ## One pending task -/

/-- A database with a pending task, searched by words. -/
def withPending : World := ⟨onePending.db, onePending.clock, unranked WordScan.words⟩

/-- The same without the task. -/
def withoutPending : World := ⟨.empty, onePending.clock, unranked WordScan.words⟩

/-- `withPending` and `withoutPending` differ in the pending task only. -/
theorem differsInPending_withPending :
    DiffersInPending WordScan.words withPending.db withoutPending.db := by
  have hpending : ∀ entry ∈ withPending.db.tasks.rows, entry.2.status = .pending := by decide
  refine ⟨fun n row hstatus => ?_, fun n row hrow hstatus => ?_, rfl, rfl⟩
  · exact iff_of_false (fun hrow => hstatus (hpending (n, row) hrow)) fun hrow => nomatch hrow
  · exact absurd (hpending (n, row) hrow) hstatus

/-- `SameShown` of a search for a word of the description: the task is not shown. -/
theorem sameShown_iff_search_draft : SameShown JsonText.codec (.search "draft" 10) withPending
    withoutPending :=
  (sameShown_iff WordScan.words JsonText.codec differsInPending_withPending onePending.clock
    (.search "draft" 10) (by unfold TaskQuery.Covers; decide +kernel)).mpr
      (.inl (by decide +kernel)) _ ranksOnce_unranked

/-- **A pending task can be read by its id**: `SameShown` fails for `get`. -/
theorem not_sameShown_get : ¬∀ (db db' : Db) (clock : Nat → DateTime)
    (fts : FtsEngine) (q : TaskQuery), DiffersInPending WordScan.words db db' →
      RanksOnce WordScan.words fts → q.Covers WordScan.words db →
        SameShown JsonText.codec q ⟨db, clock, fts⟩ ⟨db', clock, fts⟩ := by
  intro h
  have hsame : SameShown JsonText.codec (.get "t-1") withPending withoutPending :=
    h _ _ _ _ (.get "t-1") differsInPending_withPending ranksOnce_unranked trivial
  obtain ⟨row, hrow⟩ : ∃ row, withPending.db.tasks.find? "t-1" = some row :=
    Option.isSome_iff_exists.mp (by decide)
  have hshown : taskRowToJson JsonText.codec row ∈
      (TaskQuery.get "t-1").shown JsonText.codec withPending := by
    rw [TaskQuery.shown, hrow]
    exact List.mem_singleton_self _
  exact nomatch (hsame.same _).mp hshown

end LogosFs.System
