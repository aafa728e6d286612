import Mathlib.Algebra.Ring.Int.Defs
import Mathlib.Data.List.Dedup
import LogosFs.Lib.FullText
import LogosFs.System.VersionChain

/-! # The experience index

The kernel keeps two full-text indices by hand, one over task descriptions and one over the facts and
summaries of anchors, with one statement after each change of a row. `Indexed` says that each index
holds exactly the postings of the rows that there are; a search is then exact (`SearchExact`). Not
every change keeps it: a description is taken off the index after it was replaced, so that the words of
the new one are removed, and not even these where the engine counts fewer of them than it is to remove
(`Removable`); a deleted task is never taken off, and facts that are marked are not indexed again.
`IndexStep.KeepsWords` is the condition on a step under which none of this leaves a word behind or a
new one out. -/

namespace LogosFs.System

open Program (eval)
open FullText (Posting postings Matches Contains)

variable {Token : Type} [DecidableEq Token] (tokens : Str → List Token)

/-! ## What an index holds -/

/-- What an index holds under a row number after one more command. -/
def FtsCommand.apply (n : Nat) (held : List (Posting Token)) : FtsCommand → List (Posting Token)
  | .insert rowid texts => if rowid = n then FullText.insert held (texts.map tokens) else held
  | .delete rowid texts => if rowid = n then FullText.delete held (texts.map tokens) else held
  | .refused .. => held

/-- What an index holds under a row number after some commands. -/
def heldBy (commands : List FtsCommand) (n : Nat) : List (Posting Token) :=
  commands.foldl (FtsCommand.apply tokens n) []

/-- The last command of a log is applied to what `heldBy` says of those before it. -/
theorem heldBy_append (commands : List FtsCommand) (command : FtsCommand) (n : Nat) :
    heldBy tokens (commands ++ [command]) n = command.apply tokens n (heldBy tokens commands n) := by
  rw [heldBy, List.foldl_append]
  rfl

variable {tokens} in
/-- What `heldBy` an index came with an `insert` command. -/
theorem exists_command_of_mem {commands : List FtsCommand} {n : Nat} {p : Posting Token}
    (h : p ∈ heldBy tokens commands n) : ∃ texts, FtsCommand.insert n texts ∈ commands := by
  induction commands using List.reverseRecOn with
  | nil => exact nomatch h
  | append_singleton commands command ih =>
    rw [heldBy_append] at h
    have hold : p ∈ heldBy tokens commands n →
        ∃ texts, FtsCommand.insert n texts ∈ commands ++ [command] := by
      intro hp
      obtain ⟨texts, hmem⟩ := ih hp
      exact ⟨texts, List.mem_append_left _ hmem⟩
    cases command with
    | insert rowid texts =>
      rw [FtsCommand.apply] at h
      split at h
      · rename_i hn
        exact ⟨texts, List.mem_append_right _ (hn ▸ List.mem_cons_self)⟩
      · exact hold h
    | delete rowid texts =>
      rw [FtsCommand.apply] at h
      split at h
      · exact hold (FullText.mem_delete.mp h).1
      · exact hold h
    | refused => exact hold h

/-! ## What an engine carries out -/

/-- Whether a command of a log was carried out. -/
def FtsCommand.carriedOut : FtsCommand → Bool
  | .insert .. | .delete .. => true
  | .refused .. => false

/-- No command of a log was refused. -/
def NoneRefused (commands : List FtsCommand) : Prop := ∀ command ∈ commands, command.carriedOut

instance (commands : List FtsCommand) : Decidable (NoneRefused commands) :=
  inferInstanceAs (Decidable (∀ command ∈ commands, _))

/-- One more command that is carried out leaves `NoneRefused`. -/
theorem NoneRefused.append {commands : List FtsCommand} (h : NoneRefused commands)
    {command : FtsCommand} (hcommand : command.carriedOut) : NoneRefused (commands ++ [command]) := by
  intro c hc
  rcases List.mem_append.mp hc with hold | hnew
  · exact h c hold
  · rwa [List.mem_singleton.mp hnew]

/-- By how much a command changes the number of rows that an index counts. -/
def FtsCommand.rows : FtsCommand → Int
  | .insert .. => 1
  | .delete .. => -1
  | .refused .. => 0

/-- By how much a command changes the number of tokens that an index counts in a column. -/
def FtsCommand.size (column : Nat) : FtsCommand → Int
  | .insert _ texts => ((texts[column]?.map tokens).getD []).length
  | .delete _ texts => -((texts[column]?.map tokens).getD []).length
  | .refused .. => 0

/-- An index counts a row, and in every column at least the tokens of the text that is to be removed
from it. The counts are over all row numbers together. -/
def Removable (commands : List FtsCommand) (texts : List Str) : Prop :=
  0 < (commands.map FtsCommand.rows).sum ∧ ∀ entry ∈ texts.zipIdx,
    ((tokens entry.1).length : Int) ≤ (commands.map (FtsCommand.size tokens entry.2)).sum

instance (commands : List FtsCommand) (texts : List Str) :
    Decidable (Removable tokens commands texts) := inferInstanceAs (Decidable (_ ∧ _))

/-- A full-text engine over external content: as long as it has refused nothing, it finds the row
numbers whose postings match the phrase between the quotes, it carries out what is inserted, and it
carries out the removals that are `Removable`. A text without characters has no tokens. -/
structure ExternalContent (fts : FtsEngine) : Prop where
  /-- The empty text has no tokens. -/
  empty : tokens [] = []
  /-- The engine finds what matches. -/
  finds : ∀ commands query n, NoneRefused commands →
    (n ∈ fts commands (Search.phrase query) ↔ Matches (heldBy tokens commands n) (tokens query))
  /-- The engine inserts what it is given. -/
  inserts : ∀ commands rowid texts, NoneRefused commands →
    fts.accepts commands (.insert rowid texts) = true
  /-- The engine removes a row where it counts at least as much as it is to remove. -/
  deletes : ∀ commands rowid texts, NoneRefused commands → Removable tokens commands texts →
    fts.accepts commands (.delete rowid texts) = true

/-! ## What a search finds -/

/-- The tasks that a search finds, without a limit. -/
def taskHits (w : World) (query : Str) : List TaskRow :=
  ((w.fts w.db.tasksFts (Search.phrase query)).filterMap (rowOf w.db.tasks)).filter fun row =>
    row.status ≠ .pending

/-- The anchors that a search finds, without a limit. -/
def anchorHits (w : World) (query : Str) : List AnchorRow :=
  (w.fts w.db.anchorsFts (Search.phrase query)).filterMap (rowOf w.db.anchors)

/-- `exec` of a search answers with the `taskHits` or `anchorHits`, up to the limit. -/
theorem exec_search (w : World) (query : Str) (limit : Nat) :
    (exec w.fts (.searchTasks (Search.phrase query) limit) w.db).1
        = .ok ((taskHits w query).take limit) ∧
      (exec w.fts (.searchAnchors (Search.phrase query) limit) w.db).1
        = .ok ((anchorHits w query).take limit) := ⟨rfl, rfl⟩

/-- A search finds exactly the rows that contain the phrase. -/
structure SearchExact (w : World) : Prop where
  /-- The tasks found are those not pending whose description contains the phrase. -/
  tasks : ∀ query row, row ∈ taskHits w query ↔ row ∈ w.db.tasks.contents ∧
    row.status ≠ .pending ∧ Contains [tokens row.description] (tokens query)
  /-- The anchors found are those whose facts or summary contain the phrase. -/
  anchors : ∀ query row, row ∈ anchorHits w query ↔ row ∈ w.db.anchors.contents ∧
    Contains [tokens row.facts, tokens row.summary] (tokens query)

/-- Each index holds the postings of the rows that there are and has refused nothing, and the index of
anchors holds none under a number above all that were given. -/
structure Indexed (db : Db) : Prop where
  /-- The index of tasks has refused nothing. -/
  tasksAccepted : NoneRefused db.tasksFts
  /-- The index of anchors has refused nothing. -/
  anchorsAccepted : NoneRefused db.anchorsFts
  /-- The index of tasks holds the postings of the descriptions. -/
  tasks : ∀ n row, (n, row) ∈ db.tasks.rows → ∀ p,
    p ∈ heldBy tokens db.tasksFts n ↔ p ∈ postings [tokens row.description]
  /-- The index of anchors holds the postings of the facts and summaries. -/
  anchors : ∀ n row, (n, row) ∈ db.anchors.rows → ∀ p,
    p ∈ heldBy tokens db.anchorsFts n ↔ p ∈ postings [tokens row.facts, tokens row.summary]
  /-- The index of anchors holds nothing under a number to come. -/
  unused : ∀ n, (∀ m row, (m, row) ∈ db.anchors.rows → m < n) → heldBy tokens db.anchorsFts n = []

variable {tokens}

/-- `rowOf` answers the row that is stored under the number. -/
theorem rowOf_eq_some_iff {Row Key : Type} {key : Row → Key} {t : Table Row Key key} {n : Nat}
    {r : Row} : rowOf t n = some r ↔ (n, r) ∈ t.rows := by
  constructor
  · intro h
    obtain ⟨⟨m, r'⟩, hfind, rfl⟩ := Option.map_eq_some_iff.mp h
    have hm : m = n := by simpa using List.find?_some hfind
    exact hm ▸ List.mem_of_find?_eq_some hfind
  · intro h
    cases hfind : t.rows.find? fun entry => entry.1 = n with
    | none => exact absurd (List.find?_eq_none.mp hfind (n, r) h) (by simp)
    | some entry =>
      have hmem : entry ∈ t.rows := List.mem_of_find?_eq_some hfind
      have hnum : entry.1 = n := by simpa using List.find?_some hfind
      have hsame : entry = (n, r) :=
        List.inj_on_of_nodup_map (t.rowids_lt.imp Nat.ne_of_lt) hmem h hnum
      rw [rowOf, hfind, hsame, Option.map_some]

/-- **Where the indices hold the postings of the rows**, as `Indexed` says, a search is exact:
`SearchExact`. -/
theorem Indexed.searchExact {w : World} (hfts : ExternalContent tokens w.fts)
    (h : Indexed tokens w.db) : SearchExact tokens w := by
  constructor
  · intro query row
    have hfound : ∀ n, (n, row) ∈ w.db.tasks.rows →
        (n ∈ w.fts w.db.tasksFts (Search.phrase query) ↔
          Contains [tokens row.description] (tokens query)) := by
      intro n hrow
      rw [hfts.finds _ _ _ h.tasksAccepted, FullText.matches_congr (h.tasks n row hrow),
        FullText.matches_postings_iff]
    simp only [taskHits, List.mem_filter, List.mem_filterMap, rowOf_eq_some_iff, decide_eq_true_iff,
      Table.mem_contents_iff]
    constructor
    · rintro ⟨⟨n, hn, hrow⟩, hstatus⟩
      exact ⟨⟨n, hrow⟩, hstatus, (hfound n hrow).mp hn⟩
    · rintro ⟨⟨n, hrow⟩, hstatus, hcontains⟩
      exact ⟨⟨n, (hfound n hrow).mpr hcontains, hrow⟩, hstatus⟩
  · intro query row
    have hfound : ∀ n, (n, row) ∈ w.db.anchors.rows →
        (n ∈ w.fts w.db.anchorsFts (Search.phrase query) ↔
          Contains [tokens row.facts, tokens row.summary] (tokens query)) := by
      intro n hrow
      rw [hfts.finds _ _ _ h.anchorsAccepted, FullText.matches_congr (h.anchors n row hrow),
        FullText.matches_postings_iff]
    simp only [anchorHits, List.mem_filterMap, rowOf_eq_some_iff, Table.mem_contents_iff]
    constructor
    · rintro ⟨n, hn, hrow⟩
      exact ⟨⟨n, hrow⟩, (hfound n hrow).mp hn⟩
    · rintro ⟨⟨n, hrow⟩, hcontains⟩
      exact ⟨n, (hfound n hrow).mpr hcontains, hrow⟩

/-! ## Commands to the index of tasks -/

section Runs

variable {json : JsonCodec} {w : World}

/-- `insertTaskFts` of a task that is there adds its description to the index, where the engine
accepts that. -/
theorem eval_insertTaskFts_of_row {n : Nat} {row : TaskRow} (h : (n, row) ∈ w.db.tasks.rows)
    (haccepts : w.fts.accepts w.db.tasksFts (.insert n [row.description]) = true) :
    eval handler (insertTaskFts row.taskId) w = (.ok (), w.withDb
      { w.db with tasksFts := w.db.tasksFts ++ [.insert n [row.description]] }) := by
  have hfind : w.db.tasks.find? row.taskId = some row :=
    Table.find?_key (Table.mem_contents_iff.mpr ⟨n, h⟩)
  have hrowid : w.db.tasks.rowid? row.taskId = some n := Table.rowid?_of_mem h
  rw [insertTaskFts, Program.eval_ignoreError, eval_send, exec]
  simp only [hfind, hrowid, if_pos haccepts]

/-- `deleteTaskFts` of a task that is there takes its description off the index, where the engine
accepts that. -/
theorem eval_deleteTaskFts_of_row {n : Nat} {row : TaskRow} (h : (n, row) ∈ w.db.tasks.rows)
    (haccepts : w.fts.accepts w.db.tasksFts (.delete n [row.description]) = true) :
    eval handler (deleteTaskFts row.taskId) w = (.ok (), w.withDb
      { w.db with tasksFts := w.db.tasksFts ++ [.delete n [row.description]] }) := by
  have hfind : w.db.tasks.find? row.taskId = some row :=
    Table.find?_key (Table.mem_contents_iff.mpr ⟨n, h⟩)
  have hrowid : w.db.tasks.rowid? row.taskId = some n := Table.rowid?_of_mem h
  rw [deleteTaskFts, Program.eval_ignoreError, eval_send, exec]
  simp only [hfind, hrowid, if_pos haccepts]

variable (json) in
/-- `TaskDb.create` leaves the database as it is, or adds a row and indexes its description, unless
this is empty. -/
theorem db_create_cases (content : Str) (hinserts : ∀ texts,
    w.fts.accepts w.db.tasksFts (.insert w.db.tasks.nextRowid texts) = true) :
    (eval handler (TaskDb.create json content) w).2.db = w.db ∨
      ∃ value tasks, json.fromStr content = .ok value ∧
        w.db.tasks.insert? (TaskDb.newRow value (w.clock 0)) = some tasks ∧
        (eval handler (TaskDb.create json content) w).2.db
          = if (TaskDb.newRow value (w.clock 0)).description = [] then { w.db with tasks := tasks }
            else { w.db with tasks := tasks, tasksFts := w.db.tasksFts ++
              [.insert w.db.tasks.nextRowid [(TaskDb.newRow value (w.clock 0)).description]] } := by
  rw [TaskDb.create, parseJson]
  cases hparse : json.fromStr content with
  | error e => exact .inl rfl
  | ok value =>
    dsimp only
    rw [pure_bind, Program.eval_bind, eval_utcNow, Program.evalNext_ok, Program.eval_bind,
      eval_insertTask, World.tick_db]
    cases hinsert : w.db.tasks.insert? (TaskDb.newRow value (w.clock 0)) with
    | none => exact .inl rfl
    | some tasks =>
      refine .inr ⟨value, tasks, rfl, hinsert, ?_⟩
      rw [Program.evalNext_ok]
      by_cases hempty : (TaskDb.newRow value (w.clock 0)).description = []
      · rw [if_neg (not_not.mpr hempty), if_pos hempty]
        rfl
      · rw [if_pos hempty, if_neg hempty]
        have hrow : (w.db.tasks.nextRowid, TaskDb.newRow value (w.clock 0)) ∈
            (w.tick.withTasks tasks).db.tasks.rows :=
          Table.rows_of_insert? hinsert ▸ List.mem_append_right _ List.mem_cons_self
        rw [eval_insertTaskFts_of_row hrow (hinserts _)]
        rfl

/-- `updateDescription` of a task that is there: the index is told to remove the new description,
and then to add it, and does so where the engine `accepts` both. -/
theorem db_updateDescription {n : Nat} {row : TaskRow} (h : (n, row) ∈ w.db.tasks.rows) (text : Str)
    (hdelete : w.fts.accepts w.db.tasksFts (.delete n [text]) = true)
    (hinsert : w.fts.accepts (w.db.tasksFts ++ [.delete n [text]]) (.insert n [text]) = true) :
    (eval handler (TaskDb.updateDescription row.taskId text) w).2.db
      = { w.db with
          tasks := w.db.tasks.setDescription row.taskId text (w.clock 0).isoSecond
          tasksFts := w.db.tasksFts ++ [.delete n [text]] ++ [.insert n [text]] } := by
  have hrow : (n, row.withDescription text (w.clock 0).isoSecond) ∈
      (w.db.tasks.setDescription row.taskId text (w.clock 0).isoSecond).rows :=
    Tasks.mem_rows_setDescription.mpr ⟨row, h, (if_pos rfl).symm⟩
  rw [TaskDb.updateDescription, Program.eval_bind, eval_utcNow, Program.evalNext_ok,
    Program.eval_bind, eval_updateDescription, Program.evalNext_ok, Program.eval_bind]
  rw [show row.taskId = (row.withDescription text (w.clock 0).isoSecond).taskId from rfl]
  rw [eval_deleteTaskFts_of_row hrow hdelete, Program.evalNext_ok,
    eval_insertTaskFts_of_row hrow hinsert]
  rfl

/-- `updateDescription` of a task that does not exist does nothing. -/
theorem db_updateDescription_of_none {taskId : Str} (h : w.db.tasks.find? taskId = none)
    (text : Str) : (eval handler (TaskDb.updateDescription taskId text) w).2.db = w.db := by
  have hfts : ∀ statement ∈ [Statement.deleteTaskFts taskId, .insertTaskFts taskId],
      (exec w.fts statement w.db).2 = w.db := by
    intro statement hstatement
    simp only [List.mem_cons, List.not_mem_nil, or_false] at hstatement
    rcases hstatement with rfl | rfl <;> simp only [exec, h]
  rw [TaskDb.updateDescription, Program.eval_bind, eval_utcNow, Program.evalNext_ok,
    Program.eval_bind, eval_updateDescription, Program.evalNext_ok, Program.eval_bind, deleteTaskFts,
    Program.eval_ignoreError, eval_send, Program.evalNext_ok, insertTaskFts,
    Program.eval_ignoreError, eval_send]
  simp only [World.tick_db, Tasks.setDescription_of_none _ _ h, World.withDb_db, World.withDb_fts,
    World.tick_fts, World.withTasks_fts]
  rw [show (w.tick.withTasks w.db.tasks).db = w.db from rfl, hfts _ List.mem_cons_self]
  exact hfts _ (List.mem_cons_of_mem _ List.mem_cons_self)

variable (json w) in
/-- `AnchorDb.create` marks the anchors that its facts name, and then adds a row and indexes it,
unless the key is taken. -/
theorem db_createAnchor_cases (taskId summary facts : Str) :
    (eval handler (AnchorDb.create json taskId summary facts) w).2.db = { w.db with
        anchors := AnchorDb.supersede json (AnchorDb.uri taskId (w.clock 0).isoMinute) facts
          w.db.anchors } ∨
      ∃ row anchors, row.facts = facts ∧ row.summary = summary ∧
        (AnchorDb.supersede json (AnchorDb.uri taskId (w.clock 0).isoMinute) facts
          w.db.anchors).insert? row = some anchors ∧
        (eval handler (AnchorDb.create json taskId summary facts) w).2.db = { w.db with
          anchors := anchors
          anchorsFts := w.db.anchorsFts ++ [.insert (AnchorDb.supersede json
            (AnchorDb.uri taskId (w.clock 0).isoMinute) facts w.db.anchors).nextRowid
              [facts, summary]] } := by
  rw [AnchorDb.eval_create]
  generalize AnchorDb.supersede json (AnchorDb.uri taskId (w.clock 0).isoMinute) facts
    w.db.anchors = marked
  rw [AnchorDb.insertRow, Program.eval_bind, eval_insertAnchor, World.withAnchors_anchors]
  cases hinsert : marked.insert?
    ⟨(w.clock 0).isoMinute, taskId, summary, facts, (w.clock 1).isoSecond⟩ with
  | none => exact .inl rfl
  | some anchors =>
    refine .inr ⟨_, anchors, rfl, rfl, hinsert, ?_⟩
    have hrowid : anchors.rowid? (taskId, (w.clock 0).isoMinute) = some marked.nextRowid :=
      Table.rowid?_of_mem (Table.rows_of_insert? hinsert ▸
        List.mem_append_right _ List.mem_cons_self)
    simp only [Program.evalNext_ok, Program.eval_bind, eval_selectAnchorRowid,
      World.withAnchors_anchors, hrowid]
    rfl

end Runs

/-! ## Steps -/

/-- A change of a row that the indices are about. -/
inductive IndexStep where
  /-- A task is created from its JSON text. -/
  | create (content : Str)
  /-- The description of a task is replaced. -/
  | describe (taskId text : Str)
  /-- A task is deleted, as resuming another one does. -/
  | discard (taskId : Str)
  /-- An anchor is created, and those that its facts name are marked. -/
  | anchor (taskId summary facts : Str)

variable (json : JsonCodec)

/-- What a step does, statement by statement. -/
def IndexStep.program : IndexStep → SystemM Unit
  | .create content => TaskDb.create json content
  | .describe taskId text => TaskDb.updateDescription taskId text
  | .discard taskId => TaskDb.delete taskId
  | .anchor taskId summary facts => do
    let _ ← AnchorDb.create json taskId summary facts

variable (tokens) in
/-- The condition on a step: it leaves no word behind in an index and no new one out. A new task gets
a number under which the index holds nothing but words of its description; a new description has every
word of the old one, and the index counts a row and at least as many words as it has; and the facts
that are marked keep their words. -/
def IndexStep.KeepsWords (w : World) : IndexStep → Prop
  | .create content => ∀ value, json.fromStr content = .ok value →
    w.db.tasks.find? (strField value "task_id") = none →
      ∀ p ∈ heldBy tokens w.db.tasksFts w.db.tasks.nextRowid,
        p.2.2 ∈ tokens (strField value "description")
  | .describe taskId text => ∀ row, w.db.tasks.find? taskId = some row →
    (∀ token ∈ tokens row.description, token ∈ tokens text) ∧
      Removable tokens w.db.tasksFts [text]
  | .discard _ => True
  | .anchor taskId _ facts => ∀ key row row', w.db.anchors.find? key = some row →
    (AnchorDb.supersede json (AnchorDb.uri taskId (w.clock 0).isoMinute) facts
      w.db.anchors).find? key = some row' →
    ∀ p, p ∈ postings [tokens row'.facts, tokens row'.summary] ↔
      p ∈ postings [tokens row.facts, tokens row.summary]

section StepLemmas

variable {json} {w : World}

/-- Creating a task keeps `Indexed`, under the condition. -/
theorem Indexed.create (hfts : ExternalContent tokens w.fts) (h : Indexed tokens w.db) {content : Str}
    (hwords : (IndexStep.create content).KeepsWords tokens json w) :
    Indexed tokens (eval handler (TaskDb.create json content) w).2.db := by
  have hinserts := fun texts =>
    hfts.inserts w.db.tasksFts w.db.tasks.nextRowid texts h.tasksAccepted
  rcases db_create_cases json content hinserts with hsame | ⟨value, tasks, hparse, hinsert, hdb⟩
  · rw [hsame]
    exact h
  have hheld := hwords value hparse (Table.insert?_eq_some hinsert).1
  rw [hdb]
  split
  · -- an empty description is not indexed
    rename_i hnil
    have hdescription : tokens (strField value "description") = [] :=
      (congrArg tokens hnil).trans hfts.empty
    refine ⟨h.tasksAccepted, h.anchorsAccepted, fun n row hrow p => ?_, h.anchors, h.unused⟩
    rcases (Table.mem_rows_insert? hinsert).mp hrow with hold | hnew
    · exact h.tasks n row hold p
    · cases hnew
      show p ∈ heldBy tokens w.db.tasksFts w.db.tasks.nextRowid ↔
        p ∈ postings [tokens (strField value "description")]
      rw [hdescription]
      refine ⟨fun hp => ?_, fun hp => nomatch hp⟩
      have htoken := hheld p hp
      rw [hdescription] at htoken
      exact nomatch htoken
  · refine ⟨h.tasksAccepted.append rfl, h.anchorsAccepted, fun n row hrow p => ?_, h.anchors,
      h.unused⟩
    rw [heldBy_append, FtsCommand.apply]
    rcases (Table.mem_rows_insert? hinsert).mp hrow with hold | hnew
    · have hlt : n < w.db.tasks.nextRowid :=
        Table.lt_nextRowid (List.mem_map.mpr ⟨(n, row), hold, rfl⟩)
      rw [if_neg (Nat.ne_of_gt hlt)]
      exact h.tasks n row hold p
    · cases hnew
      rw [if_pos rfl]
      refine FullText.mem_insert_of_tokens fun q hq => ?_
      rw [List.map_singleton, List.flatten_singleton]
      exact hheld q hq

/-- Replacing a description keeps `Indexed`, under the condition. -/
theorem Indexed.describe (hfts : ExternalContent tokens w.fts) (h : Indexed tokens w.db) {taskId text : Str}
    (hwords : (IndexStep.describe taskId text).KeepsWords tokens json w) :
    Indexed tokens (eval handler (TaskDb.updateDescription taskId text) w).2.db := by
  cases hfind : w.db.tasks.find? taskId with
  | none =>
    rw [db_updateDescription_of_none hfind]
    exact h
  | some row =>
    obtain ⟨n, hrow⟩ := Table.mem_contents_iff.mp (Table.mem_of_find? hfind)
    obtain rfl : row.taskId = taskId := Table.key_of_find? hfind
    obtain ⟨hkept, hremovable⟩ := hwords row hfind
    have hdeleted : NoneRefused (w.db.tasksFts ++ [.delete n [text]]) := h.tasksAccepted.append rfl
    rw [db_updateDescription hrow text (hfts.deletes _ n _ h.tasksAccepted hremovable)
      (hfts.inserts _ n _ hdeleted)]
    refine ⟨hdeleted.append rfl, h.anchorsAccepted, fun m row' hrow' p => ?_, h.anchors, h.unused⟩
    rw [heldBy_append, heldBy_append, FtsCommand.apply, FtsCommand.apply]
    obtain ⟨old, hold, rfl⟩ := Tasks.mem_rows_setDescription.mp hrow'
    by_cases hkey : old.taskId = row.taskId
    · -- the row itself: it holds the words of the old description, which the new one has as well
      obtain rfl : old = row := Table.eq_of_key_eq (Table.mem_contents_iff.mpr ⟨m, hold⟩)
        (Table.mem_contents_iff.mpr ⟨n, hrow⟩) hkey
      have hnumber : m = n := by
        rw [← Option.some_inj, ← Table.rowid?_of_mem hold, Table.rowid?_of_mem hrow]
      rw [if_pos hnumber.symm, if_pos hnumber.symm, if_pos rfl, List.map_singleton]
      refine FullText.mem_insert_of_tokens fun q hq => ?_
      have hq' := (h.tasks m old hold q).mp (FullText.mem_delete.mp hq).1
      have htoken := FullText.token_mem_of_mem_postings hq'
      rw [List.flatten_singleton] at htoken ⊢
      exact hkept _ htoken
    · have hne : n ≠ m := by
        rintro rfl
        have hsame : (n, old) = (n, row) :=
          List.inj_on_of_nodup_map (w.db.tasks.rowids_lt.imp Nat.ne_of_lt) hold hrow rfl
        exact hkey (congrArg (fun entry => entry.2.taskId) hsame)
      rw [if_neg hne, if_neg hne, if_neg hkey]
      exact h.tasks m old hold p

/-- Deleting a task keeps `Indexed`, which says nothing of a row that is gone. -/
theorem Indexed.discard (h : Indexed tokens w.db) (taskId : Str) :
    Indexed tokens (eval handler (TaskDb.delete taskId) w).2.db := by
  rw [TaskDb.eval_delete]
  exact ⟨h.tasksAccepted, h.anchorsAccepted,
    fun n row hrow => h.tasks n row (Table.mem_rows_delete.mp hrow).1, h.anchors, h.unused⟩

/-- Creating an anchor keeps `Indexed`, under the condition. -/
theorem Indexed.anchor (h : Indexed tokens w.db) {taskId summary facts : Str}
    (hwords : (IndexStep.anchor taskId summary facts).KeepsWords tokens json w) :
    Indexed tokens (eval handler (AnchorDb.create json taskId summary facts) w).2.db := by
  have hmarked : MarkedBy json (AnchorDb.uri taskId (w.clock 0).isoMinute) (fun _ => True)
      w.db.anchors (AnchorDb.supersede json (AnchorDb.uri taskId (w.clock 0).isoMinute) facts
        w.db.anchors) := markedBy_supersede fun _ _ => trivial
  have hcases := db_createAnchor_cases json w taskId summary facts
  change ∀ key row row', w.db.anchors.find? key = some row → _ → _ at hwords
  generalize AnchorDb.supersede json (AnchorDb.uri taskId (w.clock 0).isoMinute) facts
    w.db.anchors = marked at hmarked hcases hwords
  -- marking has kept the words of every row
  have hrows : ∀ n row', (n, row') ∈ marked.rows → ∀ p, p ∈ heldBy tokens w.db.anchorsFts n ↔
      p ∈ postings [tokens row'.facts, tokens row'.summary] := by
    intro n row' hrow' p
    obtain ⟨row, hrow, htask, hid, -⟩ := hmarked.marked n row' hrow'
    have hfind' : marked.find? (row'.taskId, row'.id) = some row' :=
      Table.find?_key (Table.mem_contents_iff.mpr ⟨n, hrow'⟩)
    rw [htask, hid] at hfind'
    rw [hwords _ row row' (Table.find?_key (Table.mem_contents_iff.mpr ⟨n, hrow⟩)) hfind' p]
    exact h.anchors n row hrow p
  have hunused : ∀ n, (∀ m row, (m, row) ∈ marked.rows → m < n) →
      heldBy tokens w.db.anchorsFts n = [] := by
    intro n habove
    refine h.unused n fun m row hrow => ?_
    obtain ⟨row', hrow', -, -⟩ := hmarked.kept m row hrow
    exact habove m row' hrow'
  rcases hcases with hdb | ⟨row, anchors, rfl, rfl, hinsert, hdb⟩
  · rw [hdb]
    exact ⟨h.tasksAccepted, h.anchorsAccepted, h.tasks, hrows, hunused⟩
  · rw [hdb]
    refine ⟨h.tasksAccepted, h.anchorsAccepted.append rfl, h.tasks, fun n row' hrow' p => ?_,
      fun n habove => ?_⟩
    · rw [heldBy_append, FtsCommand.apply]
      rcases (Table.mem_rows_insert? hinsert).mp hrow' with hold | hnew
      · have hlt : n < marked.nextRowid :=
          Table.lt_nextRowid (List.mem_map.mpr ⟨(n, row'), hold, rfl⟩)
        rw [if_neg (Nat.ne_of_gt hlt)]
        exact hrows n row' hold p
      · cases hnew
        rw [if_pos rfl, hunused _ fun m row hrow =>
          Table.lt_nextRowid (List.mem_map.mpr ⟨(m, row), hrow, rfl⟩)]
        exact FullText.mem_insert_of_tokens fun q hq => nomatch hq
    · have hlast := habove marked.nextRowid row ((Table.mem_rows_insert? hinsert).mpr (.inr rfl))
      rw [heldBy_append, FtsCommand.apply, if_neg (Nat.ne_of_lt hlast)]
      exact hunused n fun m row hrow => habove m row ((Table.mem_rows_insert? hinsert).mpr (.inl hrow))

/-- **One step** that `KeepsWords` keeps the indices `Indexed`. -/
theorem Indexed.step (hfts : ExternalContent tokens w.fts) (h : Indexed tokens w.db) {step : IndexStep}
    (hwords : step.KeepsWords tokens json w) :
    Indexed tokens (eval handler (step.program json) w).2.db := by
  cases step with
  | create content => exact h.create hfts hwords
  | describe taskId text => exact h.describe hfts hwords
  | discard taskId => exact h.discard taskId
  | anchor taskId summary facts =>
    have hanchor := h.anchor hwords
    rw [IndexStep.program, Program.eval_bind]
    rcases hrun : eval handler (AnchorDb.create json taskId summary facts) w with ⟨_ | _, w'⟩ <;>
      rw [hrun] at hanchor <;> exact hanchor

end StepLemmas

/-! ## Runs -/

/-- An operation that changes nothing that the indices are about. -/
def QuietOp : SystemOp → Prop
  | .sql (.insertTask _) | .sql (.deleteTask _) | .sql (.updateDescription ..)
  | .sql (.insertTaskFts _) | .sql (.deleteTaskFts _) | .sql (.insertAnchor _)
  | .sql (.updateAnchorFacts ..) | .sql (.insertAnchorFts ..) => False
  | _ => True

/-- A `QuietOp` keeps the indices `Indexed`. -/
theorem Indexed.quiet {op : SystemOp} (hop : QuietOp op) {w : World} (h : Indexed tokens w.db) :
    Indexed tokens (handler op w).2.db := by
  cases op with
  | now => exact h
  | sql statement =>
    cases statement with
    | insertTask | deleteTask | updateDescription | insertTaskFts | deleteTaskFts | insertAnchor
    | updateAnchorFacts | insertAnchorFts => exact hop.elim
    | updateStatus taskId seen new now =>
      refine ⟨h.tasksAccepted, h.anchorsAccepted, fun n row hrow => ?_, h.anchors, h.unused⟩
      obtain ⟨old, hold, rfl⟩ := Tasks.mem_rows_setStatus.mp hrow
      split <;> exact h.tasks n old hold
    | updatePlanTodo taskId planTodo now =>
      refine ⟨h.tasksAccepted, h.anchorsAccepted, fun n row hrow => ?_, h.anchors, h.unused⟩
      obtain ⟨old, hold, rfl⟩ := Tasks.mem_rows_setPlanTodo.mp hrow
      split <;> exact h.tasks n old hold
    | _ => exact h

/-- A run of steps, each under a condition, with anything quiet in between. -/
inductive IndexRun (condition : IndexStep → World → Prop) (w₀ : World) : World → Prop
  /-- The run starts. -/
  | start : IndexRun condition w₀ w₀
  /-- A step. -/
  | step {w : World} (reached : IndexRun condition w₀ w) (step : IndexStep) (holds : condition step w) :
    IndexRun condition w₀ (eval handler (step.program json) w).2
  /-- Something that changes nothing the indices are about. -/
  | other {w : World} (reached : IndexRun condition w₀ w) {α : Type} (p : SystemM α)
    (quiet : p.run.AllOps QuietOp) : IndexRun condition w₀ (eval handler p w).2

/-- No program exchanges the full-text engine `fts`. -/
theorem fts_eval {α : Type} (p : SystemM α) (w : World) :
    (eval handler p w).2.fts = w.fts :=
  Program.AllOps.run_keeps handler (I := fun w' : World => w'.fts = w.fts) (P := fun _ => True)
    (fun op _ _ h => by cases op <;> exact h) (Program.allOps_of_forall (fun _ => trivial) p.run) rfl

variable {json}

/-- **The experience index is exact**: `SearchExact` holds in every run from the empty database each
step of which `KeepsWords`: it leaves no word behind in an index and none out of it. -/
theorem searchExact_of_run {w₀ w : World} (hfts : ExternalContent tokens w₀.fts)
    (hempty : w₀.db = .empty)
    (hrun : IndexRun json (fun step w => step.KeepsWords tokens json w) w₀ w) :
    SearchExact tokens w := by
  have hindexed : w.fts = w₀.fts ∧ Indexed tokens w.db := by
    induction hrun with
    | start =>
      rw [hempty]
      exact ⟨rfl, fun _ h => (nomatch h), fun _ h => (nomatch h), fun _ _ h => (nomatch h),
        fun _ _ h => (nomatch h), fun _ _ => rfl⟩
    | step _ step holds ih =>
      exact ⟨(fts_eval _ _).trans ih.1, ih.2.step (ih.1 ▸ hfts) holds⟩
    | other _ p quiet ih =>
      exact ⟨(fts_eval _ _).trans ih.1, Program.AllOps.run_keeps handler
        (I := fun w : World => Indexed tokens w.db) (fun _ _ hop h => h.quiet hop) quiet ih.2⟩
  exact hindexed.2.searchExact (hindexed.1 ▸ hfts)

/-! ## A full-text engine -/

/-- The row number a command is about. -/
def FtsCommand.rowid : FtsCommand → Nat
  | .insert rowid _ | .delete rowid _ | .refused rowid _ => rowid

namespace WordScan

/-- The words of a text: what stands between blanks. -/
def words (text : Str) : List Str := (text.splitOn ' ').filter fun word => word ≠ []

/-- A text whose quotes are not doubled any more. -/
def undouble : Str → Str
  | '\x22' :: '\x22' :: rest => '\x22' :: undouble rest
  | c :: rest => c :: undouble rest
  | [] => []

/-- The query that a phrase was made of. -/
def unquote (phrase : Str) : Str := undouble (phrase.drop 1).dropLast

/-- `undouble` takes back the doubling of the quotes in `Search.phrase`. -/
theorem undouble_double (query : Str) :
    undouble (query.flatMap fun c => if c = '\x22' then ['\x22', '\x22'] else [c]) = query := by
  induction query with
  | nil => rfl
  | cons c query ih =>
    rw [List.flatMap_cons]
    by_cases hc : c = '\x22'
    · rw [if_pos hc, hc]
      exact congrArg _ ih
    · rw [if_neg hc, List.singleton_append, undouble.eq_2 _ _ fun _ h _ => hc h, ih]

/-- `unquote` takes back `Search.phrase`. -/
theorem unquote_phrase (query : Str) : unquote (Search.phrase query) = query := by
  rw [unquote, Search.phrase, List.append_assoc, List.singleton_append, List.drop_one,
    List.tail_cons, List.dropLast_concat, undouble_double]

end WordScan

variable (tokens) in
/-- An engine that finds each row number that matches once, in the order of the commands. It refuses a
removal that is not `Removable`, and everything after a refusal, as an index does that is asked through
another connection than the one whose removal failed. -/
def unranked : FtsEngine where
  find commands phrase := (commands.map FtsCommand.rowid).dedup.filter fun n =>
    Matches (heldBy tokens commands n) (tokens (WordScan.unquote phrase))
  accepts commands
    | .insert .. => NoneRefused commands
    | .delete _ texts => NoneRefused commands ∧ Removable tokens commands texts
    | .refused .. => false

/-- The engine `unranked` finds what matches. -/
theorem mem_unranked {commands : List FtsCommand} {query : Str} {n : Nat} :
    n ∈ unranked tokens commands (Search.phrase query) ↔
      Matches (heldBy tokens commands n) (tokens query) := by
  simp only [unranked]
  rw [List.mem_filter, decide_eq_true_iff, WordScan.unquote_phrase, List.mem_dedup]
  refine and_iff_right_of_imp fun hmatches => ?_
  obtain ⟨-, first, hfirst, -⟩ := hmatches
  obtain ⟨texts, hcommand⟩ := exists_command_of_mem hfirst
  exact List.mem_map.mpr ⟨_, hcommand, rfl⟩

/-- The engine `unranked` is one over external content. -/
theorem externalContent_unranked (hempty : tokens [] = []) :
    ExternalContent tokens (unranked tokens) where
  empty := hempty
  finds _ _ _ _ := mem_unranked
  inserts _ _ _ hnone := decide_eq_true hnone
  deletes _ _ _ hnone hremovable := decide_eq_true ⟨hnone, hremovable⟩

/-! ## A description that is replaced -/

namespace WordScan

/-- The empty database, searched by words. -/
def searchable : World := ⟨.empty, fun _ => ⟨2026, 3, 12, 14, 0, 0⟩, unranked words⟩

/-- The text of a new task with a description. -/
def task (taskId description : Str) : Str := JsonText.codec.toStr (.ofPairs
  [("task_id", .string taskId), ("description", .string description)])

/-- The world after one more task was created. -/
def created (w : World) (taskId description : Str) : World :=
  (eval handler (TaskDb.create JsonText.codec (task taskId description)) w).2

/-- The world after a task with a long description and one with the description `draft` were
created. -/
def twoPending : World :=
  created (created searchable "t-0" "answer the letter of the printers") "t-1" "draft"

/-- The world after the task `t-1` was described otherwise and activated. -/
def described (w : World) (text : Str) : World :=
  (eval handler (TaskDb.transitionStatus "t-1" TaskStatus.active.text)
    (eval handler (TaskDb.updateDescription "t-1" text) w).2).2

/-- `transitionStatus` performs operations with `QuietOp` only. -/
theorem quiet_transitionStatus (taskId newStatus : Str) :
    (TaskDb.transitionStatus taskId newStatus).run.AllOps QuietOp := by
  have hsend : ∀ {context : Str} {statement : Statement}, QuietOp (.sql statement) →
      (send context statement).run.AllOps QuietOp :=
    fun h => Program.AllOps.bind ((Program.allOps_perform _).mpr h) fun _ => trivial
  rw [TaskDb.transitionStatus]
  refine Program.AllOps.exceptBind (hsend trivial) fun current => ?_
  cases current with
  | none => trivial
  | some current =>
    dsimp only
    split
    · trivial
    · exact Program.AllOps.exceptBind (Program.AllOps.lift ⟨trivial, fun _ => trivial⟩) fun _ =>
        hsend trivial

/-- A run to `described twoPending text`. -/
theorem indexRun_described {condition : IndexStep → World → Prop} (text : Str)
    (hlong : condition (.create (task "t-0" "answer the letter of the printers")) searchable)
    (hdraft : condition (.create (task "t-1" "draft"))
      (created searchable "t-0" "answer the letter of the printers"))
    (hdescribe : condition (.describe "t-1" text) twoPending) :
    IndexRun JsonText.codec condition searchable (described twoPending text) :=
  .other (.step (.step (.step .start (.create _) hlong) (.create _) hdraft) (.describe "t-1" text)
    hdescribe) _ (quiet_transitionStatus _ _)

/-- `SearchExact` where a description keeps the words of the old one and the index counts enough
words of other tasks. -/
theorem searchExact_of_run_draft_two : SearchExact words (described twoPending "draft two") := by
  have hrun : IndexRun JsonText.codec (fun step w => step.KeepsWords words JsonText.codec w)
      searchable (described twoPending "draft two") := by
    refine indexRun_described "draft two" ?_ ?_ ?_
    · intro _ _ _ p hp
      exact nomatch hp
    · intro _ _ _ p hp
      have hnone : heldBy words (created searchable "t-0" "answer the letter of the printers").db.tasksFts
          (created searchable "t-0" "answer the letter of the printers").db.tasks.nextRowid = [] := by
        decide +kernel
      rw [hnone] at hp
      exact nomatch hp
    · intro row hrow
      have hdraft : twoPending.db.tasks.find? "t-1" = some
          (.fresh "t-1" "draft" [] [] [] "user_message" [] "2026-03-12T14:00:00Z") := by
        decide +kernel
      rw [hdraft] at hrow
      cases hrow
      decide +kernel
  exact searchExact_of_run (externalContent_unranked rfl) rfl hrun

/-- **A description that was replaced is still found**: the index is told to remove the new words,
not the old ones, so `SearchExact` fails. -/
theorem not_searchExact_described :
    ¬∀ w₀ w : World, ExternalContent words w₀.fts → w₀.db = .empty →
      IndexRun JsonText.codec (fun _ _ => True) w₀ w → SearchExact words w := by
  intro h
  have hexact := h searchable (described twoPending "final") (externalContent_unranked rfl) rfl
    (indexRun_described "final" trivial trivial trivial)
  have hhit : (TaskRow.fresh "t-1" "final" [] [] [] "user_message" []
      "2026-03-12T14:00:00Z").withStatus .active "2026-03-12T14:00:00Z" ∈
        taskHits (described twoPending "final") "draft" := by
    decide +kernel
  have hcontains := ((hexact.tasks _ _).mp hhit).2.2
  rw [← FullText.matches_postings_iff] at hcontains
  exact absurd hcontains (by decide +kernel)

end WordScan

end LogosFs.System
