import LogosFs.Lib.JsonText
import LogosFs.Lib.Utf8
import LogosFs.Memory.Archive
import LogosFs.System.Index

/-! # Ingestion

A message that is written is put into the table, into the full-text index and into the session store
in three steps, each of which looks at the same text for itself. In every run of requests the three
keep in step: the entries of an index are those of the rows of its table, in the same order, and the
session store has been handed the same messages. -/

namespace LogosFs.Memory

open Program (eval)
open Sessions (MsgRef)
open LogosFs.System (DateTime strField)
open FullText (Posting postings Matches Contains)

variable (json : JsonCodec)

/-! ## Writing a message -/

section Write

variable {json} {w : World} {place : Place}

/-- `idFor` gives a message that comes with an id this one. -/
theorem Engine.getD_of_idFor {engine : Engine} {messages : Table MessageRow Int MessageRow.msgId}
    {msgId : Option Int} {id : Int} (h : engine.idFor messages msgId = some id) :
    msgId.getD id = id ∧ ∀ given ∈ msgId, id = given := by
  cases msgId with
  | none => exact ⟨rfl, fun _ hgiven => nomatch hgiven⟩
  | some given =>
    rw [Engine.idFor, Option.some_or, Option.some_inj] at h
    exact ⟨h, fun other hother => by rw [← h, Option.mem_some_iff.mp hother]⟩

/-- `insertMessage` inserts a message under the id that it gets, where this is free. -/
theorem eval_insertMessage_of_insert? {msgId : Option Int} {row : Int → MessageRow} {id : Int}
    {messages : Table MessageRow Int MessageRow.msgId}
    (hid : w.engine.idFor (w.files place).messages msgId = some id)
    (hinsert : (w.files place).messages.insert? (row id) = some messages) :
    eval handler (insertMessage place msgId row) w
      = (.ok id, w.withDb place { w.files place with messages := messages }) := by
  have hsend : eval handler (insertMessage place msgId row) w = _ := eval_send w place _ _
  rw [hsend]
  simp only [exec, hid, hinsert]
  rfl

/-- `insertMessage` fails, or adds a row under the id that it answers with. -/
theorem eval_insertMessage_cases (w : World) (place : Place) (msgId : Option Int)
    (row : Int → MessageRow) :
    (∃ e, eval handler (insertMessage place msgId row) w = (.error e, w)) ∨
      ∃ id messages, w.engine.idFor (w.files place).messages msgId = some id ∧
        (w.files place).messages.insert? (row id) = some messages ∧
        eval handler (insertMessage place msgId row) w
          = (.ok id, w.withDb place { w.files place with messages := messages }) := by
  have hsend : eval handler (insertMessage place msgId row) w = _ := eval_send w place _ _
  cases hid : w.engine.idFor (w.files place).messages msgId with
  | none =>
    refine .inl ⟨.sqlite ("insert: " ++ VfsError.database 13 "database or disk is full"), ?_⟩
    rw [hsend]
    simp only [exec, hid]
    rw [World.withDb_self]
    rfl
  | some id =>
    cases hinsert : (w.files place).messages.insert? (row id) with
    | none =>
      refine .inl ⟨.sqlite ("insert: " ++
        VfsError.database 1555 "UNIQUE constraint failed: messages.msg_id"), ?_⟩
      rw [hsend]
      simp only [exec, hid, hinsert]
      rw [World.withDb_self]
      rfl
    | some messages =>
      exact .inr ⟨id, messages, rfl, hinsert, eval_insertMessage_of_insert? hid hinsert⟩

/-- `insertMessageFts` appends an entry to the index, and never fails. -/
@[simp] theorem eval_insertMessageFts (w : World) (place : Place) (rowid : Int) (text : Str) :
    eval handler (insertMessageFts place rowid text) w = (.ok (), w.withDb place
      { w.files place with messagesFts := (w.files place).messagesFts ++ [⟨rowid, text⟩] }) :=
  eval_send w place _ _

/-- The row and the entry of a message, and its handing to the session store, make up what
`Archives` says. -/
theorem archives_observing {row : MessageRow} {messages : Table MessageRow Int MessageRow.msgId}
    (hinsert : (w.files place).messages.insert? row = some messages) (msg : MsgRef) :
    Archives place row msg w (((w.withDb place
      { w.files place with messages := messages }).withDb place
        { w.files place with
          messages := messages
          messagesFts := (w.files place).messagesFts ++ [⟨row.msgId, row.text⟩] }).observing msg) := by
  rw [World.withDb_withDb]
  refine ⟨?_, ?_, rfl, fun place' hne => ?_, fun place' hne => ?_, rfl, rfl, id⟩
  · rw [World.observing_files, World.withDb_files_self]
    exact Table.insert?_eq_some hinsert |>.2
  · rw [World.observing_files, World.withDb_files_self]
  · rw [World.observing_files, World.withDb_files_ne _ _ _ _ hne]
  · rw [World.observing_files, World.withDb_files_ne _ _ _ _ hne]

/-- `writeMessage` of a message whose id is free archives it. -/
theorem eval_writeMessage_of_insert? {gid content : Str} {val : Json} {id : Int}
    {messages : Table MessageRow Int MessageRow.msgId} (hparse : json.fromStr content = .ok val)
    (hplace : (w.pool gid).1 = .ok place)
    (hid : w.engine.idFor (w.files place).messages (MessageDb.userMsgId val) = some id)
    (hinsert : (w.files place).messages.insert?
      (MessageDb.newRow json val gid ((w.pool gid).2.clock 0) id) = some messages) :
    ∃ w', eval handler (MemoryModule.writeMessage json gid content) w = (.ok (), w') ∧
      Archives place (MessageDb.newRow json val gid ((w.pool gid).2.clock 0) id)
        (MemoryModule.msgRef val gid id) w w' := by
  have hopen : SameArchive w (w.pool gid).2.tick :=
    (sameArchive_pool w gid).trans ⟨fun _ => rfl, fun _ => rfl, rfl, rfl, rfl, fun h => h⟩
  rw [← hopen.messages place] at hinsert
  rw [← hopen.engine, ← hopen.messages place] at hid
  refine ⟨_, ?_, hopen.archives (archives_observing hinsert (MemoryModule.msgRef val gid id))⟩
  unfold MemoryModule.writeMessage MessageDb.insert parseJson
  simp only [hparse, Program.eval_bind, Program.eval_pure, Program.evalNext_ok, eval_pool, hplace,
    eval_utcNow]
  rw [eval_insertMessage_of_insert? hid hinsert]
  simp only [Program.evalNext_ok, Program.eval_bind, eval_insertMessageFts,
    (Engine.getD_of_idFor hid).1, Program.eval_pure, eval_observe, World.withDb_files_self]
  rfl

variable (json) in
/-- **Writing a message** by `writeMessage` fails and leaves the `SameArchive`, or archives one
message under an id that was free, with what its JSON text says. -/
theorem eval_writeMessage_cases (w : World) (gid content : Str) :
    (∃ e w', eval handler (MemoryModule.writeMessage json gid content) w = (.error e, w') ∧
        SameArchive w w') ∨
      ∃ val place now id w', json.fromStr content = .ok val ∧ (w.pool gid).1 = .ok place ∧
        w.engine.idFor (w.files place).messages (MessageDb.userMsgId val) = some id ∧
        (w.files place).messages.find? id = none ∧
        eval handler (MemoryModule.writeMessage json gid content) w = (.ok (), w') ∧
        Archives place (MessageDb.newRow json val gid now id) (MemoryModule.msgRef val gid id) w w' := by
  -- Three things can fail: the content is not JSON, the file cannot be opened, the id is taken.
  cases hparse : json.fromStr content with
  | error e =>
    refine .inl ⟨.invalidJson e, w, ?_, .refl w⟩
    unfold MemoryModule.writeMessage MessageDb.insert parseJson
    rw [hparse]
    rfl
  | ok val =>
    have hpool : SameArchive w (w.pool gid).2 := sameArchive_pool w gid
    have hopen : SameArchive w (w.pool gid).2.tick :=
      hpool.trans ⟨fun _ => rfl, fun _ => rfl, rfl, rfl, rfl, fun h => h⟩
    cases hplace : (w.pool gid).1 with
    | error e =>
      refine .inl ⟨e, (w.pool gid).2, ?_, hpool⟩
      unfold MemoryModule.writeMessage MessageDb.insert parseJson
      simp only [hparse, Program.eval_bind, Program.eval_pure, Program.evalNext_ok, eval_pool, hplace,
        Program.evalNext_error]
    | ok place =>
      rcases eval_insertMessage_cases (w.pool gid).2.tick place (MessageDb.userMsgId val)
          (MessageDb.newRow json val gid ((w.pool gid).2.clock 0)) with
        ⟨e, hinsert⟩ | ⟨id, messages, hid, hfree, -⟩
      · refine .inl ⟨e, (w.pool gid).2.tick, ?_, hopen⟩
        unfold MemoryModule.writeMessage MessageDb.insert parseJson
        simp only [hparse, Program.eval_bind, Program.eval_pure, Program.evalNext_ok, eval_pool,
          hplace, eval_utcNow, hinsert]
        rfl
      · rw [hopen.messages place] at hfree
        rw [hopen.engine, hopen.messages place] at hid
        obtain ⟨w', hrun, hstored⟩ := eval_writeMessage_of_insert? hparse hplace hid hfree
        exact .inr ⟨val, place, _, id, w', rfl, rfl, hid, (Table.insert?_eq_some hfree).1, hrun,
          hstored⟩

end Write

/-! ## Requests -/

/-- A request to the memory module. -/
inductive Request where
  /-- Read a path. -/
  | read (path : List Str)
  /-- Write a text to a path. -/
  | write (path : List Str) (content : Str)
  /-- Patch a path with a text. -/
  | patch (path : List Str) (partialText : Str)
  /-- Call a tool. -/
  | call (tool params : Str)

/-- The world after a request. -/
def Request.after (w : World) : Request → World
  | .read path => (eval handler (MemoryModule.read json path) w).2
  | .write path content => (eval handler (MemoryModule.write json path content) w).2
  | .patch path partialText => (eval handler (MemoryModule.patch json path partialText) w).2
  | .call tool params => (eval handler (MemoryModule.handleCall json tool params) w).2

/-- The world after some requests, one after another. -/
def after (w : World) (requests : List Request) : World := requests.foldl (Request.after json) w

/-- The path of the messages of a group; what follows does not count. -/
def messagesPath (gid : Str) (rest : List Str) : List Str :=
  "groups".toList :: gid :: "messages".toList :: rest

/-- A write below `messagesPath` is `writeMessage`, whatever the rest of the path. -/
@[simp] theorem write_messagesPath (gid : Str) (rest : List Str) (content : Str) :
    MemoryModule.write json (messagesPath gid rest) content
      = MemoryModule.writeMessage json gid content := by
  rw [messagesPath, MemoryModule.write, if_neg (not_not_intro rfl), if_pos rfl]

/-- A patch below `messagesPath` is `writeMessage` too. -/
@[simp] theorem patch_messagesPath (gid : Str) (rest : List Str) (content : Str) :
    MemoryModule.patch json (messagesPath gid rest) content
      = MemoryModule.writeMessage json gid content := by
  have hpatch : MemoryModule.patch json (messagesPath gid rest) content
      = MemoryModule.write json (messagesPath gid rest) content := by
    rw [messagesPath, MemoryModule.patch, if_neg (not_not_intro rfl), pluginFor_messages]
  rw [hpatch, write_messagesPath]

/-- The session store is handed what the row says. -/
structure Tells (msg : MsgRef) (row : MessageRow) : Prop where
  /-- The same id. -/
  msgId : msg.msgId = row.msgId
  /-- The same chat. -/
  chatId : msg.chatId = row.chatId
  /-- The same target of a reply. -/
  replyTo : msg.replyTo = row.replyTo
  /-- The same text. -/
  text : msg.text = row.text
  /-- The same speaker. -/
  speaker : msg.speaker = row.speaker

/-- What is handed to the session store and the `newRow` are read off the same text. -/
theorem tells_newRow (val : Json) (gid : Str) (now : DateTime) (id : Int) :
    Tells (MemoryModule.msgRef val gid id) (MessageDb.newRow json val gid now id) :=
  ⟨rfl, rfl, rfl, rfl, rfl⟩

/-- A request leaves the archives as they are, or archives a message of a chat in its file. -/
inductive Step (w w' : World) : Prop
  /-- The archives are as they were. -/
  | quiet (same : SameArchive w w')
  /-- A message is archived. -/
  | archives (place : Place) (row : MessageRow) (msg : MsgRef)
    (opened : (w.pool msg.chatId).1 = .ok place) (tells : Tells msg row)
    (stored : Archives place row msg w w')

/-- `writeMessage` makes one `Step`: it archives one message or none. -/
theorem step_writeMessage (w : World) (gid content : Str) :
    Step w (eval handler (MemoryModule.writeMessage json gid content) w).2 := by
  rcases eval_writeMessage_cases json w gid content with
    ⟨e, w', hrun, hsame⟩ | ⟨val, place, now, id, w', -, hplace, -, -, hrun, hstored⟩
  · rw [hrun]
    exact .quiet hsame
  · rw [hrun]
    exact .archives place _ _ hplace (tells_newRow json val gid now id) hstored

/-- `MemoryModule.write` leaves the `SameArchive`, or it is `writeMessage`. -/
theorem write_cases (w : World) (path : List Str) (content : Str) :
    SameArchive w (eval handler (MemoryModule.write json path content) w).2 ∨
      ∃ gid, MemoryModule.write json path content = MemoryModule.writeMessage json gid content := by
  rcases path with _ | ⟨groups, _ | ⟨gid, _ | ⟨resource, rest⟩⟩⟩
  · exact .inl (.refl w)
  · exact .inl (.refl w)
  · exact .inl (.refl w)
  rw [MemoryModule.write]
  split_ifs
  · exact .inl (.refl w)
  · exact .inr ⟨gid, rfl⟩
  · refine .inl (sameArchive_eval ?_ w)
    split
    · rename_i hplugin
      exact Program.AllOps.exceptBind (quiet_pool _) fun place =>
        (quiet_of_pluginFor hplugin).1.write place _ _ _
    · trivial

/-- **A request** leaves the `SameArchive`, or it is `writeMessage`. -/
theorem after_cases (w : World) (request : Request) :
    SameArchive w (request.after json w) ∨ ∃ gid content, request.after json w
      = (eval handler (MemoryModule.writeMessage json gid content) w).2 := by
  have hwrite : ∀ path content,
      SameArchive w (eval handler (MemoryModule.write json path content) w).2 ∨
        ∃ gid content', (eval handler (MemoryModule.write json path content) w).2
          = (eval handler (MemoryModule.writeMessage json gid content') w).2 := by
    intro path content
    rcases write_cases json w path content with hsame | ⟨gid, hgid⟩
    · exact .inl hsame
    · exact .inr ⟨gid, content, by rw [hgid]⟩
  cases request with
  | read path => exact .inl (sameArchive_eval (quiet_read json path) w)
  | write path content => exact hwrite path content
  | patch path partialText =>
    rw [Request.after]
    rcases path with _ | ⟨groups, _ | ⟨gid, _ | ⟨resource, rest⟩⟩⟩
    · exact .inl (.refl w)
    · exact .inl (.refl w)
    · exact .inl (.refl w)
    rw [MemoryModule.patch]
    split_ifs
    · exact .inl (.refl w)
    · split
      · rename_i hplugin
        exact .inl (sameArchive_eval (Program.AllOps.exceptBind (quiet_pool _) fun place =>
          (quiet_of_pluginFor hplugin).1.patch place _ _ _) w)
      · exact hwrite _ partialText
  | call tool params => exact .inl (sameArchive_eval (quiet_handleCall json tool params) w)

/-- **A request** makes one `Step`: it leaves the archives as they are, or archives one message. -/
theorem step_after (w : World) (request : Request) : Step w (request.after json w) := by
  rcases after_cases json w request with hsame | ⟨gid, content, hwrite⟩
  · exact .quiet hsame
  · rw [hwrite]
    exact step_writeMessage json w gid content

/-! ## Runs -/

/-- What the index is given for a row. -/
def MessageRow.entry (row : MessageRow) : FtsEntry := ⟨row.msgId, row.text⟩

/-- The messages that the session store has been handed and whose chat has its database in a file. -/
def World.observedIn (w : World) (place : Place) : List MsgRef :=
  w.observed.filter fun msg => w.engine.locate (w.url msg.chatId) = .ok place

/-- Tables, indices and session store are in step. -/
structure InStep (w : World) : Prop where
  /-- Pools are of the right files. -/
  pooled : w.Pooled
  /-- An index has an entry for each row of its table, in the same order. -/
  index : ∀ place, (w.files place).messagesFts
    = (w.files place).messages.contents.map MessageRow.entry
  /-- The session store has been handed the row of each table, in the same order. -/
  observed : ∀ place, List.Forall₂ Tells (w.observedIn place) (w.files place).messages.contents

/-- The world at the start, which has no rows, is `InStep`. -/
theorem inStep_start (dbRoot : Str) (clock : Nat → DateTime) (engine : Engine) :
    InStep (.start dbRoot clock engine) :=
  ⟨World.pooled_start dbRoot clock engine, fun _ => rfl, fun _ => .nil⟩

/-- `observedIn` looks in the same files where the directory and the engine are the same. -/
theorem World.observedIn_eq {w w' : World} (hroot : w'.dbRoot = w.dbRoot)
    (hengine : w'.engine = w.engine) (place : Place) : w'.observedIn place
      = w'.observed.filter fun msg => w.engine.locate (w.url msg.chatId) = .ok place := by
  unfold World.observedIn World.url World.dbPath
  rw [hroot, hengine]

/-- `InStep` is kept by a `Step`. -/
theorem InStep.step {w w' : World} (h : InStep w) (hstep : Step w w') : InStep w' := by
  cases hstep with
  | quiet same =>
    refine ⟨same.pooled h.pooled, fun place => ?_, fun place => ?_⟩
    · rw [same.index, same.messages]
      exact h.index place
    · rw [World.observedIn_eq same.dbRoot same.engine, same.observed, same.messages]
      exact h.observed place
  | archives place row msg opened tells stored =>
    have hlocate := h.pooled.locate opened
    refine ⟨stored.pooled h.pooled, fun place' => ?_, fun place' => ?_⟩
    · by_cases hplace : place' = place
      · rw [hplace, stored.index, stored.messages, List.map_append, h.index place]
        rfl
      · rw [stored.otherIndex place' hplace, stored.otherMessages place' hplace]
        exact h.index place'
    · rw [World.observedIn_eq stored.dbRoot stored.engine, stored.observed, List.filter_append]
      by_cases hplace : place' = place
      · rw [hplace, stored.messages, List.filter_singleton, decide_eq_true hlocate]
        exact List.rel_append (h.observed place) (.cons tells .nil)
      · have hother : w.engine.locate (w.url msg.chatId) ≠ .ok place' := by
          rw [hlocate]
          exact fun heq => hplace (Except.ok.inj heq).symm
        rw [stored.otherMessages place' hplace, List.filter_singleton, decide_eq_false hother]
        show List.Forall₂ Tells (w.observedIn place' ++ []) _
        rw [List.append_nil]
        exact h.observed place'

/-- The induction rule of `after`: what each request keeps, a run keeps. -/
theorem after_induction {motive : World → Prop} {w : World} (hstart : motive w)
    (hstep : ∀ w' request, motive w' → motive (Request.after json w' request))
    (requests : List Request) : motive (after json w requests) := by
  induction requests generalizing w with
  | nil => exact hstart
  | cons request requests ih => exact ih (hstep w request hstart)

/-- `InStep` is kept by any run of requests. -/
theorem inStep_after {w : World} (h : InStep w) (requests : List Request) :
    InStep (after json w requests) :=
  after_induction json h (fun w' request hw' => hw'.step (step_after json w' request)) requests

/-- The archives of a world begin with those of another one. -/
structure Extends (w w' : World) : Prop where
  /-- The rows of each table are kept, in their order. -/
  messages : ∀ place, (w.files place).messages.contents <+: (w'.files place).messages.contents
  /-- The entries of each index are kept, in their order. -/
  index : ∀ place, (w.files place).messagesFts <+: (w'.files place).messagesFts
  /-- The directory is the same. -/
  dbRoot : w'.dbRoot = w.dbRoot
  /-- The engine is the same. -/
  engine : w'.engine = w.engine

/-- `Extends` is transitive. -/
theorem Extends.trans {w w' w'' : World} (h : Extends w w') (h' : Extends w' w'') : Extends w w'' :=
  ⟨fun place => (h.messages place).trans (h'.messages place),
    fun place => (h.index place).trans (h'.index place), h'.dbRoot.trans h.dbRoot,
    h'.engine.trans h.engine⟩

/-- Under `Extends` the URL of a chat is the same. -/
theorem Extends.url_eq {w w' : World} (h : Extends w w') (chatId : Str) : w'.url chatId = w.url chatId := by
  unfold World.url World.dbPath
  rw [h.dbRoot]

/-- A `Step` changes no row and no entry: it `Extends` the world. -/
theorem Step.extends {w w' : World} (h : Step w w') : Extends w w' := by
  cases h with
  | quiet same =>
    refine ⟨fun place => ?_, fun place => ?_, same.dbRoot, same.engine⟩
    · rw [same.messages]
    · rw [same.index]
  | archives place row msg opened tells stored =>
    refine ⟨fun place' => ?_, fun place' => ?_, stored.dbRoot, stored.engine⟩
    · by_cases hplace : place' = place
      · rw [hplace, stored.messages]
        exact List.prefix_append _ _
      · rw [stored.otherMessages place' hplace]
    · by_cases hplace : place' = place
      · rw [hplace, stored.index]
        exact List.prefix_append _ _
      · rw [stored.otherIndex place' hplace]

/-- A run of requests changes no row and no entry: it `Extends` the world. -/
theorem extends_after (w : World) (requests : List Request) : Extends w (after json w requests) :=
  after_induction json
    ⟨fun _ => List.prefix_rfl, fun _ => List.prefix_rfl, rfl, rfl⟩
    (fun w' request hw' => hw'.trans (step_after json w' request).extends) requests

/-! ## Searching -/

section Search

variable {Token : Type} (tokens : Str → List Token)

/-- The postings that an index holds for a row, by what it has been given. -/
def heldBy (entries : List FtsEntry) (n : Int) : List (Posting Token) :=
  (entries.filter fun entry => entry.rowid = n).flatMap fun entry => postings [tokens entry.text]

/-- The postings `heldBy` a row number are those of the entries with this number. -/
theorem mem_heldBy {entries : List FtsEntry} {n : Int} {p : Posting Token} :
    p ∈ heldBy tokens entries n ↔
      ∃ entry ∈ entries, entry.rowid = n ∧ p ∈ postings [tokens entry.text] := by
  simp only [heldBy, List.mem_flatMap, List.mem_filter, decide_eq_true_eq, and_assoc]

/-- The engine takes a query between quotes as a phrase: it finds the rows whose postings match. -/
def FindsPhrase (fts : List FtsEntry → Str → List Int) (query : Str) : Prop :=
  ∀ entries n, n ∈ fts entries (System.Search.phrase query) ↔
    Matches (heldBy tokens entries n) (tokens query)

/-- The messages that a search in a file finds, without a limit. -/
def World.hits (w : World) (place : Place) (query : Str) : List MessageRow :=
  (w.engine.fts (w.files place).messagesFts (System.Search.phrase query)).filterMap
    (w.files place).messages.find?

/-- `searchFts` answers with the `hits`, up to the limit. -/
theorem eval_searchFts {w : World} {chatId : Str} {place : Place} (hplace : (w.pool chatId).1 = .ok place)
    (query : Str) (limit : Int) : (eval handler (MessageDb.searchFts json chatId query limit) w).1
      = .ok (json.toStr (.array (((w.hits place query).take
        (clamp MessageDb.ftsMaxLimit limit)).map msgRowToJson))) := by
  have hpool := sameArchive_pool w chatId
  unfold MessageDb.searchFts
  have hmatch : ∀ w₁ : World, eval handler (matchMessages place (System.Search.phrase query)
      (clamp MessageDb.ftsMaxLimit limit)) w₁
        = (.ok ((w₁.hits place query).take (clamp MessageDb.ftsMaxLimit limit)), w₁) := by
    intro w₁
    refine (eval_send w₁ place _ _).trans (congrArg (Prod.mk _) ?_)
    exact World.withDb_self w₁ place
  rw [Program.eval_bind, eval_pool, hplace, Program.evalNext_ok, Program.eval_bind, hmatch,
    Program.evalNext_ok, Program.eval_pure, World.hits, hpool.engine, hpool.index, hpool.messages]
  rfl

/-- **Where an index has an entry for each row**, as `InStep` says, the `hits` are the rows that
contain the phrase. -/
theorem InStep.mem_hits_iff {w : World} (h : InStep w) {query : Str}
    (hfts : FindsPhrase tokens w.engine.fts query) (place : Place) (row : MessageRow) :
    row ∈ w.hits place query ↔
      row ∈ (w.files place).messages.contents ∧ Contains [tokens row.text] (tokens query) := by
  have hheld : ∀ row' ∈ (w.files place).messages.contents, ∀ p,
      p ∈ heldBy tokens (w.files place).messagesFts row'.msgId ↔ p ∈ postings [tokens row'.text] := by
    intro row' hrow' p
    rw [mem_heldBy, h.index place]
    constructor
    · rintro ⟨entry, hentry, hid, hp⟩
      obtain ⟨other, hother, rfl⟩ := List.mem_map.mp hentry
      rwa [← Table.eq_of_key_eq hother hrow' hid]
    · intro hp
      exact ⟨row'.entry, List.mem_map_of_mem hrow', rfl, hp⟩
  rw [World.hits, List.mem_filterMap]
  constructor
  · rintro ⟨n, hn, hfind⟩
    obtain ⟨hrow, rfl⟩ := Table.find?_eq_some_iff.mp hfind
    have hmatches := (hfts _ _).mp hn
    rw [FullText.matches_congr (hheld row hrow), FullText.matches_postings_iff] at hmatches
    exact ⟨hrow, hmatches⟩
  · rintro ⟨hrow, hcontains⟩
    refine ⟨row.msgId, (hfts _ _).mpr ?_, Table.find?_key hrow⟩
    rw [FullText.matches_congr (hheld row hrow), FullText.matches_postings_iff]
    exact hcontains

end Search

/-! ## The three stay in step -/

/-- A write of a message: what it archives if it succeeds, is read off its JSON text, and it archives
nothing if it fails. -/
structure Ingests (gid content : Str) (w : World) (result : Except VfsError Unit × World) : Prop where
  /-- Success adds one row to the file of the group, one entry with its id and text to the index, and
  one message that tells of the row to those the session store has been handed. -/
  ok : result.1 = .ok () → ∃ val now place row msg, json.fromStr content = .ok val ∧
    w.engine.locate (w.url gid) = .ok place ∧ row = MessageDb.newRow json val gid now row.msgId ∧
    (∀ given ∈ MessageDb.userMsgId val, row.msgId = given) ∧
    (w.files place).messages.find? row.msgId = none ∧ Tells msg row ∧
    Archives place row msg w result.2
  /-- Failure adds nothing. -/
  error : ∀ e, result.1 = .error e → SameArchive w result.2

/-- `writeMessage` `Ingests` its content. -/
theorem ingests_writeMessage {w : World} (hpooled : w.Pooled) (gid content : Str) :
    Ingests json gid content w (eval handler (MemoryModule.writeMessage json gid content) w) := by
  rcases eval_writeMessage_cases json w gid content with
    ⟨e, w', hrun, hsame⟩ | ⟨val, place, now, id, w', hparse, hplace, hid, hfree, hrun, hstored⟩
  · rw [hrun]
    exact ⟨fun hok => (nomatch hok), fun _ _ => hsame⟩
  · rw [hrun]
    refine ⟨fun _ => ?_, fun _ herror => (nomatch herror)⟩
    exact ⟨val, now, place, _, _, hparse, hpooled.locate hplace, rfl, (Engine.getD_of_idFor hid).2, hfree,
      tells_newRow json val gid now id, hstored⟩

/-- Ingestion keeps table, index and session store in step, in the world after some requests. -/
structure KeepsInStep {Token : Type} (tokens : Str → List Token) (phrases : Set Str) (w₀ : World)
    (requests : List Request) : Prop where
  /-- A write to the messages of a group ingests one message or nothing. -/
  write : ∀ gid rest content, Ingests json gid content (after json w₀ requests)
    (eval handler (MemoryModule.write json (messagesPath gid rest) content) (after json w₀ requests))
  /-- So does a patch. -/
  patch : ∀ gid rest content, Ingests json gid content (after json w₀ requests)
    (eval handler (MemoryModule.patch json (messagesPath gid rest) content) (after json w₀ requests))
  /-- No row and no entry of an earlier world has changed. -/
  kept : ∀ earlier, earlier <+: requests → Extends (after json w₀ earlier) (after json w₀ requests)
  /-- Each index has the entries of the rows, and the session store has been handed the messages that
  the rows tell of. -/
  inStep : InStep (after json w₀ requests)
  /-- A search for a phrase finds the messages that contain it, and answers with these up to its
  limit. -/
  search : ∀ query ∈ phrases, ∀ chatId limit place,
    w₀.engine.locate (w₀.url chatId) = .ok place →
      (eval handler (MessageDb.searchFts json chatId query limit) (after json w₀ requests)).1
          = .ok (json.toStr (.array ((((after json w₀ requests).hits place query).take
            (clamp MessageDb.ftsMaxLimit limit)).map msgRowToJson))) ∧
        ∀ row, row ∈ (after json w₀ requests).hits place query ↔
          row ∈ ((after json w₀ requests).files place).messages.contents ∧
            Contains [tokens row.text] (tokens query)

/-- **Ingestion keeps table, search index and sessions in step** in every run of requests from empty
databases; `phrases` are the queries that the full-text engine takes as phrases. -/
theorem keepsInStep_after {Token : Type} (tokens : Str → List Token) (phrases : Set Str)
    (dbRoot : Str) (clock : Nat → DateTime) (engine : Engine)
    (hfts : ∀ query ∈ phrases, FindsPhrase tokens engine.fts query) (requests : List Request) :
    KeepsInStep json tokens phrases (.start dbRoot clock engine) requests := by
  have hinStep := inStep_after json (inStep_start dbRoot clock engine) requests
  have hextends := extends_after json (.start dbRoot clock engine) requests
  constructor
  · intro gid rest content
    rw [write_messagesPath]
    exact ingests_writeMessage json hinStep.pooled gid content
  · intro gid rest content
    rw [patch_messagesPath]
    exact ingests_writeMessage json hinStep.pooled gid content
  · rintro earlier ⟨later, rfl⟩
    rw [after, after, List.foldl_append]
    exact extends_after json _ later
  · exact hinStep
  · intro query hquery chatId limit place hlocate
    have hplace : ((after json (.start dbRoot clock engine) requests).pool chatId).1 = .ok place := by
      refine hinStep.pooled.pool ?_
      rw [hextends.engine, hextends.url_eq]
      exact hlocate
    refine ⟨eval_searchFts json hplace query limit, fun row => ?_⟩
    have hphrase := hfts query hquery
    rw [show engine.fts = (after json (.start dbRoot clock engine) requests).engine.fts by
      rw [hextends.engine]; rfl] at hphrase
    exact hinStep.mem_hits_iff tokens hphrase place row

/-! ## An engine -/

namespace Scanning

open System.WordScan (words unquote unquote_phrase)

/-- The rows whose words match a phrase, each once. -/
def scan (entries : List FtsEntry) (phrase : Str) : List Int :=
  (entries.map FtsEntry.rowid).dedup.filter fun n =>
    Matches (heldBy words entries n) (words (unquote phrase))

/-- The engine `scan` takes every query as a phrase. -/
theorem findsPhrase_scan (query : Str) : FindsPhrase words scan query := by
  intro entries n
  rw [scan, List.mem_filter, decide_eq_true_iff, unquote_phrase, List.mem_dedup, List.mem_map]
  refine and_iff_right_of_imp fun hmatches => ?_
  obtain ⟨-, first, hfirst, -⟩ := hmatches
  obtain ⟨entry, hentry, hid, -⟩ := (mem_heldBy words).mp hfirst
  exact ⟨entry, hentry, hid⟩

/-- No id is greater than the `max` of the ids and zero. -/
theorem le_foldr_max (ids : List Int) : ∀ id ∈ ids, id ≤ ids.foldr max 0 := by
  induction ids with
  | nil => exact fun _ h => nomatch h
  | cons first ids ih =>
    intro id hid
    rw [List.foldr_cons]
    rcases List.mem_cons.mp hid with rfl | hid
    · exact le_max_left _ _
    · exact (ih id hid).trans (le_max_right _ _)

/-- One more than the greatest id. -/
def nextId (ids : List Int) : Option Int :=
  if ids.foldr max 0 + 1 < 2 ^ 63 then some (ids.foldr max 0 + 1) else none

/-- The file that a connection URL of the memory module names: what stands before the `?` is
percent-decoded, and `.` and `..` in the path are resolved. -/
def locate (url : Str) : Except Str Place :=
  match Str.stripPrefix "sqlite:" url with
  | none => .error "not a connection URL"
  | some rest => match Utf8.decode? (Utf8.percentDecode (rest.takeWhile (· ≠ '?'))) with
    | none => .error "error with configuration: invalid utf-8"
    | some path => .ok ((HostPath.ofStr path).resolve [])

/-- The `max` of the ids and zero is not negative. -/
theorem foldr_max_nonneg (ids : List Int) : 0 ≤ ids.foldr max 0 := by
  induction ids with
  | nil => exact le_refl 0
  | cons first ids ih => exact ih.trans (le_max_right _ _)

/-- An engine that finds the words of a phrase, numbers messages upwards, and keeps the first row. -/
def engine : Engine where
  locate := locate
  freshId := nextId
  fts := scan
  pick rows allowed := rows.find? allowed
  freshId_notMem := by
    intro ids id h hmem
    rw [nextId] at h
    split at h
    · cases h
      have hle := le_foldr_max ids _ hmem
      omega
    · cases h
  freshId_range := by
    intro ids id h
    have hnonneg := foldr_max_nonneg ids
    rw [nextId] at h
    split at h
    · cases h
      omega
    · cases h
  pick_mem := fun h => ⟨List.mem_of_find?_eq_some h, List.find?_some h⟩
  pick_none := fun h row hrow => Bool.eq_false_iff.mpr (List.find?_eq_none.mp h row hrow)

/-- The directory of the databases, with this engine. -/
def world : World := .start "/data/memory" (fun _ => ⟨2026, 3, 20, 10, 0, 0⟩) engine

end Scanning

/-- `KeepsInStep` for two messages under one id, and a text that is not JSON. -/
theorem keepsInStep_after_scanning :
    KeepsInStep JsonText.codec System.WordScan.words Set.univ Scanning.world
      [.write (messagesPath "chat-1" []) "\x7b\"msg_id\": 7, \"text\": \"rust is great\"\x7d",
        .patch (messagesPath "chat-1" []) "\x7b\"msg_id\": 7, \"text\": \"again\"\x7d",
        .write (messagesPath "chat-1" []) "no JSON"] :=
  keepsInStep_after JsonText.codec System.WordScan.words Set.univ "/data/memory" _ Scanning.engine
    (fun query _ => Scanning.findsPhrase_scan query) _

end LogosFs.Memory
