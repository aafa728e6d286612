import LogosFs.Lib.HashMap
import LogosFs.Lib.HostPath
import LogosFs.Lib.Json
import LogosFs.Lib.Like
import LogosFs.Lib.Program
import LogosFs.Lib.Table
import LogosFs.Sessions.Store
import LogosFs.System.Schema
import LogosFs.Vfs.Uri

/-! # The databases of the groups

Each group has a database file of its own, with the archive of its messages, a full-text index over
them, and the tables of the plugins. A file is opened through a pool, which is kept under the chat id
it was asked for by. The statements are one operation each and commit on their own.

What SQLite leaves open is an `Engine`: which file a connection URL opens, which id a message without
one gets, in which order the full-text index finds, and which row `LIMIT 1` keeps. -/

namespace LogosFs.Memory

open Sessions (MsgRef)
open LogosFs.System (DateTime)

/-! ## Tables -/

/-- A row of `messages`. -/
structure MessageRow where
  /-- The primary key. -/
  msgId : Int
  /-- The time of the message, as text. -/
  ts : Str
  /-- The chat. -/
  chatId : Str
  /-- The speaker. -/
  speaker : Str
  /-- The message it replies to. -/
  replyTo : Option Int
  /-- The text. -/
  text : Str
  /-- The JSON text of an array. -/
  mentions : Str
deriving DecidableEq, Repr

/-- What the full-text index has been given: the number of a row and its text. -/
structure FtsEntry where
  /-- The number of the row. -/
  rowid : Int
  /-- The text. -/
  text : Str
deriving DecidableEq, Repr

/-- A row of `summaries`. -/
structure SummaryRow where
  /-- The primary key. -/
  id : Int
  /-- The chat. -/
  chatId : Str
  /-- The layer: `short`, `mid` or `long`. -/
  layer : Str
  /-- The period it starts with. -/
  periodStart : Str
  /-- The period it ends with. -/
  periodEnd : Str
  /-- JSON text. -/
  sourceRefs : Str
  /-- The summary. -/
  content : Str
  /-- When it was written, as text. -/
  generatedAt : Str
deriving DecidableEq, Repr

/-- A row of `triples`. -/
structure TripleRow where
  /-- The subject. -/
  subject : Str
  /-- The predicate. -/
  predicate : Str
  /-- The object. -/
  object : Str
  /-- JSON text. -/
  sourceRefs : Str
  /-- When it was written, as text. -/
  updatedAt : Str
deriving DecidableEq, Repr

/-- The primary key of `triples`. -/
def TripleRow.key (row : TripleRow) : Str × Str × Str := (row.subject, row.predicate, row.object)

/-- The database of a group. -/
structure ChatDb where
  /-- The archive of messages. -/
  messages : Table MessageRow Int MessageRow.msgId
  /-- What the full-text index has been given, in order. -/
  messagesFts : List FtsEntry
  /-- The summaries, in the order of their ids. -/
  summaries : List SummaryRow
  /-- The triples. -/
  triples : List TripleRow

/-- A new database. -/
def ChatDb.empty : ChatDb := ⟨.empty, [], [], []⟩

/-- A database file. -/
abbrev Place : Type := List Str

/-! ## The engine -/

/-- What SQLite and the file system decide. -/
structure Engine where
  /-- The file that a connection URL opens, or why it opens none. -/
  locate : Str → Except Str Place
  /-- The id of a row that is inserted without one, given the ids in use; there may be none left. -/
  freshId : List Int → Option Int
  /-- The rows that the index finds for a phrase, best match first. -/
  fts : List FtsEntry → Str → List Int
  /-- The row that `LIMIT 1` keeps of those rows of a table that the statement allows. -/
  pick : List SummaryRow → (SummaryRow → Bool) → Option SummaryRow
  /-- A fresh id is not in use. -/
  freshId_notMem : ∀ {ids id}, freshId ids = some id → id ∉ ids
  /-- A fresh id is an integer of 64 bits. -/
  freshId_range : ∀ {ids id}, freshId ids = some id → -2 ^ 63 ≤ id ∧ id < 2 ^ 63
  /-- The row that is kept is one of those that are allowed. -/
  pick_mem : ∀ {rows allowed row}, pick rows allowed = some row → row ∈ rows ∧ allowed row = true
  /-- No row is kept only if none is allowed. -/
  pick_none : ∀ {rows allowed}, pick rows allowed = none → ∀ row ∈ rows, allowed row = false

/-! ## Statements -/

/-- A query for one summary of a chat and a layer. -/
inductive SummaryQuery where
  /-- `ORDER BY period_start DESC LIMIT 1` -/
  | latest
  /-- `period_start LIKE … ORDER BY period_start DESC LIMIT 1` -/
  | like (pattern : Str)
  /-- `period_start = … LIMIT 1` -/
  | at (period : Str)
deriving DecidableEq, Repr

/-- A statement on the database of a group. -/
inductive Statement where
  /-- `INSERT INTO messages (msg_id, …) VALUES (…)`, where the id may be `NULL`. The row is given for
  the id that it gets. -/
  | insertMessage (msgId : Option Int) (row : Int → MessageRow)
  /-- `INSERT INTO messages_fts(rowid, text) VALUES (…)` -/
  | insertMessageFts (rowid : Int) (text : Str)
  /-- `SELECT … FROM messages WHERE msg_id = …` -/
  | selectMessage (msgId : Int)
  /-- `SELECT … FROM messages_fts f JOIN messages m ON m.msg_id = f.rowid WHERE messages_fts MATCH …
  ORDER BY f.rank LIMIT …` -/
  | matchMessages (phrase : Str) (limit : Nat)
  /-- `SELECT … FROM messages WHERE ((msg_id >= … AND msg_id <= …) OR …) ORDER BY msg_id ASC LIMIT …
  OFFSET …` -/
  | rangeMessages (ranges : List (Int × Int)) (limit offset : Nat)
  /-- `SELECT … FROM messages WHERE chat_id = … AND speaker = … ORDER BY msg_id DESC LIMIT …`, with
  the condition on the speaker where one is given. -/
  | recentMessages (chatId : Str) (speaker : Option Str) (limit : Nat)
  /-- `INSERT INTO summaries (chat_id, …) VALUES (…)`. The row is given for the id that it gets. -/
  | insertSummary (row : Int → SummaryRow)
  /-- `SELECT … FROM summaries WHERE chat_id = … AND layer = … …` -/
  | selectSummary (chatId layer : Str) (query : SummaryQuery)
  /-- `INSERT OR REPLACE INTO triples (…) VALUES (…)` -/
  | replaceTriple (row : TripleRow)
  /-- `SELECT DISTINCT subject FROM triples ORDER BY subject` -/
  | listSubjects
  /-- `SELECT … FROM triples WHERE subject = … ORDER BY predicate` -/
  | selectTriples (subject : Str)

/-- What a statement answers with. -/
def Statement.Answer : Statement → Type
  | .insertMessage .. => Int
  | .selectMessage _ => Option MessageRow
  | .matchMessages .. | .rangeMessages .. | .recentMessages .. => List MessageRow
  | .selectSummary .. => Option SummaryRow
  | .listSubjects => List Str
  | .selectTriples _ => List TripleRow
  | _ => Unit

/-- The rows of a chat and a layer that a query allows. -/
def SummaryQuery.allows (query : SummaryQuery) (chatId layer : Str) (rows : List SummaryRow)
    (row : SummaryRow) : Bool :=
  let meets (row : SummaryRow) : Bool := row.chatId = chatId && row.layer = layer &&
    match query with
    | .latest => true
    | .like pattern => Like.matchesPattern pattern row.periodStart
    | .at period => row.periodStart = period
  match query with
  | .at _ => meets row
  | _ => meets row && rows.all fun other => !meets other || other.periodStart ≤ row.periodStart

/-- The id that a message gets: the one it comes with, or a fresh one. -/
def Engine.idFor (engine : Engine) (messages : Table MessageRow Int MessageRow.msgId)
    (msgId : Option Int) : Option Int :=
  msgId.or (engine.freshId (messages.contents.map MessageRow.msgId))

/-- What a statement does: its answer, and the database after it. -/
def exec (engine : Engine) : (statement : Statement) → ChatDb →
    Except Str statement.Answer × ChatDb
  | .insertMessage msgId row, db =>
    match engine.idFor db.messages msgId with
    | none => (.error (VfsError.database 13 "database or disk is full"), db)
    | some id => match db.messages.insert? (row id) with
      | some messages => (.ok id, { db with messages := messages })
      | none => (.error (VfsError.database 1555 "UNIQUE constraint failed: messages.msg_id"), db)
  | .insertMessageFts rowid text, db =>
    (.ok (), { db with messagesFts := db.messagesFts ++ [⟨rowid, text⟩] })
  | .selectMessage msgId, db => (.ok (db.messages.find? msgId), db)
  | .matchMessages phrase limit, db =>
    (.ok (((engine.fts db.messagesFts phrase).filterMap db.messages.find?).take limit), db)
  | .rangeMessages ranges limit offset, db =>
    (.ok (((((db.messages.contents.filter fun row =>
      ranges.any fun range => range.1 ≤ row.msgId && row.msgId ≤ range.2).mergeSort
        fun row row' => row.msgId ≤ row'.msgId)).drop offset).take limit), db)
  | .recentMessages chatId speaker limit, db =>
    (.ok (((db.messages.contents.filter fun row =>
      row.chatId = chatId ∧ ∀ name ∈ speaker, row.speaker = name).mergeSort
        fun row row' => row'.msgId ≤ row.msgId).take limit), db)
  | .insertSummary row, db =>
    (.ok (), { db with summaries := db.summaries ++ [row (db.summaries.length + 1)] })
  | .selectSummary chatId layer query, db =>
    (.ok (engine.pick db.summaries (query.allows chatId layer db.summaries)), db)
  | .replaceTriple row, db =>
    (.ok (), { db with triples := (db.triples.filter fun old => old.key ≠ row.key) ++ [row] })
  | .listSubjects, db =>
    (.ok ((db.triples.map TripleRow.subject).dedup.mergeSort fun subject subject' =>
      subject ≤ subject'), db)
  | .selectTriples subject, db =>
    (.ok ((db.triples.filter fun row => row.subject = subject).mergeSort fun row row' =>
      row.predicate ≤ row'.predicate), db)

/-! ## The surroundings of the memory module -/

/-- What the memory module asks of its surroundings. -/
inductive MemoryOp where
  /-- Get or make the pool of a chat, under the lock of the pools. -/
  | pool (chatId : Str)
  /-- Read the clock. -/
  | now
  /-- Send a statement to a database. -/
  | sql (place : Place) (statement : Statement)
  /-- Hand a message to the session store. -/
  | observe (msg : MsgRef)

/-- The operations of the memory module. -/
abbrev MemorySig : Signature where
  Op := MemoryOp
  Res
    | .pool _ => Except VfsError Place
    | .now => DateTime
    | .sql _ statement => Except Str statement.Answer
    | .observe _ => Unit

/-- What the memory module runs in. -/
structure World where
  /-- The directory of the databases. -/
  dbRoot : Str
  /-- The pools that have been made, by chat id, each with the file that it opened. -/
  pools : HashMap Str Place
  /-- The files; one that is not there yet is an empty database. -/
  files : Place → ChatDb
  /-- The messages that the session store has been handed, in order. -/
  observed : List MsgRef
  /-- The times the clock will show, reading by reading. -/
  clock : Nat → DateTime
  /-- What SQLite decides. -/
  engine : Engine

namespace World

/-- Nothing has been opened, stored or observed yet. -/
def start (dbRoot : Str) (clock : Nat → DateTime) (engine : Engine) : World :=
  ⟨dbRoot, .empty, fun _ => .empty, [], clock, engine⟩

/-- The path of a chat's database. -/
def dbPath (w : World) (chatId : Str) : Str := HostPath.joinText w.dbRoot (chatId ++ ".db")

/-- The connection URL of a chat's database. -/
def url (w : World) (chatId : Str) : Str := "sqlite:" ++ w.dbPath chatId ++ "?mode=rwc"

/-- Get or make the pool of a chat. -/
def pool (w : World) (chatId : Str) : Except VfsError Place × World :=
  match w.pools.get chatId with
  | some place => (.ok place, w)
  | none => match w.engine.locate (w.url chatId) with
    | .ok place => (.ok place, { w with pools := w.pools.insert chatId place })
    | .error e => (.error (.sqlite ("open " ++ w.dbPath chatId ++ ": " ++ e)), w)

/-- The world after one reading of the clock. -/
def tick (w : World) : World := { w with clock := fun n => w.clock (n + 1) }

/-- The world with another database in a file. -/
def withDb (w : World) (place : Place) (db : ChatDb) : World :=
  { w with files := Function.update w.files place db }

/-- The world after the session store has been handed one more message. -/
def observing (w : World) (msg : MsgRef) : World := { w with observed := w.observed ++ [msg] }

end World

/-- What an operation of the memory module does. -/
def handler : Handler MemorySig World
  | .pool chatId, w => w.pool chatId
  | .now, w => (w.clock 0, w.tick)
  | .sql place statement, w =>
    ((exec w.engine statement (w.files place)).1,
      w.withDb place (exec w.engine statement (w.files place)).2)
  | .observe msg, w => ((), w.observing msg)

open Program (eval)

/-- A program of the memory module that may fail. -/
abbrev MemoryM (α : Type) : Type := ExceptT VfsError (Program MemorySig) α

/-- Read the clock. -/
def utcNow : MemoryM DateTime := liftM (Program.perform (S := MemorySig) .now)

/-- Send a statement; a failure of the database becomes an error with `context` in front. -/
def send (context : Str) (place : Place) (statement : Statement) : MemoryM statement.Answer :=
  Program.attempt (Program.perform (S := MemorySig) (.sql place statement) >>= fun answer =>
    .done (answer.mapError fun e => .sqlite (context ++ e)))

/-- Hand a message to the session store. -/
def observe (msg : MsgRef) : MemoryM Unit := liftM (Program.perform (S := MemorySig) (.observe msg))

/-- Parse a text as JSON. -/
def parseJson (json : JsonCodec) (text : Str) : MemoryM Json :=
  match json.fromStr text with
  | .ok value => pure value
  | .error e => throw (.invalidJson e)

/-! ## Operations performed alone -/

section Alone

variable (w : World) (place place' : Place) (db : ChatDb) (msg : MsgRef) (n : Nat)

/-- `tick` leaves the files alone. -/
@[simp] theorem World.tick_files : w.tick.files = w.files := rfl

/-- `tick` leaves the engine alone. -/
@[simp] theorem World.tick_engine : w.tick.engine = w.engine := rfl

/-- `tick` leaves the pools alone. -/
@[simp] theorem World.tick_pools : w.tick.pools = w.pools := rfl

/-- `tick` leaves what was observed alone. -/
@[simp] theorem World.tick_observed : w.tick.observed = w.observed := rfl

/-- `tick` leaves the URL of every chat alone. -/
@[simp] theorem World.tick_url (chatId : Str) : w.tick.url chatId = w.url chatId := rfl

/-- `withDb` leaves the engine alone. -/
@[simp] theorem World.withDb_engine : (w.withDb place db).engine = w.engine := rfl

/-- `withDb` leaves the pools alone. -/
@[simp] theorem World.withDb_pools : (w.withDb place db).pools = w.pools := rfl

/-- `withDb` leaves what was observed alone. -/
@[simp] theorem World.withDb_observed : (w.withDb place db).observed = w.observed := rfl

/-- `withDb` leaves the clock alone. -/
@[simp] theorem World.withDb_clock : (w.withDb place db).clock = w.clock := rfl

/-- `withDb` leaves the URL of every chat alone. -/
@[simp] theorem World.withDb_url (chatId : Str) : (w.withDb place db).url chatId = w.url chatId := rfl

/-- `observing` leaves the files alone. -/
@[simp] theorem World.observing_files : (w.observing msg).files = w.files := rfl

/-- `observing` leaves the engine alone. -/
@[simp] theorem World.observing_engine : (w.observing msg).engine = w.engine := rfl

/-- `observing` leaves the pools alone. -/
@[simp] theorem World.observing_pools : (w.observing msg).pools = w.pools := rfl

/-- `observing` appends the message to what was observed. -/
@[simp] theorem World.observing_observed : (w.observing msg).observed = w.observed ++ [msg] := rfl

/-- `observing` leaves the URL of every chat alone. -/
@[simp] theorem World.observing_url (chatId : Str) : (w.observing msg).url chatId = w.url chatId := rfl

/-- `withDb` sets the database in its place. -/
@[simp] theorem World.withDb_files_self : (w.withDb place db).files place = db :=
  Function.update_self ..

/-- `withDb` leaves the databases in other places alone. -/
theorem World.withDb_files_ne (h : place' ≠ place) : (w.withDb place db).files place' = w.files place' :=
  Function.update_of_ne h ..

/-- `withDb` of the database that is in the place changes nothing. -/
@[simp] theorem World.withDb_self : w.withDb place (w.files place) = w := by
  rw [withDb, Function.update_eq_self]

/-- The second `withDb` of one place overrides the first. -/
@[simp] theorem World.withDb_withDb (db' : ChatDb) :
    (w.withDb place db).withDb place db' = w.withDb place db' := by
  simp only [withDb, Function.update_idem]

/-- `utcNow` answers the next reading of the clock, which `tick` takes away. -/
@[simp] theorem eval_utcNow : eval handler utcNow w = (.ok (w.clock 0), w.tick) := by
  simp only [utcNow, Program.eval_lift]; rfl

/-- A statement sent alone does what `exec` says. -/
theorem eval_send (context : Str) (statement : Statement) :
    eval handler (send context place statement) w
      = ((exec w.engine statement (w.files place)).1.mapError fun e => .sqlite (context ++ e),
        w.withDb place (exec w.engine statement (w.files place)).2) := by
  simp only [send, Program.eval_attempt, Program.run_bind]; rfl

/-- `observe` records the message and never fails. -/
@[simp] theorem eval_observe : eval handler (observe msg) w = (.ok (), w.observing msg) := by
  simp only [observe, Program.eval_lift]; rfl

end Alone

end LogosFs.Memory
