import LogosFs.Sessions.Store

/-! # The L2 tables

Sessions that leave memory are stored in a LanceDB database: a table of sessions, and a table that
maps messages to them. The code finds rows by predicates of the form `column = 'value'` that it
writes as text, and LanceDB reads (`Lance`). Each call on L2 is several steps, any of which may fail
and leaves what the earlier ones did. What the outside decides on a call is its `Fate`. -/

namespace LogosFs.Sessions

/-- The predicate `column = 'value'`, as the code writes it. -/
def equals (column value : Str) : Str := column ++ " = '".toList ++ value ++ ['\'']

/-- How LanceDB reads a predicate: it is refused, or it selects rows by their columns. -/
structure Lance where
  /-- What a text selects. -/
  parse : Str → Option ((Str → Option Str) → Bool)
  /-- A value without quotes is compared with the column. -/
  parse_equals : ∀ {column value : Str}, (∀ c ∈ column, c.isAlpha ∨ c = '_') → '\'' ∉ value →
    parse (equals column value) = some fun row => row column == some value

namespace Lance

/-- Read a comparison of a column with a value without quotes, and nothing else. -/
def comparison (text : Str) : Option ((Str → Option Str) → Bool) :=
  let column := text.takeWhile fun c => c.isAlpha || c == '_'
  match Str.stripPrefix " = '".toList (text.drop column.length) with
  | none => none
  | some rest => match rest.splitOn '\'' with
    | [value, []] => some fun row => row column == some value
    | _ => none

/-- `comparison` reads what `equals` writes as the equality with the value, if that has no quote. -/
theorem comparison_equals {column value : Str} (hcolumn : ∀ c ∈ column, c.isAlpha ∨ c = '_')
    (hvalue : '\'' ∉ value) :
    comparison (equals column value) = some fun row => row column == some value := by
  have htext : equals column value = column ++ (" = '".toList ++ (value ++ ['\''])) := by
    simp only [equals, List.append_assoc]
  have htake : (equals column value).takeWhile (fun c => c.isAlpha || c == '_') = column := by
    rw [htext, List.takeWhile_append_of_pos fun c hc => by simpa using hcolumn c hc]
    exact List.append_nil column
  have hsplit : (value ++ ['\'']).splitOn '\'' = [value, []] := by
    rw [Str.splitOn_append_cons, Str.splitOn_of_notMem hvalue]
    rfl
  unfold comparison
  rw [htake, htext]
  dsimp only
  rw [List.drop_left, Str.stripPrefix_append]
  simp only [hsplit]

/-- A LanceDB that reads such comparisons only. -/
def comparing : Lance := ⟨comparison, comparison_equals⟩

end Lance

/-- A row of the table of sessions. -/
structure SessionRow where
  /-- The id of the session. -/
  sessionId : Str
  /-- The chat. -/
  chatId : Str
  /-- The session itself, from its JSON text. -/
  data : Session
deriving DecidableEq, Repr

/-- The columns of the table of sessions that predicates are about. -/
def SessionRow.column (row : SessionRow) (name : Str) : Option Str :=
  if name = "session_id".toList then some row.sessionId
  else if name = "chat_id".toList then some row.chatId
  else none

/-- A row of the table from messages to sessions. -/
structure MsgIndexRow where
  /-- The id of the message, in decimal notation. -/
  msgId : Str
  /-- The id of the session. -/
  sessionId : Str
deriving DecidableEq, Repr

/-- The columns of the table from messages to sessions. -/
def MsgIndexRow.column (row : MsgIndexRow) (name : Str) : Option Str :=
  if name = "msg_id".toList then some row.msgId
  else if name = "session_id".toList then some row.sessionId
  else none

/-- The tables. -/
structure Tables where
  /-- The sessions. -/
  sessions : List SessionRow
  /-- From messages to sessions. -/
  msgIndex : List MsgIndexRow
deriving DecidableEq, Repr

/-- A step of a call on L2. -/
inductive L2Step where
  /-- Request an embedding. -/
  | embed
  /-- Check the dimension of the embedding. -/
  | dimension
  /-- Open the table of sessions. -/
  | openSessions
  /-- Query the table of sessions. -/
  | querySessions
  /-- Delete from the table of sessions. -/
  | deleteSessions
  /-- Add to the table of sessions. -/
  | addSession
  /-- Open the table from messages to sessions. -/
  | openMsgIndex
  /-- Query the table from messages to sessions. -/
  | queryMsgIndex
  /-- Delete a message from the table from messages to sessions. -/
  | deleteMsg (msgId : Int)
  /-- Delete a session from the table from messages to sessions. -/
  | deleteMsgs
  /-- Add to the table from messages to sessions. -/
  | addMsgs
deriving DecidableEq, Repr

/-- What the outside decides about an operation of the session store. -/
structure Fate where
  /-- The time, and the order of iteration. -/
  moment : Moment
  /-- The steps that fail. -/
  fails : L2Step → Bool
  /-- The order in which the rows of sessions come that a query selects. -/
  sessionsOrder : List SessionRow → List SessionRow
  /-- All of them come. -/
  sessionsOrder_perm : ∀ rows, (sessionsOrder rows).Perm rows
  /-- The order in which the rows for messages come that a query selects. -/
  msgIndexOrder : List MsgIndexRow → List MsgIndexRow
  /-- All of them come. -/
  msgIndexOrder_perm : ∀ rows, (msgIndexOrder rows).Perm rows
  /-- The row that is near enough to an embedding, if there is one. -/
  nearest : List SessionRow → Option SessionRow
  /-- It is one of the rows. -/
  nearest_mem : ∀ {rows row}, nearest rows = some row → row ∈ rows

/-- An operation at a point in time on which nothing fails and nothing is near. -/
def Fate.calm (now : DateTime) : Fate where
  moment := ⟨now, .inOrder⟩
  fails _ := false
  sessionsOrder rows := rows
  sessionsOrder_perm _ := .refl _
  msgIndexOrder rows := rows
  msgIndexOrder_perm _ := .refl _
  nearest _ := none
  nearest_mem h := nomatch h

/-- A call on L2. -/
abbrev L2M (α : Type) : Type := ExceptT L2Step (StateM Tables) α

/-- The outcome of a call, and the tables after it. -/
def L2M.exec {α : Type} (call : L2M α) (t : Tables) : Except L2Step α × Tables := call.run.run t

namespace L2Store

variable (lance : Lance) (fate : Fate)

/-- Take a step that may fail. -/
def attempt (step : L2Step) : L2M Unit := if fate.fails step then throw step else pure ()

/-- Go on whatever the outcome. -/
def ignoreError (call : L2M Unit) : L2M Unit := tryCatch call fun _ => pure ()

/-- What a predicate selects. -/
def selecting (step : L2Step) (predicate : Str) : L2M ((Str → Option Str) → Bool) := do
  attempt fate step
  match lance.parse predicate with
  | some selects => pure selects
  | none => throw step

/-- Store the messages of a session in the table from messages to sessions. -/
def updateMsgIndex (session : Session) : L2M Unit := do
  attempt fate .openMsgIndex
  session.messages.forM fun msg => ignoreError do
    let selects ← selecting lance fate (.deleteMsg msg.msgId)
      (equals "msg_id".toList (Str.ofInt msg.msgId))
    modify fun t => { t with msgIndex := t.msgIndex.filter fun row => !selects row.column }
  attempt fate .addMsgs
  modify fun t => { t with
    msgIndex := t.msgIndex ++ session.messages.map fun msg =>
      ⟨Str.ofInt msg.msgId, session.sessionId⟩ }

/-- Store a session, in the place of the rows that it had. -/
def persist (session : Session) : L2M Unit := do
  attempt fate .embed
  attempt fate .openSessions
  ignoreError do
    let selects ← selecting lance fate .deleteSessions
      (equals "session_id".toList session.sessionId)
    modify fun t => { t with sessions := t.sessions.filter fun row => !selects row.column }
  attempt fate .dimension
  attempt fate .addSession
  modify fun t => { t with
    sessions := t.sessions ++ [⟨session.sessionId, session.chatId, session⟩] }
  updateMsgIndex lance fate session

/-- Delete a session. -/
def delete (sessionId : Str) : L2M Unit := do
  attempt fate .openSessions
  let selects ← selecting lance fate .deleteSessions (equals "session_id".toList sessionId)
  modify fun t => { t with sessions := t.sessions.filter fun row => !selects row.column }
  attempt fate .openMsgIndex
  let selects ← selecting lance fate .deleteMsgs (equals "session_id".toList sessionId)
  modify fun t => { t with msgIndex := t.msgIndex.filter fun row => !selects row.column }

/-- The session in the first row, if there is a row. -/
def extractSession (rows : List SessionRow) : Option Session := rows.head?.map SessionRow.data

/-- Load a session by its id. -/
def loadById (sessionId : Str) : L2M (Option Session) := do
  attempt fate .openSessions
  let selects ← selecting lance fate .querySessions (equals "session_id".toList sessionId)
  let t ← get
  pure (extractSession (fate.sessionsOrder (t.sessions.filter fun row => selects row.column)))

/-- Load the session that a message is in. -/
def loadByMsg (msgId : Int) : L2M (Option Session) := do
  attempt fate .openMsgIndex
  let selects ← selecting lance fate .queryMsgIndex (equals "msg_id".toList (Str.ofInt msgId))
  let t ← get
  match (fate.msgIndexOrder (t.msgIndex.filter fun row => selects row.column)).head? with
  | some row => loadById lance fate row.sessionId
  | none => pure none

/-- Find the most similar session of a chat. Which one it is, and whether it is similar enough, is
not for the tables to say. -/
def semanticSearch (chatId : Str) : L2M (Option Session) := do
  attempt fate .embed
  attempt fate .openSessions
  let selects ← selecting lance fate .querySessions (equals "chat_id".toList chatId)
  let t ← get
  pure ((fate.nearest (t.sessions.filter fun row => selects row.column)).map SessionRow.data)

end L2Store

end LogosFs.Sessions
