import LogosFs.Lib.SqlText
import LogosFs.Sessions.Tables

/-! # What the filters select

The predicates of L2 carry ids of sessions and chats, and these come from the outside. A predicate is
meant to compare a column with an id; as a text it does so only if the id has no quote in it.
`selectsByEquality_iff` says so for a chat and the sessions that are named after it, and what the calls
on L2 then do. -/

namespace LogosFs.Sessions

open L2Store

namespace Lance

/-- A LanceDB that reads predicates as SQL does, as far as they are comparisons. -/
def sql : Lance where
  parse text := (SqlText.readComparison text).map fun (column, value) row => row column == some value
  parse_equals {column value} hcolumn hvalue := by
    have hword : ∀ c ∈ column, SqlText.isWordChar c := fun c hc => by
      simpa [SqlText.isWordChar] using hcolumn c hc
    rw [equals, (SqlText.readComparison_verbatim_iff hword).mpr hvalue]
    rfl

end Lance

/-- The predicate that the code writes for a column and a value compares the column with the
value. -/
def ReadsAsEquality (column value : Str) : Prop :=
  SqlText.readComparison (equals column value) = some (column, value)

/-- `ReadsAsEquality` holds of a comparison exactly if its value has no quote in it. -/
theorem readsAsEquality_iff {column value : Str} (hcolumn : ∀ c ∈ column, c.isAlpha ∨ c = '_') :
    ReadsAsEquality column value ↔ '\'' ∉ value :=
  SqlText.readComparison_verbatim_iff fun c hc => by
    simpa [SqlText.isWordChar] using hcolumn c hc

/-- The sessions that are named after the chat. -/
def NamedAfter (chatId sessionId : Str) : Prop :=
  ∃ now msg, (Session.new now chatId msg).sessionId = sessionId

/-- The predicates about a chat and its sessions are comparisons, and the calls on L2 that pass them
concern the chat and the session only. -/
structure SelectsByEquality (chatId : Str) : Prop where
  /-- What `persist`, `delete` and `loadById` pass about a session. -/
  session : ∀ sessionId, NamedAfter chatId sessionId →
    ReadsAsEquality "session_id" sessionId
  /-- What `persist` passes about a message. -/
  message : ∀ msgId, ReadsAsEquality "msg_id" (Str.ofInt msgId)
  /-- What `semanticSearch` passes about the chat. -/
  chat : ReadsAsEquality "chat_id" chatId
  /-- Storing a session leaves the rows of the others. -/
  persist : ∀ lance fate session t, NamedAfter chatId session.sessionId →
    others session.sessionId ((L2Store.persist lance fate session).exec t).2.sessions
      = others session.sessionId t.sessions
  /-- Deleting a session leaves the rows of the others. -/
  delete : ∀ lance fate sessionId t, NamedAfter chatId sessionId →
    others sessionId ((L2Store.delete lance fate sessionId).exec t).2.sessions
      = others sessionId t.sessions
  /-- A session that is loaded is in a row under the id. -/
  loadById : ∀ lance fate sessionId t session, NamedAfter chatId sessionId →
    ((L2Store.loadById lance fate sessionId).exec t).1 = .ok (some session) →
    ∃ row ∈ t.sessions, row.sessionId = sessionId ∧ row.data = session
  /-- A session that is found is in a row under the chat. -/
  semanticSearch : ∀ lance fate t session,
    ((L2Store.semanticSearch lance fate chatId).exec t).1 = .ok (some session) →
    ∃ row ∈ t.sessions, row.chatId = chatId ∧ row.data = session

section

variable {lance : Lance} {fate : Fate} {chatId sessionId : Str}

/-- An id that is `NamedAfter` a chat has the quotes of the chat, and no others. -/
theorem quote_notMem_of_namedAfter (h : NamedAfter chatId sessionId) (hchat : '\'' ∉ chatId) :
    '\'' ∉ sessionId := by
  obtain ⟨now, msg, rfl⟩ := h
  intro hmem
  rw [Session.new, List.append_assoc, List.mem_append, List.mem_append, List.mem_cons] at hmem
  rcases hmem with hmem | hmem | hmem | hmem
  · exact absurd hmem (by decide)
  · exact hchat hmem
  · exact absurd hmem (by decide)
  · exact quote_notMem_ofInt _ hmem

/-- `others` of what is left are those there were. -/
theorem others_others (sessionId : Str) (rows : List SessionRow) :
    others sessionId (others sessionId rows) = others sessionId rows := by
  rw [others, others, List.filter_filter]
  simp only [Bool.and_self]

/-- `persist`, whatever fails, leaves the `others`. -/
theorem others_persist {session : Session} (hquote : '\'' ∉ session.sessionId) (t : Tables) :
    others session.sessionId ((persist lance fate session).exec t).2.sessions
      = others session.sessionId t.sessions := by
  have happend : ∀ rows : List SessionRow,
      others session.sessionId (rows ++ [rowOf session]) = others session.sessionId rows := by
    intro rows
    have hown : others session.sessionId [rowOf session] = [] :=
      List.filter_eq_nil_iff.mpr fun row hrow => by
        rw [List.mem_singleton.mp hrow]
        simp [rowOf]
    rw [others, List.filter_append]
    exact (congrArg _ hown).trans (List.append_nil _)
  rw [sessions_persist hquote]
  split
  · rfl
  · split <;> split <;> simp only [List.append_nil, happend, others_others]

/-- `delete`, whatever fails, leaves the `others`. -/
theorem others_delete (hquote : '\'' ∉ sessionId) (t : Tables) :
    others sessionId ((delete lance fate sessionId).exec t).2.sessions
      = others sessionId t.sessions := by
  rw [sessions_delete hquote]
  split
  · rfl
  · exact others_others ..

/-- A session that `loadById` answers is in a row under the id. -/
theorem mem_of_loadById (hquote : '\'' ∉ sessionId) {t : Tables} {session : Session}
    (h : ((loadById lance fate sessionId).exec t).1 = .ok (some session)) :
    ∃ row ∈ t.sessions, row.sessionId = sessionId ∧ row.data = session := by
  rw [loadById, exec_attempt_bind] at h
  split at h
  · cases h
  rw [exec_selecting_bind sessionId_column hquote] at h
  split at h
  · cases h
  have hload : extractSession (fate.sessionsOrder
      (t.sessions.filter fun row => row.sessionId == sessionId)) = some session :=
    Except.ok.inj h
  obtain ⟨row, hhead, hdata⟩ := Option.map_eq_some_iff.mp hload
  have hmem := (fate.sessionsOrder_perm _).mem_iff.mp (List.mem_of_head? hhead)
  rw [List.mem_filter, beq_iff_eq] at hmem
  exact ⟨row, hmem.1, hmem.2, hdata⟩

/-- A session that `semanticSearch` answers is in a row under the chat. -/
theorem mem_of_semanticSearch (hquote : '\'' ∉ chatId) {t : Tables} {session : Session}
    (h : ((semanticSearch lance fate chatId).exec t).1 = .ok (some session)) :
    ∃ row ∈ t.sessions, row.chatId = chatId ∧ row.data = session := by
  rw [semanticSearch, exec_attempt_bind] at h
  split at h
  · cases h
  rw [exec_attempt_bind] at h
  split at h
  · cases h
  rw [exec_selecting_bind chatId_column hquote] at h
  split at h
  · cases h
  have hsearch : (fate.nearest (t.sessions.filter fun row => row.chatId == chatId)).map
      SessionRow.data = some session := Except.ok.inj h
  obtain ⟨row, hnearest, hdata⟩ := Option.map_eq_some_iff.mp hsearch
  have hmem := fate.nearest_mem hnearest
  rw [List.mem_filter, beq_iff_eq] at hmem
  exact ⟨row, hmem.1, hmem.2, hdata⟩

end

/-- **The filters select by equality**: `SelectsByEquality` holds exactly for the chats without a
quote in their id. -/
theorem selectsByEquality_iff (chatId : Str) : SelectsByEquality chatId ↔ '\'' ∉ chatId := by
  constructor
  · intro h
    exact (readsAsEquality_iff chatId_column).mp h.chat
  · intro hchat
    have hsession := fun sessionId (h : NamedAfter chatId sessionId) =>
      quote_notMem_of_namedAfter h hchat
    exact {
      session := fun sessionId h =>
        (readsAsEquality_iff sessionId_column).mpr (hsession sessionId h)
      message := fun msgId => (readsAsEquality_iff msgId_column).mpr (quote_notMem_ofInt msgId)
      chat := (readsAsEquality_iff chatId_column).mpr hchat
      persist := fun _ _ session t h => others_persist (hsession session.sessionId h) t
      delete := fun _ _ sessionId t h => others_delete (hsession sessionId h) t
      loadById := fun _ _ sessionId _ _ h => mem_of_loadById (hsession sessionId h)
      semanticSearch := fun _ _ _ _ => mem_of_semanticSearch hchat }

/-- A message of the chat `a'b`. -/
def msgOfQuote : MsgRef := ⟨1, "a'b", none, "hello", "u-1", "2026-03-20T10:00:00Z"⟩

/-- With two quotes in the id of the chat, deleting its session `s-a''b-1` deletes `s-a'b-1`, which is
a session of another chat. -/
theorem not_selectsByEquality_quotes : ¬SelectsByEquality "a''b" := by
  intro h
  have hdelete := h.delete .sql (.calm 0) "s-a''b-1" ⟨[rowOf (Session.new 0 "a'b" msgOfQuote)], []⟩
    ⟨0, msgOfQuote, by decide⟩
  exact absurd hdelete (by decide +kernel)

end LogosFs.Sessions
