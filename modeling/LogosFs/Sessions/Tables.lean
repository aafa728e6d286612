import LogosFs.Sessions.Clusters
import LogosFs.Sessions.L2Store

/-! # What the calls on L2 do

First each call step by step, whatever fails; then the calls on which nothing fails. `Tables.Filed`
says that the tables are what `persist` and `delete` make them: a row for each stored session under
its own id and chat, and a row for each of its messages. Storing, deleting and loading then do on
the stored sessions what their names say. -/

namespace LogosFs.Sessions

namespace L2M

variable {α β : Type} (t : Tables)

/-- `pure` answers the value and leaves the tables alone. -/
@[simp] theorem exec_pure (value : α) : (pure value : L2M α).exec t = (.ok value, t) := rfl

/-- `throw` fails with the step and leaves the tables alone. -/
@[simp] theorem exec_throw (e : L2Step) : (throw e : L2M α).exec t = (.error e, t) := rfl

/-- `modify f` changes the tables by `f` and never fails. -/
@[simp] theorem exec_modify (f : Tables → Tables) : (modify f : L2M Unit).exec t = (.ok (), f t) :=
  rfl

/-- What follows `get` gets the tables as they are. -/
@[simp] theorem exec_get_bind (f : Tables → L2M β) :
    (get >>= f : L2M β).exec t = (f t).exec t := rfl

/-- What follows `modify f` starts from the tables that `f` makes. -/
@[simp] theorem exec_modify_bind (f : Tables → Tables) (next : Unit → L2M β) :
    (modify f >>= next : L2M β).exec t = (next ()).exec (f t) := rfl

/-- `exec` of `call >>= f` ends where the call fails; otherwise `f` goes on with its tables. -/
theorem exec_bind (call : L2M α) (f : α → L2M β) : (call >>= f).exec t
    = match call.exec t with
      | (.ok value, t') => (f value).exec t'
      | (.error e, t') => (.error e, t') := by
  unfold exec
  rw [ExceptT.run_bind, StateT.run_bind]
  rcases call.run.run t with ⟨_ | _, t'⟩ <;> rfl

end L2M

namespace L2Store

variable {lance : Lance} {fate : Fate} {α β : Type} {t : Tables} {s : Session}

open L2M

/-- What follows `attempt fate step` happens if `fate` does not fail the step. -/
theorem exec_attempt_bind (step : L2Step) (f : Unit → L2M β) :
    (attempt fate step >>= f).exec t
      = if fate.fails step then (.error step, t) else (f ()).exec t := by
  unfold attempt
  split <;> rfl

/-- `ignoreError call` never fails, and leaves what the call did. -/
@[simp] theorem exec_ignoreError (call : L2M Unit) :
    (ignoreError call).exec t = (.ok (), (call.exec t).2) := by
  unfold ignoreError exec
  rw [ExceptT.run_tryCatch, StateT.run_bind]
  rcases call.run.run t with ⟨_ | _, t'⟩ <;> rfl

/-- What follows `ignoreError call` starts from the tables that the call leaves. -/
theorem exec_ignoreError_bind (call : L2M Unit) (f : Unit → L2M β) :
    (ignoreError call >>= f).exec t = (f ()).exec (call.exec t).2 := by
  rw [exec_bind]
  rw [exec_ignoreError]

/-- `selecting` by a comparison with a value without quotes selects the rows with that value. -/
theorem exec_selecting_bind {column value : Str} (hcolumn : ∀ c ∈ column, c.isAlpha ∨ c = '_')
    (hvalue : '\'' ∉ value) (step : L2Step) (f : ((Str → Option Str) → Bool) → L2M β) :
    (selecting lance fate step (equals column value) >>= f).exec t
      = if fate.fails step then (.error step, t)
        else (f fun row => row column == some value).exec t := by
  rw [selecting, lance.parse_equals hcolumn hvalue, bind_assoc, exec_attempt_bind]
  rfl

/-- `forM` with a body that never fails folds the `step` of one round over the list. -/
theorem exec_forM {f : α → L2M Unit} {step : Tables → α → Tables}
    (hf : ∀ item t, (f item).exec t = (.ok (), step t item)) (items : List α) (t : Tables) :
    (items.forM f).exec t = (.ok (), items.foldl step t) := by
  induction items generalizing t with
  | nil => rfl
  | cons item items ih =>
    show (f item >>= fun _ => items.forM f).exec t = _
    rw [exec_bind, hf]
    exact ih (step t item)

/-- The name of the column `session_id` has letters and `_` only. -/
theorem sessionId_column (c : Char) (h : c ∈ "session_id".toList) : c.isAlpha ∨ c = '_' := by
  revert c
  decide

/-- The name of the column `chat_id` has letters and `_` only. -/
theorem chatId_column (c : Char) (h : c ∈ "chat_id".toList) : c.isAlpha ∨ c = '_' := by
  revert c
  decide

/-- The name of the column `msg_id` has letters and `_` only. -/
theorem msgId_column (c : Char) (h : c ∈ "msg_id".toList) : c.isAlpha ∨ c = '_' := by
  revert c
  decide

/-! ## The table of sessions, whatever fails -/

/-- The rows of other sessions. -/
def others (sessionId : Str) (rows : List SessionRow) : List SessionRow :=
  rows.filter fun row => row.sessionId != sessionId

/-- The row that a session is stored in. -/
def rowOf (session : Session) : SessionRow := ⟨session.sessionId, session.chatId, session⟩

/-- A call that leaves the table of sessions alone. -/
def LeavesSessions (call : L2M α) : Prop := ∀ t, (call.exec t).2.sessions = t.sessions

/-- `LeavesSessions` is kept by sequencing. -/
theorem LeavesSessions.bind {call : L2M α} {f : α → L2M β} (hcall : LeavesSessions call)
    (hf : ∀ value, LeavesSessions (f value)) : LeavesSessions (call >>= f) := by
  intro t
  rw [exec_bind]
  rcases hexec : call.exec t with ⟨_ | value, t'⟩
  · exact (congrArg (fun r => r.2.sessions) hexec).symm.trans (hcall t)
  · have ht' : t'.sessions = t.sessions :=
      (congrArg (fun r => r.2.sessions) hexec).symm.trans (hcall t)
    exact (hf value t').trans ht'

/-- `attempt` leaves the table of sessions alone. -/
theorem leavesSessions_attempt (step : L2Step) : LeavesSessions (attempt fate step) := by
  intro t
  unfold attempt
  split <;> rfl

/-- `selecting` leaves the table of sessions alone, whether or not the predicate parses. -/
theorem leavesSessions_selecting (step : L2Step) (predicate : Str) :
    LeavesSessions (selecting lance fate step predicate) := by
  refine (leavesSessions_attempt step).bind fun _ t => ?_
  cases lance.parse predicate <;> rfl

/-- `updateMsgIndex` stores the messages of a session and has `LeavesSessions`. -/
theorem leavesSessions_updateMsgIndex (s : Session) :
    LeavesSessions (updateMsgIndex lance fate s) := by
  refine (leavesSessions_attempt _).bind fun _ => ?_
  refine LeavesSessions.bind (fun t => ?_) fun _ =>
    (leavesSessions_attempt _).bind fun _ _ => rfl
  -- Whether or not a message is deleted first, the sessions stay as they are.
  rw [exec_forM fun item t => exec_ignoreError _]
  generalize s.messages = messages
  induction messages generalizing t with
  | nil => rfl
  | cons msg messages ih =>
    refine (ih _).trans ?_
    exact (leavesSessions_selecting _ _).bind (fun _ _ => rfl) t

variable {sessionId : Str}

/-- Deleting the rows of a session leaves the `others`, unless the step fails. -/
theorem exec_deleteSessions (hquote : '\'' ∉ sessionId) (t : Tables) :
    (do
      let selects ← selecting lance fate .deleteSessions (equals "session_id".toList sessionId)
      modify fun t => { t with sessions := t.sessions.filter fun row => !selects row.column } :
        L2M Unit).exec t
      = if fate.fails .deleteSessions then (.error .deleteSessions, t)
        else (.ok (), { t with sessions := others sessionId t.sessions }) := by
  rw [exec_selecting_bind sessionId_column hquote]
  rfl

/-- What `persist` does to the table of sessions, whatever fails. -/
theorem sessions_persist (hquote : '\'' ∉ s.sessionId) (t : Tables) :
    ((persist lance fate s).exec t).2.sessions
      = if fate.fails .embed ∨ fate.fails .openSessions then t.sessions
        else (if fate.fails .deleteSessions then t.sessions else others s.sessionId t.sessions)
          ++ if fate.fails .dimension ∨ fate.fails .addSession then [] else [rowOf s] := by
  rw [persist, exec_attempt_bind]
  by_cases hembed : fate.fails .embed
  · rw [if_pos hembed, if_pos (.inl hembed)]
  rw [if_neg hembed, exec_attempt_bind]
  by_cases hopen : fate.fails .openSessions
  · rw [if_pos hopen, if_pos (.inr hopen)]
  rw [if_neg hopen, if_neg (not_or.mpr ⟨hembed, hopen⟩), exec_ignoreError_bind,
    exec_deleteSessions hquote]
  -- The tables without the old rows, if they could be deleted.
  have hdeleted : (if fate.fails .deleteSessions then (.error .deleteSessions, t)
      else (.ok (), { t with sessions := others s.sessionId t.sessions }) :
        Except L2Step Unit × Tables).2.sessions
      = if fate.fails .deleteSessions then t.sessions else others s.sessionId t.sessions := by
    split <;> rfl
  generalize (if fate.fails .deleteSessions then (.error .deleteSessions, t)
    else (.ok (), { t with sessions := others s.sessionId t.sessions }) :
      Except L2Step Unit × Tables).2 = t' at hdeleted ⊢
  rw [← hdeleted, exec_attempt_bind]
  by_cases hdim : fate.fails .dimension
  · rw [if_pos hdim, if_pos (.inl hdim), List.append_nil]
  rw [if_neg hdim, exec_attempt_bind]
  by_cases hadd : fate.fails .addSession
  · rw [if_pos hadd, if_pos (.inr hadd), List.append_nil]
  rw [if_neg hadd, if_neg (not_or.mpr ⟨hdim, hadd⟩), exec_modify_bind]
  exact leavesSessions_updateMsgIndex s _

/-- What `delete` does to the table of sessions, whatever fails. -/
theorem sessions_delete (hquote : '\'' ∉ sessionId) (t : Tables) :
    ((delete lance fate sessionId).exec t).2.sessions
      = if fate.fails .openSessions ∨ fate.fails .deleteSessions then t.sessions
        else others sessionId t.sessions := by
  rw [delete, exec_attempt_bind]
  by_cases hopen : fate.fails .openSessions
  · rw [if_pos hopen, if_pos (.inl hopen)]
  rw [if_neg hopen, exec_selecting_bind sessionId_column hquote]
  by_cases hdelete : fate.fails .deleteSessions
  · rw [if_pos hdelete, if_pos (.inr hdelete)]
  rw [if_neg hdelete, if_neg (not_or.mpr ⟨hopen, hdelete⟩), exec_modify_bind]
  -- What follows is about the other table.
  have hrest : LeavesSessions (attempt fate .openMsgIndex >>= fun _ =>
      selecting lance fate .deleteMsgs (equals "session_id".toList sessionId) >>= fun selects =>
      modify fun t => { t with msgIndex := t.msgIndex.filter fun row => !selects row.column }) :=
    (leavesSessions_attempt _).bind fun _ => (leavesSessions_selecting _ _).bind fun _ _ => rfl
  exact hrest _

/-! ## Calls on which nothing fails -/

/-- `Str.ofInt` writes no quote. -/
theorem quote_notMem_ofInt (i : Int) : '\'' ∉ Str.ofInt i := by
  intro h
  rcases Str.isDigit_or_of_mem_ofInt h with h | h <;> exact absurd h (by decide)

/-- The rows of other messages than some. -/
def otherMsgs (messages : List MsgRef) (rows : List MsgIndexRow) : List MsgIndexRow :=
  rows.filter fun row => decide (row.msgId ∉ messages.map fun msg => Str.ofInt msg.msgId)

/-- The rows for the messages of a session. -/
def msgRowsOf (s : Session) : List MsgIndexRow :=
  s.messages.map fun msg => ⟨Str.ofInt msg.msgId, s.sessionId⟩

/-- Deleting one message after another leaves `otherMsgs` than all of them. -/
theorem foldl_otherMsgs (messages : List MsgRef) (t : Tables) :
    messages.foldl (fun t msg => { t with msgIndex := otherMsgs [msg] t.msgIndex }) t
      = { t with msgIndex := otherMsgs messages t.msgIndex } := by
  induction messages generalizing t with
  | nil => simp [otherMsgs]
  | cons msg messages ih =>
    rw [List.foldl_cons, ih]
    congr 1
    rw [otherMsgs, otherMsgs, otherMsgs, List.filter_filter]
    congr 1
    funext row
    simp [Bool.and_comm]

section NoFailure

variable (hfails : ∀ step, fate.fails step = false)

include hfails

/-- What follows an `attempt` happens where nothing fails. -/
theorem exec_attempt_bind_of_noFailure (step : L2Step) (f : Unit → L2M β) (t : Tables) :
    (attempt fate step >>= f).exec t = (f ()).exec t := by
  rw [exec_attempt_bind, hfails, if_neg Bool.false_ne_true]

/-- `selecting` by a comparison selects the rows with the value, where nothing fails. -/
theorem exec_selecting_bind_of_noFailure {column value : Str}
    (hcolumn : ∀ c ∈ column, c.isAlpha ∨ c = '_') (hvalue : '\'' ∉ value) (step : L2Step)
    (f : ((Str → Option Str) → Bool) → L2M β) (t : Tables) :
    (selecting lance fate step (equals column value) >>= f).exec t
      = (f fun row => row column == some value).exec t := by
  rw [exec_selecting_bind hcolumn hvalue, hfails, if_neg Bool.false_ne_true]

variable (lance) in
/-- `delete`, where nothing fails, deletes the rows with the id of the session from both tables. -/
theorem exec_delete (hquote : '\'' ∉ sessionId) (t : Tables) :
    (delete lance fate sessionId).exec t = (.ok (), ⟨others sessionId t.sessions,
      t.msgIndex.filter fun row => row.sessionId != sessionId⟩) := by
  rw [delete, exec_attempt_bind_of_noFailure hfails,
    exec_selecting_bind_of_noFailure hfails sessionId_column hquote, exec_modify_bind,
    exec_attempt_bind_of_noFailure hfails,
    exec_selecting_bind_of_noFailure hfails sessionId_column hquote]
  rfl

/-- `updateMsgIndex`, where nothing fails, replaces the rows that the messages of the session had.
-/
theorem exec_updateMsgIndex (s : Session) (t : Tables) :
    (updateMsgIndex lance fate s).exec t = (.ok (),
      { t with msgIndex := otherMsgs s.messages t.msgIndex ++ msgRowsOf s }) := by
  have hround : ∀ (msg : MsgRef) (t : Tables), (ignoreError (do
      let selects ← selecting lance fate (.deleteMsg msg.msgId)
        (equals "msg_id".toList (Str.ofInt msg.msgId))
      modify fun t => { t with
        msgIndex := t.msgIndex.filter fun row => !selects row.column })).exec t
      = (.ok (), { t with msgIndex := otherMsgs [msg] t.msgIndex }) := by
    intro msg t
    have hselects : (fun row : MsgIndexRow =>
        !(row.column "msg_id".toList == some (Str.ofInt msg.msgId)))
        = fun row => decide (row.msgId ∉ [msg].map fun msg => Str.ofInt msg.msgId) := by
      funext row
      rw [Bool.eq_iff_iff]
      simp [MsgIndexRow.column]
    rw [exec_ignoreError, exec_selecting_bind_of_noFailure hfails msgId_column
      (quote_notMem_ofInt msg.msgId), exec_modify, otherMsgs, ← hselects]
  rw [updateMsgIndex, exec_attempt_bind_of_noFailure hfails, exec_bind, exec_forM hround,
    foldl_otherMsgs]
  dsimp only
  rw [exec_attempt_bind_of_noFailure hfails]
  rfl

variable (lance) in
/-- `persist`, where nothing fails, replaces the rows that the session and its messages had. -/
theorem exec_persist (hquote : '\'' ∉ s.sessionId) (t : Tables) :
    (persist lance fate s).exec t = (.ok (), ⟨others s.sessionId t.sessions ++ [rowOf s],
      otherMsgs s.messages t.msgIndex ++ msgRowsOf s⟩) := by
  rw [persist, exec_attempt_bind_of_noFailure hfails, exec_attempt_bind_of_noFailure hfails,
    exec_ignoreError_bind, exec_deleteSessions hquote, hfails, if_neg Bool.false_ne_true,
    exec_attempt_bind_of_noFailure hfails, exec_attempt_bind_of_noFailure hfails,
    exec_modify_bind, exec_updateMsgIndex hfails]
  rfl

/-- `loadById`, where nothing fails, answers one of the rows with the id. -/
theorem exec_loadById (hquote : '\'' ∉ sessionId) (t : Tables) :
    (loadById lance fate sessionId).exec t = (.ok (extractSession (fate.sessionsOrder
      (t.sessions.filter fun row => row.sessionId == sessionId))), t) := by
  rw [loadById, exec_attempt_bind_of_noFailure hfails,
    exec_selecting_bind_of_noFailure hfails sessionId_column hquote]
  rfl

/-- `loadByMsg`, where nothing fails, goes through one of the rows of the message. -/
theorem exec_loadByMsg (msgId : Int) (t : Tables) : (loadByMsg lance fate msgId).exec t
    = match (fate.msgIndexOrder
        (t.msgIndex.filter fun row => row.msgId == Str.ofInt msgId)).head? with
      | some row => (loadById lance fate row.sessionId).exec t
      | none => (.ok none, t) := by
  rw [loadByMsg, exec_attempt_bind_of_noFailure hfails,
    exec_selecting_bind_of_noFailure hfails msgId_column (quote_notMem_ofInt msgId),
    exec_get_bind]
  show L2M.exec (match (fate.msgIndexOrder
      (t.msgIndex.filter fun row => row.msgId == Str.ofInt msgId)).head? with
    | some row => loadById lance fate row.sessionId
    | none => pure none) t = _
  split <;> rfl

/-- `semanticSearch`, where nothing fails, answers the `nearest` session of the chat, if any. -/
theorem exec_semanticSearch {chatId : Str} (hquote : '\'' ∉ chatId) (t : Tables) :
    (semanticSearch lance fate chatId).exec t = (.ok ((fate.nearest
      (t.sessions.filter fun row => row.chatId == chatId)).map SessionRow.data), t) := by
  rw [semanticSearch, exec_attempt_bind_of_noFailure hfails, exec_attempt_bind_of_noFailure hfails,
    exec_selecting_bind_of_noFailure hfails chatId_column hquote]
  rfl

end NoFailure

end L2Store

/-! ## The stored sessions -/

/-- The `head?` of some rows, in whatever order they come, is one of them. -/
theorem exists_head?_of_perm {α : Type} {rows ordered : List α} {row : α}
    (hperm : ordered.Perm rows) (hrow : row ∈ rows) :
    ∃ first ∈ rows, ordered.head? = some first := by
  have hne : ordered ≠ [] := List.ne_nil_of_mem (hperm.mem_iff.mpr hrow)
  exact ⟨ordered.head hne, hperm.mem_iff.mp (List.head_mem hne), List.head?_eq_some_head hne⟩

namespace Tables

open L2Store

variable {lance : Lance} {fate : Fate} {t : Tables} {s : Session} {sessionId : Str} {msgId : Int}

/-- The stored sessions. -/
def stored (t : Tables) : List Session := t.sessions.map SessionRow.data

/-- Each session is in a row under its own id and chat, and the other table has a row for each of
the messages, and no other. -/
structure Filed (t : Tables) : Prop where
  /-- Rows of sessions are what `persist` writes. -/
  rows : ∀ row ∈ t.sessions, row = rowOf row.data
  /-- Rows of messages are those of the stored sessions. -/
  msgRows : ∀ row, row ∈ t.msgIndex ↔ ∃ s ∈ t.stored, row ∈ msgRowsOf s

/-- Empty tables are `Filed`. -/
theorem filed_empty : Filed ⟨[], []⟩ :=
  ⟨fun _ h => (nomatch h), fun _ => ⟨fun h => (nomatch h), fun ⟨_, h, _⟩ => (nomatch h)⟩⟩

/-- The rows in `msgRowsOf s` are those of the session for the ids of its messages. -/
theorem mem_msgRowsOf {row : MsgIndexRow} : row ∈ msgRowsOf s ↔
    row.sessionId = s.sessionId ∧ ∃ msgId ∈ s.msgIds, row.msgId = Str.ofInt msgId := by
  rw [msgRowsOf, List.mem_map]
  constructor
  · rintro ⟨m, hm, rfl⟩
    exact ⟨rfl, m.msgId, List.mem_map_of_mem hm, rfl⟩
  · rintro ⟨hsid, msgId, hid, hrow⟩
    obtain ⟨m, hm, rfl⟩ := List.mem_map.mp hid
    exact ⟨m, hm, by cases row; simp_all⟩

namespace Filed

/-- In `Filed` tables the id of a row is that of its session. -/
theorem sessionId_eq (h : Filed t) {row : SessionRow} (hrow : row ∈ t.sessions) :
    row.sessionId = row.data.sessionId := congrArg SessionRow.sessionId (h.rows row hrow)

/-- In `Filed` tables the `others` are the sessions stored under other ids. -/
theorem stored_others (h : Filed t) (index : List MsgIndexRow) :
    (⟨others sessionId t.sessions, index⟩ : Tables).stored
      = t.stored.filter fun s => s.sessionId != sessionId := by
  rw [stored, stored, others, List.filter_map]
  congr 1
  refine List.filter_congr fun row hrow => ?_
  rw [h.sessionId_eq hrow]
  rfl

/-- `Filed` is kept when the rows of a session are deleted. -/
theorem delete (h : Filed t) (sessionId : Str) : Filed ⟨others sessionId t.sessions,
    t.msgIndex.filter fun row => row.sessionId != sessionId⟩ where
  rows row hrow := h.rows row (List.mem_of_mem_filter hrow)
  msgRows row := by
    simp only [h.stored_others, List.mem_filter, h.msgRows row, bne_iff_ne]
    constructor
    · rintro ⟨⟨s, hs, hrow⟩, hne⟩
      exact ⟨s, ⟨hs, (mem_msgRowsOf.mp hrow).1 ▸ hne⟩, hrow⟩
    · rintro ⟨s, ⟨hs, hne⟩, hrow⟩
      exact ⟨⟨s, hs, hrow⟩, (mem_msgRowsOf.mp hrow).1.symm ▸ hne⟩

/-- In `Filed` tables a session that is new to them is added to the stored ones. -/
theorem stored_persist (h : Filed t) (hnew : ∀ s' ∈ t.stored, s'.sessionId ≠ s.sessionId)
    (index : List MsgIndexRow) :
    (⟨others s.sessionId t.sessions ++ [rowOf s], index⟩ : Tables).stored = t.stored ++ [s] := by
  have hothers : others s.sessionId t.sessions = t.sessions := by
    refine List.filter_eq_self.mpr fun row hrow => ?_
    rw [h.sessionId_eq hrow, bne_iff_ne]
    exact hnew row.data (List.mem_map_of_mem hrow)
  rw [hothers, stored, List.map_append]
  rfl

/-- `Filed` is kept when a session is stored whose messages are new to the tables. -/
theorem persist (h : Filed t) (hnew : ∀ s' ∈ t.stored, s'.sessionId ≠ s.sessionId)
    (hmsgs : ∀ s' ∈ t.stored, ∀ msgId ∈ s'.msgIds, msgId ∉ s.msgIds) :
    Filed ⟨others s.sessionId t.sessions ++ [rowOf s],
      otherMsgs s.messages t.msgIndex ++ msgRowsOf s⟩ where
  rows row hrow := by
    rcases List.mem_append.mp hrow with hrow | hrow
    · exact h.rows row (List.mem_of_mem_filter hrow)
    · rw [List.mem_singleton.mp hrow]
      rfl
  msgRows row := by
    have hothers : otherMsgs s.messages t.msgIndex = t.msgIndex := by
      refine List.filter_eq_self.mpr fun row hrow => ?_
      obtain ⟨s', hs', hrow⟩ := (h.msgRows row).mp hrow
      obtain ⟨-, msgId, hid, heq⟩ := mem_msgRowsOf.mp hrow
      rw [decide_eq_true_iff, heq]
      intro hmem
      obtain ⟨m, hm, hm'⟩ := List.mem_map.mp hmem
      exact hmsgs s' hs' msgId hid (List.mem_map.mpr ⟨m, hm, Str.ofInt_injective hm'⟩)
    rw [h.stored_persist hnew, hothers, List.mem_append, h.msgRows]
    simp only [List.mem_append, List.mem_singleton, or_and_right, exists_or, exists_eq_left]

variable (lance) in
/-- `loadByMsg` of a message that is in exactly one stored session of `Filed` tables answers that
session. -/
theorem exec_loadByMsg (h : Filed t) (hfails : ∀ step, fate.fails step = false)
    (hs : s ∈ t.stored) (hid : msgId ∈ s.msgIds) (hquote : '\'' ∉ s.sessionId)
    (hmsg : ∀ s' ∈ t.stored, msgId ∈ s'.msgIds → s' = s)
    (hsession : ∀ s' ∈ t.stored, s'.sessionId = s.sessionId → s' = s) :
    (loadByMsg lance fate msgId).exec t = (.ok (some s), t) := by
  -- Every row of the message leads to the session.
  have hrows : ∀ row ∈ t.msgIndex.filter (fun row => row.msgId == Str.ofInt msgId),
      row.sessionId = s.sessionId := by
    intro row hrow
    rw [List.mem_filter, beq_iff_eq, h.msgRows] at hrow
    obtain ⟨⟨s', hs', hrow⟩, heq⟩ := hrow
    obtain ⟨hsid, msgId', hid', hrow⟩ := mem_msgRowsOf.mp hrow
    obtain rfl := Str.ofInt_injective (hrow.symm.trans heq)
    rw [hsid, hmsg s' hs' hid']
  have hrow : (⟨Str.ofInt msgId, s.sessionId⟩ : MsgIndexRow)
      ∈ t.msgIndex.filter fun row => row.msgId == Str.ofInt msgId := by
    rw [List.mem_filter, beq_iff_eq, h.msgRows]
    exact ⟨⟨s, hs, mem_msgRowsOf.mpr ⟨rfl, msgId, hid, rfl⟩⟩, rfl⟩
  -- Every row of sessions with the id holds the session.
  have hsessions : ∀ row ∈ t.sessions.filter (fun row => row.sessionId == s.sessionId),
      row.data = s := by
    intro row hrow
    rw [List.mem_filter, beq_iff_eq] at hrow
    exact hsession row.data (List.mem_map_of_mem hrow.1)
      ((h.sessionId_eq hrow.1).symm.trans hrow.2)
  obtain ⟨stored, hstored, hdata⟩ := List.mem_map.mp hs
  have hsession' : stored ∈ t.sessions.filter fun row => row.sessionId == s.sessionId := by
    rw [List.mem_filter, beq_iff_eq, h.sessionId_eq hstored, hdata]
    exact ⟨hstored, rfl⟩
  rw [L2Store.exec_loadByMsg hfails]
  have hperm := fate.msgIndexOrder_perm (t.msgIndex.filter fun row => row.msgId == Str.ofInt msgId)
  obtain ⟨first, hfirst, hhead⟩ := exists_head?_of_perm hperm hrow
  have hsid := hrows first hfirst
  rw [hhead]
  dsimp only
  rw [L2Store.exec_loadById hfails (hsid ▸ hquote), hsid]
  have hperm' := fate.sessionsOrder_perm
    (t.sessions.filter fun row => row.sessionId == s.sessionId)
  obtain ⟨first', hfirst', hhead'⟩ := exists_head?_of_perm hperm' hsession'
  rw [extractSession, hhead', Option.map_some, hsessions first' hfirst']

variable (lance) in
/-- `loadByMsg` of a message that is in no stored session of `Filed` tables answers none. -/
theorem exec_loadByMsg_eq_none (h : Filed t) (hfails : ∀ step, fate.fails step = false)
    (hmsg : ∀ s ∈ t.stored, msgId ∉ s.msgIds) :
    (loadByMsg lance fate msgId).exec t = (.ok none, t) := by
  have hrows : t.msgIndex.filter (fun row => row.msgId == Str.ofInt msgId) = [] := by
    refine List.filter_eq_nil_iff.mpr fun row hrow heq => ?_
    obtain ⟨s, hs, hrow⟩ := (h.msgRows row).mp hrow
    obtain ⟨-, msgId', hid, hrow⟩ := mem_msgRowsOf.mp hrow
    obtain rfl := Str.ofInt_injective (hrow.symm.trans (beq_iff_eq.mp heq))
    exact hmsg s hs hid
  rw [L2Store.exec_loadByMsg hfails, hrows, (fate.msgIndexOrder_perm []).eq_nil]
  rfl

variable (lance) in
/-- `semanticSearch` of `Filed` tables answers a stored session of the chat, or none. -/
theorem exec_semanticSearch (h : Filed t) (hfails : ∀ step, fate.fails step = false) {chatId : Str}
    (hquote : '\'' ∉ chatId) : ∃ result, (semanticSearch lance fate chatId).exec t
      = (.ok result, t) ∧ ∀ s, result = some s → s ∈ t.stored ∧ s.chatId = chatId := by
  refine ⟨_, L2Store.exec_semanticSearch hfails hquote t, fun s hs => ?_⟩
  obtain ⟨row, hnearest, rfl⟩ := Option.map_eq_some_iff.mp hs
  have hrow := List.mem_filter.mp (fate.nearest_mem hnearest)
  have hchat : row.chatId = row.data.chatId := congrArg SessionRow.chatId (h.rows row hrow.1)
  exact ⟨List.mem_map_of_mem hrow.1, hchat.symm.trans (beq_iff_eq.mp hrow.2)⟩

end Filed

end Tables

end LogosFs.Sessions
