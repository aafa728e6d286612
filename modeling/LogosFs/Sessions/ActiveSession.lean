import LogosFs.Sessions.Bindings
import LogosFs.Sessions.Failures
import LogosFs.Sessions.Recency

/-! # The active session of a chat

Over a run the sessions in memory stay those of one list by recency, whatever is loaded from L2 and
whatever fails there, as long as what L2 answers is about the message and the chat it was asked for
(`Answers`). The session of a chat that was active last is then the one that the last message of the
chat has joined, or has left L0 (`lru_of_observeAll`). -/

namespace LogosFs.Sessions

open Sessions.Inner L2Store

/-- The last message of a chat. -/
def lastOf (seen : List MsgRef) (chatId : Str) : Option MsgRef :=
  (seen.filter fun m => m.chatId = chatId).getLast?

/-- `lastOf` after one more message is this message, if it is of the chat. -/
theorem lastOf_append_singleton (seen : List MsgRef) (msg : MsgRef) (chatId : Str) :
    lastOf (seen ++ [msg]) chatId
      = if msg.chatId = chatId then some msg else lastOf seen chatId := by
  unfold lastOf
  rw [List.filter_append]
  by_cases hchat : msg.chatId = chatId <;> simp [hchat]

/-- `lastOf` finds a message of the chat of every message that was seen. -/
theorem isSome_lastOf {seen : List MsgRef} {msg : MsgRef} (h : msg ∈ seen) :
    (lastOf seen msg.chatId).isSome := by
  unfold lastOf
  rw [List.getLast?_isSome]
  exact List.ne_nil_of_mem (List.mem_filter.mpr ⟨h, decide_eq_true rfl⟩)

/-! ## Sessions and their chats -/

/-- A session is about messages of its chat that have been observed, and named after one of them. -/
structure Session.OfChat (seen : List MsgRef) (s : Session) : Prop where
  /-- Its messages are of its chat. -/
  messages : ∀ m ∈ s.messages, m ∈ seen ∧ m.chatId = s.chatId
  /-- It is named after a message of its chat. -/
  named : ∃ m ∈ seen, m.chatId = s.chatId ∧ m.sessionId = s.sessionId

/-- A session stays `OfChat` when more messages are seen. -/
theorem Session.OfChat.append {seen : List MsgRef} {s : Session} (h : s.OfChat seen)
    (later : List MsgRef) : s.OfChat (seen ++ later) where
  messages m hm := (h.messages m hm).imp_left (List.mem_append_left _)
  named := by
    obtain ⟨m, hm, hrest⟩ := h.named
    exact ⟨m, List.mem_append_left _ hm, hrest⟩

/-- What is known of the sessions in memory and stored, and of their chats. -/
structure ChatsKept (inner : Inner) (stored : List Session) (seen : List MsgRef) : Prop where
  /-- Every session is about its chat. -/
  ofChat : ∀ s ∈ inner.sessions ++ stored, s.OfChat seen
  /-- A message is indexed to a session of its chat. -/
  indexed : ∀ {msgId sid}, inner.msgIndex.get msgId = some sid →
    ∃ m ∈ seen, m.msgId = msgId ∧ ∃ m' ∈ seen, m'.sessionId = sid ∧ m'.chatId = m.chatId
  /-- If there is a session of a chat in memory, the newest one ends with the chat's last message. -/
  latest : ∀ {chatId m}, lastOf seen chatId = some m → ∀ s ∈ inner.sessions, s.chatId = chatId →
    ∃ newest ∈ inner.sessions, newest.chatId = chatId ∧ newest.messages.getLast? = some m ∧
      ∀ s' ∈ inner.sessions, s'.chatId = chatId → s'.lastActive ≤ newest.lastActive

/-- An empty store has `ChatsKept` before any message is seen. -/
theorem chatsKept_new (l0Capacity l1Capacity : Nat) :
    ChatsKept (.new l0Capacity l1Capacity) [] [] :=
  ⟨fun _ h => (nomatch h), fun h => (nomatch h), fun h => (nomatch h)⟩

/-- Messages with distinct non-negative ids. -/
structure Distinct (msgs : List MsgRef) : Prop where
  /-- The ids are distinct. -/
  nodup : (msgs.map MsgRef.msgId).Nodup
  /-- They are not negative. -/
  nonneg : ∀ m ∈ msgs, 0 ≤ m.msgId

namespace Distinct

variable {msgs seen : List MsgRef} {m m' : MsgRef}

/-- A message among `Distinct` ones is known by its id. -/
theorem eq_of_msgId (h : Distinct msgs) (hm : m ∈ msgs) (hm' : m' ∈ msgs)
    (heq : m.msgId = m'.msgId) : m = m' := List.inj_on_of_nodup_map h.nodup hm hm' heq

/-- A message among `Distinct` ones is known by the id of the session that it opens. -/
theorem eq_of_sessionId (h : Distinct msgs) (hm : m ∈ msgs) (hm' : m' ∈ msgs)
    (heq : m.sessionId = m'.sessionId) : m = m' :=
  h.eq_of_msgId hm hm' (sessionId_injective_of_nonneg (h.nonneg m hm) (h.nonneg m' hm') heq)

/-- `Distinct` messages stay so where some are left out. -/
theorem sublist (h : Distinct msgs) (hseen : seen.Sublist msgs) : Distinct seen :=
  ⟨h.nodup.sublist (hseen.map _), fun m hm => h.nonneg m (hseen.subset hm)⟩

end Distinct

namespace ChatsKept

variable {inner inner' : Inner} {stored stored' : List Session} {seen : List MsgRef} {msg : MsgRef}
  {s s' : Session} {moment : Moment} {now : DateTime} {found : Option Session}

/-- `ChatsKept` holds of fewer stored sessions too. -/
theorem of_subset (h : ChatsKept inner stored seen) (hstored : stored' ⊆ stored) :
    ChatsKept inner stored' seen :=
  { h with ofChat := fun s hs => h.ofChat s (List.append_subset.mpr
      ⟨List.subset_append_left _ _, fun _ hs => List.mem_append_right _ (hstored hs)⟩ hs) }

/-- Sessions that are `OfChat`, with the same id, are of the same chat. -/
theorem chatId_eq (hdistinct : Distinct seen) (h : s.OfChat seen) (h' : s'.OfChat seen)
    (heq : s.sessionId = s'.sessionId) : s.chatId = s'.chatId := by
  obtain ⟨m, hm, hchat, hid⟩ := h.named
  obtain ⟨m', hm', hchat', hid'⟩ := h'.named
  obtain rfl := hdistinct.eq_of_sessionId hm hm' (hid.trans (heq.trans hid'.symm))
  exact hchat.symm.trans hchat'

/-- The session that a message is put into by `Source` is of its chat, and the message is its last
one. -/
theorem of_source (h : ChatsKept inner stored seen) (hdistinct : Distinct seen)
    (hreplies : ∀ m ∈ seen, msg.replyTo = some m.msgId → m.chatId = msg.chatId)
    (hfound : ∀ old, found = some old → old.OfChat seen ∧ old.chatId = msg.chatId)
    (hsource : Source moment msg inner found s) :
    s.OfChat (seen ++ [msg]) ∧ s.chatId = msg.chatId ∧ s.messages.getLast? = some msg := by
  have hadd : ∀ old : Session, old.OfChat seen → old.chatId = msg.chatId →
      (old.addMessage moment.now msg).OfChat (seen ++ [msg]) := by
    intro old hold hchat
    refine ⟨fun m hm => ?_, (hold.append [msg]).named⟩
    rw [Session.messages_addMessage, List.mem_append, List.mem_singleton] at hm
    rcases hm with hm | rfl
    · exact (hold.append [msg]).messages m hm
    · exact ⟨by simp, hchat.symm⟩
  cases hsource with
  | opened =>
    refine ⟨⟨fun m hm => ?_, msg, by simp, rfl, rfl⟩, rfl, rfl⟩
    rw [Session.messages_new, List.mem_singleton] at hm
    rw [hm]
    exact ⟨by simp, rfl⟩
  | @joined r old hreply hindex hold =>
    -- The index leads to the chat of the target, which is that of the message.
    have hofChat := h.ofChat old (List.mem_append_left _ hold)
    obtain ⟨m, hm, rfl, m', hm', hid', hchat'⟩ := h.indexed hindex
    obtain ⟨m'', hm'', hchat'', hid''⟩ := hofChat.named
    obtain rfl := hdistinct.eq_of_sessionId hm' hm'' (hid'.trans hid''.symm)
    have hchat : old.chatId = msg.chatId := by
      rw [← hchat'', hchat', hreplies m hm hreply]
    exact ⟨hadd old hofChat hchat, hchat, by simp⟩
  | @restored old hrestored =>
    obtain ⟨hofChat, hchat⟩ := hfound old hrestored
    exact ⟨hadd old hofChat hchat, hchat, by simp⟩

/-- `ChatsKept` is kept where a message is `Placed`. -/
theorem of_placed (h : ChatsKept inner stored seen) (hnamed : Named inner) (hnow : Before now inner)
    (hdistinct : Distinct (seen ++ [msg])) (hplaced : Placed now inner s inner')
    (hofChat : s.OfChat (seen ++ [msg])) (hchat : s.chatId = msg.chatId)
    (hlast : s.messages.getLast? = some msg)
    (hindex : ∀ {msgId sid}, inner'.msgIndex.get msgId = some sid →
      inner.msgIndex.get msgId = some sid ∨ sid = s.sessionId ∧ msgId ∈ s.msgIds) :
    ChatsKept inner' stored (seen ++ [msg]) := by
  obtain ⟨others, hsessions, hothers, -⟩ := hplaced.exists_others
  refine ⟨fun s' hs' => ?_, fun {msgId sid} hget => ?_, fun {chatId m} hm s' hs' hchat' => ?_⟩
  · rw [hsessions, List.cons_append] at hs'
    rcases List.mem_cons.mp hs' with rfl | hs'
    · exact hofChat
    · exact (h.ofChat s' ((hothers.append_right stored).subset hs')).append [msg]
  · rcases hindex hget with hget | ⟨rfl, hid⟩
    · obtain ⟨m, hm, hid, m', hm', hrest⟩ := h.indexed hget
      exact ⟨m, List.mem_append_left _ hm, hid, m', List.mem_append_left _ hm', hrest⟩
    · obtain ⟨m, hm, rfl⟩ := List.mem_map.mp hid
      obtain ⟨m', hm', hchat'', hid'⟩ := hofChat.named
      have hown := hofChat.messages m hm
      exact ⟨m, hown.1, rfl, m', hm', hid', hchat''.trans hown.2.symm⟩
  · rw [lastOf_append_singleton] at hm
    split_ifs at hm with hsame
    · -- The message is of the chat: its session is the newest of all.
      obtain rfl := Option.some_inj.mp hm
      refine ⟨s, hsessions ▸ List.mem_cons_self, hchat.trans hsame, hlast, fun s'' hs'' _ => ?_⟩
      rw [hsessions] at hs''
      rcases List.mem_cons.mp hs'' with rfl | hs''
      · exact le_refl _
      · rw [hplaced.lastActive]
        exact (hnow s'' (hothers.subset hs'')).le
    -- The message is of another chat: nothing has changed for the sessions of this one.
    · have hold : ∀ s'' ∈ inner'.sessions, s''.chatId = chatId → s'' ∈ inner.sessions := by
        intro s'' hs'' hchat''
        rw [hsessions] at hs''
        rcases List.mem_cons.mp hs'' with rfl | hs''
        · exact absurd (hchat.symm.trans hchat'') hsame
        · exact hothers.subset hs''
      obtain ⟨newest, hnewest, hchat'', hlast', hmax⟩ := h.latest hm s' (hold s' hs' hchat') hchat'
      have hne : newest.sessionId ≠ s.sessionId := by
        intro heq
        have hofChat' := (h.ofChat newest (List.mem_append_left _ hnewest)).append [msg]
        have hchats := chatId_eq hdistinct hofChat' hofChat heq
        exact hsame (hchat.symm.trans (hchats.symm.trans hchat''))
      exact ⟨newest, hplaced.mem_of_ne hnamed hnewest hne, hchat'', hlast',
        fun s'' hs'' hchat₂ => hmax s'' (hold s'' hs'' hchat₂) hchat₂⟩

/-- `ChatsKept` is kept by evicting: where the sessions in memory `Shrinks`. -/
theorem of_shrinks (h : ChatsKept inner stored seen) (hdistinct : Distinct seen)
    (hshrinks : Shrinks inner inner') {evicted : List Session} (hevicted : evicted ⊆ inner.sessions) :
    ChatsKept inner' (stored ++ evicted) seen := by
  refine ⟨fun s hs => ?_, fun hget => h.indexed (hshrinks.index hget),
    fun {chatId m} hm s hs hchat => ?_⟩
  · refine h.ofChat s ?_
    rcases List.mem_append.mp hs with hs | hs
    · exact List.mem_append_left _ (hshrinks.keeps.1 hs)
    · rcases List.mem_append.mp hs with hs | hs
      · exact List.mem_append_right _ hs
      · exact List.mem_append_left _ (hevicted hs)
  · obtain ⟨newest, hnewest, hchat', hlast, hmax⟩ := h.latest hm s (hshrinks.keeps.1 hs) hchat
    -- It is the newest of the chat, so it stays as long as another one of the chat does.
    have hstays : newest ∈ inner'.sessions := by
      refine hshrinks.keeps.2 newest hnewest (fun s' hs' heq => hmax s' hs' ?_) s hs
        (hmax s (hshrinks.keeps.1 hs) hchat)
      have hchats := chatId_eq hdistinct (h.ofChat s' (List.mem_append_left _ hs'))
        (h.ofChat newest (List.mem_append_left _ hnewest)) heq
      exact hchats.trans hchat'
    exact ⟨newest, hstays, hchat', hlast, fun s' hs' => hmax s' (hshrinks.keeps.1 hs')⟩

/-- `activeSession`, the session of a chat that was active last, ends with the last message of the
chat. -/
theorem getLast?_of_activeSession (h : ChatsKept inner stored seen) (hrecent : Recent inner)
    {chatId : Str} (hactive : inner.activeSession moment chatId = some s) :
    s.chatId = chatId ∧ s.messages.getLast? = lastOf seen chatId := by
  have hmem := mem_of_maxByKey hactive
  rw [List.mem_filter, Iteration.mem_values, decide_eq_true_eq] at hmem
  obtain ⟨hl0, hchat⟩ := hmem
  have hs : s ∈ inner.sessions := List.mem_append_left _ hl0
  obtain ⟨m, hm, hchat', -⟩ := (h.ofChat s (List.mem_append_left _ hs)).named
  have hsome := isSome_lastOf hm
  rw [hchat', hchat] at hsome
  obtain ⟨last, hlast⟩ := Option.isSome_iff_exists.mp hsome
  obtain ⟨newest, hnewest, hchat'', hends, hmax⟩ := h.latest hlast s hs hchat
  have hle := hmax s hs hchat
  -- The newest session of the chat is in L0 as well, and none there is newer than this one.
  have hl0' : newest ∈ inner.l0.values := by
    rcases List.mem_append.mp hnewest with hnewest | hnewest
    · exact hnewest
    · exact absurd (hrecent.newer s hl0 newest hnewest) hle.not_gt
  have hge : newest.lastActive ≤ s.lastActive := by
    refine List.le_of_mem_argmax (List.mem_reverse.mpr ?_) hactive
    rw [List.mem_filter, Iteration.mem_values, decide_eq_true_eq]
    exact ⟨hl0', hchat''⟩
  have heq : newest = s :=
    List.inj_on_of_nodup_map hrecent.distinct hnewest hs (le_antisymm hge hle)
  rw [← heq, hlast]
  exact ⟨hchat'', hends⟩

end ChatsKept

/-! ## What L2 is left with -/

section AddsOnly

variable {lance : Lance} {fate : Fate} {added : List Session} {α β : Type}

/-- A call on L2 stores no sessions but these. -/
def AddsOnly (added : List Session) (call : L2M α) : Prop :=
  ∀ t, (call.exec t).2.stored ⊆ t.stored ++ added

/-- A call that leaves the sessions alone adds none, whatever may be `added`. -/
theorem addsOnly_of_leaves {call : L2M α} (h : LeavesSessions call) : AddsOnly added call := by
  intro t
  rw [Tables.stored, h t]
  exact List.subset_append_left _ _

/-- `AddsOnly` is kept by sequencing. -/
theorem AddsOnly.bind {call : L2M α} {f : α → L2M β} (hcall : AddsOnly added call)
    (hf : ∀ value, AddsOnly added (f value)) : AddsOnly added (call >>= f) := by
  intro t
  have hfirst := hcall t
  rw [L2M.exec_bind]
  rcases hexec : call.exec t with ⟨_ | value, t'⟩ <;> rw [hexec] at hfirst
  · exact hfirst
  · exact List.Subset.trans (hf value t')
      (List.append_subset.mpr ⟨hfirst, List.subset_append_right _ _⟩)

/-- Filtering rows adds none: `AddsOnly`. -/
theorem addsOnly_filter (p : SessionRow → Bool) : AddsOnly added
    (modify fun t => { t with sessions := t.sessions.filter p } : L2M Unit) := by
  intro t
  have hsublist : (t.sessions.filter p).Sublist t.sessions := List.filter_sublist
  exact List.Subset.trans (hsublist.map _).subset (List.subset_append_left _ _)

/-- `delete` adds no session. -/
theorem addsOnly_delete (sessionId : Str) : AddsOnly added (delete lance fate sessionId) := by
  refine (addsOnly_of_leaves (leavesSessions_attempt _)).bind fun _ =>
    (addsOnly_of_leaves (leavesSessions_selecting _ _)).bind fun _ => (addsOnly_filter _).bind
      fun _ => addsOnly_of_leaves ?_
  exact (leavesSessions_attempt _).bind fun _ => (leavesSessions_selecting _ _).bind fun _ _ => rfl

/-- `persist` adds the session that it stores, and no other one. -/
theorem addsOnly_persist (s : Session) : AddsOnly [s] (persist lance fate s) := by
  have hattempt : ∀ step, AddsOnly [s] (attempt fate step) := fun step =>
    addsOnly_of_leaves (leavesSessions_attempt step)
  have hrow : AddsOnly [s] (modify fun t => { t with
      sessions := t.sessions ++ [⟨s.sessionId, s.chatId, s⟩] } : L2M Unit) := by
    intro t
    show (t.sessions ++ [_]).map SessionRow.data ⊆ _
    rw [List.map_append]
    exact fun _ h => h
  have hold : AddsOnly [s] (ignoreError do
      let selects ← selecting lance fate .deleteSessions (equals "session_id".toList s.sessionId)
      modify fun t => { t with sessions := t.sessions.filter fun row => !selects row.column }) := by
    intro t
    rw [exec_ignoreError]
    exact ((addsOnly_of_leaves (leavesSessions_selecting _ _)).bind fun _ => addsOnly_filter _) t
  exact (hattempt _).bind fun _ => (hattempt _).bind fun _ => hold.bind fun _ =>
    (hattempt _).bind fun _ => (hattempt _).bind fun _ => hrow.bind fun _ =>
      addsOnly_of_leaves (leavesSessions_updateMsgIndex s)

/-- `found` answers a session if the call on L2 has succeeded with it. -/
theorem found_eq_some_iff {result : Except L2Step (Option Session)} {s : Session} :
    found result = some s ↔ result = .ok (some s) := by
  cases result <;> simp [found]

/-- A session that `loadById` answers is stored. -/
theorem mem_stored_of_loadById {sessionId : Str} {t : Tables} {s : Session}
    (h : ((loadById lance fate sessionId).exec t).1 = .ok (some s)) : s ∈ t.stored := by
  rw [loadById, exec_attempt_bind] at h
  split at h
  · cases h
  rcases exec_selecting_bind_or .querySessions _ _ t with hexec | ⟨selects, -, hexec⟩ <;>
    rw [hexec] at h
  · cases h
  · rw [L2M.exec_get_bind, L2M.exec_pure, Except.ok.injEq, extractSession,
      Option.map_eq_some_iff] at h
    obtain ⟨row, hrow, rfl⟩ := h
    have hmem := (fate.sessionsOrder_perm _).mem_iff.mp (List.mem_of_mem_head? hrow)
    exact List.mem_map_of_mem (List.mem_of_mem_filter hmem)

/-- A session that `loadByMsg` answers is stored. -/
theorem mem_stored_of_loadByMsg {msgId : Int} {t : Tables} {s : Session}
    (h : ((loadByMsg lance fate msgId).exec t).1 = .ok (some s)) : s ∈ t.stored := by
  rw [loadByMsg, exec_attempt_bind] at h
  split at h
  · cases h
  rcases exec_selecting_bind_or .queryMsgIndex _ _ t with hexec | ⟨selects, -, hexec⟩ <;>
    rw [hexec] at h
  · cases h
  · rw [L2M.exec_get_bind] at h
    split at h
    · exact mem_stored_of_loadById h
    · cases h

/-- A session that `semanticSearch` answers is stored. -/
theorem mem_stored_of_semanticSearch {chatId : Str} {t : Tables} {s : Session}
    (h : ((semanticSearch lance fate chatId).exec t).1 = .ok (some s)) : s ∈ t.stored := by
  rw [semanticSearch, exec_attempt_bind] at h
  split at h
  · cases h
  rw [exec_attempt_bind] at h
  split at h
  · cases h
  rcases exec_selecting_bind_or .querySessions _ _ t with hexec | ⟨selects, -, hexec⟩ <;>
    rw [hexec] at h
  · cases h
  · rw [L2M.exec_get_bind, L2M.exec_pure, Except.ok.injEq, Option.map_eq_some_iff] at h
    obtain ⟨row, hrow, rfl⟩ := h
    exact List.mem_map_of_mem (List.mem_of_mem_filter (fate.nearest_mem hrow))

end AddsOnly

/-! ## One call -/

/-- What L2 answers is what it was asked for: a session with the message, or of the chat. It need
not answer, and may fail in whatever else it does. -/
def Answers (lance : Lance) (op : SessionOp) (st : SessionStore) : Prop :=
  match op with
  | .loadByMsg msgId => ∀ s ∈ loads lance op st, msgId ∈ s.msgIds
  | .semanticSearch _ chatId => ∀ s ∈ loads lance op st, s.chatId = chatId
  | _ => True

/-- Time has passed, and no sessions but some may have been added to L2. -/
structure Follows (added : List Session) (st st' : SessionStore) : Prop where
  /-- The sessions in memory are the same. -/
  inner : st'.inner = st.inner
  /-- None has left memory. -/
  evicted : st'.evicted = st.evicted
  /-- The decisions to come are later ones. -/
  fate : ∃ passed, ∀ n, st'.fate n = st.fate (passed + n)
  /-- What is stored has been stored before, or was added. -/
  stored : st'.l2.stored ⊆ st.l2.stored ++ added

namespace Follows

variable {lance : Lance} {st st' st'' : SessionStore} {added added' : List Session}

/-- `Follows` is reflexive, and adds nothing. -/
theorem refl (st : SessionStore) : Follows added st st :=
  ⟨rfl, rfl, ⟨0, fun n => by rw [Nat.zero_add]⟩, List.subset_append_left _ _⟩

/-- `Follows` is transitive: what is added on the way is what is added on each part of it. -/
theorem trans (h : Follows added st st') (h' : Follows added' st' st'') :
    Follows (added ++ added') st st'' where
  inner := h'.inner.trans h.inner
  evicted := h'.evicted.trans h.evicted
  fate := by
    obtain ⟨passed, hfate⟩ := h.fate
    obtain ⟨passed', hfate'⟩ := h'.fate
    exact ⟨passed + passed', fun n => by rw [hfate', hfate, Nat.add_assoc]⟩
  stored := by
    rw [← List.append_assoc]
    exact List.Subset.trans h'.stored (List.append_subset.mpr
      ⟨List.Subset.trans h.stored (List.subset_append_left _ _), List.subset_append_right _ _⟩)

/-- A call on L2 that `AddsOnly` some sessions leads to a store that `Follows` with these. -/
theorem callL2 {α : Type} {call : Fate → L2M α} (h : AddsOnly added (call (st.fate 0))) :
    Follows added st (st.callL2 call).2 :=
  ⟨rfl, rfl, ⟨1, fun n => by rw [Nat.add_comm]; rfl⟩, h st.l2⟩

/-- `persistAll` of the evicted sessions leads to a store that `Follows` with these, stored or not.
-/
theorem persistAll (evicted : List Session) (st : SessionStore) : Follows evicted st
    ((LogosFs.Sessions.persistAll evicted).run (SessionStore.handler lance) st).2 := by
  induction evicted generalizing st with
  | nil => exact .refl st
  | cons s evicted ih =>
    have hfirst : Follows [s] st (st.callL2 fun fate => persist lance fate s).2 :=
      callL2 (addsOnly_persist s)
    exact hfirst.trans (ih _)

end Follows

/-- What is known of the sessions that a message is put into from L2: it was stored, and has the
target of the reply or is of the chat. -/
def Fetched (st : SessionStore) (msg : MsgRef) (s : Session) : Prop :=
  s ∈ st.l2.stored ∧ ((∃ r, msg.replyTo = some r ∧ r ∈ s.msgIds) ∨ s.chatId = msg.chatId)

/-- A call comes to one update, of the sessions that were in memory before. -/
structure OneUpdate (st : SessionStore) (msg : MsgRef) (st' : SessionStore) : Prop where
  /-- The update restores what was fetched; L2 is left with what it evicts, at most. -/
  exists_update : ∃ passed pageFaultSession semanticMatch,
    (∀ s, restored msg pageFaultSession semanticMatch = some s → Fetched st msg s) ∧
      st'.inner = (update (st.fate passed).moment msg pageFaultSession semanticMatch st.inner).1 ∧
      st'.evicted = st.evicted
        ++ (update (st.fate passed).moment msg pageFaultSession semanticMatch st.inner).2 ∧
      (∃ later, ∀ n, st'.fate n = st.fate (passed + 1 + later + n)) ∧
      st'.l2.stored ⊆ st.l2.stored
        ++ (update (st.fate passed).moment msg pageFaultSession semanticMatch st.inner).2

variable {lance : Lance} {st st' : SessionStore} {msg : MsgRef} {session : Option Session}

/-- A call that only waits, makes its update and then only stores is `OneUpdate`. -/
theorem oneUpdate_of_follows {st₁ st₂ : SessionStore} {pageFaultSession semanticMatch : Option Session}
    (hwait : Follows [] st st₁)
    (hrestored : ∀ s, restored msg pageFaultSession semanticMatch = some s → Fetched st msg s)
    (hstore : Follows (SessionStore.handler lance (.update msg pageFaultSession semanticMatch) st₁).1
      (SessionStore.handler lance (.update msg pageFaultSession semanticMatch) st₁).2 st₂) :
    OneUpdate st msg st₂ := by
  obtain ⟨passed, hfate⟩ := hwait.fate
  obtain ⟨later, hfate'⟩ := hstore.fate
  have hmoment : st₁.fate 0 = st.fate passed := hfate 0
  have hstored : st₁.l2.stored ⊆ st.l2.stored := by
    have h := hwait.stored
    rwa [List.append_nil] at h
  refine ⟨passed, pageFaultSession, semanticMatch, hrestored, ?_, ?_, ⟨later, fun n => ?_⟩, ?_⟩
  · rw [hstore.inner, ← hwait.inner, ← hmoment]
    rfl
  · rw [hstore.evicted, ← hwait.inner, ← hmoment, ← hwait.evicted]
    rfl
  · rw [hfate']
    show st₁.fate (later + n + 1) = _
    rw [hfate]
    congr 1
    omega
  · rw [← hwait.inner, ← hmoment]
    refine List.Subset.trans hstore.stored (List.append_subset.mpr ⟨?_, List.subset_append_right _ _⟩)
    exact List.Subset.trans hstored (List.subset_append_left _ _)

/-- A store follows itself after its `tick`, and nothing is added. -/
theorem follows_tick (st : SessionStore) : Follows [] st st.tick :=
  ⟨rfl, rfl, ⟨1, fun n => by rw [Nat.add_comm]; rfl⟩, List.subset_append_left _ _⟩

/-- What is left of a call by `readyWith`, with a session from L2 or none, is `OneUpdate`. -/
theorem oneUpdate_readyWith {st₁ : SessionStore} (hwait : Follows [] st st₁)
    (hsession : ∀ s, session = some s → Fetched st msg s) :
    OneUpdate st msg ((readyWith msg session).run (SessionStore.handler lance) st₁).2 := by
  unfold readyWith
  cases hreply : msg.replyTo with
  | some r =>
    have hrestored := (restored_of_replyTo session).2 r hreply
    exact oneUpdate_of_follows hwait (fun s hs => hsession s (hrestored.symm.trans hs))
      (.persistAll _ _)
  | none =>
    have hrestored := (restored_of_replyTo session).1 hreply
    exact oneUpdate_of_follows hwait (fun s hs => hsession s (hrestored.symm.trans hs))
      (.persistAll _ _)

/-- What is left of a call by `answered`, to which L2 has answered, is `OneUpdate`. -/
theorem oneUpdate_answered {st₁ : SessionStore} (hwait : Follows [] st st₁)
    (hsession : ∀ s, session = some s → Fetched st msg s) :
    OneUpdate st msg ((answered msg session).run (SessionStore.handler lance) st₁).2 := by
  cases session with
  | none => exact oneUpdate_readyWith hwait hsession
  | some s =>
    have hdelete : Follows [] st₁
        (st₁.callL2 fun fate => L2Store.delete lance fate s.sessionId).2 :=
      .callL2 (addsOnly_delete s.sessionId)
    exact oneUpdate_readyWith (hwait.trans hdelete) hsession

variable (lance) in
/-- **One call** of `observe`, with or without L2, comes to one update. -/
theorem oneUpdate_observe (hasL2 : Bool)
    (hanswers : (observe hasL2 msg).Along (SessionStore.handler lance) (Answers lance) st) :
    OneUpdate st msg ((observe hasL2 msg).run (SessionStore.handler lance) st).2 := by
  cases hasL2 with
  -- Without L2 a call waits at most, and then updates without a session.
  | false =>
    have hnone : restored msg none none = none := by
      unfold restored
      cases msg.replyTo <;> rfl
    have hwait : ∃ st₁, Follows [] st st₁ ∧
        (pageFault false msg.replyTo).run (SessionStore.handler lance) st = (none, st₁) := by
      cases msg.replyTo with
      | none => exact ⟨st, .refl st, rfl⟩
      | some r =>
        refine ⟨st.tick, follows_tick st, ?_⟩
        rw [pageFault, Program.run_bind, Program.run_perform, SessionStore.handler]
        cases (st.inner.msgIndex.get r).isNone <;> rfl
    obtain ⟨st₁, hfollows, hrun⟩ := hwait
    rw [observe, Program.run_bind, hrun]
    simp only [deleteLoaded, similar_inMemory]
    have hupdate : OneUpdate st msg (SessionStore.handler lance (.update msg none none) st₁).2 :=
      oneUpdate_of_follows hfollows (fun s hs => absurd (hnone.symm.trans hs) (by simp)) (.refl _)
    exact hupdate
  -- With L2 it loads a session or finds one, and updates with what it has got.
  | true =>
    cases hreply : msg.replyTo with
    | some r =>
      rw [observe_of_reply hreply] at hanswers ⊢
      obtain ⟨-, hrest⟩ := hanswers
      rw [Program.run_call]
      cases hneeded : (SessionStore.handler lance (.needFault r) st).1 with
      | false =>
        have hnothing : ∀ s, none = some s → Fetched st msg s := fun s hs => by cases hs
        exact oneUpdate_answered (follows_tick st) hnothing
      | true =>
        rw [hneeded] at hrest
        have hload : Follows [] st.tick
            (st.tick.callL2 fun fate => loadByMsg lance fate r).2 :=
          .callL2 (addsOnly_of_leaves (leavesSessions_loadByMsg r))
        refine oneUpdate_answered ((follows_tick st).trans hload) fun s hs => ⟨?_, .inl ⟨r, hreply, ?_⟩⟩
        · exact mem_stored_of_loadByMsg (found_eq_some_iff.mp hs)
        · exact hrest.1 s hs
    | none =>
      rw [observe_of_no_reply hreply] at hanswers ⊢
      rw [Program.run_call]
      have hsearch : Follows [] st
          (st.callL2 fun fate => semanticSearch lance fate msg.chatId).2 :=
        .callL2 (addsOnly_of_leaves (leavesSessions_semanticSearch msg.chatId))
      refine oneUpdate_answered hsearch fun s hs => ⟨?_, .inr (hanswers.1 s hs)⟩
      exact mem_stored_of_semanticSearch (found_eq_some_iff.mp hs)

/-! ## Whole runs -/

/-- What holds at any time of a run under a clock that runs forward. -/
structure Tracks (st : SessionStore) (seen : List MsgRef) : Prop where
  /-- The order of recency. -/
  recent : Recent st.inner
  /-- Sessions are under their own ids. -/
  named : Named st.inner
  /-- The layers are those of one list. -/
  lru : Lru st.inner
  /-- Everything has been active before the times to come. -/
  before : ∀ n, Before (st.fate n).moment.now st.inner
  /-- They come in order. -/
  clock : ∀ m n, m < n → (st.fate m).moment.now < (st.fate n).moment.now
  /-- The sessions are about their chats. -/
  chats : ChatsKept st.inner st.l2.stored seen

/-- A new store `Tracks` no messages, if its clock goes forward. -/
theorem tracks_new (l0Capacity l1Capacity : Nat) {fate : Nat → Fate}
    (hclock : ∀ m n, m < n → (fate m).moment.now < (fate n).moment.now) :
    Tracks (.new l0Capacity l1Capacity fate) [] where
  recent := recent_new _ _
  named := named_new _ _
  lru := (recent_new l0Capacity l1Capacity).lru (Nat.zero_le _) (Nat.zero_le _)
  before _ _ h := nomatch h
  clock := hclock
  chats := chatsKept_new _ _

/-- **One update** keeps `Tracks`, and what it evicts is older than what stays. -/
theorem Tracks.oneUpdate {seen : List MsgRef} (h : Tracks st seen)
    (hdistinct : Distinct (seen ++ [msg]))
    (hreplies : ∀ m ∈ seen, msg.replyTo = some m.msgId → m.chatId = msg.chatId)
    (hone : OneUpdate st msg st') : Tracks st' (seen ++ [msg]) ∧
      ∃ out, st'.evicted = st.evicted ++ out ∧
        ∀ g ∈ out, ∀ s ∈ st'.inner.sessions, g.lastActive < s.lastActive := by
  obtain ⟨passed, pageFaultSession, semanticMatch, hfetched, hinner, hevicted, ⟨later, hfate⟩,
    hstored⟩ := hone
  rw [update_eq] at hinner hevicted hstored
  have hseen : Distinct seen := hdistinct.sublist (List.sublist_append_left _ _)
  have hnow := h.before passed
  obtain ⟨s, hplaced, hsource, hindex⟩ :=
    place_spec (st.fate passed).moment msg pageFaultSession semanticMatch h.named
  -- What was fetched from L2 is of the chat of the message.
  have hfound : ∀ old, restored msg pageFaultSession semanticMatch = some old →
      old.OfChat seen ∧ old.chatId = msg.chatId := by
    intro old hold
    obtain ⟨hmem, hchat⟩ := hfetched old hold
    have hofChat := h.chats.ofChat old (List.mem_append_right _ hmem)
    refine ⟨hofChat, ?_⟩
    rcases hchat with ⟨r, hreply, hid⟩ | hchat
    · obtain ⟨m, hm, rfl⟩ := List.mem_map.mp hid
      obtain ⟨hmseen, hown⟩ := hofChat.messages m hm
      exact hown.symm.trans (hreplies m hmseen hreply)
    · exact hchat
  obtain ⟨hofChat, hchat, hlast⟩ := h.chats.of_source hseen hreplies hfound hsource
  have hchats := h.chats.of_placed h.named hnow hdistinct hplaced hofChat hchat hlast hindex
  have hrecent := hplaced.recent h.recent hnow
  have hnamed := hplaced.named h.named hindex
  obtain ⟨hshrinks, hlru, hfrom, holder⟩ :=
    evictCollect_lru (st.fate passed).moment hrecent hnamed
  have hchats' := (hchats.of_shrinks hdistinct hshrinks hfrom).of_subset hstored
  refine ⟨⟨hinner ▸ hshrinks.recent, hinner ▸ hshrinks.named, hinner ▸ hlru, fun n => ?_, ?_,
    hinner ▸ hchats'⟩, _, hevicted, hinner ▸ holder⟩
  · have hlater : (st.fate passed).moment.now < (st'.fate n).moment.now := by
      rw [hfate]
      exact h.clock _ _ (by omega)
    have hbefore := hplaced.before hnow hlater
    rw [hinner]
    exact fun s hs => hbefore s (hshrinks.keeps.1 hs)
  · intro n n' hlt
    show (st'.fate n).moment.now < (st'.fate n').moment.now
    rw [hfate, hfate]
    exact h.clock _ _ (by omega)

/-- **Every run** of `observeAll` keeps `Tracks`, with messages that reply within their chats. -/
theorem tracks_observeAll {hasL2 : Bool} {l0Capacity l1Capacity : Nat} {fate : Nat → Fate}
    (hclock : ∀ m n, m < n → (fate m).moment.now < (fate n).moment.now) (msgs : List MsgRef)
    (hdistinct : Distinct msgs)
    (hreplies : ∀ earlier msg, earlier ++ [msg] <+: msgs → ∀ m ∈ earlier,
      msg.replyTo = some m.msgId → m.chatId = msg.chatId)
    (hanswers : ∀ earlier msg, earlier ++ [msg] <+: msgs →
      (observe hasL2 msg).Along (SessionStore.handler lance) (Answers lance)
        ((SessionStore.new l0Capacity l1Capacity fate).observeAll lance hasL2 earlier)) :
    Tracks ((SessionStore.new l0Capacity l1Capacity fate).observeAll lance hasL2 msgs) msgs := by
  induction msgs using List.reverseRecOn with
  | nil => exact tracks_new l0Capacity l1Capacity hclock
  | append_singleton msgs msg ih =>
    have hinitial : ∀ {earlier : List MsgRef} {m : MsgRef}, earlier ++ [m] <+: msgs →
        earlier ++ [m] <+: msgs ++ [msg] := fun h => h.trans (List.prefix_append _ _)
    have htracks := ih (hdistinct.sublist (List.sublist_append_left _ _))
      (fun earlier m h => hreplies earlier m (hinitial h))
      (fun earlier m h => hanswers earlier m (hinitial h))
    rw [observeAll_append_singleton]
    exact (htracks.oneUpdate hdistinct (hreplies msgs msg List.prefix_rfl)
      (oneUpdate_observe lance hasL2 (hanswers msgs msg List.prefix_rfl))).1

/-- **L0 and L1 are one list**: `Lru`. In a store with or without L2, under a clock that runs
forward and with distinct non-negative ids, let messages reply to messages of their own chats only,
and let L2 answer nothing that it was not asked for. After every run of `observeAll` L0 has the most
recent sessions in memory, as many as it may, and L1 the rest; what any call has evicted was older
than all that stayed; and the `activeSession` of a chat, if there is one, is that which the chat's
last message has joined. -/
theorem lru_of_observeAll {hasL2 : Bool} {l0Capacity l1Capacity : Nat} {fate : Nat → Fate}
    (hclock : ∀ m n, m < n → (fate m).moment.now < (fate n).moment.now) (msgs : List MsgRef)
    (hids : (msgs.map MsgRef.msgId).Nodup) (hnonneg : ∀ m ∈ msgs, 0 ≤ m.msgId)
    (hreplies : ∀ earlier msg, earlier ++ [msg] <+: msgs → ∀ m ∈ earlier,
      msg.replyTo = some m.msgId → m.chatId = msg.chatId)
    (hanswers : ∀ earlier msg, earlier ++ [msg] <+: msgs →
      (observe hasL2 msg).Along (SessionStore.handler lance) (Answers lance)
        ((SessionStore.new l0Capacity l1Capacity fate).observeAll lance hasL2 earlier)) :
    Lru ((SessionStore.new l0Capacity l1Capacity fate).observeAll lance hasL2 msgs).inner ∧
    (∀ earlier msg, earlier ++ [msg] <+: msgs → ∃ out,
      ((SessionStore.new l0Capacity l1Capacity fate).observeAll lance hasL2
          (earlier ++ [msg])).evicted
        = ((SessionStore.new l0Capacity l1Capacity fate).observeAll lance hasL2 earlier).evicted
          ++ out ∧
      ∀ g ∈ out, ∀ s ∈ ((SessionStore.new l0Capacity l1Capacity fate).observeAll lance hasL2
          (earlier ++ [msg])).inner.sessions, g.lastActive < s.lastActive) ∧
    ∀ chatId s, ((getActiveSession chatId).run (SessionStore.handler lance)
        ((SessionStore.new l0Capacity l1Capacity fate).observeAll lance hasL2 msgs)).1 = some s →
      s.chatId = chatId ∧ s.messages.getLast? = lastOf msgs chatId := by
  -- The invariant holds after every initial part of the run.
  have htracks : ∀ {earlier : List MsgRef}, earlier <+: msgs →
      Tracks ((SessionStore.new l0Capacity l1Capacity fate).observeAll lance hasL2 earlier)
        earlier := fun hinitial =>
    tracks_observeAll hclock _ ((Distinct.mk hids hnonneg).sublist hinitial.sublist)
      (fun earlier m h => hreplies earlier m (h.trans hinitial))
      (fun earlier m h => hanswers earlier m (h.trans hinitial))
  have hend := htracks List.prefix_rfl
  refine ⟨hend.lru, fun earlier msg hinitial => ?_, fun chatId s hactive => ?_⟩
  · have hstart := htracks ((List.prefix_append earlier [msg]).trans hinitial)
    have hdistinct := (Distinct.mk hids hnonneg).sublist hinitial.sublist
    rw [observeAll_append_singleton]
    exact (hstart.oneUpdate hdistinct (hreplies earlier msg hinitial)
      (oneUpdate_observe lance hasL2 (hanswers earlier msg hinitial))).2
  · exact hend.chats.getLast?_of_activeSession hend.recent hactive

/-! ## An L2 that does not fail -/

/-- An operation that asks L2 for no session. -/
def AsksNothing : SessionOp → Prop
  | .loadByMsg _ | .semanticSearch _ _ => False
  | _ => True

/-- `answered` performs no operation, so it asks nothing. -/
theorem asksNothing_answered (session : Option Session) :
    (answered msg session).AllOps AsksNothing := by
  have hpersist : ∀ evicted, (persistAll evicted).AllOps AsksNothing := by
    intro evicted
    induction evicted with
    | nil => trivial
    | cons s evicted ih => exact ⟨trivial, fun _ => ih⟩
  have hready : ∀ session, (readyWith msg session).AllOps AsksNothing := by
    intro session
    unfold readyWith
    split <;> exact ⟨trivial, fun evicted => hpersist evicted⟩
  cases session with
  | none => exact hready none
  | some s => exact ⟨trivial, fun _ => hready (some s)⟩

/-- `answered`, the rest of a call to which L2 has answered, does not ask it again. -/
theorem along_answered (session : Option Session) (st : SessionStore) :
    (answered msg session).Along (SessionStore.handler lance) (Answers lance) st := by
  refine (asksNothing_answered session).along _ (fun op st hop => ?_) st
  cases op with
  | loadByMsg => exact hop.elim
  | semanticSearch => exact hop.elim
  | _ => trivial

/-- An L2 on which nothing fails, in a store that is `Tiered`, answers what it is asked for. -/
theorem Tiered.along_observe {seen : List MsgRef} (h : Tiered st [] seen)
    (hquote : '\'' ∉ msg.chatId) :
    (observe true msg).Along (SessionStore.handler lance) (Answers lance) st := by
  cases hreply : msg.replyTo with
  | some r =>
    rw [observe_of_reply hreply]
    refine ⟨trivial, ?_⟩
    cases (SessionStore.handler lance (.needFault r) st).1 with
    | false => exact along_answered none _
    | true =>
      refine ⟨fun s hs => ?_, along_answered _ _⟩
      obtain ⟨result, hload, hsome, -⟩ := h.tick.loadByMsg lance r
      refine (hsome s ?_).2
      change found (SessionStore.handler lance (.loadByMsg r) st.tick).1 = some s at hs
      rwa [hload] at hs
  | none =>
    rw [observe_of_no_reply hreply]
    refine ⟨fun s hs => ?_, along_answered _ _⟩
    obtain ⟨result, hsearch, hresult⟩ := h.semanticSearch lance msg.text hquote
    refine (hresult s ?_).2
    change found (SessionStore.handler lance (.semanticSearch msg.text msg.chatId) st).1 = some s
      at hs
    rwa [hsearch] at hs

/-- An L2 on which nothing fails `Answers` what it is asked for in every run, over chat ids without
quotes. -/
theorem answers_of_noFailure {l0Capacity l1Capacity : Nat} {fate : Nat → Fate}
    (hfails : ∀ n step, (fate n).fails step = false) {msgs : List MsgRef}
    (hids : (msgs.map MsgRef.msgId).Nodup) (hnonneg : ∀ m ∈ msgs, 0 ≤ m.msgId)
    (hquote : ∀ m ∈ msgs, '\'' ∉ m.chatId) (earlier : List MsgRef) (msg : MsgRef)
    (hinitial : earlier ++ [msg] <+: msgs) :
    (observe true msg).Along (SessionStore.handler lance) (Answers lance)
      ((SessionStore.new l0Capacity l1Capacity fate).observeAll lance true earlier) := by
  have hearlier : earlier <+: msgs := (List.prefix_append earlier [msg]).trans hinitial
  refine ((tiered_observeAll lance (tiered_new l0Capacity l1Capacity hfails) earlier
    (fun before m h => ?_) fun m hm => hquote m (hearlier.subset hm)).1).along_observe
      (hquote msg (hinitial.subset (by simp)))
  exact fresh_of_nonneg hids hnonneg (h.trans hearlier)

/-- `Lru` for three sessions in a store for two, the first of which is loaded from L2 again. -/
theorem lru_of_observeAll_page_fault :
    Lru ((SessionStore.new 1 1 fun n => Fate.calm n).observeAll .comparing true
      [msgOf 1 none, msgOf 2 none, msgOf 3 none, msgOf 4 (some 1)]).inner :=
  (lru_of_observeAll (fun _ _ h => Int.ofNat_lt.mpr h) _ (by decide) (by decide)
    (forall_prefix_of_zipIdx (by decide))
    (answers_of_noFailure (fun _ _ => rfl) (by decide) (by decide) (by decide))).1

end LogosFs.Sessions
