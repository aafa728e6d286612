import LogosFs.Sessions.Observe
import LogosFs.Sessions.Sound
import LogosFs.Sessions.Tables

/-! # The three tiers

`Tiered st held seen` is the invariant of a store with L2 on which nothing fails: the sessions in
memory, those stored in L2 and some that a call holds in between (`held`: loaded and deleted from
L2, or evicted and not yet stored) partition the messages that have been seen. Each operation of the
store keeps it and moves sessions between the three. -/

namespace LogosFs.Sessions

open Sessions.Inner

/-- The sessions in memory, held by calls, and stored. -/
def SessionStore.all (st : SessionStore) (held : List Session) : List Session :=
  st.inner.sessions ++ (held ++ st.l2.stored)

/-- The invariant of a store with L2 on which nothing fails. -/
structure Tiered (st : SessionStore) (held : List Session) (seen : List MsgRef) : Prop where
  /-- The sessions of all tiers partition the messages, and the index is about those in memory. -/
  sound : Sound st.inner (held ++ st.l2.stored) seen
  /-- The tables have rows for the stored sessions and their messages. -/
  filed : st.l2.Filed
  /-- No chat id has a quote in it. -/
  quoteFree : ∀ m ∈ seen, '\'' ∉ m.chatId
  /-- No step of a call on L2 will fail. -/
  noFailure : ∀ n step, (st.fate n).fails step = false

variable {lance : Lance} {st : SessionStore} {held held' : List Session} {seen : List MsgRef}
  {s : Session} {msg : MsgRef} {msgId : Int}

/-- The id `msg.sessionId` has no quote in it if `msg.chatId` has none. -/
theorem quote_notMem_sessionId (h : '\'' ∉ msg.chatId) : '\'' ∉ msg.sessionId := by
  have hint := L2Store.quote_notMem_ofInt msg.msgId
  simp only [MsgRef.sessionId, List.mem_append, List.mem_cons, not_or]
  exact ⟨⟨by decide, h⟩, by decide, hint⟩

/-- A new store on which nothing fails is `Tiered`. -/
theorem tiered_new (l0Capacity l1Capacity : Nat) {fate : Nat → Fate}
    (hfails : ∀ n step, (fate n).fails step = false) :
    Tiered (.new l0Capacity l1Capacity fate) [] [] :=
  ⟨sound_new _ _, Tables.filed_empty, fun _ h => (nomatch h), hfails⟩

namespace Tiered

/-- The order of the sessions that are `held` does not matter to `Tiered`. -/
theorem perm (h : Tiered st held seen) (hperm : held.Perm held') : Tiered st held' seen :=
  { h with sound := h.sound.perm (hperm.append_right _) }

/-- All sessions, in memory, in L2 and held, partition the messages that were `seen`: they are
`Clusters`. -/
theorem clusters (h : Tiered st held seen) : Clusters (st.all held) seen := h.sound.clusters

/-- The id of a session of `st.all held` has no quote in it, so a predicate that is built from it is
read as written. -/
theorem quote_notMem (h : Tiered st held seen) (hs : s ∈ st.all held) : '\'' ∉ s.sessionId := by
  obtain ⟨m, hm, heq⟩ := h.clusters.opened s hs
  exact heq ▸ quote_notMem_sessionId (h.quoteFree m (h.clusters.mem_seen hs hm))

/-- A session of `l2.stored` is one of `st.all held`. -/
theorem mem_all_of_stored (hs : s ∈ st.l2.stored) : s ∈ st.all held :=
  List.mem_append_right _ (List.mem_append_right _ hs)

/-- A session of `inner.sessions` is one of `st.all held`. -/
theorem mem_all_of_memory (hs : s ∈ st.inner.sessions) : s ∈ st.all held :=
  List.mem_append_left _ hs

/-- Time may pass: `st.tick` is `Tiered` as `st` is. -/
theorem tick (h : Tiered st held seen) : Tiered st.tick held seen :=
  { h with noFailure := fun n => h.noFailure (n + 1) }

/-! ## Loading -/

/-- The operation `.loadByMsg msgId` yields the stored session `s` that has the message, and changes
nothing but the time. -/
theorem loadByMsg_of_mem (h : Tiered st held seen) (hs : s ∈ st.l2.stored) (hid : msgId ∈ s.msgIds) :
    SessionStore.handler lance (.loadByMsg msgId) st = (.ok (some s), st.tick) := by
  have hexec := h.filed.exec_loadByMsg lance (h.noFailure 0) hs hid
    (h.quote_notMem (mem_all_of_stored hs))
    (fun s' hs' hid' => h.clusters.eq_of_mem_msgIds (mem_all_of_stored hs')
      (mem_all_of_stored hs) hid' hid)
    (fun s' hs' heq => h.clusters.eq_of_sessionId_eq (mem_all_of_stored hs')
      (mem_all_of_stored hs) heq)
  simp only [SessionStore.handler, SessionStore.callL2, hexec]
  rfl

/-- The operation `.loadByMsg msgId` yields `none` if no stored session has the message. -/
theorem loadByMsg_of_notMem (h : Tiered st held seen)
    (hmsg : ∀ s ∈ st.l2.stored, msgId ∉ s.msgIds) :
    SessionStore.handler lance (.loadByMsg msgId) st = (.ok none, st.tick) := by
  have hexec := h.filed.exec_loadByMsg_eq_none lance (h.noFailure 0) hmsg
  simp only [SessionStore.handler, SessionStore.callL2, hexec]
  rfl

variable (lance) in
/-- What `.loadByMsg msgId` yields is stored and has the message; where it yields `none`, no stored
session has. -/
theorem loadByMsg (h : Tiered st held seen) (msgId : Int) :
    ∃ result, SessionStore.handler lance (.loadByMsg msgId) st = (.ok result, st.tick) ∧
      (∀ s, result = some s → s ∈ st.l2.stored ∧ msgId ∈ s.msgIds) ∧
      (result = none → ∀ s ∈ st.l2.stored, msgId ∉ s.msgIds) := by
  by_cases hstored : ∃ s ∈ st.l2.stored, msgId ∈ s.msgIds
  · obtain ⟨s, hs, hid⟩ := hstored
    refine ⟨some s, h.loadByMsg_of_mem hs hid, fun s' hs' => ?_, fun hnone => (nomatch hnone)⟩
    exact Option.some_inj.mp hs' ▸ ⟨hs, hid⟩
  · have hmsg : ∀ s ∈ st.l2.stored, msgId ∉ s.msgIds := fun s hs hid => hstored ⟨s, hs, hid⟩
    exact ⟨none, h.loadByMsg_of_notMem hmsg, fun s hs => (nomatch hs), fun _ => hmsg⟩

variable (lance) in
/-- What `.semanticSearch text chatId` yields is stored and of that chat, if `chatId` has no quote.
-/
theorem semanticSearch (h : Tiered st held seen) (text : Str) {chatId : Str}
    (hquote : '\'' ∉ chatId) :
    ∃ result, SessionStore.handler lance (.semanticSearch text chatId) st = (.ok result, st.tick) ∧
      ∀ s, result = some s → s ∈ st.l2.stored ∧ s.chatId = chatId := by
  obtain ⟨result, hexec, hresult⟩ :=
    h.filed.exec_semanticSearch lance (h.noFailure 0) hquote
  refine ⟨result, ?_, hresult⟩
  simp only [SessionStore.handler, SessionStore.callL2, hexec]
  rfl

/-! ## Moving sessions -/

/-- The sessions are a permutation of `s` and those that the filter on `s.sessionId` keeps, as the
ids are distinct. -/
theorem perm_filter_sessionId {sessions : List Session}
    (hnodup : (sessions.map Session.sessionId).Nodup) (hs : s ∈ sessions) :
    sessions.Perm (s :: sessions.filter fun s' => s'.sessionId != s.sessionId) := by
  have hfilter : (sessions.filter fun s' => s'.sessionId != s.sessionId).Nodup :=
    hnodup.of_map.filter _
  rw [List.perm_ext_iff_of_nodup hnodup.of_map]
  · intro s'
    rw [List.mem_cons, List.mem_filter, bne_iff_ne]
    constructor
    · intro hs'
      by_cases heq : s'.sessionId = s.sessionId
      · exact .inl (List.inj_on_of_nodup_map hnodup hs' hs heq)
      · exact .inr ⟨hs', heq⟩
    · rintro (rfl | ⟨hs', -⟩)
      · exact hs
      · exact hs'
  · exact List.nodup_cons.mpr ⟨fun hmem => by simp at hmem, hfilter⟩

variable (lance) in
/-- Deleting a stored session `s` takes it out of `l2.stored`; held from then on, it keeps the state
`Tiered`. -/
theorem delete (h : Tiered st held seen) (hs : s ∈ st.l2.stored) :
    ∃ st', SessionStore.handler lance (.delete s.sessionId) st = (.ok (), st') ∧
      st'.inner = st.inner ∧ st.l2.stored.Perm (s :: st'.l2.stored) ∧ Tiered st' (s :: held) seen ∧
      (st.all held).Perm (st'.all (s :: held)) := by
  have hexec := L2Store.exec_delete lance (h.noFailure 0)
    (h.quote_notMem ((mem_all_of_stored hs : s ∈ st.all held))) st.l2
  refine ⟨{ st.tick with l2 := ⟨L2Store.others s.sessionId st.l2.sessions,
    st.l2.msgIndex.filter fun row => row.sessionId != s.sessionId⟩ }, ?_, rfl, ?_⟩
  · simp only [SessionStore.handler, SessionStore.callL2, hexec]
  · have hnodup : (st.l2.stored.map Session.sessionId).Nodup := by
      have hall := h.clusters.nodup
      rw [SessionStore.all, List.map_append, List.map_append] at hall
      exact (List.nodup_append.mp (List.nodup_append.mp hall).2.1).2.1
    have hstored : st.l2.stored.Perm (s :: Tables.stored
        ⟨L2Store.others s.sessionId st.l2.sessions,
          st.l2.msgIndex.filter fun row => row.sessionId != s.sessionId⟩) := by
      rw [h.filed.stored_others]
      exact perm_filter_sessionId hnodup hs
    have hrest := (hstored.append_left held).trans List.perm_middle
    exact ⟨hstored, ⟨h.sound.perm hrest, h.filed.delete s.sessionId, h.quoteFree,
      fun n => h.noFailure (n + 1)⟩, hrest.append_left _⟩

variable (lance) in
/-- Persisting a held session `s` appends it to `l2.stored`, and it is no longer held. -/
theorem persist (h : Tiered st (s :: held) seen) :
    ∃ st', SessionStore.handler lance (.persist s) st = (.ok (), st') ∧
      st'.inner = st.inner ∧ st'.l2.stored = st.l2.stored ++ [s] ∧ Tiered st' held seen ∧
      (st.all (s :: held)).Perm (st'.all held) := by
  have hs : s ∈ st.all (s :: held) :=
    List.mem_append_right _ (List.mem_append_left _ List.mem_cons_self)
  have hexec := L2Store.exec_persist lance (h.noFailure 0) (h.quote_notMem hs) st.l2
  -- No stored session has the id of the held one, as no two sessions share an id.
  have hnew : ∀ s' ∈ st.l2.stored, s'.sessionId ≠ s.sessionId := by
    intro s' hs' heq
    have hall := h.clusters.nodup
    rw [SessionStore.all, List.map_append, List.cons_append, List.map_cons] at hall
    have hrest := (List.nodup_cons.mp (List.nodup_append.mp hall).2.1).1
    exact hrest (List.mem_map.mpr ⟨s', List.mem_append_right _ hs', heq⟩)
  have hmsgs : ∀ s' ∈ st.l2.stored, ∀ msgId ∈ s'.msgIds, msgId ∉ s.msgIds := by
    intro s' hs' msgId hid' hid
    have heq := h.clusters.eq_of_mem_msgIds (mem_all_of_stored hs') hs hid' hid
    exact hnew s' hs' (congrArg Session.sessionId heq)
  refine ⟨{ st.tick with l2 := ⟨L2Store.others s.sessionId st.l2.sessions ++ [L2Store.rowOf s],
    L2Store.otherMsgs s.messages st.l2.msgIndex ++ L2Store.msgRowsOf s⟩ }, ?_, rfl, ?_⟩
  · simp only [SessionStore.handler, SessionStore.callL2, hexec]
  · have hrest : (s :: held ++ st.l2.stored).Perm (held ++ Tables.stored
        ⟨L2Store.others s.sessionId st.l2.sessions ++ [L2Store.rowOf s],
          L2Store.otherMsgs s.messages st.l2.msgIndex ++ L2Store.msgRowsOf s⟩) := by
      rw [h.filed.stored_persist hnew, List.cons_append, ← List.append_assoc]
      exact (List.perm_append_singleton _ _).symm
    exact ⟨h.filed.stored_persist hnew _, ⟨h.sound.perm hrest, h.filed.persist hnew hmsgs,
      h.quoteFree, fun n => h.noFailure (n + 1)⟩, hrest.append_left _⟩

variable {pageFaultSession semanticMatch : Option Session}

variable (lance) in
/-- The operation `.update` takes the held session that it restores back into memory and holds those
that it evicts: no session is lost, and `msg` is added to its target. -/
theorem update (hfresh : Fresh msg seen) (hquote : '\'' ∉ msg.chatId)
    (h : Tiered st ((restored msg pageFaultSession semanticMatch).toList ++ held) seen) :
    ∃ st' evicted, SessionStore.handler lance (.update msg pageFaultSession semanticMatch) st
        = (evicted, st') ∧ st'.l2 = st.l2 ∧ Tiered st' (evicted ++ held) (seen ++ [msg]) ∧
      Grows (st.all ((restored msg pageFaultSession semanticMatch).toList ++ held))
        (st'.all (evicted ++ held)) ∧
      ∀ s, target st.inner msg pageFaultSession semanticMatch = some s →
        ∃ now, s.addMessage now msg ∈ st'.all (evicted ++ held) := by
  have hsound := h.sound
  rw [List.append_assoc] at hsound
  obtain ⟨hsound', hgrows, htarget⟩ :=
    Sound.update (st.fate 0).moment hfresh hsound
  refine ⟨_, _, rfl, rfl, ⟨?_, h.filed, ?_, fun n => h.noFailure (n + 1)⟩, ?_,
    fun s hs => ⟨(st.fate 0).moment.now, ?_⟩⟩
  · rw [List.append_assoc]
    exact hsound'
  · intro m hm
    rcases List.mem_append.mp hm with hm | hm
    · exact h.quoteFree m hm
    · rwa [List.mem_singleton.mp hm]
  · rw [SessionStore.all, SessionStore.all, List.append_assoc, List.append_assoc]
    exact hgrows
  · rw [SessionStore.all, List.append_assoc]
    exact htarget s hs

end Tiered

end LogosFs.Sessions
