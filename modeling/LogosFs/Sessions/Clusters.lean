import Mathlib.Data.List.Nodup
import LogosFs.Sessions.Store

/-! # Clusters of messages

What the session store is for, without its tiers: at any time the sessions partition the messages
that have been observed (`Clusters`). A message opens a session of its own or is added to one that
exists, and a session only ever grows (`Grows`), so messages that are together once stay together. -/

namespace LogosFs.Sessions

/-- A message whose id, and the id of the session that it opens, are new. -/
structure Fresh (msg : MsgRef) (seen : List MsgRef) : Prop where
  /-- No message has the id. -/
  msgId : msg.msgId ∉ seen.map MsgRef.msgId
  /-- No message opens a session of the same id. -/
  sessionId : msg.sessionId ∉ seen.map MsgRef.sessionId

/-- The sessions partition the messages that have been seen. -/
structure Clusters (all : List Session) (seen : List MsgRef) : Prop where
  /-- No two messages have the same id. -/
  distinct : (seen.map MsgRef.msgId).Nodup
  /-- No two sessions have the same id. -/
  nodup : (all.map Session.sessionId).Nodup
  /-- Every session is named after one of its messages. -/
  opened : ∀ s ∈ all, ∃ m ∈ s.messages, m.sessionId = s.sessionId
  /-- Every message is in exactly one session, once. -/
  messages : (all.flatMap Session.messages).Perm seen

/-- `Clusters` holds of no sessions and no messages. -/
theorem clusters_nil : Clusters [] [] :=
  ⟨List.nodup_nil, List.nodup_nil, fun _ h => (nomatch h), .refl _⟩

namespace Clusters

variable {all all' others : List Session} {seen : List MsgRef} {s s' : Session} {msg : MsgRef}

/-- `Clusters` does not depend on the order of the sessions. -/
theorem perm (h : Clusters all seen) (hperm : all.Perm all') : Clusters all' seen where
  distinct := h.distinct
  nodup := (hperm.map _).nodup_iff.mp h.nodup
  opened s hs := h.opened s (hperm.mem_iff.mpr hs)
  messages := (hperm.symm.flatMap_right _).trans h.messages

/-- By `Clusters` the messages of the sessions have been seen. -/
theorem mem_seen (h : Clusters all seen) {m : MsgRef} (hs : s ∈ all) (hm : m ∈ s.messages) :
    m ∈ seen :=
  h.messages.mem_iff.mp (List.mem_flatMap.mpr ⟨s, hs, hm⟩)

/-- By `Clusters` every message that has been seen is in a session. -/
theorem exists_of_mem_seen (h : Clusters all seen) {m : MsgRef} (hm : m ∈ seen) :
    ∃ s ∈ all, m ∈ s.messages :=
  List.mem_flatMap.mp (h.messages.mem_iff.mpr hm)

/-- By `Clusters` a message is in one session only. -/
theorem eq_of_mem_msgIds (h : Clusters all seen) {msgId : Int} (hs : s ∈ all) (hs' : s' ∈ all)
    (hid : msgId ∈ s.msgIds) (hid' : msgId ∈ s'.msgIds) : s = s' := by
  have hnodup : (all.flatMap Session.msgIds).Nodup := by
    have hmap : (all.flatMap Session.messages).map MsgRef.msgId = all.flatMap Session.msgIds :=
      List.map_flatMap
    rw [← hmap]
    exact (h.messages.map _).nodup_iff.mpr h.distinct
  have hsymm : Std.Symm (Function.onFun List.Disjoint Session.msgIds) :=
    ⟨fun _ _ hdisjoint _ hid hid' => hdisjoint hid' hid⟩
  by_contra hne
  exact (List.nodup_flatMap.mp hnodup).2.forall hs hs' hne hid hid'

/-- By `Clusters` sessions with the same id are the same. -/
theorem eq_of_sessionId_eq (h : Clusters all seen) (hs : s ∈ all) (hs' : s' ∈ all)
    (heq : s.sessionId = s'.sessionId) : s = s' :=
  List.inj_on_of_nodup_map h.nodup hs hs' heq

/-- No session holds a `Fresh` message. -/
theorem notMem_msgIds_of_fresh (h : Clusters all seen) (hfresh : Fresh msg seen) (hs : s ∈ all) :
    msg.msgId ∉ s.msgIds := by
  intro hid
  obtain ⟨m, hm, heq⟩ := List.mem_map.mp hid
  exact hfresh.msgId (List.mem_map.mpr ⟨m, h.mem_seen hs hm, heq⟩)

/-- No session has the id that a `Fresh` message would open one with. -/
theorem sessionId_ne_of_fresh (h : Clusters all seen) (hfresh : Fresh msg seen) (hs : s ∈ all) :
    s.sessionId ≠ msg.sessionId := by
  intro heq
  obtain ⟨m, hm, hopen⟩ := h.opened s hs
  exact hfresh.sessionId (List.mem_map.mpr ⟨m, h.mem_seen hs hm, hopen.trans heq⟩)

/-- The ids stay distinct when a `Fresh` message is seen. -/
theorem distinct_append (h : Clusters all seen) (hfresh : Fresh msg seen) :
    ((seen ++ [msg]).map MsgRef.msgId).Nodup := by
  rw [List.map_append, List.map_singleton, List.nodup_append]
  refine ⟨h.distinct, List.nodup_singleton _, fun id hid id' hid' heq => ?_⟩
  rw [List.mem_singleton.mp hid'] at heq
  exact hfresh.msgId (heq ▸ hid)

/-- `Clusters` is kept when a `Fresh` message opens a session. -/
theorem openSession (h : Clusters all seen) (hfresh : Fresh msg seen) (now : DateTime) :
    Clusters (Session.new now msg.chatId msg :: all) (seen ++ [msg]) where
  distinct := h.distinct_append hfresh
  nodup := by
    rw [List.map_cons, List.nodup_cons]
    refine ⟨fun hmem => ?_, h.nodup⟩
    obtain ⟨s, hs, heq⟩ := List.mem_map.mp hmem
    exact h.sessionId_ne_of_fresh hfresh hs heq
  opened s hs := by
    rcases List.mem_cons.mp hs with rfl | hs
    · exact ⟨msg, List.mem_singleton.mpr rfl, rfl⟩
    · exact h.opened s hs
  messages := by
    rw [List.flatMap_cons, Session.messages_new]
    exact (h.messages.cons msg).trans (List.perm_append_singleton msg seen).symm

/-- `Clusters` is kept when a `Fresh` message is added to a session. -/
theorem addMessage (h : Clusters (s :: others) seen) (hfresh : Fresh msg seen) (now : DateTime) :
    Clusters (s.addMessage now msg :: others) (seen ++ [msg]) where
  distinct := h.distinct_append hfresh
  nodup := h.nodup
  opened s' hs' := by
    rcases List.mem_cons.mp hs' with rfl | hs'
    · obtain ⟨m, hm, hopen⟩ := h.opened s List.mem_cons_self
      exact ⟨m, List.mem_append_left _ hm, hopen⟩
    · exact h.opened s' (List.mem_cons_of_mem _ hs')
  messages := by
    have hmessages := h.messages
    rw [List.flatMap_cons] at hmessages ⊢
    rw [Session.messages_addMessage, List.append_assoc]
    exact (List.perm_middle.trans (hmessages.cons msg)).trans
      (List.perm_append_singleton msg seen).symm

end Clusters

/-- Every session is still there, possibly with more messages. -/
def Grows (all all' : List Session) : Prop :=
  ∀ s ∈ all, ∃ s' ∈ all', s'.sessionId = s.sessionId ∧ s.messages <+: s'.messages

namespace Grows

variable {all all' all'' others : List Session} {s : Session} {msg : MsgRef}

/-- `Grows` is reflexive. -/
theorem refl (all : List Session) : Grows all all := fun s hs => ⟨s, hs, rfl, List.prefix_rfl⟩

/-- `Grows` is transitive. -/
theorem trans (h : Grows all all') (h' : Grows all' all'') : Grows all all'' := by
  intro s hs
  obtain ⟨s', hs', hid, hinitial⟩ := h s hs
  obtain ⟨s'', hs'', hid', hinitial'⟩ := h' s' hs'
  exact ⟨s'', hs'', hid'.trans hid, hinitial.trans hinitial'⟩

/-- `Grows` holds of sessions and any that include them. -/
theorem of_subset (h : all ⊆ all') : Grows all all' := fun s hs => ⟨s, h hs, rfl, List.prefix_rfl⟩

/-- `Grows` holds where `addMessage` adds a message to a session. -/
theorem addMessage (now : DateTime) (s : Session) (msg : MsgRef) (others : List Session) :
    Grows (s :: others) (s.addMessage now msg :: others) := by
  intro s' hs'
  rcases List.mem_cons.mp hs' with rfl | hs'
  · exact ⟨_, List.mem_cons_self, rfl, List.prefix_append _ _⟩
  · exact ⟨s', List.mem_cons_of_mem _ hs', rfl, List.prefix_rfl⟩

end Grows

end LogosFs.Sessions
