import LogosFs.Sessions.Observe
import LogosFs.Sessions.Sound

/-! # A store without L2

Without L2, `observe` is one update under the lock (`run_observe_inMemory`), and what is evicted is
gone. `represents_observeAll` is the representation invariant of such a store over the messages of
one chat. -/

namespace LogosFs.Sessions

open Sessions.Inner

variable {lance : Lance}

variable (lance) in
/-- `pageFault` loads no session without L2. -/
theorem run_pageFault_inMemory (replyTo : Option Int) (st : SessionStore) :
    ∃ fate, (pageFault false replyTo).run (SessionStore.handler lance) st
      = (none, { st with fate }) := by
  cases replyTo with
  | none => exact ⟨st.fate, rfl⟩
  | some replyTo =>
    refine ⟨st.tick.fate, ?_⟩
    rw [pageFault, Program.run_bind, Program.run_perform, SessionStore.handler]
    cases (st.inner.msgIndex.get replyTo).isNone <;> rfl

/-- `similar` finds no session without L2. -/
theorem similar_inMemory (msg : MsgRef) (pageFaultSession : Option Session) :
    similar false msg pageFaultSession = pure none := by
  unfold similar
  split <;> rfl

variable (lance) in
/-- `observe` without L2 is one update that restores nothing. -/
theorem run_observe_inMemory (msg : MsgRef) (st : SessionStore) :
    ∃ fate, (observe false msg).run (SessionStore.handler lance) st
      = ((), (SessionStore.handler lance (.update msg none none) { st with fate }).2) := by
  obtain ⟨fate, hfault⟩ := run_pageFault_inMemory lance msg.replyTo st
  refine ⟨fate, ?_⟩
  rw [observe, Program.run_bind, hfault]
  simp only [deleteLoaded, similar_inMemory]
  rfl

/-- `sessionId` tells the id of the message, among those of one chat. -/
theorem sessionId_injective_of_chatId {m m' : MsgRef} (hchat : m.chatId = m'.chatId)
    (h : m.sessionId = m'.sessionId) : m.msgId = m'.msgId := by
  rw [MsgRef.sessionId, MsgRef.sessionId, hchat] at h
  have hid := List.append_cancel_left h
  exact Str.ofInt_injective (List.cons.inj hid).2

/-- A message of a chat is `Fresh` if no message of the chat had its id. -/
theorem fresh_of_chatId {seen : List MsgRef} {msg : MsgRef}
    (hchat : ∀ m ∈ seen, m.chatId = msg.chatId) (hid : msg.msgId ∉ seen.map MsgRef.msgId) :
    Fresh msg seen := by
  refine ⟨hid, fun hmem => hid ?_⟩
  obtain ⟨m, hm, heq⟩ := List.mem_map.mp hmem
  exact List.mem_map.mpr ⟨m, hm, sessionId_injective_of_chatId (hchat m hm) heq⟩

/-- What a store without L2 looks like after it has observed some messages. -/
structure Represents (st : SessionStore) (msgs : List MsgRef) : Prop where
  /-- An active session is under its own id. -/
  l0_key : ∀ k s, st.inner.l0.get k = some s → s.sessionId = k
  /-- An inactive session is under its own id. -/
  l1_key : ∀ k s, st.inner.l1.get k = some s → s.sessionId = k
  /-- No key is in both layers. -/
  disjoint : ∀ k, st.inner.l0.get k = none ∨ st.inner.l1.get k = none
  /-- The index maps a message to a session exactly when that session is resident and has it. -/
  indexed : ∀ msgId sid, st.inner.msgIndex.get msgId = some sid ↔
    ∃ s ∈ st.inner.l0.values ++ st.inner.l1.values, s.sessionId = sid ∧ msgId ∈ s.msgIds
  /-- Every message is in exactly one session, resident or evicted, and once. -/
  once : ((st.inner.l0.values ++ st.inner.l1.values ++ st.evicted).flatMap
    Session.messages).Perm msgs
  /-- A reply that finds an entry of the index finds a resident session. -/
  found : ∀ replyTo sid, st.inner.msgIndex.get replyTo = some sid →
    ∃ s layer, st.inner.findSessionMut sid = some (s, layer)

/-- A `Sound` store with the evicted sessions elsewhere `Represents` its messages. -/
theorem Inner.Sound.represents {st : SessionStore} {msgs : List MsgRef}
    (h : Sound st.inner st.evicted msgs) : Represents st msgs where
  l0_key _ _ := h.keyed.of_l0
  l1_key _ _ := h.keyed.of_l1
  disjoint k := by
    cases h0 : st.inner.l0.get k with
    | none => exact .inl rfl
    | some s => exact .inr (h.keyed.l1_eq_none_of_l0 h0)
  indexed := h.indexed
  once := h.clusters.messages
  found _ _ := h.exists_findSessionMut

variable {l0Capacity l1Capacity : Nat} {fate : Nat → Fate}

/-- `observeAll` of one more message is `observe` of it, after the others. -/
theorem observeAll_append_singleton (hasL2 : Bool) (st : SessionStore) (msgs : List MsgRef)
    (msg : MsgRef) : st.observeAll lance hasL2 (msgs ++ [msg])
      = ((observe hasL2 msg).run (SessionStore.handler lance)
          (st.observeAll lance hasL2 msgs)).2 :=
  List.foldl_append

/-- `Sound` holds after every run over messages that are `Fresh` when they come. -/
theorem sound_observeAll_inMemory (msgs : List MsgRef)
    (hfresh : ∀ seen msg, seen ++ [msg] <+: msgs → Fresh msg seen) :
    Sound ((SessionStore.new l0Capacity l1Capacity fate).observeAll lance false msgs).inner
      ((SessionStore.new l0Capacity l1Capacity fate).observeAll lance false msgs).evicted msgs := by
  induction msgs using List.reverseRecOn with
  | nil => exact sound_new l0Capacity l1Capacity
  | append_singleton msgs msg ih =>
    have hsound := ih fun seen m hinitial => hfresh seen m (hinitial.trans (List.prefix_append _ _))
    rw [observeAll_append_singleton]
    generalize (SessionStore.new l0Capacity l1Capacity fate).observeAll lance false msgs = st
      at hsound ⊢
    obtain ⟨fate', hrun⟩ := run_observe_inMemory lance msg st
    rw [hrun]
    have hrestored : restored msg none none = none := by
      unfold restored
      cases msg.replyTo <;> rfl
    obtain ⟨hsound', -, -⟩ := Sound.update (fate' 0).moment (hfresh msgs msg List.prefix_rfl)
      (show Sound st.inner ((restored msg none none).toList ++ st.evicted) msgs by
        rw [hrestored]; exact hsound)
    exact hsound'.perm List.perm_append_comm

/-- **Representation invariant**: `Represents`. After every run of `observeAll` over the messages of
one chat with distinct ids, whatever they reply to and whatever the capacities, the layers and the
index of a store without L2 agree, no message has been lost or duplicated, and no reply was ever
dropped. -/
theorem represents_observeAll (chatId : Str) (msgs : List MsgRef)
    (hchat : ∀ m ∈ msgs, m.chatId = chatId) (hids : (msgs.map MsgRef.msgId).Nodup) :
    Represents ((SessionStore.new l0Capacity l1Capacity fate).observeAll lance false msgs)
      msgs := by
  refine (sound_observeAll_inMemory msgs fun seen msg hinitial => ?_).represents
  obtain ⟨later, rfl⟩ := hinitial
  refine fresh_of_chatId (fun m hm => ?_) (fun hid => ?_)
  · rw [hchat m (by simp [hm]), hchat msg (by simp)]
  · rw [List.map_append, List.map_append, List.nodup_append] at hids
    have hseen := hids.1
    rw [List.nodup_append] at hseen
    exact hseen.2.2 _ hid msg.msgId (by simp) rfl

/-- A message of the chat `c1` at a time. -/
def msgOf (msgId : Int) (replyTo : Option Int) : MsgRef :=
  ⟨msgId, "c1".toList, replyTo, "hi".toList, "u".toList, "10:00".toList⟩

/-- `Represents` in a store that keeps one session in each layer: the last message replies to one
whose session has been evicted. -/
theorem represents_observeAll_four :
    Represents ((SessionStore.new 1 1 fun n => Fate.calm n).observeAll .comparing false
        [msgOf 1 none, msgOf 2 (some 1), msgOf 3 none, msgOf 4 none, msgOf 5 (some 1)])
      [msgOf 1 none, msgOf 2 (some 1), msgOf 3 none, msgOf 4 none, msgOf 5 (some 1)] :=
  represents_observeAll "c1" _ (by decide) (by decide)

end LogosFs.Sessions
