import LogosFs.Sessions.InMemory

/-! # Sessions and chats

The index of a store is by the ids of messages alone, while chats number their messages apart. So the
index leads to the message with an id that was observed last, in whichever chat (`Apart.indexed`), and
a reply may be put into a session of another chat. It is put where it belongs as long as the message
that was observed last under the id of its target is of its own chat, or no more in memory
(`Answers`). -/

namespace LogosFs.Sessions

open Sessions.Inner

variable {lance : Lance}

/-- The message with an id that was observed last. -/
def lastWith (seen : List MsgRef) (msgId : Int) : Option MsgRef :=
  seen.reverse.find? fun m => m.msgId = msgId

/-- `lastWith` after one more message is this message, if it has the id. -/
theorem lastWith_append_singleton (seen : List MsgRef) (msg : MsgRef) (msgId : Int) :
    lastWith (seen ++ [msg]) msgId = if msg.msgId = msgId then some msg else lastWith seen msgId := by
  unfold lastWith
  rw [List.reverse_append, List.reverse_singleton, List.singleton_append, List.find?_cons]
  by_cases h : msg.msgId = msgId <;> simp [h]

/-- The message that `lastWith` answers was seen and has the id. -/
theorem mem_of_lastWith {seen : List MsgRef} {msgId : Int} {m : MsgRef}
    (h : lastWith seen msgId = some m) : m ∈ seen ∧ m.msgId = msgId := by
  refine ⟨List.mem_reverse.mp (List.mem_of_find?_eq_some h), ?_⟩
  simpa using List.find?_some h

/-- The message that was observed last under an id is of the chat, unless it is no more in memory. -/
def Inner.Answers (inner : Inner) (seen : List MsgRef) (msgId : Int) (chatId : Str) : Prop :=
  ∀ m ∈ lastWith seen msgId, (∃ s ∈ inner.sessions, m ∈ s.messages) → m.chatId = chatId

instance (inner : Inner) (seen : List MsgRef) (msgId : Int) (chatId : Str) :
    Decidable (inner.Answers seen msgId chatId) :=
  inferInstanceAs (Decidable (∀ m ∈ lastWith seen msgId, _))

/-- The sessions, those in memory and those that have left it, are of one chat each, and the index is
about the messages that were observed last under their ids. -/
structure Apart (inner : Inner) (gone : List Session) (seen : List MsgRef) : Prop where
  /-- Every session in memory is under its own id. -/
  keyed : Keyed inner
  /-- The messages of a session are of its chat, and have been observed. -/
  ownChat : ∀ s ∈ inner.sessions ++ gone, ∀ m ∈ s.messages, m.chatId = s.chatId ∧ m ∈ seen
  /-- The index leads to the sessions in memory of the messages that were observed last. -/
  indexed : ∀ msgId sid, inner.msgIndex.get msgId = some sid ↔
    ∃ s ∈ inner.sessions, s.sessionId = sid ∧ ∃ m ∈ lastWith seen msgId, m ∈ s.messages

/-- A new store keeps the chats `Apart`. -/
theorem apart_new (l0Capacity l1Capacity : Nat) : Apart (.new l0Capacity l1Capacity) [] [] :=
  ⟨keyed_new _ _, fun _ h => (nomatch h), fun _ _ =>
    ⟨fun h => (nomatch h), fun ⟨_, h, _⟩ => (nomatch h)⟩⟩

/-- A message that may be observed: its target answers, and if it opens a session no other one in
memory has the id. -/
structure Inner.Orderly (inner : Inner) (seen : List MsgRef) (msg : MsgRef) : Prop where
  /-- The target of a reply is of its chat. -/
  answers : ∀ r ∈ msg.replyTo, inner.Answers seen r msg.chatId
  /-- The id of a new session is free. -/
  opens : msg.replyTo.bind inner.msgIndex.get = none →
    ∀ s ∈ inner.sessions, s.sessionId ≠ msg.sessionId

instance (inner : Inner) (seen : List MsgRef) (msg : MsgRef) : Decidable (inner.Orderly seen msg) :=
  decidable_of_iff ((∀ r ∈ msg.replyTo, inner.Answers seen r msg.chatId) ∧
    (msg.replyTo.bind inner.msgIndex.get = none →
      ∀ s ∈ inner.sessions, s.sessionId ≠ msg.sessionId))
    ⟨fun h => ⟨h.1, h.2⟩, fun h => ⟨h.answers, h.opens⟩⟩

/-- Where a message is after it has been observed: in a session of its own, or in one that was in
memory and had the target of the reply, of the same chat. -/
def Joined (before : List Session) (msg : MsgRef) (s : Session) : Prop :=
  s.messages = [msg] ∨ ∃ old ∈ before, s.sessionId = old.sessionId ∧
    s.messages = old.messages ++ [msg] ∧
    ∃ target ∈ old.messages, msg.replyTo = some target.msgId ∧ target.chatId = msg.chatId

namespace Apart

variable {inner : Inner} {gone : List Session} {seen : List MsgRef} {msg : MsgRef} {s : Session}
  {moment : Moment}

/-- A message that is not among `seen` is in no session, in memory or gone. -/
theorem notMem_of_notMem (h : Apart inner gone seen) (hnew : msg ∉ seen)
    (hs : s ∈ inner.sessions ++ gone) : msg ∉ s.messages :=
  fun hmem => hnew (h.ownChat s hs msg hmem).2

/-- If one session `now` in memory has taken `msg` and all `others` have what they had, the sessions
are still `Apart`. -/
theorem of_placed {inner' : Inner} {now : Session} {others : List Session}
    (h : Apart inner gone seen) (hnew : msg ∉ seen) (hkeyed : Keyed inner')
    (hsessions : inner'.sessions = now :: others) (hothers : others ⊆ inner.sessions)
    (hindex : inner'.msgIndex = inner.msgIndex.insert msg.msgId now.sessionId)
    (hmem : msg ∈ now.messages)
    (hnow : ∀ m ∈ now.messages, m.chatId = now.chatId ∧ m ∈ seen ++ [msg])
    (hsame : ∀ m ∈ seen, ∀ sid, (∃ s ∈ inner.sessions, s.sessionId = sid ∧ m ∈ s.messages) ↔
      ∃ s ∈ now :: others, s.sessionId = sid ∧ m ∈ s.messages) :
    Apart inner' gone (seen ++ [msg]) where
  keyed := hkeyed
  ownChat s hs m hm := by
    have hold : ∀ s ∈ inner.sessions ++ gone, ∀ m ∈ s.messages,
        m.chatId = s.chatId ∧ m ∈ seen ++ [msg] := fun s hs m hm =>
      (h.ownChat s hs m hm).imp_right (List.mem_append_left _)
    rw [hsessions, List.cons_append] at hs
    rcases List.mem_cons.mp hs with rfl | hs
    · exact hnow m hm
    · rcases List.mem_append.mp hs with hs | hs
      · exact hold s (List.mem_append_left _ (hothers hs)) m hm
      · exact hold s (List.mem_append_right _ hs) m hm
  indexed msgId sid := by
    rw [hindex, HashMap.get_insert, lastWith_append_singleton, hsessions]
    by_cases hid : msgId = msg.msgId
    · rw [if_pos hid, if_pos hid.symm, Option.some_inj]
      constructor
      · intro hsid
        exact ⟨now, List.mem_cons_self, hsid, msg, rfl, hmem⟩
      · rintro ⟨s, hs, hsid, m, hm, hms⟩
        obtain rfl := Option.some_inj.mp hm
        rcases List.mem_cons.mp hs with rfl | hs
        · exact hsid
        · exact absurd hms (h.notMem_of_notMem hnew (List.mem_append_left _ (hothers hs)))
    · rw [if_neg hid, if_neg (Ne.symm hid), h.indexed]
      -- The message that was observed last is another one, and it is where it was.
      cases hlast : lastWith seen msgId with
      | none => simp
      | some m =>
        simp only [Option.mem_def, Option.some_inj, exists_eq_left']
        exact hsame m (mem_of_lastWith hlast).1 sid

/-- A message for which `Inner.create` opens a session of its own keeps the sessions `Apart`. -/
theorem create (h : Apart inner gone seen) (hnew : msg ∉ seen)
    (hopens : ∀ s ∈ inner.sessions, s.sessionId ≠ msg.sessionId) :
    Apart (Inner.create moment msg inner) gone (seen ++ [msg]) ∧
      ∀ s ∈ (Inner.create moment msg inner).sessions ++ gone, msg ∈ s.messages →
        Joined inner.sessions msg s := by
  obtain ⟨hkeyed, hsessions, hindex⟩ := create_spec moment h.keyed hopens
  refine ⟨h.of_placed hnew hkeyed hsessions (fun s hs => hs) hindex (by simp) ?_ ?_, ?_⟩
  · intro m hm
    rw [Session.messages_new, List.mem_singleton] at hm
    rw [hm]
    exact ⟨rfl, by simp⟩
  · intro m hm sid
    have hne : m ≠ msg := fun heq => hnew (heq ▸ hm)
    simp [hne]
  · intro s hs hmem
    rw [hsessions, List.cons_append] at hs
    rcases List.mem_cons.mp hs with rfl | hs
    · exact .inl rfl
    · exact absurd hmem (h.notMem_of_notMem hnew hs)

/-- A message that `Inner.join` puts into the session of its `target` keeps the sessions `Apart`, as
both are of one chat. -/
theorem join (h : Apart inner gone seen) (hnew : msg ∉ seen) (hs : s ∈ inner.sessions)
    {target : MsgRef} (htarget : target ∈ s.messages) (hreply : msg.replyTo = some target.msgId)
    (hchat : target.chatId = msg.chatId) :
    Apart (Inner.join moment msg s.sessionId inner) gone (seen ++ [msg]) ∧
      ∀ s' ∈ (Inner.join moment msg s.sessionId inner).sessions ++ gone, msg ∈ s'.messages →
        Joined inner.sessions msg s' := by
  obtain ⟨hkeyed, ⟨others, hperm, hsessions⟩, hindex⟩ := join_spec moment msg h.keyed hs
  have hothers : others ⊆ inner.sessions := fun s' hs' =>
    hperm.mem_iff.mpr (List.mem_cons_of_mem _ hs')
  have hown := h.ownChat s (List.mem_append_left _ hs)
  refine ⟨h.of_placed hnew hkeyed hsessions hothers hindex (by simp) ?_ ?_, ?_⟩
  · intro m hm
    rw [Session.messages_addMessage, List.mem_append, List.mem_singleton] at hm
    rcases hm with hm | rfl
    · exact (hown m hm).imp_right (List.mem_append_left _)
    · exact ⟨hchat.symm.trans (hown target htarget).1, by simp⟩
  · intro m hm sid
    have hne : m ≠ msg := fun heq => hnew (heq ▸ hm)
    simp [hperm.mem_iff, hne]
  · intro s' hs' hmem
    rw [hsessions, List.cons_append] at hs'
    rcases List.mem_cons.mp hs' with rfl | hs'
    · exact .inr ⟨s, hs, rfl, rfl, target, htarget, hreply, hchat⟩
    · refine absurd hmem (h.notMem_of_notMem hnew ?_)
      rcases List.mem_append.mp hs' with hs' | hs'
      · exact List.mem_append_left _ (hothers hs')
      · exact List.mem_append_right _ hs'

variable (moment) in
/-- The sessions that `evictCollect` gives up are `gone`, and the sessions are the same, up to the
order. -/
theorem evictCollect (h : Apart inner gone seen) :
    Apart (Inner.evictCollect moment inner).1 (gone ++ (Inner.evictCollect moment inner).2) seen ∧
      (inner.sessions ++ gone).Perm ((Inner.evictCollect moment inner).1.sessions
        ++ (gone ++ (Inner.evictCollect moment inner).2)) := by
  obtain ⟨hkeyed, hperm, hpruned⟩ := evictCollect_spec moment h.keyed
  have hall : (inner.sessions ++ gone).Perm ((Inner.evictCollect moment inner).1.sessions
      ++ (gone ++ (Inner.evictCollect moment inner).2)) := by
    refine ((hperm.trans List.perm_append_comm).append_right gone).trans ?_
    rw [List.append_assoc]
    exact List.perm_append_comm.append_left _
  refine ⟨⟨hkeyed, fun s hs => h.ownChat s (hall.mem_iff.mpr hs), fun msgId sid => ?_⟩, hall⟩
  rw [hpruned, h.indexed]
  have hnodup := (hperm.map Session.sessionId).nodup_iff.mp h.keyed.nodup
  rw [List.map_append, List.nodup_append] at hnodup
  constructor
  · rintro ⟨⟨s, hs, rfl, hm⟩, hleft⟩
    rcases List.mem_append.mp (hperm.mem_iff.mp hs) with hs | hs
    · exact absurd (List.mem_map_of_mem hs) hleft
    · exact ⟨s, hs, rfl, hm⟩
  · rintro ⟨s, hs, rfl, hm⟩
    refine ⟨⟨s, hperm.mem_iff.mpr (List.mem_append_right _ hs), rfl, hm⟩, fun hleft => ?_⟩
    exact hnodup.2.2 _ hleft _ (List.mem_map_of_mem hs) rfl

/-- **One message** that is `Orderly` keeps the sessions `Apart` through `Inner.update`, and is in a
session only where it is `Joined`. -/
theorem update (h : Apart inner gone seen) (hnew : msg ∉ seen) (horderly : inner.Orderly seen msg) :
    Apart (Inner.update moment msg none none inner).1
        (gone ++ (Inner.update moment msg none none inner).2) (seen ++ [msg]) ∧
      ∀ s ∈ (Inner.update moment msg none none inner).1.sessions
          ++ (gone ++ (Inner.update moment msg none none inner).2), msg ∈ s.messages →
        Joined inner.sessions msg s := by
  have hrestored : restored msg none none = none := (restored_of_replyTo none).elim fun hno hyes => by
    cases hreply : msg.replyTo with
    | none => exact hno hreply
    | some r => exact hyes r hreply
  rw [update_eq]
  unfold place
  rw [hrestored]
  -- Where the message is before anything is evicted.
  have hplaced : ∀ inner', Apart inner' gone (seen ++ [msg]) ∧
      (∀ s ∈ inner'.sessions ++ gone, msg ∈ s.messages → Joined inner.sessions msg s) →
      Apart (Inner.evictCollect moment inner').1
          (gone ++ (Inner.evictCollect moment inner').2) (seen ++ [msg]) ∧
        ∀ s ∈ (Inner.evictCollect moment inner').1.sessions
            ++ (gone ++ (Inner.evictCollect moment inner').2), msg ∈ s.messages →
          Joined inner.sessions msg s := by
    rintro inner' ⟨hapart, hjoined⟩
    obtain ⟨hevicted, hperm⟩ := hapart.evictCollect moment
    exact ⟨hevicted, fun s hs => hjoined s (hperm.mem_iff.mpr hs)⟩
  cases hindex : msg.replyTo.bind inner.msgIndex.get with
  | none => exact hplaced _ (h.create hnew (horderly.opens hindex))
  | some sid =>
    obtain ⟨r, hreply, hget⟩ := Option.bind_eq_some_iff.mp hindex
    obtain ⟨s, hs, rfl, target, hlast, htarget⟩ := (h.indexed r sid).mp hget
    have hchat := horderly.answers r hreply target hlast ⟨s, hs, htarget⟩
    have hid := (mem_of_lastWith hlast).2
    exact hplaced _ (h.join hnew hs htarget (hid ▸ hreply) hchat)

end Apart

/-! ## Whole runs -/

/-- Every message of a run may be observed when it comes. -/
def OrderlyRun (lance : Lance) (st : SessionStore) (msgs : List MsgRef) : Prop :=
  ∀ before msg, before ++ [msg] <+: msgs →
    (st.observeAll lance false before).inner.Orderly before msg

/-- A message `msg` that comes after `before` is not among these, if the ids of each chat are
distinct in `msgs`. -/
theorem notMem_of_nodup {msgs before : List MsgRef} {msg : MsgRef}
    (hids : (msgs.map fun m => (m.chatId, m.msgId)).Nodup) (hinitial : before ++ [msg] <+: msgs) :
    msg ∉ before := by
  obtain ⟨later, rfl⟩ := hinitial
  intro hmem
  have hnodup := List.Nodup.of_map _ hids
  rw [List.append_assoc, List.nodup_append] at hnodup
  exact hnodup.2.2 msg hmem msg (by simp) rfl

/-- One more message that `observe` takes, `Orderly` when it comes, keeps the sessions `Apart` and
goes where it belongs. -/
theorem apart_observe {st : SessionStore} {seen : List MsgRef} {msg : MsgRef}
    (h : Apart st.inner st.evicted seen) (hnew : msg ∉ seen) (horderly : st.inner.Orderly seen msg) :
    Apart ((observe false msg).run (SessionStore.handler lance) st).2.inner
        ((observe false msg).run (SessionStore.handler lance) st).2.evicted (seen ++ [msg]) ∧
      ∀ s ∈ ((observe false msg).run (SessionStore.handler lance) st).2.inner.sessions
          ++ ((observe false msg).run (SessionStore.handler lance) st).2.evicted,
        msg ∈ s.messages → Joined st.inner.sessions msg s := by
  obtain ⟨fate, hrun⟩ := run_observe_inMemory lance msg st
  rw [hrun]
  exact h.update hnew horderly

/-- **The chats stay apart** in every run of messages `msgs` with distinct ids in each chat that is
an `OrderlyRun`. -/
theorem apart_observeAll {l0Capacity l1Capacity : Nat} {fate : Nat → Fate} (msgs : List MsgRef)
    (hids : (msgs.map fun m => (m.chatId, m.msgId)).Nodup)
    (horderly : OrderlyRun lance (.new l0Capacity l1Capacity fate) msgs) :
    Apart ((SessionStore.new l0Capacity l1Capacity fate).observeAll lance false msgs).inner
      ((SessionStore.new l0Capacity l1Capacity fate).observeAll lance false msgs).evicted msgs := by
  induction msgs using List.reverseRecOn with
  | nil => exact apart_new l0Capacity l1Capacity
  | append_singleton msgs msg ih =>
    have hbefore := ih (hids.sublist ((List.sublist_append_left msgs [msg]).map _))
      fun before m hinitial => horderly before m (hinitial.trans (List.prefix_append _ _))
    rw [observeAll_append_singleton]
    exact (apart_observe hbefore (notMem_of_nodup hids List.prefix_rfl)
      (horderly msgs msg List.prefix_rfl)).1

end LogosFs.Sessions
