import LogosFs.Sessions.InMemory
import LogosFs.Sessions.Tiers

/-! # Reply chains are hard bindings

In a store with L2 on which nothing fails, messages are observed one after another. `run_observe` is
what one call does: it keeps the invariant of the tiers, loses no session and puts a reply into the
session of its target, in whichever tier that is. Sessions only grow, so the two stay together
(`bound_of_reply`). -/

namespace LogosFs.Sessions

open Sessions.Inner Tiered

variable {lance : Lance} {st : SessionStore} {held : List Session} {seen : List MsgRef}
  {s : Session} {msg : MsgRef} {msgId : Int}

/-! ## The parts of one call -/

/-- In a `Tiered` store a message in memory is not stored. -/
theorem Tiered.notMem_stored_of_memory (h : Tiered st held seen) {s' : Session}
    (hs : s ∈ st.inner.sessions) (hid : msgId ∈ s.msgIds) (hs' : s' ∈ st.l2.stored) :
    msgId ∉ s'.msgIds := by
  intro hid'
  obtain rfl := h.clusters.eq_of_mem_msgIds (mem_all_of_memory hs) (mem_all_of_stored hs') hid hid'
  have hnodup := h.clusters.nodup
  rw [SessionStore.all, List.map_append, List.nodup_append] at hnodup
  have hrest : s.sessionId ∈ (held ++ st.l2.stored).map Session.sessionId :=
    List.mem_map_of_mem (List.mem_append_right _ hs')
  exact hnodup.2.2 _ (List.mem_map_of_mem hs) _ hrest rfl

variable (lance) in
/-- `pageFault` loads the session of the reply target if it is stored. -/
theorem run_pageFault (h : Tiered st held seen) (replyTo : Option Int) :
    ∃ session st', (pageFault true replyTo).run (SessionStore.handler lance) st = (session, st') ∧
      st'.inner = st.inner ∧ st'.l2 = st.l2 ∧ Tiered st' held seen ∧
      (∀ s, session = some s → s ∈ st.l2.stored ∧ ∃ r, replyTo = some r ∧ r ∈ s.msgIds) ∧
      (session = none → ∀ r, replyTo = some r → ∀ s ∈ st.l2.stored, r ∉ s.msgIds) := by
  cases replyTo with
  | none =>
    exact ⟨none, st, rfl, rfl, rfl, h, fun s hs => (nomatch hs), fun _ r hr => (nomatch hr)⟩
  | some replyTo =>
    cases hindex : st.inner.msgIndex.get replyTo with
    | some sid =>
      -- The target is in memory: nothing is loaded.
      obtain ⟨s, hs, -, hid⟩ := (h.sound.indexed replyTo sid).mp hindex
      refine ⟨none, st.tick, ?_, rfl, rfl, h.tick, fun s hs => (nomatch hs), fun _ r hr s' hs' => ?_⟩
      · have hneeded : SessionStore.handler lance (.needFault replyTo) st = (false, st.tick) := by
          simp only [SessionStore.handler, hindex]
          rfl
        rw [pageFault, Program.run_bind, Program.run_perform, hneeded]
        rfl
      · exact Option.some_inj.mp hr ▸ h.notMem_stored_of_memory hs hid hs'
    | none =>
      obtain ⟨result, hload, hsome, hnone⟩ := h.tick.loadByMsg lance replyTo
      refine ⟨result, st.tick.tick, ?_, rfl, rfl, h.tick.tick, fun s hs => ?_, fun hr r heq => ?_⟩
      · have hneeded : SessionStore.handler lance (.needFault replyTo) st = (true, st.tick) := by
          simp only [SessionStore.handler, hindex]
          rfl
        rw [pageFault, Program.run_bind, Program.run_perform, hneeded]
        simp only [if_true]
        rw [Program.run_bind, Program.run_perform, hload]
        rfl
      · exact ⟨(hsome s hs).1, replyTo, rfl, (hsome s hs).2⟩
      · exact Option.some_inj.mp heq ▸ hnone hr

variable (lance) in
/-- `deleteLoaded` deletes a session that has been loaded from L2, and it is held. -/
theorem run_deleteLoaded (h : Tiered st held seen) (loaded : Option Session)
    (hloaded : ∀ s, loaded = some s → s ∈ st.l2.stored) :
    ∃ st', (deleteLoaded true loaded).run (SessionStore.handler lance) st = ((), st') ∧
      st'.inner = st.inner ∧ Tiered st' (loaded.toList ++ held) seen ∧
      (st.all held).Perm (st'.all (loaded.toList ++ held)) := by
  cases loaded with
  | none => exact ⟨st, rfl, rfl, h, .refl _⟩
  | some s =>
    obtain ⟨st', hdelete, hinner, -, htiered, hperm⟩ :=
      h.delete lance (hloaded s rfl)
    refine ⟨st', ?_, hinner, htiered, hperm⟩
    simp only [deleteLoaded, if_true]
    rw [Program.run_bind, Program.run_perform, hdelete]
    rfl

variable (lance) in
/-- `similar` may find a stored session of the chat for a message that replies to none. -/
theorem run_similar (h : Tiered st held seen) (hquote : '\'' ∉ msg.chatId)
    (pageFaultSession : Option Session) : ∃ session st',
      (similar true msg pageFaultSession).run (SessionStore.handler lance) st = (session, st') ∧
      st'.inner = st.inner ∧ st'.l2 = st.l2 ∧ Tiered st' held seen ∧
      ∀ s, session = some s → s ∈ st.l2.stored ∧ msg.replyTo = none ∧ pageFaultSession = none := by
  cases hcond : msg.replyTo.isNone && pageFaultSession.isNone with
  | false =>
    refine ⟨none, st, ?_, rfl, rfl, h, fun s hs => (nomatch hs)⟩
    simp only [similar, hcond, Bool.false_eq_true, if_false]
    rfl
  | true =>
    obtain ⟨result, hsearch, hresult⟩ := h.semanticSearch lance msg.text hquote
    refine ⟨result, st.tick, ?_, rfl, rfl, h.tick, fun s hs => ⟨(hresult s hs).1, ?_⟩⟩
    · simp only [similar, hcond, if_true]
      rw [Program.run_bind, Program.run_perform, hsearch]
      rfl
    · rw [Bool.and_eq_true, Option.isNone_iff_eq_none, Option.isNone_iff_eq_none] at hcond
      exact hcond

variable (lance) in
/-- `persistAll` stores the sessions that have been evicted. -/
theorem run_persistAll (evicted : List Session) (h : Tiered st (evicted ++ held) seen) :
    ∃ st', (persistAll evicted).run (SessionStore.handler lance) st = ((), st') ∧
      Tiered st' held seen ∧ (st.all (evicted ++ held)).Perm (st'.all held) := by
  induction evicted generalizing st with
  | nil => exact ⟨st, rfl, h, .refl _⟩
  | cons s evicted ih =>
    obtain ⟨st₁, hpersist, -, -, htiered, hperm⟩ := h.persist lance
    obtain ⟨st₂, hrun, htiered', hperm'⟩ := ih htiered
    refine ⟨st₂, ?_, htiered', hperm.trans hperm'⟩
    rw [persistAll, Program.run_bind, Program.run_perform, hpersist]
    exact hrun

/-! ## One call -/

variable (lance) in
/-- **One call** of `observe` keeps the invariant, loses no session, and puts a reply into the
session that its target is in. -/
theorem run_observe (h : Tiered st [] seen) (hfresh : Fresh msg seen) (hquote : '\'' ∉ msg.chatId) :
    ∃ st', (observe true msg).run (SessionStore.handler lance) st = ((), st') ∧
      Tiered st' [] (seen ++ [msg]) ∧ Grows (st.all []) (st'.all []) ∧
      ∀ r, msg.replyTo = some r → ∀ s ∈ st.all [], r ∈ s.msgIds →
        ∃ now, s.addMessage now msg ∈ st'.all [] := by
  obtain ⟨loaded, st₁, hrun₁, hinner₁, hl2₁, htiered₁, hloaded, hnone⟩ :=
    run_pageFault lance h msg.replyTo
  obtain ⟨st₂, hrun₂, hinner₂, htiered₂, hperm₂⟩ :=
    run_deleteLoaded lance htiered₁ loaded fun s hs => hl2₁ ▸ (hloaded s hs).1
  obtain ⟨near, st₃, hrun₃, hinner₃, hl2₃, htiered₃, hnear⟩ :=
    run_similar lance htiered₂ hquote loaded
  obtain ⟨st₄, hrun₄, hinner₄, htiered₄, hperm₄⟩ :=
    run_deleteLoaded lance htiered₃ near fun s hs => hl2₃ ▸ (hnear s hs).1
  -- What is held now is what the update restores.
  have hrestored : near.toList ++ (loaded.toList ++ []) = (restored msg loaded near).toList ++ [] := by
    unfold restored
    cases hnear' : near with
    | none => cases loaded <;> cases msg.replyTo <;> rfl
    | some s =>
      obtain ⟨-, hreply, hloaded'⟩ := hnear s hnear'
      rw [hreply, hloaded']
      rfl
  rw [hrestored] at htiered₄ hperm₄
  obtain ⟨st₅, evicted, hrun₅, -, htiered₅, hgrows₅, htarget⟩ :=
    Tiered.update lance hfresh hquote htiered₄
  obtain ⟨st₆, hrun₆, htiered₆, hperm₆⟩ := run_persistAll lance evicted htiered₅
  have hall₁ : st₁.all [] = st.all [] := by rw [SessionStore.all, hinner₁, hl2₁, SessionStore.all]
  have hall₃ : st₃.all (loaded.toList ++ []) = st₂.all (loaded.toList ++ []) := by
    rw [SessionStore.all, hinner₃, hl2₃, SessionStore.all]
  have hperm : (st.all []).Perm (st₄.all ((restored msg loaded near).toList ++ [])) := by
    rw [← hall₁]
    exact hperm₂.trans (hall₃ ▸ hperm₄)
  have hinner : st₄.inner = st.inner := by rw [hinner₄, hinner₃, hinner₂, hinner₁]
  refine ⟨st₆, ?_, htiered₆, ?_, fun r hreply s hs hid => ?_⟩
  · rw [observe, Program.run_bind, hrun₁, Program.run_bind, hrun₂, Program.run_bind, hrun₃,
      Program.run_bind, hrun₄, Program.run_bind, Program.run_perform, hrun₅, if_pos rfl, hrun₆]
  · exact (Grows.of_subset hperm.subset).trans (hgrows₅.trans (.of_subset hperm₆.subset))
  · -- The session of the target is in memory, or it is stored and has been loaded.
    have hs' : target st₄.inner msg loaded near = some s := by
      unfold target
      rw [hinner]
      cases hcase : loaded with
      | some s' =>
        obtain ⟨hs', r', hreply', hid'⟩ := hloaded s' hcase
        rw [hreply, Option.some_inj] at hreply'
        exact congrArg some (h.clusters.eq_of_mem_msgIds (mem_all_of_stored hs') hs
          (hreply' ▸ hid') hid)
      | none =>
        rcases List.mem_append.mp hs with hs | hs
        · rw [hreply]
          exact h.sound.sessionForMsg_eq_some_iff.mpr ⟨hs, hid⟩
        · exact absurd hid (hnone hcase r hreply s hs)
    obtain ⟨now, hmem⟩ := htarget s hs'
    exact ⟨now, hperm₆.mem_iff.mp hmem⟩

/-- The session that `getSessionForMsg` returns is the one that has the message, in whichever tier
it is. -/
theorem run_getSessionForMsg (h : Tiered st [] seen) :
    ((getSessionForMsg true msgId).run (SessionStore.handler lance) st).1 = some s ↔
      s ∈ st.all [] ∧ msgId ∈ s.msgIds := by
  rw [getSessionForMsg, Program.run_bind, Program.run_perform]
  cases hmemory : st.inner.sessionForMsg msgId with
  | some s' =>
    have hlookup : SessionStore.handler lance (.sessionForMsg msgId) st = (some s', st.tick) := by
      simp only [SessionStore.handler, hmemory]
    rw [hlookup]
    show some s' = some s ↔ _
    obtain ⟨hs', hid'⟩ := h.sound.sessionForMsg_eq_some_iff.mp hmemory
    rw [Option.some_inj]
    constructor
    · rintro rfl
      exact ⟨mem_all_of_memory hs', hid'⟩
    · rintro ⟨hs, hid⟩
      exact h.clusters.eq_of_mem_msgIds (mem_all_of_memory hs') hs hid' hid
  | none =>
    have hlookup : SessionStore.handler lance (.sessionForMsg msgId) st = (none, st.tick) := by
      simp only [SessionStore.handler, hmemory]
    obtain ⟨result, hload, hsome, hnone⟩ := h.tick.loadByMsg lance msgId
    rw [hlookup]
    simp only [if_true]
    rw [Program.run_bind, Program.run_perform, hload]
    show result = some s ↔ _
    constructor
    · intro hresult
      exact ⟨mem_all_of_stored (hsome s hresult).1, (hsome s hresult).2⟩
    · rintro ⟨hs, hid⟩
      -- The message is not in memory, so its session is stored, and it is the one that is loaded.
      rcases List.mem_append.mp hs with hs | hs
      · rw [h.sound.sessionForMsg_eq_some_iff.mpr ⟨hs, hid⟩] at hmemory
        cases hmemory
      · cases hresult : result with
        | none => exact absurd hid (hnone hresult s hs)
        | some s' =>
          obtain ⟨hs', hid'⟩ := hsome s' hresult
          exact congrArg some (h.clusters.eq_of_mem_msgIds (mem_all_of_stored hs')
            (mem_all_of_stored hs) hid' hid)

/-! ## Whole runs -/

/-- `sessionId` tells the chat and the non-negative id of the message that opened the session. -/
theorem sessionId_injective_of_nonneg {m m' : MsgRef} (hm : 0 ≤ m.msgId) (hm' : 0 ≤ m'.msgId)
    (h : m.sessionId = m'.sessionId) : m.msgId = m'.msgId := by
  have hdash : ∀ i : Int, 0 ≤ i → '-' ∉ Str.ofInt i := by
    intro i hi hmem
    obtain ⟨n, rfl⟩ := Int.eq_ofNat_of_zero_le hi
    have hdigit : ('-').isDigit := Str.isDigit_of_mem_ofNat (n := n) hmem
    exact absurd hdigit (by decide)
  rw [MsgRef.sessionId, MsgRef.sessionId] at h
  exact Str.ofInt_injective (Str.append_sep_inj (hdash _ hm) (hdash _ hm') h).2

/-- Messages with distinct non-negative ids are `Fresh` when they come. -/
theorem fresh_of_nonneg {msgs : List MsgRef} (hids : (msgs.map MsgRef.msgId).Nodup)
    (hnonneg : ∀ m ∈ msgs, 0 ≤ m.msgId) {seen : List MsgRef} {msg : MsgRef}
    (hinitial : seen ++ [msg] <+: msgs) : Fresh msg seen := by
  obtain ⟨later, rfl⟩ := hinitial
  have hid : msg.msgId ∉ seen.map MsgRef.msgId := by
    rw [List.map_append, List.map_append, List.nodup_append] at hids
    intro hmem
    exact (List.nodup_append.mp hids.1).2.2 _ hmem msg.msgId (by simp) rfl
  refine ⟨hid, fun hmem => hid ?_⟩
  obtain ⟨m, hm, heq⟩ := List.mem_map.mp hmem
  have heq := sessionId_injective_of_nonneg (hnonneg m (by simp [hm])) (hnonneg msg (by simp)) heq
  exact List.mem_map.mpr ⟨m, hm, heq⟩

variable (lance) in
/-- `Tiered` is kept by a run of `observeAll` on which nothing fails, and no session is lost. -/
theorem tiered_observeAll (h : Tiered st [] seen) (msgs : List MsgRef)
    (hfresh : ∀ earlier msg, earlier ++ [msg] <+: msgs → Fresh msg (seen ++ earlier))
    (hquote : ∀ m ∈ msgs, '\'' ∉ m.chatId) :
    Tiered (st.observeAll lance true msgs) [] (seen ++ msgs) ∧
      Grows (st.all []) ((st.observeAll lance true msgs).all []) := by
  induction msgs using List.reverseRecOn with
  | nil => exact ⟨by rwa [List.append_nil], .refl _⟩
  | append_singleton msgs msg ih =>
    obtain ⟨htiered, hgrows⟩ := ih
      (fun earlier m hinitial => hfresh earlier m (hinitial.trans (List.prefix_append _ _)))
      (fun m hm => hquote m (List.mem_append_left _ hm))
    obtain ⟨st', hrun, htiered', hgrows', -⟩ := run_observe lance htiered
      (hfresh msgs msg List.prefix_rfl) (hquote msg (by simp))
    rw [observeAll_append_singleton, hrun, ← List.append_assoc]
    exact ⟨htiered', hgrows.trans hgrows'⟩

/-- The session that `getSessionForMsg` returns in a store with L2. -/
def SessionStore.sessionOf (lance : Lance) (st : SessionStore) (msgId : Int) : Option Session :=
  ((getSessionForMsg true msgId).run (SessionStore.handler lance) st).1

/-- **Reply chains are hard bindings.** In a store with L2 on which nothing fails, over messages
with distinct non-negative ids and chat ids without quotes, let a message reply to one that was
observed before. At every later point, whatever was evicted, loaded and matched in between,
`sessionOf` looks both up in the session of the target, which has them both. -/
theorem bound_of_reply {l0Capacity l1Capacity : Nat} {fate : Nat → Fate}
    (hfails : ∀ n step, (fate n).fails step = false) (before after : List MsgRef) (msg : MsgRef)
    (hids : ((before ++ msg :: after).map MsgRef.msgId).Nodup)
    (hnonneg : ∀ m ∈ before ++ msg :: after, 0 ≤ m.msgId)
    (hquote : ∀ m ∈ before ++ msg :: after, '\'' ∉ m.chatId) (replyTo : Int)
    (hreply : msg.replyTo = some replyTo) (hbefore : replyTo ∈ before.map MsgRef.msgId) :
    ∃ s₀ s, ((SessionStore.new l0Capacity l1Capacity fate).observeAll lance true before).sessionOf
          lance replyTo = some s₀ ∧
      ((SessionStore.new l0Capacity l1Capacity fate).observeAll lance true
          (before ++ msg :: after)).sessionOf lance msg.msgId = some s ∧
      ((SessionStore.new l0Capacity l1Capacity fate).observeAll lance true
          (before ++ msg :: after)).sessionOf lance replyTo = some s ∧
      s.sessionId = s₀.sessionId ∧ msg ∈ s.messages ∧ replyTo ∈ s.msgIds := by
  have hinitial : ∀ {earlier : List MsgRef} {m : MsgRef},
      earlier ++ [m] <+: before ++ msg :: after → Fresh m earlier := fresh_of_nonneg hids hnonneg
  -- Until the reply comes.
  have hstart := tiered_new l0Capacity l1Capacity hfails
  generalize SessionStore.new l0Capacity l1Capacity fate = st at hstart ⊢
  obtain ⟨htiered₀, -⟩ := tiered_observeAll lance hstart before
    (fun earlier m hm => hinitial (hm.trans (List.prefix_append _ _)))
    (fun m hm => hquote m (List.mem_append_left _ hm))
  rw [List.nil_append] at htiered₀
  obtain ⟨target, htarget, htargetId⟩ := List.mem_map.mp hbefore
  obtain ⟨s₀, hs₀, hmem₀⟩ := htiered₀.clusters.exists_of_mem_seen htarget
  have hid₀ : replyTo ∈ s₀.msgIds := htargetId ▸ List.mem_map_of_mem hmem₀
  -- The reply.
  have hwhole : before ++ [msg] ++ after = before ++ msg :: after := by simp
  obtain ⟨st₁, hrun, htiered₁, -, htogether⟩ := run_observe lance htiered₀
    (hinitial (hwhole ▸ List.prefix_append _ _)) (hquote msg (by simp))
  obtain ⟨now, hs₁⟩ := htogether replyTo hreply s₀ hs₀ hid₀
  -- Everything after it.
  have hsplit : st.observeAll lance true (before ++ msg :: after)
      = st₁.observeAll lance true after := by
    rw [SessionStore.observeAll, List.foldl_append, List.foldl_cons]
    show after.foldl _ ((observe true msg).run (SessionStore.handler lance)
      (st.observeAll lance true before)).2 = _
    rw [hrun]
    rfl
  obtain ⟨htiered₂, hgrows⟩ := tiered_observeAll lance htiered₁ after
    (fun earlier m hm => hinitial (by
      rw [← hwhole, List.append_assoc (before ++ [msg])]
      exact (List.prefix_append_right_inj _).mpr hm))
    (fun m hm => hquote m (by simp [hm]))
  obtain ⟨s, hs, hsid, hmessages⟩ := hgrows _ hs₁
  have hmsg : msg ∈ s.messages := hmessages.subset (by simp)
  have hid : replyTo ∈ s.msgIds := by
    obtain ⟨m, hm, rfl⟩ := List.mem_map.mp hid₀
    exact List.mem_map_of_mem (hmessages.subset (List.mem_append_left _ hm))
  rw [hsplit]
  exact ⟨s₀, s, (run_getSessionForMsg htiered₀).mpr ⟨hs₀, hid₀⟩,
    (run_getSessionForMsg htiered₂).mpr ⟨hs, List.mem_map_of_mem hmsg⟩,
    (run_getSessionForMsg htiered₂).mpr ⟨hs, hid⟩, hsid, hmsg, hid⟩

/-- `bound_of_reply` in a store that keeps one session in each layer: the reply finds the session of
its target in L2, and two more sessions send it there again. -/
theorem bound_of_reply_page_fault : ∃ s₀ s,
    ((SessionStore.new 1 1 fun n => Fate.calm n).observeAll .comparing true
      [msgOf 1 none, msgOf 2 none, msgOf 3 none]).sessionOf .comparing 1 = some s₀ ∧
    ((SessionStore.new 1 1 fun n => Fate.calm n).observeAll .comparing true
      [msgOf 1 none, msgOf 2 none, msgOf 3 none, msgOf 4 (some 1), msgOf 5 none,
        msgOf 6 none]).sessionOf .comparing 4 = some s ∧
    ((SessionStore.new 1 1 fun n => Fate.calm n).observeAll .comparing true
      [msgOf 1 none, msgOf 2 none, msgOf 3 none, msgOf 4 (some 1), msgOf 5 none,
        msgOf 6 none]).sessionOf .comparing 1 = some s ∧
    s.sessionId = s₀.sessionId ∧ msgOf 4 (some 1) ∈ s.messages ∧ 1 ∈ s.msgIds :=
  bound_of_reply (fun _ _ => rfl) [msgOf 1 none, msgOf 2 none, msgOf 3 none]
    [msgOf 5 none, msgOf 6 none] (msgOf 4 (some 1)) (by decide) (by decide) (by decide) 1 rfl
    (by decide)

end LogosFs.Sessions
