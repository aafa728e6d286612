import LogosFs.Sessions.Clusters
import LogosFs.Sessions.Resident

/-! # Memory and the rest of the sessions

At any time some sessions are in memory and some are elsewhere: evicted for good in a store without
L2, in the tables or on the way there with it. `Sound` says that the two together partition the
messages that have been seen and that the index is exactly about those in memory.
`Sound.update` is the one step that all runs are made of: whatever section of `observe` runs under
the lock, soundness is kept, no session is lost, and a reply is in the session of its target. -/

namespace LogosFs.Sessions

namespace Inner

variable {inner : Inner} {rest rest' : List Session} {seen : List MsgRef} {msg : MsgRef}
  {moment : Moment} {s : Session} {sid : Str} {msgId : Int}

/-- The index maps a message to a session exactly when that session is in memory and has it. -/
def Indexed (inner : Inner) : Prop :=
  ∀ msgId sid, inner.msgIndex.get msgId = some sid ↔
    ∃ s ∈ inner.sessions, s.sessionId = sid ∧ msgId ∈ s.msgIds

/-- A message in one of `s :: sessions`, where `s` excludes the others, is in `s` or in one of
`sessions`. -/
theorem exists_mem_cons_iff {sessions : List Session}
    (h : msgId ∈ s.msgIds → ∀ s' ∈ sessions, msgId ∉ s'.msgIds) :
    (∃ s' ∈ s :: sessions, s'.sessionId = sid ∧ msgId ∈ s'.msgIds) ↔
      if msgId ∈ s.msgIds then s.sessionId = sid
      else ∃ s' ∈ sessions, s'.sessionId = sid ∧ msgId ∈ s'.msgIds := by
  simp only [List.mem_cons, exists_eq_or_imp]
  split_ifs with hid
  · have hold : ¬∃ s' ∈ sessions, s'.sessionId = sid ∧ msgId ∈ s'.msgIds :=
      fun ⟨s', hs', _, hid'⟩ => h hid s' hs' hid'
    rw [or_iff_left hold, and_iff_left hid]
  · rw [or_iff_right fun hs => hid hs.2]

/-- The sessions in memory and elsewhere partition the messages, and those in memory are indexed. -/
structure Sound (inner : Inner) (rest : List Session) (seen : List MsgRef) : Prop where
  /-- Every session in memory is under its own id. -/
  keyed : Keyed inner
  /-- The sessions partition the messages. -/
  clusters : Clusters (inner.sessions ++ rest) seen
  /-- The index is about the sessions in memory. -/
  indexed : Indexed inner

/-- A new store with nothing stored is `Sound`. -/
theorem sound_new (l0Capacity l1Capacity : Nat) : Sound (new l0Capacity l1Capacity) [] [] :=
  ⟨keyed_new _ _, clusters_nil, fun _ _ =>
    ⟨fun h => (nomatch h), fun ⟨_, h, _⟩ => (nomatch h)⟩⟩

namespace Sound

/-- `Sound` does not depend on the order of the sessions elsewhere. -/
theorem perm (h : Sound inner rest seen) (hperm : rest.Perm rest') : Sound inner rest' seen :=
  ⟨h.keyed, h.clusters.perm (hperm.append_left _), h.indexed⟩

/-- In a `Sound` store `sessionForMsg` finds the session in memory that the message is in. -/
theorem sessionForMsg_eq_some_iff (h : Sound inner rest seen) :
    inner.sessionForMsg msgId = some s ↔ s ∈ inner.sessions ∧ msgId ∈ s.msgIds := by
  rw [h.keyed.sessionForMsg_eq_some_iff, h.indexed]
  refine and_congr_right fun hs => ⟨?_, fun hid => ⟨s, hs, rfl, hid⟩⟩
  rintro ⟨s', hs', heq, hid⟩
  rwa [← h.keyed.eq_of_sessionId_eq hs' hs heq]

/-- In a `Sound` store what the index gives is in memory: a reply is never dropped. -/
theorem exists_findSessionMut (h : Sound inner rest seen)
    (hindex : inner.msgIndex.get msgId = some sid) :
    ∃ s layer, inner.findSessionMut sid = some (s, layer) := by
  obtain ⟨s, hs, hsid, -⟩ := (h.indexed msgId sid).mp hindex
  obtain ⟨layer, hfind⟩ := h.keyed.exists_findSessionMut_iff.mpr ⟨hs, hsid⟩
  exact ⟨s, layer, hfind⟩

/-- In a `Sound` store a `Fresh` message is not in memory. -/
theorem notMem_msgIds (h : Sound inner rest seen) (hfresh : Fresh msg seen)
    (hs : s ∈ inner.sessions) : msg.msgId ∉ s.msgIds :=
  h.clusters.notMem_msgIds_of_fresh hfresh (List.mem_append_left _ hs)

variable (moment) in
/-- `Sound` is kept by `create`, and the sessions of before `Grows` to those after. -/
theorem create (h : Sound inner rest seen) (hfresh : Fresh msg seen) :
    Sound (create moment msg inner) rest (seen ++ [msg]) ∧
      Grows (inner.sessions ++ rest) ((Inner.create moment msg inner).sessions ++ rest) := by
  have hnew : ∀ s ∈ inner.sessions, s.sessionId ≠ msg.sessionId := fun s hs =>
    h.clusters.sessionId_ne_of_fresh hfresh (List.mem_append_left _ hs)
  obtain ⟨hkeyed, hsessions, hindex⟩ := create_spec moment h.keyed hnew
  refine ⟨⟨hkeyed, ?_, fun msgId sid => ?_⟩, ?_⟩
  · rw [hsessions]
    exact h.clusters.openSession hfresh moment.now
  · rw [hindex, HashMap.get_insert, hsessions, exists_mem_cons_iff]
    · simp only [Session.msgIds_new, List.mem_singleton, Session.sessionId_new]
      split_ifs
      · exact Option.some_inj
      · exact h.indexed msgId sid
    · intro hid s hs
      rw [List.mem_singleton.mp hid]
      exact h.notMem_msgIds hfresh hs
  · rw [hsessions]
    exact .of_subset fun s hs => List.mem_cons_of_mem _ hs

variable (moment) in
/-- `Sound` is kept by `join` with a session in memory, and the sessions of before `Grows` to those
after. -/
theorem join (h : Sound inner rest seen) (hfresh : Fresh msg seen) (hs : s ∈ inner.sessions) :
    Sound (join moment msg s.sessionId inner) rest (seen ++ [msg]) ∧
      Grows (inner.sessions ++ rest) ((Inner.join moment msg s.sessionId inner).sessions ++ rest) ∧
      s.addMessage moment.now msg ∈ (Inner.join moment msg s.sessionId inner).sessions := by
  obtain ⟨hkeyed, ⟨others, hperm, hsessions⟩, hindex⟩ :=
    join_spec moment msg h.keyed hs
  have hall : (inner.sessions ++ rest).Perm (s :: (others ++ rest)) := hperm.append_right rest
  refine ⟨⟨hkeyed, ?_, fun msgId sid => ?_⟩, ?_, ?_⟩
  · rw [hsessions]
    exact (h.clusters.perm hall).addMessage hfresh moment.now
  · have hothers : ∀ s' ∈ others, s' ∈ inner.sessions := fun s' hs' =>
      hperm.mem_iff.mpr (List.mem_cons_of_mem _ hs')
    have hold : inner.msgIndex.get msgId = some sid ↔
        ∃ s' ∈ s :: others, s'.sessionId = sid ∧ msgId ∈ s'.msgIds := by
      rw [h.indexed]
      simp only [hperm.mem_iff]
    -- The message is in no other session, and what is in the session is in no other one.
    have hexcludes : ∀ s' ∈ others, msgId ∈ s.msgIds → msgId ∉ s'.msgIds := by
      intro s' hs' hid hid'
      have heq := h.clusters.eq_of_mem_msgIds (List.mem_append_left _ hs)
        (List.mem_append_left _ (hothers s' hs')) hid hid'
      have hnodup := (hperm.nodup_iff).mp (List.Nodup.of_map _ h.keyed.nodup)
      exact (List.nodup_cons.mp hnodup).1 (heq ▸ hs')
    rw [exists_mem_cons_iff fun hid s' hs' => hexcludes s' hs' hid] at hold
    rw [hindex, HashMap.get_insert, hsessions, exists_mem_cons_iff]
    · simp only [Session.msgIds_addMessage, List.mem_append, List.mem_singleton,
        Session.sessionId_addMessage]
      by_cases hid : msgId = msg.msgId
      · simp [hid]
      · rw [if_neg hid, hold]
        simp only [hid, or_false]
    · intro hid s' hs'
      rw [Session.msgIds_addMessage, List.mem_append, List.mem_singleton] at hid
      rcases hid with hid | rfl
      · exact hexcludes s' hs' hid
      · exact h.notMem_msgIds hfresh (hothers s' hs')
  · rw [hsessions]
    intro s' hs'
    obtain ⟨s'', hs'', hid, hinitial⟩ :=
      Grows.addMessage moment.now s msg (others ++ rest) s' (hall.mem_iff.mp hs')
    exact ⟨s'', hs'', hid, hinitial⟩
  · rw [hsessions]
    exact List.mem_cons_self

variable (moment) in
/-- `Sound` is kept by `restore` of a session from elsewhere, and the sessions of before `Grows` to
those after. -/
theorem restore (h : Sound inner (s :: rest) seen) (hfresh : Fresh msg seen) :
    Sound (restore moment msg s inner) rest (seen ++ [msg]) ∧
      Grows (inner.sessions ++ s :: rest) ((Inner.restore moment msg s inner).sessions ++ rest) ∧
      s.addMessage moment.now msg ∈ (Inner.restore moment msg s inner).sessions := by
  have hall : (inner.sessions ++ s :: rest).Perm (s :: (inner.sessions ++ rest)) :=
    List.perm_middle
  have hmem : s ∈ inner.sessions ++ s :: rest := hall.mem_iff.mpr List.mem_cons_self
  have hclusters := h.clusters.perm hall
  have hnew : ∀ s' ∈ inner.sessions, s'.sessionId ≠ s.sessionId := by
    intro s' hs' heq
    have hnodup := hclusters.nodup
    rw [List.map_cons, List.nodup_cons] at hnodup
    exact hnodup.1 (List.mem_map.mpr ⟨s', List.mem_append_left _ hs', heq⟩)
  obtain ⟨hkeyed, hsessions, hindex⟩ :=
    restore_spec moment msg h.keyed hnew
  refine ⟨⟨hkeyed, ?_, fun msgId sid => ?_⟩, ?_, ?_⟩
  · rw [hsessions]
    exact hclusters.addMessage hfresh moment.now
  · rw [hindex, hsessions, exists_mem_cons_iff, Session.sessionId_addMessage]
    · split_ifs
      · exact Option.some_inj
      · exact h.indexed msgId sid
    · intro hid s' hs' hid'
      rw [Session.msgIds_addMessage, List.mem_append, List.mem_singleton] at hid
      rcases hid with hid | rfl
      · -- No session that was in memory before has a message of the restored one.
        have heq := h.clusters.eq_of_mem_msgIds (List.mem_append_left _ hs') hmem hid' hid
        exact hnew s' hs' (congrArg Session.sessionId heq)
      · exact h.notMem_msgIds hfresh hs' hid'
  · rw [hsessions]
    intro s' hs'
    exact Grows.addMessage moment.now s msg (inner.sessions ++ rest) s' (hall.mem_iff.mp hs')
  · rw [hsessions]
    exact List.mem_cons_self

variable (moment) in
/-- `Sound` is kept by `evictCollect`: the sessions that leave memory are elsewhere afterwards. -/
theorem evictCollect (h : Sound inner rest seen) :
    Sound (evictCollect moment inner).1 ((Inner.evictCollect moment inner).2 ++ rest) seen ∧
      (inner.sessions ++ rest).Perm ((Inner.evictCollect moment inner).1.sessions
        ++ ((Inner.evictCollect moment inner).2 ++ rest)) := by
  obtain ⟨hkeyed, hperm, hpruned⟩ := evictCollect_spec moment h.keyed
  have hall : (inner.sessions ++ rest).Perm ((Inner.evictCollect moment inner).1.sessions
      ++ ((Inner.evictCollect moment inner).2 ++ rest)) := by
    rw [← List.append_assoc]
    exact (hperm.trans List.perm_append_comm).append_right rest
  refine ⟨⟨hkeyed, h.clusters.perm hall, fun msgId sid => ?_⟩, hall⟩
  rw [hpruned, h.indexed]
  have hnodup := (hperm.map Session.sessionId).nodup_iff.mp h.keyed.nodup
  rw [List.map_append, List.nodup_append] at hnodup
  constructor
  · rintro ⟨⟨s, hs, rfl, hid⟩, hleft⟩
    rcases List.mem_append.mp (hperm.mem_iff.mp hs) with hs | hs
    · exact absurd (List.mem_map_of_mem hs) hleft
    · exact ⟨s, hs, rfl, hid⟩
  · rintro ⟨s, hs, rfl, hid⟩
    refine ⟨⟨s, hperm.mem_iff.mpr (List.mem_append_right _ hs), rfl, hid⟩, fun hleft => ?_⟩
    exact hnodup.2.2 _ hleft _ (List.mem_map_of_mem hs) rfl

end Sound

/-! ## The update as a whole -/

/-- The session from L2 that an update restores: a similar one only if the message replies to
none. -/
def restored (msg : MsgRef) (pageFaultSession semanticMatch : Option Session) : Option Session :=
  match pageFaultSession with
  | some session => some session
  | none => match msg.replyTo with
    | some _ => none
    | none => semanticMatch

/-- `restored` is the session that a call has from L2, if it has one. -/
theorem restored_of_replyTo (session : Option Session) :
    (msg.replyTo = none → restored msg none session = session) ∧
      ∀ r, msg.replyTo = some r → restored msg session none = session := by
  refine ⟨fun hreply => ?_, fun r hreply => ?_⟩
  · simp only [restored, hreply]
  · cases session <;> simp only [restored, hreply]

/-- The session that an update puts the message into, unless it opens a new one. -/
def target (inner : Inner) (msg : MsgRef) (pageFaultSession semanticMatch : Option Session) :
    Option Session :=
  match pageFaultSession with
  | some session => some session
  | none => match msg.replyTo with
    | some replyTo => inner.sessionForMsg replyTo
    | none => semanticMatch

/-- What an update does before it evicts. -/
def place (moment : Moment) (msg : MsgRef) (pageFaultSession semanticMatch : Option Session)
    (inner : Inner) : Inner :=
  match restored msg pageFaultSession semanticMatch with
  | some session => restore moment msg session inner
  | none => match msg.replyTo.bind inner.msgIndex.get with
    | some sid => join moment msg sid inner
    | none => create moment msg inner

/-- `update` is `place` and then `evictCollect`. -/
theorem update_eq (moment : Moment) (msg : MsgRef) (pageFaultSession semanticMatch : Option Session)
    (inner : Inner) : update moment msg pageFaultSession semanticMatch inner
      = evictCollect moment (place moment msg pageFaultSession semanticMatch inner) := by
  unfold update place restored
  cases pageFaultSession with
  | some session => rfl
  | none =>
    cases hreply : msg.replyTo with
    | none => cases semanticMatch <;> rfl
    | some replyTo =>
      simp only [Option.bind_some]
      cases inner.msgIndex.get replyTo <;> rfl

variable {pageFaultSession semanticMatch : Option Session}

variable (moment) in
/-- `Sound` is kept by `place`, which loses no session, and adds the message to its target. -/
theorem Sound.place (hfresh : Fresh msg seen)
    (h : Sound inner ((restored msg pageFaultSession semanticMatch).toList ++ rest) seen) :
    Sound (place moment msg pageFaultSession semanticMatch inner) rest (seen ++ [msg]) ∧
      Grows (inner.sessions ++ ((restored msg pageFaultSession semanticMatch).toList ++ rest))
        ((Inner.place moment msg pageFaultSession semanticMatch inner).sessions ++ rest) ∧
      ∀ s, target inner msg pageFaultSession semanticMatch = some s →
        s.addMessage moment.now msg
          ∈ (Inner.place moment msg pageFaultSession semanticMatch inner).sessions := by
  cases hrestored : restored msg pageFaultSession semanticMatch with
  | some session =>
    -- A session from L2: it is the target.
    rw [hrestored] at h
    obtain ⟨hsound, hgrows, hmem⟩ := Sound.restore moment h hfresh
    have htarget : target inner msg pageFaultSession semanticMatch = some session := by
      unfold target
      cases pageFaultSession with
      | some _ => exact hrestored
      | none => cases hreply : msg.replyTo with
        | none => simpa only [restored, hreply] using hrestored
        | some replyTo => simp only [restored, hreply, reduceCtorEq] at hrestored
    simp only [Inner.place, hrestored]
    refine ⟨hsound, hgrows, fun s hs => ?_⟩
    rw [htarget, Option.some_inj] at hs
    exact hs ▸ hmem
  | none =>
    rw [hrestored] at h
    have hsound : Sound inner rest seen := h
    have htarget : target inner msg pageFaultSession semanticMatch
        = msg.replyTo.bind inner.sessionForMsg := by
      unfold target
      cases pageFaultSession with
      | some _ => cases hrestored
      | none => cases hreply : msg.replyTo with
        | none => simpa only [restored, hreply, Option.bind_none] using hrestored
        | some replyTo => rfl
    simp only [Inner.place, hrestored, htarget]
    cases hindex : msg.replyTo.bind inner.msgIndex.get with
    | some sid =>
      -- The reply target is in memory.
      obtain ⟨replyTo, hreply, hindex⟩ := Option.bind_eq_some_iff.mp hindex
      obtain ⟨s, hs, rfl, hid⟩ := (hsound.indexed replyTo sid).mp hindex
      obtain ⟨hsound', hgrows, hmem⟩ := Sound.join moment hsound hfresh hs
      refine ⟨hsound', hgrows, fun s' hs' => ?_⟩
      rw [hreply, Option.bind_some, hsound.sessionForMsg_eq_some_iff] at hs'
      have heq : s' = s := hsound.clusters.eq_of_mem_msgIds (List.mem_append_left _ hs'.1)
        (List.mem_append_left _ hs) hs'.2 hid
      exact heq ▸ hmem
    | none =>
      obtain ⟨hsound', hgrows⟩ := Sound.create moment hsound hfresh
      refine ⟨hsound', hgrows, fun s hs => ?_⟩
      -- No session has the reply target, so there is no target.
      obtain ⟨replyTo, hreply, hs⟩ := Option.bind_eq_some_iff.mp hs
      rw [hsound.keyed.sessionForMsg_eq_some_iff] at hs
      rw [hreply, Option.bind_some, hs.2] at hindex
      cases hindex

variable (moment) in
/-- **The step** that all runs are made of: `Sound` is kept by `update`, with the sessions it evicts
elsewhere; it loses no session, and adds the message to its target. -/
theorem Sound.update (hfresh : Fresh msg seen)
    (h : Sound inner ((restored msg pageFaultSession semanticMatch).toList ++ rest) seen) :
    Sound (update moment msg pageFaultSession semanticMatch inner).1
        ((Inner.update moment msg pageFaultSession semanticMatch inner).2 ++ rest)
        (seen ++ [msg]) ∧
      Grows (inner.sessions ++ ((restored msg pageFaultSession semanticMatch).toList ++ rest))
        ((Inner.update moment msg pageFaultSession semanticMatch inner).1.sessions
          ++ ((Inner.update moment msg pageFaultSession semanticMatch inner).2 ++ rest)) ∧
      ∀ s, target inner msg pageFaultSession semanticMatch = some s →
        s.addMessage moment.now msg
          ∈ (Inner.update moment msg pageFaultSession semanticMatch inner).1.sessions
            ++ ((Inner.update moment msg pageFaultSession semanticMatch inner).2 ++ rest) := by
  obtain ⟨hsound, hgrows, htarget⟩ := Sound.place moment hfresh h
  obtain ⟨hsound', hperm⟩ := hsound.evictCollect moment
  rw [update_eq]
  refine ⟨hsound', hgrows.trans (.of_subset hperm.subset), fun s hs => ?_⟩
  exact hperm.mem_iff.mp (List.mem_append_left _ (htarget s hs))

end Inner

end LogosFs.Sessions
