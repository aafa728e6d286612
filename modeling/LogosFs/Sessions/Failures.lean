import LogosFs.Sessions.InMemory
import LogosFs.Sessions.Tables

/-! # When L2 fails

Any step of a call on L2 may fail. A session leaves memory before it is stored, so a message is lost
when storing fails before the row has been added; a row that could not be deleted stays behind, so
messages are lost when it is loaded later in the place of what has superseded it. `Safe` says of an
operation that it is neither of these, and `Secured` is what such operations keep: whatever else
fails, the sessions in memory and those on the way to L2 supersede the rows that L2 has of them. -/

namespace LogosFs.Sessions

open Sessions.Inner L2Store

variable {lance : Lance} {fate : Fate} {t : Tables} {sessionId : Str}

/-! ## Calls on L2, whatever fails -/

/-- The predicate by which the rows of a session are found selects no others. -/
def Lance.Confined (lance : Lance) (sessionId : Str) : Prop :=
  ∀ selects, lance.parse (equals "session_id".toList sessionId) = some selects →
    ∀ row : SessionRow, selects row.column → row.sessionId = sessionId

/-- The predicate for an id without quotes is `Confined`. -/
theorem Lance.confined_of_notMem (lance : Lance) (hquote : '\'' ∉ sessionId) :
    lance.Confined sessionId := by
  intro selects hparse row hselects
  rw [lance.parse_equals sessionId_column hquote, Option.some_inj] at hparse
  rw [← hparse] at hselects
  exact Option.some_inj.mp (eq_of_beq hselects)

/-- The rows afterwards are those before, possibly without some of one session. -/
def OnlyWithout (sessionId : Str) (rows rows' : List SessionRow) : Prop :=
  rows' ⊆ rows ∧ ∀ row ∈ rows, row.sessionId ≠ sessionId → row ∈ rows'

/-- `OnlyWithout` holds where no row is missing. -/
theorem OnlyWithout.refl (sessionId : Str) (rows : List SessionRow) :
    OnlyWithout sessionId rows rows := ⟨fun _ h => h, fun _ h _ => h⟩

/-- What `selecting` selects by any predicate is used, unless it fails. -/
theorem exec_selecting_bind_or {β : Type} (step : L2Step) (predicate : Str)
    (f : ((Str → Option Str) → Bool) → L2M β) (t : Tables) :
    (selecting lance fate step predicate >>= f).exec t = (.error step, t) ∨
      ∃ selects, lance.parse predicate = some selects ∧
        (selecting lance fate step predicate >>= f).exec t = (f selects).exec t := by
  unfold selecting
  rw [bind_assoc, exec_attempt_bind]
  split
  · exact .inl rfl
  · cases hparse : lance.parse predicate with
    | none => exact .inl rfl
    | some selects => exact .inr ⟨selects, rfl, rfl⟩

/-- The rows that the predicate of a session does not select are all but some of the session:
`OnlyWithout`. -/
theorem onlyWithout_filter (hconfined : lance.Confined sessionId)
    {selects : (Str → Option Str) → Bool}
    (hparse : lance.parse (equals "session_id".toList sessionId) = some selects)
    (rows : List SessionRow) :
    OnlyWithout sessionId rows (rows.filter fun row => !selects row.column) := by
  refine ⟨fun row hrow => List.mem_of_mem_filter hrow, fun row hrow hne => ?_⟩
  refine List.mem_filter.mpr ⟨hrow, ?_⟩
  rw [Bool.not_eq_true', ← Bool.not_eq_true]
  exact fun hselects => hne (hconfined selects hparse row hselects)

/-- `delete` deletes no rows of other sessions, whatever fails: `OnlyWithout`. -/
theorem onlyWithout_delete (hconfined : lance.Confined sessionId) (t : Tables) :
    OnlyWithout sessionId t.sessions ((delete lance fate sessionId).exec t).2.sessions := by
  rw [delete, exec_attempt_bind]
  split
  · exact .refl _ _
  · rcases exec_selecting_bind_or .deleteSessions _ _ t with hfailed | ⟨selects, hparse, hexec⟩
    · rw [hfailed]
      exact .refl _ _
    · -- What follows is about the other table.
      have hrest : LeavesSessions (attempt fate .openMsgIndex >>= fun _ =>
          selecting lance fate .deleteMsgs (equals "session_id".toList sessionId) >>= fun selects =>
          modify fun t => { t with msgIndex := t.msgIndex.filter fun row => !selects row.column }) :=
        (leavesSessions_attempt _).bind fun _ => (leavesSessions_selecting _ _).bind fun _ _ => rfl
      rw [hexec, L2M.exec_modify_bind, hrest]
      exact onlyWithout_filter hconfined hparse _

/-- Storing a session gets as far as adding its row. -/
def Fate.Stores (fate : Fate) : Prop :=
  ∀ step ∈ [L2Step.embed, .openSessions, .dimension, .addSession], fate.fails step = false

instance (fate : Fate) : Decidable fate.Stores := List.decidableBAll _ _

/-- `persist` that gets so far adds the row of its session and deletes no rows of others, whatever
else fails. -/
theorem onlyWithout_persist {s : Session} (hconfined : lance.Confined s.sessionId)
    (hstores : fate.Stores) (t : Tables) : ∃ rows, OnlyWithout s.sessionId t.sessions rows ∧
      ((persist lance fate s).exec t).2.sessions = rows ++ [rowOf s] := by
  have hstep : ∀ step ∈ [L2Step.embed, .openSessions, .dimension, .addSession], ∀ {β : Type}
      (f : Unit → L2M β) (t : Tables), (attempt fate step >>= f).exec t = (f ()).exec t := by
    intro step hmem β f t
    rw [exec_attempt_bind, hstores step hmem]
    rfl
  rw [persist, hstep _ (by simp), hstep _ (by simp), exec_ignoreError_bind, hstep _ (by simp),
    hstep _ (by simp), L2M.exec_modify_bind, leavesSessions_updateMsgIndex s]
  refine ⟨_, ?_, rfl⟩
  rcases exec_selecting_bind_or .deleteSessions _ _ t with hfailed | ⟨selects, hparse, hexec⟩
  · rw [hfailed]
    exact .refl _ _
  · rw [hexec]
    exact onlyWithout_filter hconfined hparse _

/-- `loadById` leaves the table of sessions alone. -/
theorem leavesSessions_loadById (sessionId : Str) :
    LeavesSessions (loadById lance fate sessionId) :=
  (leavesSessions_attempt _).bind fun _ => (leavesSessions_selecting _ _).bind fun _ _ => rfl

/-- `loadByMsg` leaves the table of sessions alone. -/
theorem leavesSessions_loadByMsg (msgId : Int) : LeavesSessions (loadByMsg lance fate msgId) := by
  refine (leavesSessions_attempt _).bind fun _ => (leavesSessions_selecting _ _).bind fun _ t => ?_
  rw [L2M.exec_get_bind]
  split
  · exact leavesSessions_loadById _ t
  · rfl

/-- `semanticSearch` leaves the table of sessions alone. -/
theorem leavesSessions_semanticSearch (chatId : Str) :
    LeavesSessions (semanticSearch lance fate chatId) :=
  (leavesSessions_attempt _).bind fun _ => (leavesSessions_attempt _).bind fun _ =>
    (leavesSessions_selecting _ _).bind fun _ _ => rfl

/-! ## The invariant -/

/-- Nothing has been dropped: the sessions in memory and those that a call holds supersede what L2
has of them, and every message is in one of the sessions. -/
structure Secured (inner : Inner) (t : Tables) (held : List Session) (seen : List MsgRef) :
    Prop where
  /-- Every session in memory is under its own id. -/
  keyed : Keyed inner
  /-- No two sessions in memory and held have the same id. -/
  nodup : ((inner.sessions ++ held).map Session.sessionId).Nodup
  /-- What the index gives is in memory. -/
  indexed : ∀ {msgId sid}, inner.msgIndex.get msgId = some sid →
    ∃ s ∈ inner.sessions, s.sessionId = sid
  /-- Every row is under the id of its session. -/
  rows : ∀ row ∈ t.sessions, row.sessionId = row.data.sessionId
  /-- A row of a session in memory or held has none but its messages. -/
  newest : ∀ s ∈ inner.sessions ++ held, ∀ s' ∈ t.stored, s'.sessionId = s.sessionId →
    s'.messages ⊆ s.messages
  /-- Every message is in a session. -/
  kept : ∀ m ∈ seen, ∃ s ∈ inner.sessions ++ held ++ t.stored, m ∈ s.messages

/-- A new store with empty tables is `Secured` before any message is seen. -/
theorem secured_new (l0Capacity l1Capacity : Nat) :
    Secured (.new l0Capacity l1Capacity) ⟨[], []⟩ [] [] where
  keyed := keyed_new _ _
  nodup := List.nodup_nil
  indexed h := nomatch h
  rows _ h := nomatch h
  newest _ h := nomatch h
  kept _ h := nomatch h

namespace Secured

variable {inner inner' : Inner} {held held' : List Session} {seen seen' : List MsgRef}
  {s : Session} {msg : MsgRef} {moment : Moment}

/-- `Secured` is kept where sessions move between memory and calls, grow, and new ones come that L2
does not know. -/
theorem of_grows (h : Secured inner t held seen) (hkeyed : Keyed inner')
    (hnodup : ((inner'.sessions ++ held').map Session.sessionId).Nodup)
    (hindexed : ∀ {msgId sid}, inner'.msgIndex.get msgId = some sid →
      ∃ s ∈ inner'.sessions, s.sessionId = sid)
    (hgrows : Grows (inner.sessions ++ held) (inner'.sessions ++ held'))
    (hnew : ∀ s ∈ inner'.sessions ++ held',
      (∃ old ∈ inner.sessions ++ held, old.sessionId = s.sessionId) ∨
        ∀ s' ∈ t.stored, s'.sessionId ≠ s.sessionId)
    (hseen : ∀ m ∈ seen', m ∈ seen ∨ ∃ s ∈ inner'.sessions ++ held', m ∈ s.messages) :
    Secured inner' t held' seen' where
  keyed := hkeyed
  nodup := hnodup
  indexed := hindexed
  rows := h.rows
  newest s hs s' hs' heq := by
    rcases hnew s hs with ⟨old, hold, hid⟩ | hnone
    · -- The session has grown out of the old one with its id.
      obtain ⟨now, hnow, hnowId, hinitial⟩ := hgrows old hold
      obtain rfl := List.inj_on_of_nodup_map hnodup hnow hs (hnowId.trans hid)
      exact fun m hm => hinitial.subset (h.newest old hold s' hs' (heq.trans hid.symm) hm)
    · exact absurd heq (hnone s' hs')
  kept m hm := by
    rcases hseen m hm with hm | ⟨s, hs, hmem⟩
    · obtain ⟨s, hs, hmem⟩ := h.kept m hm
      rcases List.mem_append.mp hs with hs | hs
      · obtain ⟨now, hnow, -, hinitial⟩ := hgrows s hs
        exact ⟨now, List.mem_append_left _ hnow, hinitial.subset hmem⟩
      · exact ⟨s, List.mem_append_right _ hs, hmem⟩
    · exact ⟨s, List.mem_append_left _ hs, hmem⟩

/-- `Secured` is kept where rows of a session that is in memory or held go, and others come that it
supersedes. -/
theorem of_onlyWithout (h : Secured inner t held seen) {t' : Tables} {rows : List SessionRow}
    (hs : s ∈ inner.sessions ++ held) (honly : OnlyWithout s.sessionId t.sessions rows)
    (ht' : t'.sessions = rows) : Secured inner t' held seen where
  keyed := h.keyed
  nodup := h.nodup
  indexed := h.indexed
  rows row hrow := h.rows row (honly.1 (ht' ▸ hrow))
  newest s₀ hs₀ s' hs' heq := by
    obtain ⟨row, hrow, rfl⟩ := List.mem_map.mp hs'
    exact h.newest s₀ hs₀ _ (List.mem_map_of_mem (honly.1 (ht' ▸ hrow))) heq
  kept m hm := by
    obtain ⟨s', hs', hmem⟩ := h.kept m hm
    rcases List.mem_append.mp hs' with hs' | hs'
    · exact ⟨s', List.mem_append_left _ hs', hmem⟩
    · obtain ⟨row, hrow, rfl⟩ := List.mem_map.mp hs'
      by_cases heq : row.sessionId = s.sessionId
      · -- What was in the row is in the session that supersedes it.
        exact ⟨s, List.mem_append_left _ hs,
          h.newest s hs row.data hs' ((h.rows row hrow).symm.trans heq) hmem⟩
      · refine ⟨row.data, List.mem_append_right _ ?_, hmem⟩
        exact List.mem_map_of_mem (ht' ▸ honly.2 row hrow heq)

/-- `Secured` is kept where a held session gets a row, and is held no more. -/
theorem of_addRow (h : Secured inner t (s :: held) seen) {t' : Tables}
    (ht' : t'.sessions = t.sessions ++ [rowOf s]) : Secured inner t' held seen := by
  have hperm : (inner.sessions ++ s :: held).Perm (s :: (inner.sessions ++ held)) :=
    List.perm_middle
  have hnodup := (hperm.map Session.sessionId).nodup_iff.mp h.nodup
  rw [List.map_cons, List.nodup_cons] at hnodup
  have hstored : t'.stored = t.stored ++ [s] := by
    rw [Tables.stored, ht', List.map_append]
    rfl
  refine ⟨h.keyed, hnodup.2, h.indexed, fun row hrow => ?_, fun s₀ hs₀ s' hs' heq => ?_,
    fun m hm => ?_⟩
  · rw [ht', List.mem_append, List.mem_singleton] at hrow
    rcases hrow with hrow | rfl
    · exact h.rows row hrow
    · rfl
  · rw [hstored, List.mem_append, List.mem_singleton] at hs'
    rcases hs' with hs' | rfl
    · exact h.newest s₀ (hperm.mem_iff.mpr (List.mem_cons_of_mem _ hs₀)) s' hs' heq
    · exact absurd (List.mem_map.mpr ⟨s₀, hs₀, heq.symm⟩) hnodup.1
  · obtain ⟨s', hs', hmem⟩ := h.kept m hm
    refine ⟨s', ?_, hmem⟩
    rw [hstored]
    simp only [List.mem_append, List.mem_cons] at hs' ⊢
    tauto

/-- `Secured` is kept where a session that L2 has is held as well. -/
theorem hold (h : Secured inner t held seen)
    (hmemory : ∀ s' ∈ inner.sessions ++ held, s'.sessionId ≠ s.sessionId)
    (hcurrent : ∀ s' ∈ t.stored, s'.sessionId = s.sessionId → s'.messages ⊆ s.messages) :
    Secured inner t (s :: held) seen := by
  have hperm : (inner.sessions ++ s :: held).Perm (s :: (inner.sessions ++ held)) :=
    List.perm_middle
  refine ⟨h.keyed, ?_, h.indexed, h.rows, fun s₀ hs₀ => ?_, fun m hm => ?_⟩
  · rw [(hperm.map Session.sessionId).nodup_iff, List.map_cons, List.nodup_cons]
    refine ⟨fun hmem => ?_, h.nodup⟩
    obtain ⟨s', hs', heq⟩ := List.mem_map.mp hmem
    exact hmemory s' hs' heq
  · rcases List.mem_cons.mp (hperm.mem_iff.mp hs₀) with rfl | hs₀
    · exact hcurrent
    · exact h.newest s₀ hs₀
  · obtain ⟨s', hs', hmem⟩ := h.kept m hm
    refine ⟨s', ?_, hmem⟩
    simp only [List.mem_append, List.mem_cons] at hs' ⊢
    tauto

/-! ## Placing a message -/

variable {pageFaultSession semanticMatch : Option Session}

/-- `Secured` is kept where one of the sessions gets the message and is in memory then, and the
others stay. -/
theorem of_addMessage (h : Secured inner t held seen) {now : DateTime} {others : List Session}
    (hkeyed : Keyed inner') (hperm : (inner.sessions ++ held).Perm (s :: others))
    (hsessions : inner'.sessions = s.addMessage now msg :: others)
    (hindex : ∀ {msgId sid}, inner'.msgIndex.get msgId = some sid →
      s.sessionId = sid ∨ inner.msgIndex.get msgId = some sid) :
    Secured inner' t [] (seen ++ [msg]) := by
  refine h.of_grows hkeyed ?_ ?_ ?_ ?_ ?_
  · rw [List.append_nil]
    exact hkeyed.nodup
  · intro msgId sid hget
    rw [hsessions]
    rcases hindex hget with hsid | hget
    · exact ⟨_, List.mem_cons_self, hsid⟩
    · obtain ⟨s', hs', hsid⟩ := h.indexed hget
      rcases List.mem_cons.mp (hperm.mem_iff.mp (List.mem_append_left _ hs')) with rfl | hs'
      · exact ⟨_, List.mem_cons_self, hsid⟩
      · exact ⟨s', List.mem_cons_of_mem _ hs', hsid⟩
  · rw [hsessions, List.append_nil]
    exact (Grows.of_subset hperm.subset).trans (.addMessage now s msg others)
  · intro s' hs'
    rw [hsessions, List.append_nil] at hs'
    refine .inl ?_
    rcases List.mem_cons.mp hs' with rfl | hs'
    · exact ⟨s, hperm.mem_iff.mpr List.mem_cons_self, rfl⟩
    · exact ⟨s', hperm.mem_iff.mpr (List.mem_cons_of_mem _ hs'), rfl⟩
  · intro m hm
    rcases List.mem_append.mp hm with hm | hm
    · exact .inl hm
    · rw [hsessions, List.mem_singleton.mp hm]
      exact .inr ⟨_, List.mem_append_left _ List.mem_cons_self, by simp⟩

/-- `Secured` is kept by `restore`: a session that is held comes back into memory, with the message.
-/
theorem restore (h : Secured inner t [s] seen) :
    Secured (Inner.restore moment msg s inner) t [] (seen ++ [msg]) := by
  have hperm : (inner.sessions ++ [s]).Perm (s :: inner.sessions) := List.perm_append_singleton _ _
  have hnodup := (hperm.map Session.sessionId).nodup_iff.mp h.nodup
  rw [List.map_cons, List.nodup_cons] at hnodup
  obtain ⟨hkeyed, hsessions, hindex⟩ := restore_spec moment msg h.keyed
    fun s' hs' heq => hnodup.1 (List.mem_map.mpr ⟨s', hs', heq⟩)
  refine h.of_addMessage hkeyed hperm hsessions fun {msgId sid} hget => ?_
  rw [hindex] at hget
  split_ifs at hget
  · exact .inl (Option.some_inj.mp hget)
  · exact .inr hget

/-- `Secured` is kept by `join`: a session in memory takes the message. -/
theorem join (h : Secured inner t [] seen) (hs : s ∈ inner.sessions) :
    Secured (Inner.join moment msg s.sessionId inner) t [] (seen ++ [msg]) := by
  obtain ⟨hkeyed, ⟨others, hperm, hsessions⟩, hindex⟩ :=
    join_spec moment msg h.keyed hs
  rw [← List.append_nil inner.sessions] at hperm
  refine h.of_addMessage hkeyed hperm hsessions fun {msgId sid} hget => ?_
  rw [hindex, HashMap.get_insert] at hget
  split_ifs at hget
  · exact .inl (Option.some_inj.mp hget)
  · exact .inr hget

/-- `Secured` is kept by `create`: the message opens a session of an id that is new. -/
theorem create (h : Secured inner t [] seen)
    (hnew : ∀ s ∈ inner.sessions ++ t.stored, s.sessionId ≠ msg.sessionId) :
    Secured (Inner.create moment msg inner) t [] (seen ++ [msg]) := by
  obtain ⟨hkeyed, hsessions, hindex⟩ := create_spec moment h.keyed
    fun s hs => hnew s (List.mem_append_left _ hs)
  refine h.of_grows hkeyed ?_ ?_ ?_ ?_ ?_
  · rw [List.append_nil]
    exact hkeyed.nodup
  · intro msgId sid hget
    rw [hindex, HashMap.get_insert] at hget
    rw [hsessions]
    split_ifs at hget
    · exact ⟨_, List.mem_cons_self, Option.some_inj.mp hget⟩
    · obtain ⟨s, hs, hsid⟩ := h.indexed hget
      exact ⟨s, List.mem_cons_of_mem _ hs, hsid⟩
  · rw [hsessions, List.append_nil, List.append_nil]
    exact .of_subset fun s hs => List.mem_cons_of_mem _ hs
  · intro s' hs'
    rw [hsessions, List.append_nil] at hs'
    rw [List.append_nil]
    rcases List.mem_cons.mp hs' with rfl | hs'
    · exact .inr fun s hs => hnew s (List.mem_append_right _ hs)
    · exact .inl ⟨s', hs', rfl⟩
  · intro m hm
    rcases List.mem_append.mp hm with hm | hm
    · exact .inl hm
    · rw [hsessions, List.mem_singleton.mp hm]
      exact .inr ⟨_, List.mem_append_left _ List.mem_cons_self, by simp⟩

/-- `Secured` is kept by `evictCollect`: the sessions that are evicted are held. -/
theorem evictCollect (h : Secured inner t [] seen) :
    Secured (Inner.evictCollect moment inner).1 t (Inner.evictCollect moment inner).2 seen := by
  obtain ⟨hkeyed, hperm, hpruned⟩ := evictCollect_spec moment h.keyed
  have hperm' := hperm.trans List.perm_append_comm
  have hnodup := (hperm'.map Session.sessionId).nodup_iff.mp h.keyed.nodup
  refine h.of_grows hkeyed hnodup ?_ ?_ ?_ fun m hm => .inl hm
  · intro msgId sid hget
    obtain ⟨hget, hleft⟩ := (hpruned msgId sid).mp hget
    obtain ⟨s, hs, hsid⟩ := h.indexed hget
    rcases List.mem_append.mp (hperm.mem_iff.mp hs) with hs | hs
    · exact absurd (hsid ▸ List.mem_map_of_mem hs) hleft
    · exact ⟨s, hs, hsid⟩
  · rw [List.append_nil]
    exact .of_subset hperm'.subset
  · intro s hs
    rw [List.append_nil]
    exact .inl ⟨s, hperm'.mem_iff.mpr hs, rfl⟩

/-- `Secured` is kept by an update, which restores the session that is held, if there is one, and
holds those that it evicts. A session that it opens has a new id. -/
theorem update
    (h : Secured inner t (restored msg pageFaultSession semanticMatch).toList seen)
    (hnew : restored msg pageFaultSession semanticMatch = none →
      msg.replyTo.bind inner.msgIndex.get = none →
      ∀ s ∈ inner.sessions ++ t.stored, s.sessionId ≠ msg.sessionId) :
    Secured (Inner.update moment msg pageFaultSession semanticMatch inner).1 t
      (Inner.update moment msg pageFaultSession semanticMatch inner).2 (seen ++ [msg]) := by
  rw [update_eq]
  refine evictCollect ?_
  unfold place
  cases hrestored : restored msg pageFaultSession semanticMatch with
  | some s =>
    rw [hrestored] at h
    exact h.restore
  | none =>
    rw [hrestored] at h
    cases hindex : msg.replyTo.bind inner.msgIndex.get with
    | some sid =>
      obtain ⟨replyTo, -, hget⟩ := Option.bind_eq_some_iff.mp hindex
      obtain ⟨s, hs, rfl⟩ := h.indexed hget
      exact h.join hs
    | none => exact h.create (hnew hrestored hindex)

end Secured

/-! ## Operations that drop nothing -/

/-- A session that L2 has found is not superseded: none in memory has its id, and no row of it has
a message that it lacks. -/
def Current (st : SessionStore) (s : Session) : Prop :=
  (∀ s' ∈ st.inner.sessions, s'.sessionId ≠ s.sessionId) ∧
    ∀ s' ∈ st.l2.stored, s'.sessionId = s.sessionId → s'.messages ⊆ s.messages

instance (st : SessionStore) (s : Session) : Decidable (Current st s) :=
  inferInstanceAs (Decidable (_ ∧ _))

/-- The session whose rows an operation deletes. -/
def deletes : SessionOp → Option Str
  | .delete sessionId => some sessionId
  | .persist session => some session.sessionId
  | _ => none

/-- The message that an operation opens a session with. -/
def opens (inner : Inner) : SessionOp → Option MsgRef
  | .update msg pageFaultSession semanticMatch =>
    if restored msg pageFaultSession semanticMatch = none ∧
      msg.replyTo.bind inner.msgIndex.get = none then some msg else none
  | _ => none

/-- The session that an operation stores. -/
def stores : SessionOp → Option Session
  | .persist session => some session
  | _ => none

/-- An operation that drops nothing. -/
structure Safe (lance : Lance) (op : SessionOp) (st : SessionStore) : Prop where
  /-- What it gets from L2 is not superseded. -/
  current : ∀ s ∈ loads lance op st, Current st s
  /-- It deletes no rows of other sessions. -/
  confined : ∀ sessionId ∈ deletes op, lance.Confined sessionId
  /-- It opens no session under an id that is taken. -/
  fresh : ∀ msg ∈ opens st.inner op, ∀ s ∈ st.inner.sessions ++ st.l2.stored,
    s.sessionId ≠ msg.sessionId
  /-- The session that it stores gets its row. -/
  stored : ∀ s ∈ stores op, (st.fate 0).Stores

variable {st : SessionStore} {held : List Session} {seen : List MsgRef} {s : Session} {msg : MsgRef}

/-- A `call` on L2 that leaves the sessions alone keeps `Secured`, with what is held and what was
seen. -/
theorem Secured.of_leavesSessions {α : Type} {call : Fate → L2M α}
    (h : Secured st.inner st.l2 held seen) (hcall : LeavesSessions (call (st.fate 0))) :
    Secured (st.callL2 call).2.inner (st.callL2 call).2.l2 held seen := by
  have hsessions : (st.callL2 call).2.l2.sessions = st.l2.sessions := hcall st.l2
  have hstored : (st.callL2 call).2.l2.stored = st.l2.stored := congrArg (List.map _) hsessions
  refine ⟨h.keyed, h.nodup, h.indexed, ?_, ?_, ?_⟩
  · rw [hsessions]
    exact h.rows
  · rw [hstored]
    exact h.newest
  · rw [hstored]
    exact h.kept

/-- Persisting a session `s` that is held, where this is `Safe`, puts it among the rows: it need not
be held any more. -/
theorem Secured.persist (h : Secured st.inner st.l2 (s :: held) seen)
    (hsafe : Safe lance (.persist s) st) :
    Secured (SessionStore.handler lance (.persist s) st).2.inner
      (SessionStore.handler lance (.persist s) st).2.l2 held seen := by
  obtain ⟨rows, honly, hrows⟩ := onlyWithout_persist (hsafe.confined _ rfl) (hsafe.stored _ rfl) st.l2
  have hheld : s ∈ st.inner.sessions ++ s :: held :=
    List.mem_append_right _ List.mem_cons_self
  have hwithout : Secured st.inner ⟨rows, []⟩ (s :: held) seen := h.of_onlyWithout hheld honly rfl
  exact hwithout.of_addRow hrows

/-- Deleting the rows of a session `s` that is held keeps `Secured`, whether the deletion fails or
not, as `s` stays held. -/
theorem Secured.delete (h : Secured st.inner st.l2 (s :: held) seen)
    (hsafe : Safe lance (.delete s.sessionId) st) :
    Secured (SessionStore.handler lance (.delete s.sessionId) st).2.inner
      (SessionStore.handler lance (.delete s.sessionId) st).2.l2 (s :: held) seen := by
  have hheld : s ∈ st.inner.sessions ++ s :: held :=
    List.mem_append_right _ List.mem_cons_self
  exact h.of_onlyWithout hheld (onlyWithout_delete (hsafe.confined _ rfl) st.l2) rfl

/-- A read `op` of L2 that is `Safe` and changes no sessions keeps `Secured`, and a session that it
yields may be held if it is `Current`. -/
theorem Secured.read {op : SessionOp} (h : Secured st.inner st.l2 [] seen) {α : Type}
    {call : Fate → L2M α} (hop : (SessionStore.handler lance op st).2 = (st.callL2 call).2)
    (hcall : LeavesSessions (call (st.fate 0))) (hsafe : Safe lance op st) :
    Secured (SessionStore.handler lance op st).2.inner (SessionStore.handler lance op st).2.l2 []
        seen ∧
      ∀ s ∈ loads lance op st, Current (SessionStore.handler lance op st).2 s := by
  have hstored : (st.callL2 call).2.l2.stored = st.l2.stored :=
    congrArg (List.map _) (hcall st.l2)
  rw [hop]
  refine ⟨h.of_leavesSessions hcall, fun s hs => ?_⟩
  obtain ⟨hmemory, hrows⟩ := hsafe.current s hs
  refine ⟨hmemory, ?_⟩
  rw [hstored]
  exact hrows

/-- The section under the lock, `.update`, takes over the session that is held, and what it evicts
is held in its place. -/
theorem Secured.update_op {pageFaultSession semanticMatch : Option Session}
    (h : Secured st.inner st.l2 (restored msg pageFaultSession semanticMatch).toList seen)
    (hsafe : Safe lance (.update msg pageFaultSession semanticMatch) st) :
    Secured (SessionStore.handler lance (.update msg pageFaultSession semanticMatch) st).2.inner
      (SessionStore.handler lance (.update msg pageFaultSession semanticMatch) st).2.l2
      (SessionStore.handler lance (.update msg pageFaultSession semanticMatch) st).1
      (seen ++ [msg]) :=
  h.update fun hnone hindex => hsafe.fresh msg (if_pos ⟨hnone, hindex⟩)

/-! ## One call -/

/-- The sessions that have been `evicted` are stored one after another, and none of them is held in
the end. -/
theorem secured_persistAll (evicted : List Session) (h : Secured st.inner st.l2 evicted seen)
    (hsafe : (persistAll evicted).Along (SessionStore.handler lance) (Safe lance) st) :
    Secured ((persistAll evicted).run (SessionStore.handler lance) st).2.inner
      ((persistAll evicted).run (SessionStore.handler lance) st).2.l2 [] seen := by
  induction evicted generalizing st with
  | nil => exact h
  | cons s evicted ih => exact ih (h.persist hsafe.1) hsafe.2

/-- The rest of a call, `readyWith msg session`, takes the session that is held, if any, and has put
`msg` into a session in the end. -/
theorem secured_readyWith (session : Option Session)
    (h : Secured st.inner st.l2 session.toList seen)
    (hsafe : (readyWith msg session).Along (SessionStore.handler lance) (Safe lance) st) :
    Secured ((readyWith msg session).run (SessionStore.handler lance) st).2.inner
      ((readyWith msg session).run (SessionStore.handler lance) st).2.l2 [] (seen ++ [msg]) := by
  unfold readyWith at hsafe ⊢
  cases hreply : msg.replyTo with
  | some replyTo =>
    simp only [hreply] at hsafe ⊢
    have hrestored := (restored_of_replyTo session).2 replyTo hreply
    exact secured_persistAll _ (Secured.update_op (by rwa [hrestored]) hsafe.1) hsafe.2
  | none =>
    simp only [hreply] at hsafe ⊢
    have hrestored := (restored_of_replyTo session).1 hreply
    exact secured_persistAll _ (Secured.update_op (by rwa [hrestored]) hsafe.1) hsafe.2

/-- The rest of a call to which L2 has answered with `result`, where that session is `Current` or
`none`. -/
theorem secured_answered (result : Option Session) (h : Secured st.inner st.l2 [] seen)
    (hcurrent : ∀ s ∈ result, Current st s)
    (hsafe : (answered msg result).Along (SessionStore.handler lance) (Safe lance) st) :
    Secured ((answered msg result).run (SessionStore.handler lance) st).2.inner
      ((answered msg result).run (SessionStore.handler lance) st).2.l2 [] (seen ++ [msg]) := by
  cases result with
  | none => exact secured_readyWith none h hsafe
  | some s =>
    obtain ⟨hmemory, hrows⟩ := hcurrent s rfl
    have hheld : Secured st.inner st.l2 [s] seen :=
      h.hold (by rwa [List.append_nil]) hrows
    exact secured_readyWith (some s) (hheld.delete hsafe.1) hsafe.2

/-- **One call** of `observe` that performs safe operations keeps the invariant, whatever fails. -/
theorem secured_observe (h : Secured st.inner st.l2 [] seen)
    (hsafe : (observe true msg).Along (SessionStore.handler lance) (Safe lance) st) :
    Secured ((observe true msg).run (SessionStore.handler lance) st).2.inner
      ((observe true msg).run (SessionStore.handler lance) st).2.l2 [] (seen ++ [msg]) := by
  cases hreply : msg.replyTo with
  | some replyTo =>
    rw [observe_of_reply hreply] at hsafe ⊢
    obtain ⟨-, hrest⟩ := hsafe
    rw [Program.run_call]
    cases hneeded : (SessionStore.handler lance (.needFault replyTo) st).1 with
    | false =>
      rw [hneeded] at hrest
      exact secured_answered none h (fun s hs => nomatch hs) hrest
    | true =>
      rw [hneeded] at hrest
      have hafter : Secured st.tick.inner st.tick.l2 [] seen := h
      obtain ⟨hread, hcurrent⟩ :=
        hafter.read rfl (leavesSessions_loadByMsg replyTo) hrest.1
      exact secured_answered _ hread hcurrent hrest.2
  | none =>
    rw [observe_of_no_reply hreply] at hsafe ⊢
    obtain ⟨hread, hcurrent⟩ := h.read rfl (leavesSessions_semanticSearch msg.chatId) hsafe.1
    exact secured_answered _ hread hcurrent hsafe.2

/-! ## Whole runs -/

/-- Every call of a run performs safe operations only. -/
def SafelyObserved (lance : Lance) (st : SessionStore) (msgs : List MsgRef) : Prop :=
  ∀ before msg, before ++ [msg] <+: msgs →
    (observe true msg).Along (SessionStore.handler lance) (Safe lance)
      (st.observeAll lance true before)

/-- `Secured` is kept by observing messages one after another, if each is `SafelyObserved`. -/
theorem secured_observeAll (h : Secured st.inner st.l2 [] seen) (msgs : List MsgRef)
    (hsafe : SafelyObserved lance st msgs) :
    Secured (st.observeAll lance true msgs).inner (st.observeAll lance true msgs).l2 []
      (seen ++ msgs) := by
  induction msgs using List.reverseRecOn with
  | nil => rwa [List.append_nil]
  | append_singleton msgs msg ih =>
    rw [observeAll_append_singleton, ← List.append_assoc]
    refine secured_observe (ih fun before m hinitial => ?_) (hsafe msgs msg List.prefix_rfl)
    exact hsafe before m (hinitial.trans (List.prefix_append _ _))

/-- Every message is still in a session, in memory or in the table of sessions. -/
def NothingDropped (msgs : List MsgRef) (st : SessionStore) : Prop :=
  ∀ m ∈ msgs, ∃ s ∈ st.inner.sessions ++ st.l2.stored, m ∈ s.messages

instance (msgs : List MsgRef) (st : SessionStore) : Decidable (NothingDropped msgs st) :=
  List.decidableBAll _ _

/-- **Failures of L2 drop nothing** in a run that is `SafelyObserved`: whichever steps of the calls
on L2 fail by `fate`, every message of `msgs` is in a session in memory or in the table of sessions.
-/
theorem nothingDropped_of_safelyObserved {l0Capacity l1Capacity : Nat} {fate : Nat → Fate}
    {msgs : List MsgRef} (hsafe : SafelyObserved lance (.new l0Capacity l1Capacity fate) msgs) :
    NothingDropped msgs ((SessionStore.new l0Capacity l1Capacity fate).observeAll lance true msgs) := by
  intro m hm
  obtain ⟨s, hs, hmem⟩ :=
    (secured_observeAll (secured_new l0Capacity l1Capacity) msgs hsafe).kept m hm
  rw [List.append_nil] at hs
  exact ⟨s, hs, hmem⟩

/-- `Safe` for ids without quotes, as it can be computed. -/
def PlainlySafe (lance : Lance) (op : SessionOp) (st : SessionStore) : Prop :=
  (∀ s ∈ loads lance op st, Current st s) ∧ (∀ sessionId ∈ deletes op, '\'' ∉ sessionId) ∧
    (∀ msg ∈ opens st.inner op, ∀ s ∈ st.inner.sessions ++ st.l2.stored,
      s.sessionId ≠ msg.sessionId) ∧ ∀ s ∈ stores op, (st.fate 0).Stores

instance (lance : Lance) (op : SessionOp) (st : SessionStore) : Decidable (PlainlySafe lance op st) :=
  inferInstanceAs (Decidable (_ ∧ _))

/-- What is `PlainlySafe` is `Safe`. -/
theorem PlainlySafe.safe {op : SessionOp} (h : PlainlySafe lance op st) : Safe lance op st :=
  ⟨h.1, fun sessionId hdeletes => lance.confined_of_notMem (h.2.1 sessionId hdeletes), h.2.2.1,
    h.2.2.2⟩

/-- A run is `SafelyObserved` if each of its calls is `PlainlySafe` along its own program, from the
state that the messages before it leave. -/
theorem safelyObserved_of_forall {msgs : List MsgRef}
    (h : ∀ entry ∈ msgs.zipIdx, (observe true entry.1).Along (SessionStore.handler lance)
      (PlainlySafe lance) (st.observeAll lance true (msgs.take entry.2))) :
    SafelyObserved lance st msgs := by
  intro before msg hinitial
  have hplain := forall_prefix_of_zipIdx (P := fun before msg => (observe true msg).Along
    (SessionStore.handler lance) (PlainlySafe lance) (st.observeAll lance true before))
    h before msg hinitial
  exact Program.Along.mono _ (fun op st => PlainlySafe.safe) hplain

/-- An L2 on which some steps always fail. -/
def failing (steps : List L2Step) (n : Nat) : Fate :=
  { Fate.calm n with fails := fun step => step ∈ steps }

/-- Where `deleteSessions` and `openMsgIndex` always fail, five messages with a reply are all in a
session nevertheless. -/
theorem nothingDropped_failing_delete :
    NothingDropped [msgOf 1 none, msgOf 2 none, msgOf 3 none, msgOf 4 (some 1), msgOf 5 none]
      ((SessionStore.new 1 1 (failing [.deleteSessions, .openMsgIndex])).observeAll .comparing true
        [msgOf 1 none, msgOf 2 none, msgOf 3 none, msgOf 4 (some 1), msgOf 5 none]) :=
  nothingDropped_of_safelyObserved (safelyObserved_of_forall (by decide +kernel))

/-- Where `embed` always fails, a session that leaves memory gets no row: of three messages the
first is in no session any more. -/
theorem not_nothingDropped_failing_embed :
    ¬NothingDropped [msgOf 1 none, msgOf 2 none, msgOf 3 none]
      ((SessionStore.new 1 1 (failing [.embed])).observeAll .comparing true
        [msgOf 1 none, msgOf 2 none, msgOf 3 none]) := by
  decide +kernel

end LogosFs.Sessions
