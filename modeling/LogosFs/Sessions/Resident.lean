import LogosFs.Sessions.Store

/-! # The sessions in memory

`Inner.Keyed` says that every session in memory is under its own id, and under one key only. Each
operation under the lock keeps it and moves sessions in the expected way: eviction splits them into
those that stay and those that leave, and takes the index entries of the latter with it
(`evictCollect_spec`); joining, restoring and creating change or add one session. -/

namespace LogosFs.Sessions

namespace Inner

/-- The sessions in memory. -/
def sessions (inner : Inner) : List Session := inner.l0.values ++ inner.l1.values

/-- Every session is under its own id, and no two have the same id. -/
structure Keyed (inner : Inner) : Prop where
  /-- An active session is under its id. -/
  of_l0 : ∀ {k s}, inner.l0.get k = some s → s.sessionId = k
  /-- An inactive session is under its id. -/
  of_l1 : ∀ {k s}, inner.l1.get k = some s → s.sessionId = k
  /-- No two sessions have the same id. -/
  nodup : (inner.sessions.map Session.sessionId).Nodup

/-- A new store is `Keyed`. -/
theorem keyed_new (l0Capacity l1Capacity : Nat) : Keyed (new l0Capacity l1Capacity) :=
  ⟨fun h => (nomatch h), fun h => (nomatch h), List.nodup_nil⟩

variable {inner : Inner} {s : Session} {sid : Str}

/-- A session in `l0` is in memory. -/
theorem mem_sessions_of_l0 (h : inner.l0.get sid = some s) : s ∈ inner.sessions :=
  List.mem_append_left _ (HashMap.mem_values_of_get h)

/-- A session in `l1` is in memory. -/
theorem mem_sessions_of_l1 (h : inner.l1.get sid = some s) : s ∈ inner.sessions :=
  List.mem_append_right _ (HashMap.mem_values_of_get h)

namespace Keyed

/-- A session in memory is in `l0` or `l1`, under its id, if the store is `Keyed`. -/
theorem get_of_mem (hi : Keyed inner) (h : s ∈ inner.sessions) :
    inner.l0.get s.sessionId = some s ∨ inner.l1.get s.sessionId = some s := by
  rcases List.mem_append.mp h with h | h <;> obtain ⟨k, hk⟩ := HashMap.mem_values_iff.mp h
  · exact .inl (hi.of_l0 hk ▸ hk)
  · exact .inr (hi.of_l1 hk ▸ hk)

/-- In a `Keyed` store an id in `l0` is not in `l1`. -/
theorem l1_eq_none_of_l0 (hi : Keyed inner) (h : inner.l0.get sid = some s) :
    inner.l1.get sid = none := by
  rw [Option.eq_none_iff_forall_ne_some]
  intro s' h'
  have hnodup := hi.nodup
  rw [sessions, List.map_append, List.nodup_append] at hnodup
  refine hnodup.2.2 sid ?_ sid ?_ rfl
  · exact List.mem_map.mpr ⟨s, HashMap.mem_values_of_get h, hi.of_l0 h⟩
  · exact List.mem_map.mpr ⟨s', HashMap.mem_values_of_get h', hi.of_l1 h'⟩

/-- In a `Keyed` store an id in `l1` is not in `l0`. -/
theorem l0_eq_none_of_l1 (hi : Keyed inner) (h : inner.l1.get sid = some s) :
    inner.l0.get sid = none := by
  rw [Option.eq_none_iff_forall_ne_some]
  intro s' h'
  rw [hi.l1_eq_none_of_l0 h'] at h
  cases h

/-- In a `Keyed` store sessions with the same id are the same. -/
theorem eq_of_sessionId_eq {s' : Session} (hi : Keyed inner) (h : s ∈ inner.sessions)
    (h' : s' ∈ inner.sessions) (heq : s.sessionId = s'.sessionId) : s = s' :=
  List.inj_on_of_nodup_map hi.nodup h h' heq

/-- `findSessionMut` looks into `l0` and then into `l1`. -/
theorem findSessionMut_eq_some_iff {layer : Nat} (hi : Keyed inner) :
    inner.findSessionMut sid = some (s, layer) ↔
      inner.l0.get sid = some s ∧ layer = 0 ∨ inner.l1.get sid = some s ∧ layer = 1 := by
  rw [findSessionMut]
  cases h0 : inner.l0.get sid with
  | some s' =>
    have h1 := hi.l1_eq_none_of_l0 h0
    simp [h1, eq_comm]
  | none =>
    cases h1 : inner.l1.get sid with
    | some s' => simp [eq_comm]
    | none => simp

/-- `findSessionMut` finds the session in memory that has the id. -/
theorem exists_findSessionMut_iff (hi : Keyed inner) :
    (∃ layer, inner.findSessionMut sid = some (s, layer)) ↔
      s ∈ inner.sessions ∧ s.sessionId = sid := by
  simp only [hi.findSessionMut_eq_some_iff]
  constructor
  · rintro ⟨layer, ⟨h, -⟩ | ⟨h, -⟩⟩
    · exact ⟨mem_sessions_of_l0 h, hi.of_l0 h⟩
    · exact ⟨mem_sessions_of_l1 h, hi.of_l1 h⟩
  · rintro ⟨h, rfl⟩
    rcases hi.get_of_mem h with h | h
    · exact ⟨0, .inl ⟨h, rfl⟩⟩
    · exact ⟨1, .inr ⟨h, rfl⟩⟩

/-- `sessionForMsg` finds the session in memory that the index gives for the message. -/
theorem sessionForMsg_eq_some_iff {msgId : Int} (hi : Keyed inner) :
    inner.sessionForMsg msgId = some s ↔
      s ∈ inner.sessions ∧ inner.msgIndex.get msgId = some s.sessionId := by
  rw [sessionForMsg]
  cases hindex : inner.msgIndex.get msgId with
  | none => simp
  | some sid =>
    constructor
    · intro h
      have hfound : inner.l0.get sid = some s ∨ inner.l1.get sid = some s := by
        cases h0 : inner.l0.get sid with
        | some s' => simp only [h0] at h; exact .inl h
        | none => cases h1 : inner.l1.get sid with
          | some s' => simp only [h0, h1] at h; exact .inr h
          | none => simp only [h0, h1] at h; cases h
      rcases hfound with h | h
      · exact ⟨mem_sessions_of_l0 h, congrArg some (hi.of_l0 h).symm⟩
      · exact ⟨mem_sessions_of_l1 h, congrArg some (hi.of_l1 h).symm⟩
    · rintro ⟨hmem, hsid⟩
      obtain rfl := Option.some_inj.mp hsid
      rcases hi.get_of_mem hmem with h | h
      · simp only [h]
      · simp only [hi.l0_eq_none_of_l1 h, h]

end Keyed

/-! ## Eviction -/

variable {moment : Moment}

/-- The key that `oldest` chooses has a session. -/
theorem exists_of_oldest {m : HashMap Str Session} {key : Str} (h : oldest moment m = some key) :
    ∃ s, m.get key = some s := by
  obtain ⟨s, hs, -⟩ := moment.iteration.exists_of_minByKey h
  exact ⟨s, hs⟩

/-- A store stays `Keyed` in one round of `demote`: a session moves from L0 to L1. -/
theorem keyed_demoteOne (hi : Keyed inner) (hs : inner.l0.get sid = some s) :
    Keyed { inner with l0 := inner.l0.remove sid, l1 := inner.l1.insert sid s } ∧
      ({ inner with l0 := inner.l0.remove sid, l1 := inner.l1.insert sid s } : Inner).sessions.Perm
        inner.sessions := by
  have hperm : ({ inner with l0 := inner.l0.remove sid, l1 := inner.l1.insert sid s } :
      Inner).sessions.Perm inner.sessions := by
    have hl1 := HashMap.values_insert_of_get_eq_none (v := s) (hi.l1_eq_none_of_l0 hs)
    rw [sessions, sessions, hl1]
    exact List.perm_middle.trans ((HashMap.perm_values_of_get hs).symm.append_right _)
  refine ⟨⟨fun h => hi.of_l0 (HashMap.get_of_get_remove h).2, fun {k s'} h => ?_, ?_⟩, hperm⟩
  · rw [HashMap.get_insert] at h
    split_ifs at h with hk
    · rw [hk, ← Option.some_inj.mp h]
      exact hi.of_l0 hs
    · exact hi.of_l1 h
  · exact (hperm.map _).nodup_iff.mpr hi.nodup

variable (moment) in
/-- `demote` moves sessions around, and leaves the index alone. -/
theorem demote_spec (fuel : Nat) (hi : Keyed inner) :
    Keyed (demote moment fuel inner) ∧
      (demote moment fuel inner).sessions.Perm inner.sessions ∧
      (demote moment fuel inner).msgIndex = inner.msgIndex := by
  induction fuel generalizing inner with
  | zero => exact ⟨hi, .refl _, rfl⟩
  | succ fuel ih =>
    rw [demote]
    split
    · cases hkey : oldest moment inner.l0 with
      | none => exact ⟨hi, .refl _, rfl⟩
      | some key =>
        obtain ⟨s, hs⟩ := exists_of_oldest hkey
        simp only [hs]
        obtain ⟨hkeyed, hperm⟩ := keyed_demoteOne hi hs
        obtain ⟨hkeyed', hperm', hindex'⟩ := ih hkeyed
        exact ⟨hkeyed', hperm'.trans hperm, hindex'⟩
    · exact ⟨hi, .refl _, rfl⟩

/-- `demote` ends with L0 within its capacity. -/
theorem demote_len (fuel : Nat) (hfuel : inner.l0.len ≤ fuel) :
    (demote moment fuel inner).l0.len ≤ inner.l0Capacity := by
  induction fuel generalizing inner with
  | zero => exact Nat.le_trans hfuel (Nat.zero_le _)
  | succ fuel ih =>
    rw [demote]
    split
    · rename_i hover
      have hne : oldest moment inner.l0 ≠ none := by
        intro h
        have hlen := (moment.iteration.minByKey_eq_none_iff).mp h
        omega
      obtain ⟨key, hkey⟩ := Option.ne_none_iff_exists'.mp hne
      obtain ⟨s, hs⟩ := exists_of_oldest hkey
      simp only [hkey, hs]
      have hlen := HashMap.len_of_get hs
      have hfewer : (inner.l0.remove key).len ≤ fuel := by omega
      exact ih hfewer
    · omega

/-- A store stays `Keyed` in one round of `expel`: a session leaves L1, and its messages leave the
index. -/
theorem keyed_expelOne (hi : Keyed inner) (hs : inner.l1.get sid = some s) (index : HashMap Int Str) :
    Keyed { inner with l1 := inner.l1.remove sid, msgIndex := index } ∧
      inner.sessions.Perm
        (s :: ({ inner with l1 := inner.l1.remove sid, msgIndex := index } : Inner).sessions) := by
  have hperm : inner.sessions.Perm
      (s :: ({ inner with l1 := inner.l1.remove sid, msgIndex := index } : Inner).sessions) :=
    ((HashMap.perm_values_of_get hs).append_left _).trans List.perm_middle
  refine ⟨⟨hi.of_l0, fun h => hi.of_l1 (HashMap.get_of_get_remove h).2, ?_⟩, hperm⟩
  have hnodup := (hperm.map _).nodup_iff.mp hi.nodup
  exact (List.nodup_cons.mp hnodup).2

/-- The index without the messages of some sessions. -/
def PrunedOf (index index' : HashMap Int Str) (left : List Session) : Prop :=
  ∀ msgId sid, index'.get msgId = some sid ↔
    index.get msgId = some sid ∧ sid ∉ left.map Session.sessionId

/-- `PrunedOf` without any session that leaves: the index stays as it is. -/
theorem prunedOf_nil (index : HashMap Int Str) : PrunedOf index index [] := by
  intro msgId sid
  simp

variable (moment) in
/-- `expel` takes sessions out of memory, and their messages out of the index. -/
theorem expel_spec (fuel : Nat) (evicted : List Session) (hi : Keyed inner) :
    Keyed (expel moment fuel inner evicted).1 ∧
      ∃ left, (expel moment fuel inner evicted).2 = evicted ++ left ∧
        inner.sessions.Perm (left ++ (expel moment fuel inner evicted).1.sessions) ∧
        PrunedOf inner.msgIndex (expel moment fuel inner evicted).1.msgIndex left := by
  -- Where the loop stops, nothing more leaves.
  have hstay : ∀ (inner : Inner) (evicted : List Session), ∃ left, evicted = evicted ++ left ∧
      inner.sessions.Perm (left ++ inner.sessions) ∧
      PrunedOf inner.msgIndex inner.msgIndex left := fun inner evicted =>
    ⟨[], (List.append_nil _).symm, .refl _, prunedOf_nil _⟩
  induction fuel generalizing inner evicted with
  | zero => exact ⟨hi, hstay inner evicted⟩
  | succ fuel ih =>
    rw [expel]
    split
    · cases hkey : oldest moment inner.l1 with
      | none => exact ⟨hi, hstay inner evicted⟩
      | some key =>
        obtain ⟨s, hs⟩ := exists_of_oldest hkey
        simp only [hs]
        obtain ⟨hkeyed, hperm⟩ :=
          keyed_expelOne hi hs (inner.msgIndex.retain fun sid => sid != key)
        obtain ⟨hkeyed', left, hleft, hperm', hpruned⟩ := ih (evicted ++ [s]) hkeyed
        refine ⟨hkeyed', s :: left, ?_, hperm.trans (hperm'.cons s), fun msgId sid => ?_⟩
        · rw [hleft, List.append_assoc]
          rfl
        · rw [hpruned, HashMap.get_retain, Option.filter_eq_some_iff, bne_iff_ne, List.map_cons,
            hi.of_l1 hs, List.mem_cons, not_or, and_assoc]
    · exact ⟨hi, hstay inner evicted⟩

variable (moment) in
/-- **Eviction** by `evictCollect` splits the sessions in memory into those that stay and those that
are returned, and the messages of the latter leave the index. -/
theorem evictCollect_spec (hi : Keyed inner) :
    Keyed (evictCollect moment inner).1 ∧
      inner.sessions.Perm
        ((evictCollect moment inner).2 ++ (evictCollect moment inner).1.sessions) ∧
      PrunedOf inner.msgIndex (evictCollect moment inner).1.msgIndex
        (evictCollect moment inner).2 := by
  obtain ⟨hkeyed, hperm, hindex⟩ := demote_spec moment inner.l0.len hi
  obtain ⟨hkeyed', left, hleft, hperm', hpruned⟩ :=
    expel_spec moment (demote moment inner.l0.len inner).l1.len [] hkeyed
  rw [List.nil_append] at hleft
  rw [evictCollect]
  refine ⟨hkeyed', ?_, ?_⟩
  · rw [hleft]
    exact hperm.symm.trans hperm'
  · rw [hleft]
    rwa [hindex] at hpruned

/-! ## Taking a message in -/

/-- A store stays `Keyed` when a session that is not in memory yet becomes active. -/
theorem keyed_insertL0 (hi : Keyed inner) (hnew : ∀ s' ∈ inner.sessions, s'.sessionId ≠ s.sessionId)
    (index : HashMap Int Str) :
    Keyed { inner with l0 := inner.l0.insert s.sessionId s, msgIndex := index } ∧
      ({ inner with l0 := inner.l0.insert s.sessionId s, msgIndex := index } : Inner).sessions
        = s :: inner.sessions := by
  have hl0 : inner.l0.get s.sessionId = none := by
    rw [Option.eq_none_iff_forall_ne_some]
    intro s' h'
    exact hnew s' (mem_sessions_of_l0 h') (hi.of_l0 h')
  have hsessions : ({ inner with l0 := inner.l0.insert s.sessionId s, msgIndex := index } :
      Inner).sessions = s :: inner.sessions := by
    rw [sessions, HashMap.values_insert_of_get_eq_none hl0]
    rfl
  refine ⟨⟨fun {k s'} h => ?_, hi.of_l1, ?_⟩, hsessions⟩
  · rw [HashMap.get_insert] at h
    split_ifs at h with hk
    · rw [hk, Option.some_inj.mp h]
    · exact hi.of_l0 h
  · rw [hsessions, List.map_cons, List.nodup_cons]
    refine ⟨fun hmem => ?_, hi.nodup⟩
    obtain ⟨s', hs', heq⟩ := List.mem_map.mp hmem
    exact hnew s' hs' heq

variable {msg : MsgRef}

variable (moment) in
/-- `create` puts a new session into L0, with the message indexed to it. -/
theorem create_spec (hi : Keyed inner) (hnew : ∀ s ∈ inner.sessions, s.sessionId ≠ msg.sessionId) :
    Keyed (create moment msg inner) ∧
      (create moment msg inner).sessions = Session.new moment.now msg.chatId msg :: inner.sessions ∧
      (create moment msg inner).msgIndex = inner.msgIndex.insert msg.msgId msg.sessionId := by
  obtain ⟨hkeyed, hsessions⟩ := keyed_insertL0 (s := Session.new moment.now msg.chatId msg) hi hnew
    (inner.msgIndex.insert msg.msgId msg.sessionId)
  exact ⟨hkeyed, hsessions, rfl⟩

/-- Indexing the messages of a session by `index` changes nothing else. -/
theorem foldl_index (messages : List MsgRef) :
    messages.foldl (fun inner m => inner.index m.msgId sid) inner = { inner with
      msgIndex := messages.foldl (fun index m => index.insert m.msgId sid) inner.msgIndex } := by
  induction messages generalizing inner with
  | nil => rfl
  | cons m messages ih => rw [List.foldl_cons, ih]; rfl

/-- Indexing the messages of a session `sid` leads from each of them to `sid`, and leaves every
other entry of the `index`. -/
theorem get_foldl_insert (messages : List MsgRef) (index : HashMap Int Str) (msgId : Int) :
    (messages.foldl (fun index m => index.insert m.msgId sid) index).get msgId
      = if msgId ∈ messages.map MsgRef.msgId then some sid else index.get msgId := by
  induction messages generalizing index with
  | nil => rfl
  | cons m messages ih =>
    rw [List.foldl_cons, ih, HashMap.get_insert]
    by_cases hm : msgId = m.msgId <;> simp [hm]

variable (moment msg) in
/-- `restore` makes a session active with the message in it, and all of its messages are indexed to
it. -/
theorem restore_spec (hi : Keyed inner) (hnew : ∀ s' ∈ inner.sessions, s'.sessionId ≠ s.sessionId) :
    Keyed (restore moment msg s inner) ∧
      (restore moment msg s inner).sessions = s.addMessage moment.now msg :: inner.sessions ∧
      ∀ msgId, (restore moment msg s inner).msgIndex.get msgId
        = if msgId ∈ (s.addMessage moment.now msg).msgIds then some s.sessionId
          else inner.msgIndex.get msgId := by
  rw [restore, foldl_index]
  obtain ⟨hkeyed, hsessions⟩ := keyed_insertL0 (s := s.addMessage moment.now msg) hi hnew
    ((s.messages.foldl (fun index m => index.insert m.msgId s.sessionId) inner.msgIndex).insert
      msg.msgId s.sessionId)
  refine ⟨hkeyed, hsessions, fun msgId => ?_⟩
  show HashMap.get (HashMap.insert _ msg.msgId s.sessionId) msgId = _
  rw [HashMap.get_insert, get_foldl_insert]
  rw [Session.msgIds_addMessage]
  by_cases hmsg : msgId = msg.msgId <;> simp [Session.msgIds, hmsg]

/-- `join` of a message with a session makes this active. -/
theorem join_eq (hi : Keyed inner) (hs : s ∈ inner.sessions) :
    join moment msg s.sessionId inner = { inner with
      l0 := inner.l0.insert s.sessionId (s.addMessage moment.now msg)
      l1 := inner.l1.remove s.sessionId
      msgIndex := inner.msgIndex.insert msg.msgId s.sessionId } := by
  rcases hi.get_of_mem hs with h0 | h1
  · -- The session is active, so it is not in L1.
    have hfind : inner.findSessionMut s.sessionId = some (s, 0) :=
      hi.findSessionMut_eq_some_iff.mpr (.inl ⟨h0, rfl⟩)
    rw [HashMap.remove_of_get_eq_none (hi.l1_eq_none_of_l0 h0), join, hfind]
    rfl
  · -- The session is inactive and promoted after the message has joined.
    have hfind : inner.findSessionMut s.sessionId = some (s, 1) :=
      hi.findSessionMut_eq_some_iff.mpr (.inr ⟨h1, rfl⟩)
    rw [join, hfind]
    simp only [assign, promoteToL0, index, HashMap.get_insert_self, HashMap.remove_insert,
      Nat.one_ne_zero, if_false, gt_iff_lt, Nat.zero_lt_one, decide_true, if_true]

/-- The sessions in memory are, up to the order, the session `s` and those that stay in L0 and L1
when `s.sessionId` is removed. -/
theorem perm_sessions_of_mem (hi : Keyed inner) (hs : s ∈ inner.sessions) :
    inner.sessions.Perm (s :: ((inner.l0.remove s.sessionId).values
      ++ (inner.l1.remove s.sessionId).values)) := by
  rcases hi.get_of_mem hs with h0 | h1
  · rw [HashMap.remove_of_get_eq_none (hi.l1_eq_none_of_l0 h0)]
    exact (HashMap.perm_values_of_get h0).append_right _
  · rw [HashMap.remove_of_get_eq_none (hi.l0_eq_none_of_l1 h1)]
    exact ((HashMap.perm_values_of_get h1).append_left _).trans List.perm_middle

variable (moment msg) in
/-- `join` adds the message to the session in memory that has the id, and it is indexed to it. -/
theorem join_spec (hi : Keyed inner) (hs : s ∈ inner.sessions) :
    Keyed (join moment msg s.sessionId inner) ∧
      (∃ others, inner.sessions.Perm (s :: others) ∧
        (join moment msg s.sessionId inner).sessions
          = s.addMessage moment.now msg :: others) ∧
      (join moment msg s.sessionId inner).msgIndex
        = inner.msgIndex.insert msg.msgId s.sessionId := by
  rw [join_eq hi hs]
  have hperm := perm_sessions_of_mem hi hs
  refine ⟨⟨fun {k s'} h => ?_, fun h => hi.of_l1 (HashMap.get_of_get_remove h).2, ?_⟩,
    ⟨_, hperm, rfl⟩, rfl⟩
  · simp only [HashMap.get_insert] at h
    split_ifs at h with hk
    · rw [hk, ← Option.some_inj.mp h]
      rfl
    · exact hi.of_l0 h
  · exact (hperm.map _).nodup_iff.mp hi.nodup

end Inner

end LogosFs.Sessions
