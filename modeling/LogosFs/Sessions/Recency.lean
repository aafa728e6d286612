import LogosFs.Sessions.Sound

/-! # The order of recency

L0 and L1 are two parts of one list of the sessions in memory, the most recently active first: L0 has
as many of them as it may, L1 the rest, and what leaves memory is older than all that stays
(`update_lru`). The tiers are looked at one at a time, so that this holds rests on `Recent`: whatever
is in L0 is newer than whatever is in L1, and L0 is full if there is anything in L1. -/

namespace LogosFs.Sessions

namespace Inner

/-- The layers are those of one list of sessions by recency. -/
structure Lru (inner : Inner) : Prop where
  /-- No two sessions were active at the same time. -/
  sorted : (newestFirst Session.lastActive inner.sessions).Pairwise fun s s' =>
    s'.lastActive < s.lastActive
  /-- L0 has the most recent ones. -/
  l0 : inner.l0.values.Perm
    ((newestFirst Session.lastActive inner.sessions).take inner.l0Capacity)
  /-- L1 has the others. -/
  l1 : inner.l1.values.Perm
    ((newestFirst Session.lastActive inner.sessions).drop inner.l0Capacity)
  /-- They are not too many. -/
  bounded : inner.l1.len ≤ inner.l1Capacity

/-- The order of recency, also while L0 and L1 have more sessions than they may. -/
structure Recent (inner : Inner) : Prop where
  /-- No two sessions were active at the same time. -/
  distinct : (inner.sessions.map Session.lastActive).Nodup
  /-- Active sessions are newer than inactive ones. -/
  newer : ∀ s ∈ inner.l0.values, ∀ s' ∈ inner.l1.values, s'.lastActive < s.lastActive
  /-- There are inactive sessions only if L0 is full. -/
  full : inner.l1.values ≠ [] → inner.l0Capacity ≤ inner.l0.len

/-- All sessions in memory were last active before some time. -/
def Before (now : DateTime) (inner : Inner) : Prop := ∀ s ∈ inner.sessions, s.lastActive < now

/-- A new store is `Recent`. -/
theorem recent_new (l0Capacity l1Capacity : Nat) : Recent (.new l0Capacity l1Capacity) :=
  ⟨List.nodup_nil, fun _ h => (nomatch h), fun h => absurd rfl h⟩

variable {inner inner' : Inner} {s : Session} {key : Str} {moment : Moment}

/-- The layers are those of one list, `Lru`, once both are within their capacities. -/
theorem Recent.lru (h : Recent inner) (hl0 : inner.l0.len ≤ inner.l0Capacity)
    (hl1 : inner.l1.len ≤ inner.l1Capacity) : Lru inner := by
  have hlength : inner.l0.len = inner.l0.values.length := by
    rw [HashMap.len, HashMap.values, List.length_map]
  rw [hlength] at hl0
  obtain ⟨htake, hdrop⟩ := perm_take_drop_newestFirst h.newer h.distinct hl0
    fun hne => hlength ▸ h.full hne
  exact ⟨pairwise_newestFirst h.distinct, htake, hdrop, hl1⟩

/-! ## Placing a message -/

/-- A session becomes the newest one: it is active now, and no longer inactive. -/
structure Placed (now : DateTime) (inner : Inner) (s : Session) (inner' : Inner) : Prop where
  /-- It is active. -/
  l0 : inner'.l0 = inner.l0.insert s.sessionId s
  /-- It has been inactive before, or no inactive session changes. -/
  l1 : inner'.l1 = inner.l1 ∨ inner'.l1 = inner.l1.remove s.sessionId
  /-- The capacities stay the same. -/
  l0Capacity : inner'.l0Capacity = inner.l0Capacity
  /-- The capacities stay the same. -/
  l1Capacity : inner'.l1Capacity = inner.l1Capacity
  /-- It is active now. -/
  lastActive : s.lastActive = now

namespace Placed

variable {now : DateTime}

/-- After `Placed` the others are those that were there under other ids, as far as they are active.
-/
theorem exists_others (h : Placed now inner s inner') : ∃ others,
    inner'.sessions = s :: others ∧ others.Sublist inner.sessions ∧ inner'.l0.values
      = s :: (inner.l0.remove s.sessionId).values ∧ inner'.l1.values ⊆ inner.l1.values := by
  have hl1 : inner'.l1.values.Sublist inner.l1.values := by
    rcases h.l1 with hl1 | hl1 <;> rw [hl1]
    exact HashMap.values_remove_sublist _ _
  have hl0 : inner'.l0.values = s :: (inner.l0.remove s.sessionId).values := by
    rw [h.l0, HashMap.values_insert]
  refine ⟨(inner.l0.remove s.sessionId).values ++ inner'.l1.values, ?_, ?_, hl0, hl1.subset⟩
  · rw [sessions, hl0, List.cons_append]
  · exact (HashMap.values_remove_sublist _ _).append hl1

/-- `Placed` keeps a store `Recent` when the session is newer than everything. -/
theorem recent (h : Placed now inner s inner') (hrecent : Recent inner) (hnow : Before now inner) :
    Recent inner' := by
  obtain ⟨others, hsessions, hothers, hl0, hl1⟩ := h.exists_others
  refine ⟨?_, fun s₀ hs₀ s₁ hs₁ => ?_, fun hne => ?_⟩
  · rw [hsessions, List.map_cons, List.nodup_cons, h.lastActive]
    refine ⟨fun hmem => ?_, hrecent.distinct.sublist (hothers.map _)⟩
    obtain ⟨s', hs', heq⟩ := List.mem_map.mp hmem
    exact (hnow s' (hothers.subset hs')).ne heq
  · rw [hl0] at hs₀
    rcases List.mem_cons.mp hs₀ with rfl | hs₀
    · rw [h.lastActive]
      exact hnow s₁ (List.mem_append_right _ (hl1 hs₁))
    · exact hrecent.newer s₀ ((HashMap.values_remove_sublist _ _).subset hs₀) s₁ (hl1 hs₁)
  · have hfull : inner.l0Capacity ≤ inner.l0.len := hrecent.full fun hnil => hne (by
      rw [hnil] at hl1
      exact List.eq_nil_of_subset_nil hl1)
    rw [h.l0Capacity, h.l0]
    exact hfull.trans (HashMap.len_le_len_insert _ _ _)

/-- After `Placed` a later time is after all sessions. -/
theorem before (h : Placed now inner s inner') (hnow : Before now inner) {later : DateTime}
    (hlater : now < later) : Before later inner' := by
  obtain ⟨others, hsessions, hothers, -⟩ := h.exists_others
  intro s' hs'
  rw [hsessions] at hs'
  rcases List.mem_cons.mp hs' with rfl | hs'
  · rw [h.lastActive]
    exact hlater
  · exact (hnow s' (hothers.subset hs')).trans hlater

end Placed

/-! ## Evicting -/

/-- Of some sessions the more recent ones are left: one that is the newest under its id stays as long
as any stays that is not newer. -/
def KeepsRecent (before after : List Session) : Prop :=
  after ⊆ before ∧ ∀ s ∈ before,
    (∀ s' ∈ before, s'.sessionId = s.sessionId → s'.lastActive ≤ s.lastActive) →
      ∀ s' ∈ after, s'.lastActive ≤ s.lastActive → s ∈ after

/-- `KeepsRecent` is reflexive. -/
theorem KeepsRecent.refl (before : List Session) : KeepsRecent before before :=
  ⟨fun _ h => h, fun _ hs _ _ _ _ => hs⟩

/-- `KeepsRecent` is transitive. -/
theorem KeepsRecent.trans {before middle after : List Session} (h : KeepsRecent before middle)
    (h' : KeepsRecent middle after) : KeepsRecent before after := by
  refine ⟨fun s hs => h.1 (h'.1 hs), fun s hs hnewest s' hs' hle => ?_⟩
  have hmiddle := h.2 s hs hnewest s' (h'.1 hs') hle
  exact h'.2 s hmiddle (fun s'' hs'' heq => hnewest s'' (h.1 hs'') heq) s' hs' hle

/-- Sessions are under their own ids, and the index leads to sessions in memory. -/
structure Named (inner : Inner) : Prop where
  /-- An active session is under its id. -/
  of_l0 : ∀ {k s}, inner.l0.get k = some s → s.sessionId = k
  /-- An inactive session is under its id. -/
  of_l1 : ∀ {k s}, inner.l1.get k = some s → s.sessionId = k
  /-- What the index gives is in memory. -/
  indexed : ∀ {msgId sid}, inner.msgIndex.get msgId = some sid →
    ∃ s ∈ inner.sessions, s.sessionId = sid

/-- A new store is `Named`. -/
theorem named_new (l0Capacity l1Capacity : Nat) : Named (.new l0Capacity l1Capacity) :=
  ⟨fun h => (nomatch h), fun h => (nomatch h), fun h => (nomatch h)⟩

/-- The key that `oldest` chooses has a session that is older than all others. -/
theorem oldest_spec {m : HashMap Str Session} (hdistinct : (m.values.map Session.lastActive).Nodup)
    (h : oldest moment m = some key) : ∃ s, m.get key = some s ∧
      ∀ s' ∈ (m.remove key).values, s.lastActive < s'.lastActive := by
  obtain ⟨s, hs, hmin⟩ := moment.iteration.exists_of_minByKey h
  refine ⟨s, hs, fun s' hs' => lt_of_le_of_ne ?_ fun heq => ?_⟩
  · exact hmin s' ((HashMap.values_remove_sublist m key).subset hs')
  · have hnodup := ((HashMap.perm_values_of_get hs).map Session.lastActive).nodup_iff.mp hdistinct
    rw [List.map_cons, List.nodup_cons] at hnodup
    exact hnodup.1 (List.mem_map.mpr ⟨s', hs', heq.symm⟩)

/-- What evicting leaves of the sessions in memory. -/
structure Shrinks (before after : Inner) : Prop where
  /-- The order of recency. -/
  recent : Recent after
  /-- Sessions are under their own ids. -/
  named : Named after
  /-- The more recent sessions are left. -/
  keeps : KeepsRecent before.sessions after.sessions
  /-- No message is indexed anew. -/
  index : ∀ {msgId sid}, after.msgIndex.get msgId = some sid →
    before.msgIndex.get msgId = some sid
  /-- L0 does not grow. -/
  l0 : after.l0.len ≤ before.l0.len
  /-- The capacities stay the same. -/
  l0Capacity : after.l0Capacity = before.l0Capacity
  /-- The capacities stay the same. -/
  l1Capacity : after.l1Capacity = before.l1Capacity

namespace Shrinks

/-- A store that is `Recent` and `Named` shrinks to itself. -/
theorem refl (h : Recent inner) (hnamed : Named inner) : Shrinks inner inner :=
  ⟨h, hnamed, .refl _, fun h => h, le_refl _, rfl, rfl⟩

/-- `Shrinks` is transitive. -/
theorem trans {middle after : Inner} (h : Shrinks inner middle) (h' : Shrinks middle after) :
    Shrinks inner after where
  recent := h'.recent
  named := h'.named
  keeps := h.keeps.trans h'.keeps
  index hget := h.index (h'.index hget)
  l0 := h'.l0.trans h.l0
  l0Capacity := h'.l0Capacity.trans h.l0Capacity
  l1Capacity := h'.l1Capacity.trans h.l1Capacity

/-- One round of `demote`: the oldest active session becomes inactive, and the store `Shrinks`. -/
theorem demoteOne (h : Recent inner) (hnamed : Named inner)
    (hover : inner.l0Capacity < inner.l0.len) (hs : inner.l0.get key = some s)
    (holdest : ∀ s' ∈ (inner.l0.remove key).values, s.lastActive < s'.lastActive) :
    Shrinks inner { inner with l0 := inner.l0.remove key, l1 := inner.l1.insert key s } := by
  have hl0 := HashMap.perm_values_of_get hs
  have hlen := HashMap.len_of_get hs
  have hmem : s ∈ inner.l0.values := hl0.mem_iff.mpr List.mem_cons_self
  have hl1 : (inner.l1.insert key s).values = s :: (inner.l1.remove key).values :=
    HashMap.values_insert
  have hperm : ((inner.l0.remove key).values ++ (inner.l1.insert key s).values).Perm
      ((s :: (inner.l0.remove key).values) ++ (inner.l1.remove key).values) := by
    rw [hl1]
    exact List.perm_middle
  have hsublist := HashMap.values_remove_sublist inner.l1 key
  -- Only an inactive session under the key of the active one can disappear.
  have hstays : ∀ s₀ ∈ inner.sessions,
      s₀ ∈ (inner.l0.remove key).values ++ (inner.l1.insert key s).values ∨
        inner.l1.get key = some s₀ := by
    intro s₀ hs₀
    rcases List.mem_append.mp hs₀ with hs₀ | hs₀
    · exact .inl (hperm.mem_iff.mpr (List.mem_append_left _ (hl0.mem_iff.mp hs₀)))
    · obtain ⟨k, hk⟩ := HashMap.mem_values_iff.mp hs₀
      by_cases heq : k = key
      · exact .inr (heq ▸ hk)
      · refine .inl (hperm.mem_iff.mpr (List.mem_append_right _ ?_))
        refine HashMap.mem_values_of_get (k := k) ?_
        rw [HashMap.get_remove, if_neg heq]
        exact hk
  refine ⟨⟨?_, fun s₀ hs₀ s₁ hs₁ => ?_, fun _ => ?_⟩, ⟨fun hk => ?_, fun {k s'} hk => ?_,
    fun {msgId sid} hget => ?_⟩, ⟨fun s' hs' => ?_, fun s₀ hs₀ hnewest s' _ _ => ?_⟩,
    fun hget => hget, ?_, rfl, rfl⟩
  · show (((inner.l0.remove key).values ++ (inner.l1.insert key s).values).map
      Session.lastActive).Nodup
    rw [(hperm.map _).nodup_iff]
    have hall : (((s :: (inner.l0.remove key).values) ++ inner.l1.values).map
        Session.lastActive).Nodup := ((hl0.append_right _).map _).nodup_iff.mp h.distinct
    exact hall.sublist ((hsublist.append_left _).map _)
  · change s₁ ∈ (inner.l1.insert key s).values at hs₁
    rw [hl1] at hs₁
    rcases List.mem_cons.mp hs₁ with rfl | hs₁
    · exact holdest s₀ hs₀
    · exact h.newer s₀ ((HashMap.values_remove_sublist _ _).subset hs₀) s₁ (hsublist.subset hs₁)
  · show inner.l0Capacity ≤ (inner.l0.remove key).len
    omega
  · exact hnamed.of_l0 (HashMap.get_of_get_remove hk).2
  · change (inner.l1.insert key s).get k = some s' at hk
    rw [HashMap.get_insert] at hk
    split_ifs at hk with heq
    · rw [heq, ← Option.some_inj.mp hk]
      exact hnamed.of_l0 hs
    · exact hnamed.of_l1 hk
  · obtain ⟨s₀, hs₀, hsid⟩ := hnamed.indexed hget
    rcases hstays s₀ hs₀ with hs₀ | hkey
    · exact ⟨s₀, hs₀, hsid⟩
    · refine ⟨s, hperm.mem_iff.mpr (List.mem_append_left _ List.mem_cons_self), ?_⟩
      rw [← hsid, hnamed.of_l0 hs, hnamed.of_l1 hkey]
  · rcases List.mem_append.mp (hperm.mem_iff.mp hs') with hs' | hs'
    · exact List.mem_append_left _ (hl0.mem_iff.mpr hs')
    · exact List.mem_append_right _ (hsublist.subset hs')
  · rcases hstays s₀ hs₀ with hs₀ | hkey
    · exact hs₀
    · -- It would be older than the active session that takes its place.
      have hle := hnewest s (List.mem_append_left _ hmem)
        ((hnamed.of_l0 hs).trans (hnamed.of_l1 hkey).symm)
      exact absurd (h.newer s hmem s₀ (HashMap.mem_values_of_get hkey)) hle.not_gt
  · show (inner.l0.remove key).len ≤ inner.l0.len
    omega

variable (moment) in
/-- `demote` leaves a store that `Shrinks` the one before. -/
theorem demote (fuel : Nat) (h : Recent inner) (hnamed : Named inner) :
    Shrinks inner (Inner.demote moment fuel inner) := by
  induction fuel generalizing inner with
  | zero => exact .refl h hnamed
  | succ fuel ih =>
    rw [Inner.demote]
    split
    · rename_i hover
      cases hkey : oldest moment inner.l0 with
      | none => exact .refl h hnamed
      | some key =>
        have hdistinct : (inner.l0.values.map Session.lastActive).Nodup :=
          h.distinct.sublist ((List.sublist_append_left _ _).map _)
        obtain ⟨s, hs, holdest⟩ := oldest_spec hdistinct hkey
        simp only [hs]
        have hone := demoteOne h hnamed hover hs holdest
        exact hone.trans (ih hone.recent hone.named)
    · exact .refl h hnamed

/-- One round of `expel`: the oldest inactive session leaves memory, and the store `Shrinks`. -/
theorem expelOne (h : Recent inner) (hnamed : Named inner) (hs : inner.l1.get key = some s)
    (holdest : ∀ s' ∈ (inner.l1.remove key).values, s.lastActive < s'.lastActive) :
    Shrinks inner { inner with
        l1 := inner.l1.remove key
        msgIndex := inner.msgIndex.retain fun sid => sid != key } ∧
      ∀ s' ∈ inner.l0.values ++ (inner.l1.remove key).values, s.lastActive < s'.lastActive := by
  have hl1 := HashMap.perm_values_of_get hs
  have hmem : s ∈ inner.l1.values := hl1.mem_iff.mpr List.mem_cons_self
  have hsublist := HashMap.values_remove_sublist inner.l1 key
  have holder : ∀ s' ∈ inner.l0.values ++ (inner.l1.remove key).values,
      s.lastActive < s'.lastActive := by
    intro s' hs'
    rcases List.mem_append.mp hs' with hs' | hs'
    · exact h.newer s' hs' s hmem
    · exact holdest s' hs'
  -- Every session is the oldest one or stays.
  have hstays : ∀ s₀ ∈ inner.sessions,
      s₀ = s ∨ s₀ ∈ inner.l0.values ++ (inner.l1.remove key).values := by
    intro s₀ hs₀
    rcases List.mem_append.mp hs₀ with hs₀ | hs₀
    · exact .inr (List.mem_append_left _ hs₀)
    · exact (List.mem_cons.mp (hl1.mem_iff.mp hs₀)).imp_right (List.mem_append_right _)
  refine ⟨⟨⟨?_, fun s₀ hs₀ s₁ hs₁ => ?_, fun hne => ?_⟩, ⟨hnamed.of_l0, fun hk => ?_,
    fun {msgId sid} hget => ?_⟩, ⟨?_, fun s₀ hs₀ _ s' hs' hle => ?_⟩, fun {msgId sid} hget => ?_,
    le_refl _, rfl, rfl⟩, holder⟩
  · exact h.distinct.sublist ((hsublist.append_left _).map _)
  · exact h.newer s₀ hs₀ s₁ (hsublist.subset hs₁)
  · refine h.full fun hnil => ?_
    rw [hnil] at hmem
    cases hmem
  · exact hnamed.of_l1 (HashMap.get_of_get_remove hk).2
  · change (inner.msgIndex.retain fun sid => sid != key).get msgId = some sid at hget
    rw [HashMap.get_retain, Option.filter_eq_some_iff, bne_iff_ne] at hget
    obtain ⟨s₀, hs₀, hsid⟩ := hnamed.indexed hget.1
    rcases hstays s₀ hs₀ with rfl | hs₀
    · exact absurd (hsid.symm.trans (hnamed.of_l1 hs)) hget.2
    · exact ⟨s₀, hs₀, hsid⟩
  · exact (hsublist.append_left _).subset
  · rcases hstays s₀ hs₀ with rfl | hs₀
    · exact absurd (holder s' hs') hle.not_gt
    · exact hs₀
  · change (inner.msgIndex.retain fun sid => sid != key).get msgId = some sid at hget
    rw [HashMap.get_retain, Option.filter_eq_some_iff] at hget
    exact hget.1

variable (moment) in
/-- `expel`: whatever leaves is older than all that stays, and the store `Shrinks`. -/
theorem expel (fuel : Nat) (evicted : List Session) (h : Recent inner) (hnamed : Named inner)
    (holder : ∀ g ∈ evicted, ∀ s ∈ inner.sessions, g.lastActive < s.lastActive) :
    Shrinks inner (Inner.expel moment fuel inner evicted).1 ∧
      (Inner.expel moment fuel inner evicted).2 ⊆ evicted ++ inner.sessions ∧
      ∀ g ∈ (Inner.expel moment fuel inner evicted).2,
        ∀ s ∈ (Inner.expel moment fuel inner evicted).1.sessions, g.lastActive < s.lastActive := by
  have hstop : Shrinks inner inner ∧ evicted ⊆ evicted ++ inner.sessions ∧
      ∀ g ∈ evicted, ∀ s ∈ inner.sessions, g.lastActive < s.lastActive :=
    ⟨.refl h hnamed, List.subset_append_left _ _, holder⟩
  induction fuel generalizing inner evicted with
  | zero => exact hstop
  | succ fuel ih =>
    rw [Inner.expel]
    split
    · cases hkey : oldest moment inner.l1 with
      | none => exact hstop
      | some key =>
        have hdistinct : (inner.l1.values.map Session.lastActive).Nodup :=
          h.distinct.sublist ((List.sublist_append_right _ _).map _)
        obtain ⟨s, hs, holdest⟩ := oldest_spec hdistinct hkey
        simp only [hs]
        -- One session leaves, older than all that stay, and then the others do.
        obtain ⟨hone, hleft⟩ := expelOne h hnamed hs holdest
        have holder' : ∀ g ∈ evicted ++ [s], ∀ s' ∈ inner.l0.values ++ (inner.l1.remove key).values,
            g.lastActive < s'.lastActive := by
          intro g hg s' hs'
          rcases List.mem_append.mp hg with hg | hg
          · exact holder g hg s' (hone.keeps.1 hs')
          · rw [List.mem_singleton.mp hg]
            exact hleft s' hs'
        obtain ⟨hrest, hfrom, hleft'⟩ := ih (evicted ++ [s]) hone.recent hone.named holder'
          ⟨.refl hone.recent hone.named, List.subset_append_left _ _, holder'⟩
        refine ⟨hone.trans hrest, fun g hg => ?_, hleft'⟩
        rcases List.mem_append.mp (hfrom hg) with hg | hg
        · rcases List.mem_append.mp hg with hg | hg
          · exact List.mem_append_left _ hg
          · rw [List.mem_singleton.mp hg]
            exact List.mem_append_right _ (mem_sessions_of_l1 hs)
        · exact List.mem_append_right _ (hone.keeps.1 hg)
    · exact hstop

end Shrinks

variable (moment) in
/-- `expel` ends with L1 within its capacity. -/
theorem expel_len (fuel : Nat) (evicted : List Session) (hfuel : inner.l1.len ≤ fuel) :
    (expel moment fuel inner evicted).1.l1.len ≤ inner.l1Capacity := by
  induction fuel generalizing inner evicted with
  | zero => exact Nat.le_trans hfuel (Nat.zero_le _)
  | succ fuel ih =>
    rw [expel]
    split
    · rename_i hover
      have hne : oldest moment inner.l1 ≠ none := by
        intro h
        have hlen := (moment.iteration.minByKey_eq_none_iff).mp h
        omega
      obtain ⟨key, hkey⟩ := Option.ne_none_iff_exists'.mp hne
      obtain ⟨s, hs⟩ := exists_of_oldest hkey
      simp only [hkey, hs]
      have hlen := HashMap.len_of_get hs
      have hfewer : (inner.l1.remove key).len ≤ fuel := by omega
      exact ih (evicted ++ [s]) hfewer
    · rename_i hwithin
      exact Nat.le_of_not_lt hwithin

variable (moment) in
/-- **Eviction** by `evictCollect` leaves the layers of one list, `Lru`: the more recent sessions
are left, and what leaves is older than all of them. -/
theorem evictCollect_lru (h : Recent inner) (hnamed : Named inner) :
    Shrinks inner (evictCollect moment inner).1 ∧ Lru (evictCollect moment inner).1 ∧
      (evictCollect moment inner).2 ⊆ inner.sessions ∧
      ∀ g ∈ (evictCollect moment inner).2, ∀ s ∈ (evictCollect moment inner).1.sessions,
        g.lastActive < s.lastActive := by
  have hdemote := Shrinks.demote moment inner.l0.len h hnamed
  have hl0 : (demote moment inner.l0.len inner).l0.len ≤ inner.l0Capacity :=
    demote_len inner.l0.len (le_refl inner.l0.len)
  unfold evictCollect
  generalize demote moment inner.l0.len inner = middle at *
  obtain ⟨hexpel, hfrom, holder⟩ := Shrinks.expel moment middle.l1.len [] hdemote.recent hdemote.named
    fun g hg => nomatch hg
  have hl1 := expel_len moment middle.l1.len [] (le_refl middle.l1.len)
  have hboth := hdemote.trans hexpel
  refine ⟨hboth, hboth.recent.lru ?_ ?_, fun g hg => hdemote.keeps.1 (hfrom hg), holder⟩
  · rw [hboth.l0Capacity]
    exact hexpel.l0.trans hl0
  · rwa [hexpel.l1Capacity]

/-! ## Where a message is put -/

/-- Where the session comes from that a message is put into. -/
inductive Source (moment : Moment) (msg : MsgRef) (inner : Inner) (restored : Option Session) :
    Session → Prop where
  /-- The message opens it. -/
  | opened : Source moment msg inner restored (.new moment.now msg.chatId msg)
  /-- The message replies to one that is indexed to it. -/
  | joined {r : Int} {old : Session} (hreply : msg.replyTo = some r)
      (hindex : inner.msgIndex.get r = some old.sessionId) (hold : old ∈ inner.sessions) :
      Source moment msg inner restored (old.addMessage moment.now msg)
  /-- It has been in L2. -/
  | restored {old : Session} (hrestored : restored = some old) :
      Source moment msg inner restored (old.addMessage moment.now msg)

namespace Placed

variable {now : DateTime}

/-- After `Placed` a session under another id is where it was. -/
theorem mem_of_ne (h : Placed now inner s inner') (hnamed : Named inner) {s₀ : Session}
    (hs₀ : s₀ ∈ inner.sessions) (hne : s₀.sessionId ≠ s.sessionId) : s₀ ∈ inner'.sessions := by
  rcases List.mem_append.mp hs₀ with hs₀ | hs₀ <;> obtain ⟨k, hk⟩ := HashMap.mem_values_iff.mp hs₀
  · have hkey : k ≠ s.sessionId := fun hkey => hne ((hnamed.of_l0 hk).trans hkey)
    refine @mem_sessions_of_l0 _ _ k ?_
    rw [h.l0, HashMap.get_insert, if_neg hkey]
    exact hk
  · have hkey : k ≠ s.sessionId := fun hkey => hne ((hnamed.of_l1 hk).trans hkey)
    refine @mem_sessions_of_l1 _ _ k ?_
    rcases h.l1 with hl1 | hl1 <;> rw [hl1]
    · exact hk
    · rw [HashMap.get_remove, if_neg hkey]
      exact hk

/-- After `Placed` sessions are under their own ids: `Named`. -/
theorem named (h : Placed now inner s inner') (hnamed : Named inner)
    (hindex : ∀ {msgId sid}, inner'.msgIndex.get msgId = some sid →
      inner.msgIndex.get msgId = some sid ∨ sid = s.sessionId ∧ msgId ∈ s.msgIds) :
    Named inner' := by
  have hmem : s ∈ inner'.sessions := by
    refine @mem_sessions_of_l0 _ _ s.sessionId ?_
    rw [h.l0, HashMap.get_insert_self]
  refine ⟨fun {k s'} hk => ?_, fun {k s'} hk => ?_, fun {msgId sid} hget => ?_⟩
  · rw [h.l0, HashMap.get_insert] at hk
    split_ifs at hk with heq
    · rw [heq, Option.some_inj.mp hk]
    · exact hnamed.of_l0 hk
  · rcases h.l1 with hl1 | hl1 <;> rw [hl1] at hk
    · exact hnamed.of_l1 hk
    · exact hnamed.of_l1 (HashMap.get_of_get_remove hk).2
  · rcases hindex hget with hold | ⟨rfl, -⟩
    · obtain ⟨s₀, hs₀, hsid⟩ := hnamed.indexed hold
      by_cases heq : s₀.sessionId = s.sessionId
      · exact ⟨s, hmem, heq.symm.trans hsid⟩
      · exact ⟨s₀, h.mem_of_ne hnamed hs₀ heq, hsid⟩
    · exact ⟨s, hmem, rfl⟩

end Placed

variable {msg : MsgRef} {pageFaultSession semanticMatch : Option Session}

variable (moment msg pageFaultSession semanticMatch) in
/-- **Placing** a message by `place` makes its session the newest one: `Placed`. -/
theorem place_spec (hnamed : Named inner) : ∃ s,
    Placed moment.now inner s (place moment msg pageFaultSession semanticMatch inner) ∧
      Source moment msg inner (restored msg pageFaultSession semanticMatch) s ∧
      ∀ {msgId sid}, (place moment msg pageFaultSession semanticMatch inner).msgIndex.get msgId
          = some sid →
        inner.msgIndex.get msgId = some sid ∨ sid = s.sessionId ∧ msgId ∈ s.msgIds := by
  -- One more message is indexed.
  have hone : ∀ (index : HashMap Int Str) (key : Str) {msgId sid},
      (index.insert msg.msgId key).get msgId = some sid →
        index.get msgId = some sid ∨ sid = key ∧ msgId = msg.msgId := by
    intro index key msgId sid hget
    rw [HashMap.get_insert] at hget
    split_ifs at hget with hid
    · exact .inr ⟨(Option.some_inj.mp hget).symm, hid⟩
    · exact .inl hget
  unfold place
  cases hrestored : restored msg pageFaultSession semanticMatch with
  | some old =>
    refine ⟨old.addMessage moment.now msg, ?_, .restored rfl, fun {msgId sid} hget => ?_⟩
    · dsimp only
      rw [restore, foldl_index]
      exact ⟨rfl, .inl rfl, rfl, rfl, rfl⟩
    · dsimp only at hget
      rw [restore, foldl_index] at hget
      rcases hone _ _ hget with hget | ⟨rfl, rfl⟩
      · rw [get_foldl_insert] at hget
        split_ifs at hget with hid
        · refine .inr ⟨(Option.some_inj.mp hget).symm, ?_⟩
          rw [Session.msgIds_addMessage]
          exact List.mem_append_left _ hid
        · exact .inl hget
      · exact .inr ⟨rfl, by simp⟩
  | none =>
    dsimp only
    cases hindex : msg.replyTo.bind inner.msgIndex.get with
    | none =>
      refine ⟨.new moment.now msg.chatId msg, ⟨rfl, .inl rfl, rfl, rfl, rfl⟩, .opened,
        fun {msgId sid} hget => ?_⟩
      rcases hone _ _ hget with hget | ⟨rfl, rfl⟩
      · exact .inl hget
      · exact .inr ⟨rfl, by simp⟩
    | some sid =>
      obtain ⟨r, hreply, hindex⟩ := Option.bind_eq_some_iff.mp hindex
      obtain ⟨s₀, hs₀, rfl⟩ := hnamed.indexed hindex
      -- The session that takes the message is the active one under the key, if there is one.
      have hfind : (∃ old, inner.l0.get s₀.sessionId = some old) ∨
          ∃ old, inner.l0.get s₀.sessionId = none ∧ inner.l1.get s₀.sessionId = some old := by
        cases h0 : inner.l0.get s₀.sessionId with
        | some old => exact .inl ⟨old, rfl⟩
        | none =>
          rcases List.mem_append.mp hs₀ with hs₀ | hs₀ <;>
            obtain ⟨k, hk⟩ := HashMap.mem_values_iff.mp hs₀
          · rw [hnamed.of_l0 hk, hk] at h0
            cases h0
          · exact .inr ⟨s₀, rfl, (hnamed.of_l1 hk).symm ▸ hk⟩
      rcases hfind with ⟨old, h0⟩ | ⟨old, h0, h1⟩
      · have hsid := hnamed.of_l0 h0
        rw [← hsid] at h0 hindex ⊢
        refine ⟨old.addMessage moment.now msg, ?_, .joined hreply hindex (mem_sessions_of_l0 h0),
          fun {msgId sid} hget => ?_⟩
        · simp only [join, findSessionMut, h0]
          exact ⟨rfl, .inl rfl, rfl, rfl, rfl⟩
        · simp only [join, findSessionMut, h0] at hget
          rcases hone _ _ hget with hget | ⟨rfl, rfl⟩
          · exact .inl hget
          · exact .inr ⟨rfl, by simp⟩
      · have hsid := hnamed.of_l1 h1
        rw [← hsid] at h0 h1 hindex ⊢
        refine ⟨old.addMessage moment.now msg, ?_, .joined hreply hindex (mem_sessions_of_l1 h1),
          fun {msgId sid} hget => ?_⟩
        · simp only [join, findSessionMut, h0, h1, assign, promoteToL0, HashMap.get_insert_self,
            HashMap.remove_insert, Nat.one_ne_zero, if_false, gt_iff_lt, Nat.zero_lt_one,
            decide_true, if_true]
          exact ⟨rfl, .inr rfl, rfl, rfl, rfl⟩
        · simp only [join, findSessionMut, h0, h1, assign, promoteToL0, HashMap.get_insert_self,
            Nat.one_ne_zero, if_false, gt_iff_lt, Nat.zero_lt_one, decide_true, if_true] at hget
          rcases hone _ _ hget with hget | ⟨rfl, rfl⟩
          · exact .inl hget
          · exact .inr ⟨rfl, by simp⟩

end Inner

end LogosFs.Sessions
