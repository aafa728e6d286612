import Mathlib.Data.List.Perm.Basic
import LogosFs.Sessions.Bindings

/-! # Concurrent calls

Several calls of `observe` run concurrently over one store, with L2 enabled and nothing failing; the
atomic steps are the sections under the lock and the calls on L2. Every call is in one of a few
stages, and in some of them it holds sessions: the one it has loaded and deleted from L2, and those
it has evicted and not yet stored.

As long as no call loads a session that another one is about to delete, the sessions in memory,
stored, and held by the calls partition the messages (`Running`). A reply finds its target unless
that is held by another call or leaves memory while the reply waits for the lock.
`nothingLost_of_undisturbed` says what holds in every run in which neither happens. -/

namespace LogosFs.Sessions

open Sessions.Inner Tiered Program

variable {lance : Lance}

/-! ## The stages of a call -/

/-- Where a call is. -/
inductive Stage where
  /-- It has not started. -/
  | start
  /-- It is about to load the session of its reply target. -/
  | faulting (replyTo : Int)
  /-- It has got a session from L2 and is about to delete it there. -/
  | loaded (session : Session)
  /-- It is about to update, with the session that it has got from L2, if any. -/
  | ready (session : Option Session)
  /-- It has updated, and has these sessions still to store. -/
  | storing (evicted : List Session)

/-- A call: its message, and where it is. -/
structure Call where
  /-- The message. -/
  msg : MsgRef
  /-- Where the call is. -/
  stage : Stage

namespace Call

/-- What is left of a call. -/
def program (call : Call) : Program SessionSig Unit :=
  match call.stage with
  | .start => observe true call.msg
  | .faulting replyTo => .call (.loadByMsg replyTo) fun result => answered call.msg (found result)
  | .loaded session => answered call.msg (some session)
  | .ready session => readyWith call.msg session
  | .storing evicted => persistAll evicted

/-- The sessions that a call holds. -/
def held (call : Call) : List Session :=
  match call.stage with
  | .ready session => session.toList
  | .storing evicted => evicted
  | _ => []

/-- The session that a call has got from L2 and is about to delete there. -/
def claimed (call : Call) : List Session :=
  match call.stage with
  | .loaded session => [session]
  | _ => []

/-- Whether the message is in a session already. -/
def updated (call : Call) : Bool :=
  match call.stage with
  | .storing _ => true
  | _ => false

/-- What is known in a stage: a session that a reply has got has its target, and one that is about
to be deleted is stored. -/
def Valid (st : SessionStore) (call : Call) : Prop :=
  match call.stage with
  | .start => True
  | .faulting replyTo => call.msg.replyTo = some replyTo
  | .loaded session => session ∈ st.l2.stored ∧
      ∀ r, call.msg.replyTo = some r → r ∈ session.msgIds
  | .ready session => ∀ s, session = some s → ∀ r, call.msg.replyTo = some r → r ∈ s.msgIds
  | .storing _ => True

end Call

/-! ## Calls together -/

/-- One call was finished before another one started: it was finished whenever that one moved. -/
def Precedes (moves : List (Move SessionSig SessionStore)) (j i : Nat) : Prop :=
  ∀ move ∈ moves, move.thread = i → move.before.threads[j]? = some (.done ())

/-- A call that `Precedes` another one in a run does so in a beginning of it. -/
theorem Precedes.of_append {moves later : List (Move SessionSig SessionStore)} {j i : Nat}
    (h : Precedes (moves ++ later) j i) : Precedes moves j i :=
  fun move hmove => h move (List.mem_append_left _ hmove)

/-- `Precedes` can be checked move by move. -/
theorem precedes_iff {moves : List (Move SessionSig SessionStore)} {j i : Nat} :
    (∀ move ∈ moves, move.thread = i → move.before.threads[j]?.map Program.nextOp = some none) ↔
      Precedes moves j i := by
  refine forall₃_congr fun move _ _ => Option.map_eq_some_iff.trans ⟨?_, fun h => ⟨_, h, rfl⟩⟩
  rintro ⟨p, hp, hnone⟩
  exact Program.nextOp_eq_none_iff.mp hnone ▸ hp

instance (moves : List (Move SessionSig SessionStore)) (j i : Nat) : Decidable (Precedes moves j i) :=
  decidable_of_iff _ precedes_iff

/-- A move, after some others, on which the calls do not get in each other's way. -/
structure Undisturbed (lance : Lance) (msgs : List MsgRef)
    (before : List (Move SessionSig SessionStore)) (move : Move SessionSig SessionStore) :
    Prop where
  /-- It does not get a session from L2 that another call is about to delete there. -/
  loads : ∀ s ∈ loads lance move.op move.before.state, ∀ p ∈ move.before.threads,
    p.nextOp ≠ some (.delete s.sessionId)
  /-- If it updates with a reply that has loaded no session, and its target had been observed before
  the call started, then the target is in memory. -/
  found : ∀ (msg : MsgRef) (j : Nat) (target : MsgRef), move.op = .update msg none none →
    msgs[j]? = some target → msg.replyTo = some target.msgId →
    Precedes (before ++ [move]) j move.thread →
    move.before.state.inner.msgIndex.get target.msgId ≠ none

/-- The message of an update that has got no session from L2. -/
def bareUpdate : SessionOp → Option MsgRef
  | .update msg none none => some msg
  | _ => none

/-- `bareUpdate` answers the message of an update without sessions from L2. -/
theorem bareUpdate_eq_some_iff {op : SessionOp} {msg : MsgRef} :
    bareUpdate op = some msg ↔ op = .update msg none none := by
  constructor
  · intro h
    unfold bareUpdate at h
    split at h
    · rw [Option.some_inj.mp h]
    · cases h
  · rintro rfl
    rfl

instance : DecidableEq SessionSig.Op := inferInstanceAs (DecidableEq SessionOp)

/-- Whether a move is undisturbed can be computed. -/
instance (lance : Lance) (msgs : List MsgRef) (before : List (Move SessionSig SessionStore))
    (move : Move SessionSig SessionStore) : Decidable (Undisturbed lance msgs before move) :=
  decidable_of_iff
    ((∀ s ∈ loads lance move.op move.before.state, ∀ p ∈ move.before.threads,
        p.nextOp ≠ some (.delete s.sessionId)) ∧
      ∀ msg ∈ bareUpdate move.op, ∀ entry ∈ msgs.zipIdx, msg.replyTo = some entry.1.msgId →
        Precedes (before ++ [move]) entry.2 move.thread →
        move.before.state.inner.msgIndex.get entry.1.msgId ≠ none) <| by
    constructor
    · rintro ⟨hloads, hfound⟩
      exact ⟨hloads, fun msg j target hop htarget => hfound msg (bareUpdate_eq_some_iff.mpr hop)
        (target, j) (List.mem_zipIdx_iff_getElem?.mpr htarget)⟩
    · rintro ⟨hloads, hfound⟩
      exact ⟨hloads, fun msg hop entry hentry => hfound msg entry.2 entry.1
        (bareUpdate_eq_some_iff.mp hop) (List.mem_zipIdx_iff_getElem?.mp hentry)⟩

/-- What a call does when it moves, while the others hold the rest. -/
structure Advances (lance : Lance) (st : SessionStore) (op : SessionOp) (rest : List Session)
    (seen seen' : List MsgRef) (call call' : Call) : Prop where
  /-- It goes on with its message. -/
  msg : call'.msg = call.msg
  /-- The tiers and the calls still have all sessions. -/
  tiered : Tiered (SessionStore.handler lance op st).2 (call'.held ++ rest) seen'
  /-- The message is seen when the call updates. -/
  seen : seen' = seen ∧ call'.updated = call.updated ∨
    seen' = seen ++ [call.msg] ∧ call.updated = false ∧ call'.updated = true
  /-- The call knows what it should. -/
  valid : call'.Valid (SessionStore.handler lance op st).2
  /-- No session is lost. -/
  grows : Grows (st.all (call.held ++ rest))
    ((SessionStore.handler lance op st).2.all (call'.held ++ rest))
  /-- Only the session that the call was about to delete is not stored any more. -/
  stored : ∀ s ∈ st.l2.stored, s ∈ (SessionStore.handler lance op st).2.l2.stored ∨ s ∈ call.claimed
  /-- A session that it is about to delete has just come from L2. -/
  claimed : call'.claimed = [] ∨ ∃ s, call'.claimed = [s] ∧ loads lance op st = some s
  /-- When it updates with a reply, it has no session and the target is not in memory, or the reply
  is with its target afterwards. -/
  together : call.updated = false → call'.updated = true → ∀ r, call.msg.replyTo = some r →
    op = .update call.msg none none ∧ st.inner.msgIndex.get r = none ∨
      ∃ s ∈ (SessionStore.handler lance op st).2.all (call'.held ++ rest),
        call.msg ∈ s.messages ∧ r ∈ s.msgIds

/-- What holds at any time of a run: the sessions in memory, stored, and held by the calls partition
the messages of the calls that have updated. -/
structure Running (msgs : List MsgRef) (moves : List (Move SessionSig SessionStore))
    (c : Config SessionSig SessionStore) (calls : List Call) (seen : List MsgRef) : Prop where
  /-- The threads are the calls. -/
  threads : c.threads = calls.map Call.program
  /-- There is a call for each message. -/
  msgs_eq : calls.map Call.msg = msgs
  /-- The tiers and the calls together have all sessions. -/
  tiered : Tiered c.state (calls.flatMap Call.held) seen
  /-- The messages that have been seen are those of the calls that have updated. -/
  seen_perm : seen.Perm ((calls.filter Call.updated).map Call.msg)
  /-- Every call knows what it should. -/
  valid : ∀ call ∈ calls, call.Valid c.state
  /-- No two calls are about to delete the same session. -/
  claimed : ((calls.flatMap Call.claimed).map Session.sessionId).Nodup
  /-- A reply is with its target if that had been observed before the call started. -/
  together : ∀ (i j : Nat) call target, calls[i]? = some call → call.updated → msgs[j]? = some target →
    call.msg.replyTo = some target.msgId → Precedes moves j i →
    ∃ s ∈ c.state.all (calls.flatMap Call.held), call.msg ∈ s.messages ∧ target.msgId ∈ s.msgIds

/-! ## One move of one call -/

section Move

variable {st st' : SessionStore} {rest : List Session} {seen : List MsgRef} {msg : MsgRef}
  {op : SessionOp}

/-- `Advances` for a look at the tables or the index by a call that holds nothing. -/
theorem advances_look {call call' : Call} (hmsg : call'.msg = call.msg) (hheld : call.held = [])
    (hheld' : call'.held = []) (hupdated : call.updated = false) (hupdated' : call'.updated = false)
    (h : Tiered st (call.held ++ rest) seen) (hop : (SessionStore.handler lance op st).2 = st.tick)
    (hvalid : call'.Valid st)
    (hclaimed : call'.claimed = [] ∨ ∃ s, call'.claimed = [s] ∧ loads lance op st = some s) :
    Advances lance st op rest seen seen call call' where
  msg := hmsg
  tiered := by
    rw [hop, hheld']
    rw [hheld] at h
    exact h.tick
  seen := .inl ⟨rfl, hupdated'.trans hupdated.symm⟩
  valid := by
    rw [hop]
    exact hvalid
  grows := by
    rw [hop, hheld, hheld']
    exact .refl _
  stored s hs := by
    rw [hop]
    exact .inl hs
  claimed := hclaimed
  together _ h' := by
    rw [hupdated'] at h'
    cases h'

/-- Where a call goes to that L2 has answered. -/
def Stage.ofAnswer : Option Session → Stage
  | some s => .loaded s
  | none => .ready none

/-- The call that has its answer goes on with `answered`. -/
theorem program_ofAnswer (msg : MsgRef) (session : Option Session) :
    (⟨msg, .ofAnswer session⟩ : Call).program = answered msg session := by
  cases session <;> rfl

/-- `Advances` for an answer of L2 to a call. -/
theorem advances_answer {call : Call} {result : Option Session} (hheld : call.held = [])
    (hupdated : call.updated = false) (h : Tiered st (call.held ++ rest) seen)
    (hop : (SessionStore.handler lance op st).2 = st.tick)
    (hloads : ∀ s, result = some s → loads lance op st = some s)
    (hresult : ∀ s, result = some s → s ∈ st.l2.stored ∧
      ∀ r, call.msg.replyTo = some r → r ∈ s.msgIds) :
    Advances lance st op rest seen seen call ⟨call.msg, .ofAnswer result⟩ := by
  cases result with
  | none => exact advances_look rfl hheld rfl hupdated rfl h hop (fun s hs => nomatch hs) (.inl rfl)
  | some s =>
    exact advances_look rfl hheld rfl hupdated rfl h hop (hresult s rfl)
      (.inr ⟨s, rfl, hloads s rfl⟩)

variable (lance) in
/-- `Advances` for an update by a call that has a session from L2, or none. -/
theorem advances_update {session pageFaultSession semanticMatch : Option Session}
    (h : Tiered st (session.toList ++ rest) seen) (hfresh : Fresh msg seen)
    (hquote : '\'' ∉ msg.chatId)
    (hrestored : restored msg pageFaultSession semanticMatch = session)
    (htogether : ∀ r, msg.replyTo = some r →
      SessionOp.update msg pageFaultSession semanticMatch = .update msg none none ∧
        st.inner.msgIndex.get r = none ∨
      ∃ s, target st.inner msg pageFaultSession semanticMatch = some s ∧ r ∈ s.msgIds) :
    ∃ evicted, (SessionStore.handler lance (.update msg pageFaultSession semanticMatch) st).1
        = evicted ∧
      Advances lance st (.update msg pageFaultSession semanticMatch) rest seen (seen ++ [msg])
        ⟨msg, .ready session⟩ ⟨msg, .storing evicted⟩ := by
  rw [← hrestored] at h
  obtain ⟨st', evicted, hrun, hl2, htiered, hgrows, htarget⟩ :=
    Tiered.update lance hfresh hquote h
  refine ⟨evicted, by rw [hrun], rfl, ?_, .inr ⟨rfl, rfl, rfl⟩, trivial, ?_, fun s hs => .inl ?_,
    .inl rfl, fun _ _ r hreply => ?_⟩
  · rw [hrun]
    exact htiered
  · rw [hrun]
    rw [hrestored] at hgrows
    exact hgrows
  · rw [hrun, hl2]
    exact hs
  · rcases htogether r hreply with hmissing | ⟨s, hs, hid⟩
    · exact .inl hmissing
    · obtain ⟨now, hmem⟩ := htarget s hs
      rw [hrun]
      exact .inr ⟨_, hmem, by simp, by simp [hid]⟩

variable (lance) in
/-- **One move of one call**: whatever stage it is in, a call that can move `Advances` to another
stage, with nothing lost. -/
theorem exists_advances {call : Call} {next : SessionSig.Res op → Program SessionSig Unit}
    (h : Tiered st (call.held ++ rest) seen) (hvalid : call.Valid st)
    (hfresh : call.updated = false → Fresh call.msg seen) (hquote : '\'' ∉ call.msg.chatId)
    (hprogram : call.program = .call op next) : ∃ call' seen',
      next (SessionStore.handler lance op st).1 = call'.program ∧
      Advances lance st op rest seen seen' call call' := by
  obtain ⟨msg, stage⟩ := call
  cases stage with
  -- The first operation: a look into the index for a reply, a search in L2 for any other message.
  | start =>
    have hstart : observe true msg = .call op next := hprogram
    cases hreply : msg.replyTo with
    | some replyTo =>
      rw [observe_of_reply hreply] at hstart
      cases hstart
      cases hindex : st.inner.msgIndex.get replyTo with
      | some sid =>
        refine ⟨⟨msg, .ready none⟩, seen, ?_, advances_look rfl rfl rfl rfl rfl h rfl
          (fun s hs => by cases hs) (.inl rfl)⟩
        simp only [SessionStore.handler, hindex]
        rfl
      | none =>
        refine ⟨⟨msg, .faulting replyTo⟩, seen, ?_, advances_look rfl rfl rfl rfl rfl h rfl
          hreply (.inl rfl)⟩
        simp only [SessionStore.handler, hindex]
        rfl
    | none =>
      rw [observe_of_no_reply hreply] at hstart
      cases hstart
      obtain ⟨result, hsearch, hresult⟩ := h.semanticSearch lance msg.text hquote
      refine ⟨⟨msg, .ofAnswer result⟩, seen, ?_, advances_answer rfl rfl h (by rw [hsearch])
        (fun s hs => ?_) fun s hs => ⟨(hresult s hs).1, fun r hr => ?_⟩⟩
      · rw [hsearch, program_ofAnswer]
        rfl
      · rw [loads, hsearch, hs]
        rfl
      · rw [hreply] at hr
        cases hr
  -- The session of the target is loaded from L2, if it is stored there.
  | faulting replyTo =>
    cases hprogram
    have hreply : msg.replyTo = some replyTo := hvalid
    obtain ⟨result, hload, hsome, -⟩ := h.loadByMsg lance replyTo
    refine ⟨⟨msg, .ofAnswer result⟩, seen, ?_, advances_answer rfl rfl h (by rw [hload])
      (fun s hs => ?_) fun s hs => ⟨(hsome s hs).1, fun r hr => ?_⟩⟩
    · rw [hload, program_ofAnswer]
      rfl
    · rw [loads, hload, hs]
      rfl
    · rw [hreply, Option.some_inj] at hr
      exact hr ▸ (hsome s hs).2
  -- It is deleted from L2, and held by the call from then on.
  | loaded session =>
    cases hprogram
    obtain ⟨hstored, htarget⟩ := hvalid
    obtain ⟨st', hdelete, -, hrest, htiered, hperm⟩ := h.delete lance hstored
    refine ⟨⟨msg, .ready (some session)⟩, seen, rfl, rfl, ?_, .inl ⟨rfl, rfl⟩, ?_, ?_, ?_, .inl rfl,
      fun _ h' => by cases h'⟩
    · rw [hdelete]
      exact htiered
    · intro s hs r hr
      rw [← Option.some_inj.mp hs]
      exact htarget r hr
    · rw [hdelete]
      exact .of_subset hperm.subset
    · intro s hs
      rw [hdelete]
      exact (List.mem_cons.mp (hrest.mem_iff.mp hs)).symm.imp_right List.mem_singleton.mpr
  -- The section under the lock takes the session over and holds what it evicts.
  | ready session =>
    cases hreply : msg.replyTo with
    | some replyTo =>
      have hready : readyWith msg session = .call op next := hprogram
      simp only [readyWith, hreply] at hready
      cases hready
      -- A reply goes where its target is, unless the target was looked for before and not found.
      have htogether : ∀ r, msg.replyTo = some r →
          SessionOp.update msg session none = .update msg none none ∧
            st.inner.msgIndex.get r = none ∨
          ∃ s, target st.inner msg session none = some s ∧ r ∈ s.msgIds := by
        intro r hr
        cases hsession : session with
        | some s => exact .inr ⟨s, rfl, hvalid s hsession r hr⟩
        | none =>
          cases hindex : st.inner.msgIndex.get r with
          | none => exact .inl ⟨rfl, rfl⟩
          | some sid =>
            obtain ⟨s, hs, -, hid⟩ := (h.sound.indexed r sid).mp hindex
            refine .inr ⟨s, ?_, hid⟩
            simp only [target, hr]
            exact h.sound.sessionForMsg_eq_some_iff.mpr ⟨hs, hid⟩
      obtain ⟨evicted, hrun, hadvances⟩ := advances_update lance h (hfresh rfl) hquote
        ((restored_of_replyTo session).2 replyTo hreply) htogether
      exact ⟨⟨msg, .storing evicted⟩, _, congrArg persistAll hrun, hadvances⟩
    | none =>
      have hready : readyWith msg session = .call op next := hprogram
      simp only [readyWith, hreply] at hready
      cases hready
      obtain ⟨evicted, hrun, hadvances⟩ := advances_update lance h (hfresh rfl) hquote
        ((restored_of_replyTo session).1 hreply) (fun r hr => by rw [hreply] at hr; cases hr)
      exact ⟨⟨msg, .storing evicted⟩, _, congrArg persistAll hrun, hadvances⟩
  -- What was evicted is stored, one session after another.
  | storing evicted =>
    cases evicted with
    | nil => cases hprogram
    | cons s evicted =>
      cases hprogram
      obtain ⟨st', hpersist, -, hrest, htiered, hperm⟩ := h.persist lance
      refine ⟨⟨msg, .storing evicted⟩, seen, rfl, rfl, ?_, .inl ⟨rfl, rfl⟩, trivial, ?_, ?_,
        .inl rfl, fun h' => by cases h'⟩
      · rw [hpersist]
        exact htiered
      · rw [hpersist]
        exact .of_subset hperm.subset
      · intro s' hs'
        rw [hpersist, hrest]
        exact .inl (List.mem_append_left _ hs')

end Move

/-! ## One move of all calls -/

namespace Call

variable {st st' : SessionStore} {call : Call} {s : Session}

/-- A call stays `Valid` while the session that it is about to delete stays stored. -/
theorem Valid.of_stored (h : call.Valid st)
    (hstored : ∀ s ∈ call.claimed, s ∈ st.l2.stored → s ∈ st'.l2.stored) : call.Valid st' := by
  obtain ⟨msg, stage⟩ := call
  cases stage with
  | loaded session => exact ⟨hstored session (List.mem_singleton.mpr rfl) h.1, h.2⟩
  | start => exact h
  | faulting replyTo => exact h
  | ready session => exact h
  | storing evicted => exact h

/-- A call that has `claimed` a session deletes it next. -/
theorem exists_program_of_mem_claimed (hs : s ∈ call.claimed) :
    ∃ next, call.program = .call (.delete s.sessionId) next := by
  obtain ⟨msg, stage⟩ := call
  cases stage with
  | loaded session =>
    rw [List.mem_singleton.mp hs]
    exact ⟨_, rfl⟩
  | start => cases hs
  | faulting replyTo => cases hs
  | ready session => cases hs
  | storing evicted => cases hs

end Call

namespace Running

variable {msgs seen : List MsgRef} {moves : List (Move SessionSig SessionStore)}
  {c : Config SessionSig SessionStore} {calls : List Call} {i : Nat} {call call' : Call}
  {op : SessionOp} {next : SessionSig.Res op → Program SessionSig Unit}

/-- The message of a call that has not updated is `Fresh`. -/
theorem fresh (h : Running msgs moves c calls seen) (hids : (msgs.map MsgRef.msgId).Nodup)
    (hnonneg : ∀ m ∈ msgs, 0 ≤ m.msgId) (hcall : call ∈ calls) (hupdated : call.updated = false) :
    Fresh call.msg seen := by
  have hmsgs : ∀ call' ∈ calls, call'.msg ∈ msgs := fun call' hcall' =>
    h.msgs_eq ▸ List.mem_map_of_mem hcall'
  -- A message that has been seen is that of another call, and has another id.
  have hseen : ∀ m ∈ seen, m ∈ msgs ∧ m.msgId ≠ call.msg.msgId := by
    intro m hm
    obtain ⟨call', hcall', rfl⟩ := List.mem_map.mp (h.seen_perm.mem_iff.mp hm)
    obtain ⟨hcall', hupdated'⟩ := List.mem_filter.mp hcall'
    refine ⟨hmsgs call' hcall', fun heq => ?_⟩
    rw [← h.msgs_eq, List.map_map] at hids
    obtain rfl := List.inj_on_of_nodup_map hids hcall' hcall heq
    rw [hupdated] at hupdated'
    cases hupdated'
  refine ⟨fun hmem => ?_, fun hmem => ?_⟩
  · obtain ⟨m, hm, heq⟩ := List.mem_map.mp hmem
    exact (hseen m hm).2 heq
  · obtain ⟨m, hm, heq⟩ := List.mem_map.mp hmem
    have hm' := (hseen m hm).1
    exact (hseen m hm).2
      (sessionId_injective_of_nonneg (hnonneg m hm') (hnonneg _ (hmsgs call hcall)) heq)

/-- The messages that have been seen, after a call `Advances`, are those of the calls that have
updated. -/
theorem seen_perm_of_advances {rest : List Session} {seen' : List MsgRef} {others : List Call}
    (hadvances : Advances lance c.state op rest seen seen' call call')
    (hseen : seen.Perm (((call :: others).filter Call.updated).map Call.msg)) :
    seen'.Perm (((call' :: others).filter Call.updated).map Call.msg) := by
  rcases hadvances.seen with ⟨rfl, hupdated⟩ | ⟨rfl, hupdated, hupdated'⟩
  · rw [List.filter_cons] at hseen ⊢
    rw [hupdated]
    split <;> rename_i hcase <;> simp only [hcase] at hseen
    · rwa [List.map_cons, hadvances.msg]
    · exact hseen
  · rw [List.filter_cons_of_neg (by simp [hupdated])] at hseen
    rw [List.filter_cons_of_pos hupdated', List.map_cons, hadvances.msg]
    exact (List.perm_append_singleton _ _).trans (hseen.cons _)

/-- No two calls have `claimed` the same session, after a call `Advances` that does not get a
session which another one has claimed. -/
theorem claimed_of_advances {rest : List Session} {seen' : List MsgRef} {others : List Call}
    (hadvances : Advances lance c.state op rest seen seen' call call')
    (hclaimed : (((call :: others).flatMap Call.claimed).map Session.sessionId).Nodup)
    (hloads : ∀ s, loads lance op c.state = some s → ∀ call' ∈ others, ∀ s' ∈ call'.claimed,
      s'.sessionId ≠ s.sessionId) :
    (((call' :: others).flatMap Call.claimed).map Session.sessionId).Nodup := by
  rw [List.flatMap_cons, List.map_append] at hclaimed ⊢
  have hothers := (List.nodup_append.mp hclaimed).2.1
  rcases hadvances.claimed with hnone | ⟨s, hsome, hload⟩
  · rwa [hnone, List.map_nil, List.nil_append]
  · rw [hsome, List.map_singleton, List.singleton_append, List.nodup_cons]
    refine ⟨fun hmem => ?_, hothers⟩
    obtain ⟨s', hs', heq⟩ := List.mem_map.mp hmem
    obtain ⟨call', hcall', hs'⟩ := List.mem_flatMap.mp hs'
    exact hloads s hload call' hcall' s' hs' heq

/-- **One move** of all calls keeps `Running`, where they do not get in each other's way. -/
theorem step (h : Running msgs moves c calls seen) (hids : (msgs.map MsgRef.msgId).Nodup)
    (hnonneg : ∀ m ∈ msgs, 0 ≤ m.msgId) (hquote : ∀ m ∈ msgs, '\'' ∉ m.chatId)
    (hready : c.threads[i]? = some (.call op next)) (hclean : Undisturbed lance msgs moves ⟨i, op, c⟩) :
    ∃ calls' seen', Running msgs (moves ++ [⟨i, op, c⟩]) (c.after (SessionStore.handler lance) i op next)
      calls' seen' := by
  -- The call that moves, and the others.
  have hthread := hready
  rw [h.threads, List.getElem?_map, Option.map_eq_some_iff] at hthread
  obtain ⟨call, hcall, hprogram⟩ := hthread
  obtain ⟨hi, hget⟩ := List.getElem?_eq_some_iff.mp hcall
  have hmem : call ∈ calls := List.mem_of_getElem? hcall
  obtain ⟨others, hothers⟩ : ∃ others, others = calls.eraseIdx i := ⟨_, rfl⟩
  have hperm : calls.Perm (call :: others) := by
    rw [hothers, ← hget]
    exact (List.getElem_cons_eraseIdx_perm hi).symm
  have hmsg : call.msg ∈ msgs := h.msgs_eq ▸ List.mem_map_of_mem hmem
  have htiered := h.tiered.perm (hperm.flatMap_right Call.held)
  rw [List.flatMap_cons] at htiered
  obtain ⟨call', seen', hnext, hadvances⟩ := exists_advances lance htiered
    (h.valid call hmem) (fun hupdated => h.fresh hids hnonneg hmem hupdated) (hquote _ hmsg) hprogram
  have hperm' : (calls.set i call').Perm (call' :: others) :=
    hothers ▸ List.set_perm_cons_eraseIdx hi call'
  -- What the others are about to delete stays stored.
  have hclaimed := h.claimed
  rw [((hperm.flatMap_right Call.claimed).map Session.sessionId).nodup_iff] at hclaimed
  have hstored : ∀ call₁ ∈ others, ∀ s ∈ call₁.claimed, s ∈ c.state.l2.stored →
      s ∈ (SessionStore.handler lance op c.state).2.l2.stored := by
    intro call₁ hcall₁ s hs hs'
    refine (hadvances.stored s hs').resolve_right fun hown => ?_
    rw [List.flatMap_cons, List.map_append, List.nodup_append] at hclaimed
    have hother : s ∈ others.flatMap Call.claimed := List.mem_flatMap.mpr ⟨call₁, hcall₁, hs⟩
    exact hclaimed.2.2 _ (List.mem_map_of_mem hown) _ (List.mem_map_of_mem hother) rfl
  -- Every session is still there, and has grown if anything.
  have hgrows : Grows (c.state.all (calls.flatMap Call.held))
      ((SessionStore.handler lance op c.state).2.all ((calls.set i call').flatMap Call.held)) := by
    have hbefore := (hperm.flatMap_right Call.held).append_right c.state.l2.stored
    have hafter := (hperm'.flatMap_right Call.held).append_right
      (SessionStore.handler lance op c.state).2.l2.stored
    refine (Grows.of_subset (hbefore.append_left _).subset).trans ?_
    refine Grows.trans ?_ (.of_subset (hafter.append_left _).symm.subset)
    rw [List.flatMap_cons, List.flatMap_cons]
    exact hadvances.grows
  refine ⟨calls.set i call', seen', ?_, ?_, ?_, ?_, ?_, ?_, ?_⟩
  · rw [Config.after, h.threads, hnext, List.map_set]
  · rw [List.map_set, h.msgs_eq, hadvances.msg]
    have hmsg : (calls.map Call.msg)[i]? = some call.msg := by rw [List.getElem?_map, hcall]; rfl
    rw [h.msgs_eq] at hmsg
    obtain ⟨hi', hget'⟩ := List.getElem?_eq_some_iff.mp hmsg
    rw [← hget']
    exact List.set_getElem_self hi'
  · exact hadvances.tiered.perm ((hperm'.flatMap_right Call.held).trans
      (by rw [List.flatMap_cons])).symm
  · refine (seen_perm_of_advances hadvances ?_).trans ((hperm'.filter _).map _).symm
    exact h.seen_perm.trans ((hperm.filter _).map _)
  · intro call₁ hcall₁
    rcases List.mem_cons.mp (hperm'.mem_iff.mp hcall₁) with rfl | hcall₁
    · exact hadvances.valid
    · exact (h.valid call₁ (hperm.mem_iff.mpr (List.mem_cons_of_mem _ hcall₁))).of_stored
        (hstored call₁ hcall₁)
  · rw [((hperm'.flatMap_right Call.claimed).map Session.sessionId).nodup_iff]
    refine claimed_of_advances hadvances hclaimed fun s hs call₁ hcall₁ s' hs' heq => ?_
    obtain ⟨next', hprogram'⟩ := Call.exists_program_of_mem_claimed hs'
    have hcall₁ : call₁ ∈ calls := hperm.mem_iff.mpr (List.mem_cons_of_mem _ hcall₁)
    have hthread : call₁.program ∈ c.threads := h.threads ▸ List.mem_map_of_mem hcall₁
    refine hclean.loads s hs _ hthread ?_
    rw [hprogram', Program.nextOp_call, heq]
  · intro i' j call₁ target hcall₁ hupdated htarget hreply hprecedes
    by_cases hne : i' = i
    · subst hne
      rw [List.getElem?_set_self hi, Option.some_inj] at hcall₁
      subst hcall₁
      rw [hadvances.msg] at hreply ⊢
      cases hbefore : call.updated with
      | true =>
        obtain ⟨s, hs, hsmsg, hid⟩ := h.together i' j call target hcall hbefore htarget hreply
          hprecedes.of_append
        obtain ⟨s', hs', -, hinitial⟩ := hgrows s hs
        exact ⟨s', hs', hinitial.subset hsmsg, (hinitial.map _).subset hid⟩
      | false =>
        rcases hadvances.together hbefore hupdated _ hreply with ⟨rfl, hmissing⟩ | ⟨s, hs, hsmsg, hid⟩
        · exact absurd hmissing (hclean.found call.msg j target rfl htarget hreply hprecedes)
        · refine ⟨s, ?_, hsmsg, hid⟩
          have hafter := (hperm'.flatMap_right Call.held).append_right
            (SessionStore.handler lance op c.state).2.l2.stored
          refine ((hafter.append_left _).mem_iff).mpr ?_
          rw [List.flatMap_cons]
          exact hs
    · rw [List.getElem?_set_ne (Ne.symm hne)] at hcall₁
      obtain ⟨s, hs, hsmsg, hid⟩ := h.together i' j call₁ target hcall₁ hupdated htarget hreply
        hprecedes.of_append
      obtain ⟨s', hs', -, hinitial⟩ := hgrows s hs
      exact ⟨s', hs', hinitial.subset hsmsg, (hinitial.map _).subset hid⟩

end Running

/-! ## Whole runs -/

/-- One call of `observe` for each message, over a store with L2 that has observed nothing. -/
def concurrently (l0Capacity l1Capacity : Nat) (fate : Nat → Fate) (msgs : List MsgRef) :
    Config SessionSig SessionStore :=
  ⟨msgs.map (observe true), .new l0Capacity l1Capacity fate⟩

/-- Before any move the calls are `Running`. -/
theorem running_concurrently (l0Capacity l1Capacity : Nat) {fate : Nat → Fate}
    (hfails : ∀ n step, (fate n).fails step = false) (msgs : List MsgRef) :
    Running msgs [] (concurrently l0Capacity l1Capacity fate msgs)
      (msgs.map fun msg => ⟨msg, .start⟩) [] where
  threads := by
    rw [List.map_map]
    rfl
  msgs_eq := by
    rw [List.map_map]
    exact List.map_id' msgs
  tiered := by
    have hheld : (msgs.map fun msg => (⟨msg, .start⟩ : Call)).flatMap Call.held = [] := by
      simp [Call.held]
    rw [hheld]
    exact tiered_new l0Capacity l1Capacity hfails
  seen_perm := by
    have hnone : (msgs.map fun msg => (⟨msg, .start⟩ : Call)).filter Call.updated = [] := by
      simp [Call.updated]
    rw [hnone]
    exact .refl _
  valid call hcall := by
    obtain ⟨msg, -, rfl⟩ := List.mem_map.mp hcall
    trivial
  claimed := by
    have hnone : (msgs.map fun msg => (⟨msg, .start⟩ : Call)).flatMap Call.claimed = [] := by
      simp [Call.claimed]
    rw [hnone]
    exact List.nodup_nil
  together i j call target hcall hupdated := by
    obtain ⟨msg, -, rfl⟩ := List.mem_map.mp (List.mem_of_getElem? hcall)
    cases hupdated

/-- A call whose `program` is `done` has updated and holds nothing. -/
theorem Call.stage_of_program_eq_done {call : Call} (h : call.program = .done ()) :
    call.stage = .storing [] := by
  obtain ⟨msg, stage⟩ := call
  cases stage with
  | storing evicted =>
    cases evicted with
    | nil => rfl
    | cons s evicted => cases h
  | start =>
    have hdone : observe true msg = .done () := h
    cases hreply : msg.replyTo with
    | some replyTo =>
      rw [observe_of_reply hreply] at hdone
      cases hdone
    | none =>
      rw [observe_of_no_reply hreply] at hdone
      cases hdone
  | faulting replyTo => cases h
  | loaded session => cases h
  | ready session =>
    have hdone : readyWith msg session = .done () := h
    unfold readyWith at hdone
    split at hdone <;> cases hdone

/-- Nothing is lost: the messages of the calls of a run are all there, indexed, and the replies are
with their targets. -/
structure NothingLost (msgs : List MsgRef) (moves : List (Move SessionSig SessionStore))
    (st : SessionStore) : Prop where
  /-- Every message is in exactly one session, in memory or in L2. -/
  once : ((st.all []).flatMap Session.messages).Perm msgs
  /-- The index in memory, or the one in L2, maps every message to its session. -/
  indexed : ∀ m ∈ msgs,
    (∃ s ∈ st.inner.sessions, m ∈ s.messages ∧
      st.inner.msgIndex.get m.msgId = some s.sessionId) ∨
    ∃ s ∈ st.l2.stored, m ∈ s.messages ∧ ⟨Str.ofInt m.msgId, s.sessionId⟩ ∈ st.l2.msgIndex ∧
      ∀ row ∈ st.l2.msgIndex, row.msgId = Str.ofInt m.msgId → row.sessionId = s.sessionId
  /-- A reply is with its target if that had been observed before its call started. -/
  replies : ∀ (i j : Nat) reply target, msgs[i]? = some reply → msgs[j]? = some target →
    reply.replyTo = some target.msgId → Precedes moves j i →
    ∃ s ∈ st.all [], reply ∈ s.messages ∧ target ∈ s.messages

/-- In a `Tiered` store without held sessions the two indexes are about the sessions of their tiers.
-/
theorem Tiered.indexed {st : SessionStore} {seen : List MsgRef} {m : MsgRef} (h : Tiered st [] seen)
    (hm : m ∈ seen) :
    (∃ s ∈ st.inner.sessions, m ∈ s.messages ∧
      st.inner.msgIndex.get m.msgId = some s.sessionId) ∨
    ∃ s ∈ st.l2.stored, m ∈ s.messages ∧ ⟨Str.ofInt m.msgId, s.sessionId⟩ ∈ st.l2.msgIndex ∧
      ∀ row ∈ st.l2.msgIndex, row.msgId = Str.ofInt m.msgId → row.sessionId = s.sessionId := by
  obtain ⟨s, hs, hmsg⟩ := h.clusters.exists_of_mem_seen hm
  have hid : m.msgId ∈ s.msgIds := List.mem_map_of_mem hmsg
  rcases List.mem_append.mp hs with hmemory | hstored
  · exact .inl ⟨s, hmemory, hmsg, (h.sound.indexed _ _).mpr ⟨s, hmemory, rfl, hid⟩⟩
  · refine .inr ⟨s, hstored, hmsg, ?_, fun row hrow hrowId => ?_⟩
    · exact (h.filed.msgRows _).mpr ⟨s, hstored, Tables.mem_msgRowsOf.mpr ⟨rfl, _, hid, rfl⟩⟩
    · obtain ⟨s', hs', hrow⟩ := (h.filed.msgRows row).mp hrow
      obtain ⟨hsid, msgId, hid', heq⟩ := Tables.mem_msgRowsOf.mp hrow
      rw [Str.ofInt_injective (heq.symm.trans hrowId)] at hid'
      rw [hsid, h.clusters.eq_of_mem_msgIds (mem_all_of_stored hs') hs hid' hid]

/-- **No update is lost** between concurrent calls of `observe` that do not get in each other's way:
messages with distinct non-negative ids, in chats whose ids have no quotes, are observed in any
interleaving, with L2 and nothing failing. Once all calls have finished, every message is in exactly
one session and indexed there, and every reply is with a target that had been observed before. -/
theorem nothingLost_of_undisturbed {l0Capacity l1Capacity : Nat} {fate : Nat → Fate}
    (hfails : ∀ n step, (fate n).fails step = false) {msgs : List MsgRef}
    (hids : (msgs.map MsgRef.msgId).Nodup) (hnonneg : ∀ m ∈ msgs, 0 ≤ m.msgId)
    (hquote : ∀ m ∈ msgs, '\'' ∉ m.chatId) {moves : List (Move SessionSig SessionStore)}
    {c : Config SessionSig SessionStore}
    (hrun : Interleaving (SessionStore.handler lance)
      (concurrently l0Capacity l1Capacity fate msgs) moves c)
    (hfinished : c.Finished)
    (hclean : ∀ before move, before ++ [move] <+: moves → Undisturbed lance msgs before move) :
    NothingLost msgs moves c.state := by
  obtain ⟨calls, seen, h⟩ := hrun.historyInvariant (Undisturbed lance msgs)
    (fun moves c => ∃ calls seen, Running msgs moves c calls seen)
    ⟨_, _, running_concurrently l0Capacity l1Capacity hfails msgs⟩
    (fun moves c i op next hrunning hready hmove => by
      obtain ⟨calls, seen, hrunning⟩ := hrunning
      exact hrunning.step hids hnonneg hquote hready hmove)
    hclean
  -- All calls have updated and hold nothing any more.
  have hstage : ∀ call ∈ calls, call.stage = .storing [] := by
    intro call hcall
    apply Call.stage_of_program_eq_done
    apply hfinished
    rw [h.threads]
    exact List.mem_map_of_mem hcall
  have hheld : calls.flatMap Call.held = [] := by
    refine List.flatMap_eq_nil_iff.mpr fun call hcall => ?_
    rw [Call.held, hstage call hcall]
  have hupdated : ∀ call ∈ calls, call.updated := by
    intro call hcall
    rw [Call.updated, hstage call hcall]
  have hseen : seen.Perm msgs := by
    have hperm := h.seen_perm
    rwa [List.filter_eq_self.mpr hupdated, h.msgs_eq] at hperm
  have htiered := h.tiered
  rw [hheld] at htiered
  refine ⟨htiered.clusters.messages.trans hseen,
    fun m hm => htiered.indexed (hseen.mem_iff.mpr hm), ?_⟩
  intro i j reply target hreply htarget hreplyTo hprecedes
  obtain ⟨call, hcall, rfl⟩ : ∃ call, calls[i]? = some call ∧ call.msg = reply := by
    rwa [← h.msgs_eq, List.getElem?_map, Option.map_eq_some_iff] at hreply
  obtain ⟨s, hs, hmsg, hid⟩ := h.together i j call target hcall
    (hupdated call (List.mem_of_getElem? hcall)) htarget hreplyTo hprecedes
  rw [hheld] at hs
  -- The session has a message with the id of the target, which is the target.
  obtain ⟨m, hm, heq⟩ := List.mem_map.mp hid
  have hm' : m ∈ msgs := hseen.mem_iff.mp (htiered.clusters.mem_seen hs hm)
  rw [List.inj_on_of_nodup_map hids hm' (List.mem_of_getElem? htarget) heq] at hm
  exact ⟨s, hs, hmsg, hm⟩

/-- Three messages that send the first two sessions to L2, and replies to both at the same time. -/
def crossing (replyTo : Int) : List MsgRef :=
  [msgOf 1 none, msgOf 2 none, msgOf 3 none, msgOf 4 (some 1), msgOf 5 (some replyTo)]

/-- The moves of the crossing replies and the configuration after them. -/
def crossed (replyTo : Int) : List (Move SessionSig SessionStore) × Config SessionSig SessionStore :=
  (concurrently 1 1 (fun n => Fate.calm n) (crossing replyTo)).play
    (SessionStore.handler .comparing) [0, 0, 1, 1, 2, 2, 2, 3, 3, 4, 4, 3, 3, 3, 4, 4, 4]

/-- `NothingLost` where the reply to 1 loads the session of its target from L2 while the other call
runs, and the reply to 2 finds its own in L1. -/
theorem nothingLost_crossing :
    NothingLost (crossing 2) (crossed 2).1 (crossed 2).2.state :=
  nothingLost_of_undisturbed (fun _ _ => rfl) (by decide) (by decide)
    (by decide) (.of_play _ _ _) (by decide +kernel)
    (forall_prefix_of_zipIdx (by decide +kernel))

/-- `NothingLost` fails where both replies load the session of the same target before either has
deleted it from L2: the one that updates last puts back the session without the message that the
other has added. -/
theorem not_nothingLost_crossing :
    Interleaving (SessionStore.handler .comparing)
      (concurrently 1 1 (fun n => Fate.calm n) (crossing 1)) (crossed 1).1 (crossed 1).2 ∧
    (crossed 1).2.Finished ∧ (∀ n step, (Fate.calm n).fails step = false) ∧
    ((crossing 1).map MsgRef.msgId).Nodup ∧ (∀ m ∈ crossing 1, 0 ≤ m.msgId) ∧
    msgOf 4 (some 1) ∈ crossing 1 ∧
    (∀ s ∈ (crossed 1).2.state.all [], msgOf 4 (some 1) ∉ s.messages) ∧
    ¬NothingLost (crossing 1) (crossed 1).1 (crossed 1).2.state := by
  have hlost : ∀ s ∈ (crossed 1).2.state.all [], msgOf 4 (some 1) ∉ s.messages := by
    decide +kernel
  have hmem : msgOf 4 (some 1) ∈ crossing 1 := by decide
  refine ⟨.of_play _ _ _, by decide +kernel, fun _ _ => rfl, by decide, by decide, hmem, hlost,
    fun h => ?_⟩
  obtain ⟨s, hs, hmsg⟩ := List.mem_flatMap.mp (h.once.mem_iff.mpr hmem)
  exact hlost s hs hmsg

end LogosFs.Sessions
