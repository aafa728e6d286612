import LogosFs.Lib.Program
import LogosFs.Sessions.L2Store

/-! # The session store

`observe` puts a message into a session. It holds the lock twice and calls L2 in between and
afterwards, so it is a program over these sections and calls; run alone it says what one call does,
interleaved with others what concurrent ones do. A store without L2 runs the same program. -/

namespace LogosFs.Sessions

/-- An operation of the session store: a section under its lock, or a call on L2. -/
inductive SessionOp where
  /-- Whether a message is missing from the index. -/
  | needFault (replyTo : Int)
  /-- Load the session of a message from L2. -/
  | loadByMsg (msgId : Int)
  /-- Delete a session from L2. -/
  | delete (sessionId : Str)
  /-- Find a similar session of a chat in L2. -/
  | semanticSearch (text chatId : Str)
  /-- Put a message into a session, and evict. -/
  | update (msg : MsgRef) (pageFaultSession semanticMatch : Option Session)
  /-- Store a session in L2. -/
  | persist (session : Session)
  /-- Look up the session in memory of a message. -/
  | sessionForMsg (msgId : Int)
  /-- Look up the session of a chat that was active last. -/
  | activeSession (chatId : Str)
deriving DecidableEq

/-- The operations of the session store. -/
abbrev SessionSig : Signature where
  Op := SessionOp
  Res
    | .needFault _ => Bool
    | .loadByMsg _ => Except L2Step (Option Session)
    | .delete _ => Except L2Step Unit
    | .semanticSearch _ _ => Except L2Step (Option Session)
    | .update _ _ _ => List Session
    | .persist _ => Except L2Step Unit
    | .sessionForMsg _ => Option Session
    | .activeSession _ => Option Session

/-- The state of the session store, and what the outside will decide about its operations. -/
structure SessionStore where
  /-- The sessions in memory. -/
  inner : Inner
  /-- The tables of L2. -/
  l2 : Tables
  /-- What will be decided about each operation to come. -/
  fate : Nat → Fate
  /-- The sessions that have left memory, for the record. -/
  evicted : List Session

namespace SessionStore

/-- A store that has observed nothing. -/
def new (l0Capacity l1Capacity : Nat) (fate : Nat → Fate) : SessionStore :=
  ⟨.new l0Capacity l1Capacity, ⟨[], []⟩, fate, []⟩

/-- A store with the decision about one operation used up. -/
def tick (st : SessionStore) : SessionStore := { st with fate := fun n => st.fate (n + 1) }

/-- A store after a call on L2. -/
def callL2 {α : Type} (st : SessionStore) (call : Fate → L2M α) :
    Except L2Step α × SessionStore :=
  let (result, l2) := (call (st.fate 0)).exec st.l2
  (result, { st.tick with l2 })

variable (lance : Lance)

/-- How the store answers an operation, and the store after it. -/
def handler : Handler SessionSig SessionStore
  | .needFault replyTo, st => ((st.inner.msgIndex.get replyTo).isNone, st.tick)
  | .loadByMsg msgId, st => st.callL2 fun fate => L2Store.loadByMsg lance fate msgId
  | .delete sessionId, st => st.callL2 fun fate => L2Store.delete lance fate sessionId
  | .semanticSearch _ chatId, st => st.callL2 fun fate => L2Store.semanticSearch lance fate chatId
  | .update msg pageFaultSession semanticMatch, st =>
    let (inner, evicted) :=
      Inner.update (st.fate 0).moment msg pageFaultSession semanticMatch st.inner
    (evicted, { st.tick with inner, evicted := st.evicted ++ evicted })
  | .persist session, st => st.callL2 fun fate => L2Store.persist lance fate session
  | .sessionForMsg msgId, st => (st.inner.sessionForMsg msgId, st.tick)
  | .activeSession chatId, st =>
    (st.inner.activeSession (st.fate 0).moment chatId, st.tick)

end SessionStore

open Program (perform)

/-- The session that a call on L2 has found; one that fails has found none. -/
def found : Except L2Step (Option Session) → Option Session
  | .ok session => session
  | .error _ => none

/-- Load the session of the reply target from L2, if the index in memory does not have it. -/
def pageFault (hasL2 : Bool) : Option Int → Program SessionSig (Option Session)
  | some replyTo => do
    if ← perform (S := SessionSig) (.needFault replyTo) then
      if hasL2 then
        let result ← perform (S := SessionSig) (.loadByMsg replyTo)
        pure (found result)
      else pure none
    else pure none
  | none => pure none

/-- Delete a session from L2 that has been loaded from there. -/
def deleteLoaded (hasL2 : Bool) : Option Session → Program SessionSig Unit
  | some session => do
    if hasL2 then
      let _ ← perform (S := SessionSig) (.delete session.sessionId)
      pure ()
    else pure ()
  | none => pure ()

/-- Search L2 for a similar session, for a message that replies to none. -/
def similar (hasL2 : Bool) (msg : MsgRef) (pageFaultSession : Option Session) :
    Program SessionSig (Option Session) :=
  if msg.replyTo.isNone && pageFaultSession.isNone then do
    if hasL2 then
      let result ← perform (S := SessionSig) (.semanticSearch msg.text msg.chatId)
      pure (found result)
    else pure none
  else pure none

/-- Store the sessions that have been evicted. -/
def persistAll : List Session → Program SessionSig Unit
  | [] => pure ()
  | session :: evicted => do
    let _ ← perform (S := SessionSig) (.persist session)
    persistAll evicted

/-- Observe a message, in a store with or without L2. -/
def observe (hasL2 : Bool) (msg : MsgRef) : Program SessionSig Unit := do
  let pageFaultSession ← pageFault hasL2 msg.replyTo
  deleteLoaded hasL2 pageFaultSession
  let semanticMatch ← similar hasL2 msg pageFaultSession
  deleteLoaded hasL2 semanticMatch
  let evicted ← perform (S := SessionSig) (.update msg pageFaultSession semanticMatch)
  if hasL2 then persistAll evicted else pure ()

/-- The session of a message. -/
def getSessionForMsg (hasL2 : Bool) (msgId : Int) : Program SessionSig (Option Session) := do
  match ← perform (S := SessionSig) (.sessionForMsg msgId) with
  | some session => pure (some session)
  | none =>
    if hasL2 then
      let result ← perform (S := SessionSig) (.loadByMsg msgId)
      pure (found result)
    else pure none

/-- The session of a chat that was active last. -/
def getActiveSession (chatId : Str) : Program SessionSig (Option Session) :=
  perform (S := SessionSig) (.activeSession chatId)

/-- The store after some messages have been observed, one after another. -/
def SessionStore.observeAll (lance : Lance) (hasL2 : Bool) (st : SessionStore)
    (msgs : List MsgRef) : SessionStore :=
  msgs.foldl (fun st msg => ((observe hasL2 msg).run (SessionStore.handler lance) st).2) st

/-- The session that an operation gets from L2. -/
def loads (lance : Lance) (op : SessionOp) (st : SessionStore) : Option Session :=
  match op with
  | .loadByMsg msgId => found (SessionStore.handler lance (.loadByMsg msgId) st).1
  | .semanticSearch text chatId =>
    found (SessionStore.handler lance (.semanticSearch text chatId) st).1
  | _ => none

/-! ## The course of a call with L2 -/

/-- What is left of a call that has a session from L2, or none. -/
def readyWith (msg : MsgRef) (session : Option Session) : Program SessionSig Unit :=
  match msg.replyTo with
  | some _ => .call (.update msg session none) persistAll
  | none => .call (.update msg none session) persistAll

/-- What is left of a call to which L2 has answered. -/
def answered (msg : MsgRef) : Option Session → Program SessionSig Unit
  | some s => .call (.delete s.sessionId) fun _ => readyWith msg (some s)
  | none => readyWith msg none

/-- `observe` of a reply first looks its target up in memory, by `needFault`, and then in L2. -/
theorem observe_of_reply {msg : MsgRef} {replyTo : Int} (hreply : msg.replyTo = some replyTo) :
    observe true msg = .call (.needFault replyTo) fun needed =>
      if needed then .call (.loadByMsg replyTo) fun result => answered msg (found result)
      else answered msg none := by
  unfold observe pageFault
  simp only [hreply]
  refine congrArg (Program.call (S := SessionSig) (.needFault replyTo)) (funext fun needed => ?_)
  cases needed with
  | false =>
    simp only [answered, readyWith, similar, hreply]
    rfl
  | true =>
    refine congrArg (Program.call (S := SessionSig) (.loadByMsg replyTo)) (funext fun result => ?_)
    show (deleteLoaded true (found result) >>= _) = _
    cases found result <;> simp only [answered, readyWith, similar, hreply] <;> rfl

/-- `observe` of any other message first searches L2, by `semanticSearch`. -/
theorem observe_of_no_reply {msg : MsgRef} (hreply : msg.replyTo = none) :
    observe true msg = .call (.semanticSearch msg.text msg.chatId) fun result =>
      answered msg (found result) := by
  unfold observe
  simp only [hreply, pageFault, similar]
  refine congrArg (Program.call (S := SessionSig) (.semanticSearch msg.text msg.chatId))
    (funext fun result => ?_)
  show (deleteLoaded true (found result) >>= _) = _
  cases found result <;> simp only [answered, readyWith, hreply] <;> rfl

end LogosFs.Sessions
