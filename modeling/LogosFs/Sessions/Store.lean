import LogosFs.Lib.HashMap
import LogosFs.Lib.Text

/-! # Sessions in memory

Messages are clustered into sessions by their reply chains. The hash maps L0 (active) and L1
(inactive), guarded by one lock together with the index from messages to sessions, hold the sessions
in memory. This module has what the code does under the lock: `Inner.update` puts a message into a
session and evicts what is over the capacities. -/

namespace LogosFs.Sessions

/-- A point in time (UTC). -/
abbrev DateTime : Type := Int

/-- A reference to a message within a session. -/
structure MsgRef where
  /-- The id of the message. -/
  msgId : Int
  /-- The chat. -/
  chatId : Str
  /-- The id of the message it replies to. -/
  replyTo : Option Int
  /-- The text. -/
  text : Str
  /-- The speaker. -/
  speaker : Str
  /-- The time of the message. -/
  ts : Str
deriving DecidableEq, Repr

/-- The id of the session that a message opens. -/
def MsgRef.sessionId (msg : MsgRef) : Str :=
  "s-".toList ++ msg.chatId ++ '-' :: Str.ofInt msg.msgId

/-- A session: a cluster of topologically linked messages. -/
structure Session where
  /-- The id of the session. -/
  sessionId : Str
  /-- The chat. -/
  chatId : Str
  /-- The messages, in the order they joined. -/
  messages : List MsgRef
  /-- When the last message joined. -/
  lastActive : DateTime
deriving DecidableEq, Repr

namespace Session

/-- A session of one message. -/
def new (now : DateTime) (chatId : Str) (firstMsg : MsgRef) : Session where
  sessionId := "s-".toList ++ chatId ++ '-' :: Str.ofInt firstMsg.msgId
  chatId := chatId
  messages := [firstMsg]
  lastActive := now

/-- Mark a session as active. -/
def touch (now : DateTime) (s : Session) : Session := { s with lastActive := now }

/-- A session with one more message. -/
def addMessage (now : DateTime) (s : Session) (msg : MsgRef) : Session :=
  touch now { s with messages := s.messages ++ [msg] }

/-- The text that the embedding of a session is computed from. -/
def textForEmbed (s : Session) : Str := ['\n'].intercalate (s.messages.map MsgRef.text)

/-- The ids of the messages. -/
def msgIds (s : Session) : List Int := s.messages.map MsgRef.msgId

variable (now : DateTime) (chatId : Str) (s : Session) (msg : MsgRef)

/-- `Session.new` is named after its first message. -/
@[simp] theorem sessionId_new : (new now msg.chatId msg).sessionId = msg.sessionId := rfl

/-- `Session.new` is of the chat it is made for. -/
@[simp] theorem chatId_new : (new now chatId msg).chatId = chatId := rfl

/-- `Session.new` has its first message only. -/
@[simp] theorem messages_new : (new now chatId msg).messages = [msg] := rfl

/-- `addMessage` keeps the id of the session. -/
@[simp] theorem sessionId_addMessage : (s.addMessage now msg).sessionId = s.sessionId := rfl

/-- `addMessage` keeps the chat. -/
@[simp] theorem chatId_addMessage : (s.addMessage now msg).chatId = s.chatId := rfl

/-- `addMessage` appends the message. -/
@[simp] theorem messages_addMessage : (s.addMessage now msg).messages = s.messages ++ [msg] := rfl

/-- `Session.new` has the id of its first message only. -/
@[simp] theorem msgIds_new : (new now chatId msg).msgIds = [msg.msgId] := rfl

/-- `addMessage` appends the id of the message. -/
@[simp] theorem msgIds_addMessage : (s.addMessage now msg).msgIds = s.msgIds ++ [msg.msgId] := by
  simp [msgIds]

end Session

/-! ## In memory -/

/-- What the outside decides about a section under the lock. -/
structure Moment where
  /-- The time it is. -/
  now : DateTime
  /-- The order in which a hash map of sessions is iterated. -/
  iteration : Iteration Str Session

/-- The sessions in memory. -/
structure Inner where
  /-- From messages to sessions. -/
  msgIndex : HashMap Int Str
  /-- The active sessions. -/
  l0 : HashMap Str Session
  /-- The inactive sessions. -/
  l1 : HashMap Str Session
  /-- How many active sessions are kept. -/
  l0Capacity : Nat
  /-- How many inactive sessions are kept. -/
  l1Capacity : Nat

namespace Inner

/-- Nothing observed yet. -/
def new (l0Capacity l1Capacity : Nat) : Inner := ⟨.empty, .empty, .empty, l0Capacity, l1Capacity⟩

/-- The session with an id, and the layer it is in. -/
def findSessionMut (inner : Inner) (sid : Str) : Option (Session × Nat) :=
  match inner.l0.get sid with
  | some s => some (s, 0)
  | none => match inner.l1.get sid with
    | some s => some (s, 1)
    | none => none

/-- Write to a session through the reference that `findSessionMut` returned. -/
def assign (inner : Inner) (sid : Str) (layer : Nat) (s : Session) : Inner :=
  if layer = 0 then { inner with l0 := inner.l0.insert sid s }
  else { inner with l1 := inner.l1.insert sid s }

/-- Move a session from L1 to L0. -/
def promoteToL0 (inner : Inner) (sid : Str) : Inner :=
  match inner.l1.get sid with
  | some s => { inner with l0 := inner.l0.insert sid s, l1 := inner.l1.remove sid }
  | none => inner

/-- Index a message. -/
def index (inner : Inner) (msgId : Int) (sid : Str) : Inner :=
  { inner with msgIndex := inner.msgIndex.insert msgId sid }

variable (moment : Moment)

/-- The key of the session that was active longest ago. -/
def oldest (sessions : HashMap Str Session) : Option Str :=
  moment.iteration.minByKey Session.lastActive sessions

/-- Move the oldest sessions from L0 to L1 until L0 is within its capacity. A removal makes L0
smaller, so as many rounds as L0 has sessions are enough. -/
def demote : Nat → Inner → Inner
  | 0, inner => inner
  | fuel + 1, inner =>
    if inner.l0Capacity < inner.l0.len then
      match oldest moment inner.l0 with
      | some key => match inner.l0.get key with
        | some s =>
          demote fuel { inner with l0 := inner.l0.remove key, l1 := inner.l1.insert key s }
        | none => demote fuel inner
      | none => inner
    else inner

/-- Remove the oldest sessions from L1, and their messages from the index, until L1 is within its
capacity. -/
def expel : Nat → Inner → List Session → Inner × List Session
  | 0, inner, evicted => (inner, evicted)
  | fuel + 1, inner, evicted =>
    if inner.l1Capacity < inner.l1.len then
      match oldest moment inner.l1 with
      | some key => match inner.l1.get key with
        | some s =>
          expel fuel { inner with
            l1 := inner.l1.remove key
            msgIndex := inner.msgIndex.retain fun sid => sid != key } (evicted ++ [s])
        | none => expel fuel inner evicted
      | none => (inner, evicted)
    else (inner, evicted)

/-- Bring both layers within their capacities and return the sessions that leave memory. -/
def evictCollect (inner : Inner) : Inner × List Session :=
  let inner := demote moment inner.l0.len inner
  expel moment inner.l1.len inner []

/-- Put a session from L2 into L0, with one more message. -/
def restore (msg : MsgRef) (session : Session) (inner : Inner) : Inner :=
  let inner := session.messages.foldl (fun inner m => inner.index m.msgId session.sessionId) inner
  let session := session.addMessage moment.now msg
  let inner := inner.index msg.msgId session.sessionId
  { inner with l0 := inner.l0.insert session.sessionId session }

/-- Add a message to the session with an id. If there is none the message is dropped, but still
indexed. -/
def join (msg : MsgRef) (sid : Str) (inner : Inner) : Inner :=
  let (inner, needsPromote) := match inner.findSessionMut sid with
    | some (session, layer) =>
      (inner.assign sid layer (session.addMessage moment.now msg), decide (layer > 0))
    | none => (inner, false)
  let inner := if needsPromote then inner.promoteToL0 sid else inner
  inner.index msg.msgId sid

/-- Open a session with a message. -/
def create (msg : MsgRef) (inner : Inner) : Inner :=
  let session := Session.new moment.now msg.chatId msg
  let inner := inner.index msg.msgId session.sessionId
  { inner with l0 := inner.l0.insert session.sessionId session }

/-- The second section of `observe` under the lock: a session that was loaded for the reply target
takes the message, else the session in memory that the reply target is indexed to, else one that
was found to be similar, else a new one. -/
def update (msg : MsgRef) (pageFaultSession semanticMatch : Option Session) (inner : Inner) :
    Inner × List Session :=
  match pageFaultSession with
  | some session => evictCollect moment (restore moment msg session inner)
  | none => match msg.replyTo with
    | some replyTo => match inner.msgIndex.get replyTo with
      | some sid => evictCollect moment (join moment msg sid inner)
      | none => evictCollect moment (create moment msg inner)
    | none => match semanticMatch with
      | some session => evictCollect moment (restore moment msg session inner)
      | none => evictCollect moment (create moment msg inner)

/-- The session in memory that a message is indexed to. -/
def sessionForMsg (inner : Inner) (msgId : Int) : Option Session :=
  match inner.msgIndex.get msgId with
  | some sid => match inner.l0.get sid with
    | some s => some s
    | none => match inner.l1.get sid with
      | some s => some s
      | none => none
  | none => none

/-- The active session of a chat that was active last. -/
def activeSession (chatId : Str) (inner : Inner) : Option Session :=
  maxByKey Session.lastActive
    ((moment.iteration.values inner.l0).filter fun s => s.chatId = chatId)

end Inner

end LogosFs.Sessions
