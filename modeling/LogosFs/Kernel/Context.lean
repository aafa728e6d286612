import LogosFs.Kernel.Proc
import LogosFs.Sessions.Chats

/-! # The context of a turn

`system.get_context` assembles what an agent needs for a turn in a chat: the session of the message
that has triggered it, or the one that was active last in the chat, and the latest summary. The chat
and the message are parameters of their own, and the session is looked up by the message alone. -/

namespace LogosFs.Kernel

open LogosFs.Sessions

/-- A message as JSON. -/
def msgToJson (msg : MsgRef) : Json := .ofPairs [
  ("msg_id", .number (.int msg.msgId)),
  ("chat_id", .string msg.chatId),
  ("reply_to", (msg.replyTo.map fun r => Json.number (.int r)).getD .null),
  ("text", .string msg.text),
  ("speaker", .string msg.speaker),
  ("ts", .string msg.ts)]

/-- A session as JSON, with its time as the serializer of times writes it. -/
def sessionToJson (time : DateTime → Str) (s : Session) : Json := .ofPairs [
  ("session_id", .string s.sessionId),
  ("chat_id", .string s.chatId),
  ("messages", .array (s.messages.map msgToJson)),
  ("last_active", .string (time s.lastActive))]

namespace SystemGetContextTool

variable (json : JsonCodec) (time : DateTime → Str) (hasL2 : Bool)
  (mm : List Str → Except VfsError Str)

/-- The session of the message, if there is one, or the one that was active last in the chat. -/
def session (chatId : Str) : Option Int → Program SessionSig (Option Session)
  | some mid => getSessionForMsg hasL2 mid
  | none => getActiveSession chatId

/-- The context, from its parts. -/
def context (session : Option Session) (summary senderUid : Str) : Json := .ofPairs [
  ("session", (session.map (sessionToJson time)).getD .null),
  ("recent_summary", (json.fromStr summary).toOption.getD .null),
  ("sender_uid", .string senderUid),
  ("persona_paths", .ofPairs [
    ("long", .string ("logos://users/" ++ senderUid ++ "/persona/long.md")),
    ("mid", .string ("logos://users/" ++ senderUid ++ "/persona/mid/"))])]

/-- The latest summary of a chat, as the memory module reads it. -/
def summary (chatId : Str) : Str :=
  (mm ["groups", chatId, "summary", "short", "latest"]).toOption.getD "null"

/-- Assemble the context. -/
def call (params : Str) : ExceptT VfsError (Program SessionSig) Str :=
  match json.fromStr params with
  | .error e => throw (.invalidJson e)
  | .ok val => do
    let chatId := strParam val "chat_id"
    let found ← liftM (session hasL2 chatId (val.get "msg_id").asI64)
    return json.toStr (context json time found (summary mm chatId) (strParam val "sender_uid"))

end SystemGetContextTool

/-! ## The session of a context -/

section InMemory

variable {lance : Lance} {json : JsonCodec} {time : DateTime → Str}
  {mm : List Str → Except VfsError Str}

/-- A session of one chat. -/
def OfChat (chatId : Str) (s : Session) : Prop :=
  s.chatId = chatId ∧ ∀ m ∈ s.messages, m.chatId = chatId

/-- Without L2, the session of a context, `SystemGetContextTool.session`, is one in memory of the
chat, if the message answers for it. -/
theorem run_session_ofChat {st : SessionStore} {seen : List MsgRef} {chatId : Str}
    {msgId : Option Int} (h : Apart st.inner st.evicted seen)
    (hanswers : ∀ mid ∈ msgId, st.inner.Answers seen mid chatId) :
    ∀ s ∈ ((SystemGetContextTool.session false chatId msgId).run
      (SessionStore.handler lance) st).1, OfChat chatId s := by
  -- A session in memory is of the chat when its own chat is.
  have hown : ∀ s ∈ st.inner.sessions, s.chatId = chatId → OfChat chatId s := by
    intro s hs hchat
    refine ⟨hchat, fun m hm => ?_⟩
    rw [(h.ownChat s (List.mem_append_left _ hs) m hm).1, hchat]
  intro s hs
  cases msgId with
  | none =>
    have hactive : st.inner.activeSession (st.fate 0).moment chatId = some s := hs
    have hmem := List.mem_filter.mp (mem_of_maxByKey hactive)
    refine hown s ?_ (of_decide_eq_true hmem.2)
    exact List.mem_append_left _ ((st.fate 0).moment.iteration.mem_values.mp hmem.1)
  | some mid =>
    have hfound : st.inner.sessionForMsg mid = some s := by
      rw [SystemGetContextTool.session, getSessionForMsg, Program.run_bind, Program.run_perform] at hs
      cases hlookup : st.inner.sessionForMsg mid with
      | some s' =>
        simp only [SessionStore.handler, hlookup] at hs
        exact hs
      | none =>
        simp only [SessionStore.handler, hlookup] at hs
        cases hs
    obtain ⟨hmem, hindex⟩ := h.keyed.sessionForMsg_eq_some_iff.mp hfound
    obtain ⟨s', hs', hsid, m, hlast, hm⟩ := (h.indexed mid _).mp hindex
    obtain rfl := h.keyed.eq_of_sessionId_eq hs' hmem hsid
    refine hown s' hs' ?_
    rw [← (h.ownChat s' (List.mem_append_left _ hs') m hm).1]
    exact hanswers mid rfl m hlast ⟨s', hs', hm⟩

/-- The text that `call` answers has the session that was found, in the context that `context` makes
of it. -/
theorem eval_call_of_ok {params : Str} {val : Json} (hparams : json.fromStr params = .ok val)
    (hasL2 : Bool) (st : SessionStore) :
    (Program.eval (SessionStore.handler lance)
        (SystemGetContextTool.call json time hasL2 mm params) st).1
      = .ok (json.toStr (SystemGetContextTool.context json time
          ((SystemGetContextTool.session hasL2 (strParam val "chat_id")
            (val.get "msg_id").asI64).run (SessionStore.handler lance) st).1
          (SystemGetContextTool.summary mm (strParam val "chat_id"))
          (strParam val "sender_uid"))) := by
  unfold SystemGetContextTool.call
  rw [hparams]
  dsimp only
  rw [Program.eval_bind, Program.eval_lift, Program.evalNext_ok, Program.eval_pure]

/-- The chats of a run are kept apart: the sessions in memory are of one chat each, a message goes
into a session of its own or to the target of its reply, and a context is of its chat. -/
structure ChatsApart (lance : Lance) (start : SessionStore) (msgs : List MsgRef) : Prop where
  /-- The messages of a session in memory are of its chat. -/
  ownChat : ∀ s ∈ (start.observeAll lance false msgs).inner.sessions, ∀ m ∈ s.messages,
    m.chatId = s.chatId
  /-- A message is put into a new session or into that of its target, of the same chat. -/
  joined : ∀ before msg, before ++ [msg] <+: msgs →
    ∀ s ∈ (start.observeAll lance false (before ++ [msg])).inner.sessions
        ++ (start.observeAll lance false (before ++ [msg])).evicted,
      msg ∈ s.messages → Joined (start.observeAll lance false before).inner.sessions msg s
  /-- A context has no session, or one of its chat. -/
  context : ∀ (json : JsonCodec) (time : DateTime → Str) (mm : List Str → Except VfsError Str)
      (params : Str) (val : Json), json.fromStr params = .ok val →
    (∀ mid ∈ (val.get "msg_id").asI64, (start.observeAll lance false msgs).inner.Answers msgs mid
      (strParam val "chat_id")) →
    ∃ session : Option Session, (∀ s ∈ session, OfChat (strParam val "chat_id") s) ∧
      (Program.eval (SessionStore.handler lance)
          (SystemGetContextTool.call json time false mm params)
          (start.observeAll lance false msgs)).1
        = .ok (json.toStr (SystemGetContextTool.context json time session
            (SystemGetContextTool.summary mm (strParam val "chat_id"))
            (strParam val "sender_uid")))

/-- **Chats do not mix** in an `OrderlyRun` without L2: the ids of each chat are distinct, every
reply is to a message that was observed last under its id in the same chat or has left memory, and
no session is opened under an id that is taken. -/
theorem chatsApart_of_orderlyRun {l0Capacity l1Capacity : Nat} {fate : Nat → Fate}
    {msgs : List MsgRef} (hids : (msgs.map fun m => (m.chatId, m.msgId)).Nodup)
    (horderly : OrderlyRun lance (.new l0Capacity l1Capacity fate) msgs) :
    ChatsApart lance (.new l0Capacity l1Capacity fate) msgs := by
  have hapart := apart_observeAll msgs hids horderly
  refine ⟨fun s hs m hm => (hapart.ownChat s (List.mem_append_left _ hs) m hm).1, ?_, ?_⟩
  · intro before msg hinitial
    have hbefore : Apart
        ((SessionStore.new l0Capacity l1Capacity fate).observeAll lance false before).inner
        ((SessionStore.new l0Capacity l1Capacity fate).observeAll lance false before).evicted
        before := by
      refine apart_observeAll before (hids.sublist (List.Sublist.map _ ?_))
        fun earlier m hm => horderly earlier m (hm.trans ((List.prefix_append _ _).trans hinitial))
      exact ((List.prefix_append _ _).trans hinitial).sublist
    rw [observeAll_append_singleton]
    exact (apart_observe hbefore (notMem_of_nodup hids hinitial) (horderly before msg hinitial)).2
  · intro json time mm params val hparams hanswers
    exact ⟨_, run_session_ofChat hapart hanswers, eval_call_of_ok hparams false _⟩

/-- A message of a chat. -/
def msgIn (chatId : Str) (msgId : Int) (replyTo : Option Int) : MsgRef :=
  { msgOf msgId replyTo with chatId := chatId }

/-- Two chats, `c1` and `c2`, whose messages have the same ids, and a reply to the one that came
last. -/
theorem chatsApart_two_chats : ChatsApart .comparing (.new 1 1 fun n => Fate.calm n)
    [msgIn "c1" 1 none, msgIn "c2" 1 none, msgIn "c2" 2 (some 1), msgIn "c1" 2 none,
      msgIn "c1" 3 (some 2)] := by
  refine chatsApart_of_orderlyRun (by decide) ?_
  exact forall_prefix_of_zipIdx (by decide +kernel)

/-- The second message of `c1` replies to its first, and both chats have a first message: it is put
into the session of `c2`, which is also the context of its target. -/
theorem not_chatsApart_same_id :
    ([msgIn "c1" 1 none, msgIn "c2" 1 none, msgIn "c1" 2 (some 1)].map fun m =>
      (m.chatId, m.msgId)).Nodup ∧
    ¬ChatsApart .comparing (.new 8 8 fun n => Fate.calm n)
      [msgIn "c1" 1 none, msgIn "c2" 1 none, msgIn "c1" 2 (some 1)] := by
  refine ⟨by decide, fun h => absurd h.ownChat ?_⟩
  decide +kernel

end InMemory

end LogosFs.Kernel
