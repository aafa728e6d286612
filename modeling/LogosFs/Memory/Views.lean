import LogosFs.Lib.Newest
import LogosFs.Memory.Isolation

/-! # The views of the messages

The views `recent` and `by_speaker` show the newest messages of a chat, and of a speaker. Unlike the
queries of the archive they look at the column `chat_id`, so that they keep apart even chats that share
a file. `viewsExact_after` says what they show after any run of requests: the newest of the messages
that have been handed to the session store for the chat, and no others. -/

namespace LogosFs.Memory

open Program (eval)
open Sessions (MsgRef)
open LogosFs.System (DateTime strField)

variable (json : JsonCodec)

/-! ## What a view shows -/

/-- The messages of a chat that the session store has been handed, of one speaker if one is given. -/
def World.handed (w : World) (chatId : Str) (speaker : Option Str) : List MsgRef :=
  w.observed.filter fun msg => msg.chatId = chatId ∧ ∀ name ∈ speaker, msg.speaker = name

/-- The messages of a chat in a file, of one speaker if one is given. -/
def World.messagesOf (w : World) (place : Place) (chatId : Str) (speaker : Option Str) :
    List MessageRow :=
  (w.files place).messages.contents.filter fun row =>
    row.chatId = chatId ∧ ∀ name ∈ speaker, row.speaker = name

/-- The limit that the parameters of a view give: from 1 to 200, and 20 if they give none. -/
def viewLimit (val : Json) : Nat := clamp 200 ((val.get "limit").asI64.getD 20)

/-- The path of a view of a group. -/
def viewPath (gid viewName : Str) (params : List Str) : List Str :=
  "groups".toList :: gid :: "views".toList :: viewName :: params

/-- An answer shows the newest messages of a chat: they tell what the session store has been handed for
the chat, in the same order. -/
def ShowsNewest (w : World) (gid : Str) (speaker : Option Str) (limit : Nat)
    (answer : Except VfsError Str) : Prop :=
  ∃ all rows : List MessageRow, List.Forall₂ Tells (w.handed gid speaker) all ∧
    IsNewest MessageRow.msgId limit all rows ∧
    answer = .ok (json.toStr (.array (rows.map viewRowToJson)))

/-- The views of a chat show its newest messages, whether they are read or called. -/
structure ViewsExact (w : World) (gid : Str) : Prop where
  /-- The newest messages, with the limit of the parameters where these are JSON. -/
  recent : ∀ params, ShowsNewest json w gid none
    (viewLimit ((json.fromStr params).toOption.getD (.object [])))
    (eval handler (MemoryModule.read json (viewPath gid "recent" [params])) w).1
  /-- Without parameters the limit is 20. -/
  recentDefault : ShowsNewest json w gid none
    (viewLimit ((json.fromStr "\x7b\x7d").toOption.getD (.object [])))
    (eval handler (MemoryModule.read json (viewPath gid "recent" [])) w).1
  /-- The newest messages of a speaker. -/
  bySpeaker : ∀ params val, json.fromStr params = .ok val →
    ShowsNewest json w gid (some (strField val "speaker")) (viewLimit val)
      (eval handler (MemoryModule.read json (viewPath gid "by_speaker" [params])) w).1
  /-- Parameters that are not JSON do not name a speaker. -/
  bySpeakerError : ∀ params e, json.fromStr params = .error e →
    (eval handler (MemoryModule.read json (viewPath gid "by_speaker" [params])) w).1
      = .error (.invalidJson e)
  /-- A call shows the same as reading the path of the view, for the chat that its parameters name. -/
  call : ∀ viewName params val, json.fromStr params = .ok val → strField val "chat_id" = gid →
    (eval handler (MemoryModule.handleCall json ("memory.view." ++ viewName) params) w).1
      = (eval handler (MemoryModule.read json (viewPath gid viewName [params])) w).1

/-! ## What is read -/

section Reading

variable {json} {w : World} {gid : Str} {place : Place}

/-- The view `recent` is `recentView`. -/
theorem viewNamed_recent : viewNamed json "recent" = some (recentView json) := rfl

/-- The view `by_speaker` is `bySpeakerView`. -/
theorem viewNamed_bySpeaker : viewNamed json "by_speaker" = some (bySpeakerView json) := rfl

/-- `recentMessages` answers the last of `messagesOf` a chat, by sorting. -/
theorem eval_recentMessages (w : World) (place : Place) (chatId : Str) (speaker : Option Str)
    (limit : Nat) : eval handler (recentMessages place chatId speaker limit) w
      = (.ok (((w.messagesOf place chatId speaker).mergeSort fun row row' =>
          row'.msgId ≤ row.msgId).take limit), w) :=
  (eval_send w place _ _).trans (congrArg (Prod.mk _) (World.withDb_self w place))

/-- `World.pool` leaves the `messagesOf` every speaker as they are. -/
theorem messagesOf_pool (w : World) (chatId : Str) (place : Place) (gid : Str) (speaker : Option Str) :
    (w.pool chatId).2.messagesOf place gid speaker = w.messagesOf place gid speaker := by
  unfold World.messagesOf
  rw [World.pool_files]

/-- `queryView` of `recent` answers the newest messages. -/
theorem eval_queryView_recent (hplace : (w.pool gid).1 = .ok place) (params : Str) :
    (eval handler (MemoryModule.queryView json "recent" gid params) w).1
      = .ok (json.toStr (.array ((((w.messagesOf place gid none).mergeSort fun row row' =>
          row'.msgId ≤ row.msgId).take
            (viewLimit ((json.fromStr params).toOption.getD (.object [])))).map viewRowToJson))) := by
  rw [MemoryModule.queryView, viewNamed_recent]
  dsimp only
  rw [Program.eval_bind, eval_pool, hplace, Program.evalNext_ok, recentView, Program.eval_bind,
    eval_recentMessages, Program.evalNext_ok, messagesOf_pool]
  rfl

/-- `queryView` of `by_speaker` answers the newest messages of the speaker in its parameters. -/
theorem eval_queryView_bySpeaker (hplace : (w.pool gid).1 = .ok place) {params : Str} {val : Json}
    (hparse : json.fromStr params = .ok val) :
    (eval handler (MemoryModule.queryView json "by_speaker" gid params) w).1
      = .ok (json.toStr (.array ((((w.messagesOf place gid (some (strField val "speaker"))).mergeSort
          fun row row' => row'.msgId ≤ row.msgId).take (viewLimit val)).map viewRowToJson))) := by
  rw [MemoryModule.queryView, viewNamed_bySpeaker]
  dsimp only
  rw [Program.eval_bind, eval_pool, hplace, Program.evalNext_ok, bySpeakerView, parseJson, hparse]
  dsimp only
  rw [Program.eval_bind, Program.eval_pure, Program.evalNext_ok, Program.eval_bind, eval_recentMessages,
    Program.evalNext_ok, messagesOf_pool]
  rfl

/-- The view `by_speaker` fails where its parameters are not JSON. -/
theorem eval_queryView_bySpeaker_error (hplace : (w.pool gid).1 = .ok place) {params e : Str}
    (hparse : json.fromStr params = .error e) :
    (eval handler (MemoryModule.queryView json "by_speaker" gid params) w).1
      = .error (.invalidJson e) := by
  rw [MemoryModule.queryView, viewNamed_bySpeaker]
  dsimp only
  rw [Program.eval_bind, eval_pool, hplace, Program.evalNext_ok, bySpeakerView, parseJson, hparse]
  rfl

/-- A call of a view is `queryView` for the chat that its parameters name. -/
theorem eval_handleCall_view {viewName params : Str} {val : Json} (hparse : json.fromStr params = .ok val) :
    eval handler (MemoryModule.handleCall json ("memory.view." ++ viewName) params) w
      = eval handler (MemoryModule.queryView json viewName (strField val "chat_id") params) w := by
  have hsearch : ("memory.view." : Str) ++ viewName ≠ "memory.search".toList := by
    simp
  have hrange : ("memory.view." : Str) ++ viewName ≠ "memory.range_fetch".toList := by
    simp
  rw [MemoryModule.handleCall, parseJson, hparse]
  dsimp only
  rw [Program.eval_bind, Program.eval_pure, Program.evalNext_ok, if_neg hsearch, if_neg hrange,
    Str.stripPrefix_append]

end Reading

/-! ## The messages of a chat -/

/-- In a world that is `InStep` the session store has been `handed`, for a chat, what the file of
the chat has of it. -/
theorem InStep.tells_messagesOf {w : World} (h : InStep w) {gid : Str} {place : Place}
    (hlocate : w.engine.locate (w.url gid) = .ok place) (speaker : Option Str) :
    List.Forall₂ Tells (w.handed gid speaker) (w.messagesOf place gid speaker) := by
  have hhanded : w.handed gid speaker = (w.observedIn place).filter fun msg =>
      msg.chatId = gid ∧ ∀ name ∈ speaker, msg.speaker = name := by
    rw [World.handed, World.observedIn, List.filter_filter]
    refine List.filter_congr fun msg _ => ?_
    by_cases hchat : msg.chatId = gid
    · simp [hchat, hlocate]
    · simp [hchat]
  rw [hhanded, World.messagesOf]
  refine List.rel_filter (R := Tells) (fun {msg row} htells => ?_) (h.observed place)
  simp [htells.chatId, htells.speaker]

/-- In a world that is `InStep` the newest messages of a chat are shown from its file. -/
theorem InStep.showsNewest {w : World} (h : InStep w) {gid : Str} {place : Place}
    (hlocate : w.engine.locate (w.url gid) = .ok place) (speaker : Option Str) (limit : Nat)
    {answer : Except VfsError Str} (hanswer : answer = .ok (json.toStr (.array
      ((((w.messagesOf place gid speaker).mergeSort fun row row' => row'.msgId ≤ row.msgId).take
        limit).map viewRowToJson)))) : ShowsNewest json w gid speaker limit answer := by
  refine ⟨_, _, h.tells_messagesOf hlocate speaker, isNewest_take_mergeSort ?_ limit, hanswer⟩
  exact (w.files place).messages.contents_keys_nodup.sublist (List.filter_sublist.map _)

/-- **The views are exact**: `ViewsExact` holds after every run of requests to the memory module,
from empty databases, for each chat whose database can be opened. -/
theorem viewsExact_after (dbRoot : Str) (clock : Nat → DateTime) (engine : Engine)
    (requests : List Request) (gid : Str) (place : Place)
    (hlocate : engine.locate ((World.start dbRoot clock engine).url gid) = .ok place) :
    ViewsExact json (after json (.start dbRoot clock engine) requests) gid := by
  have hinStep := inStep_after json (inStep_start dbRoot clock engine) requests
  have hextends := extends_after json (.start dbRoot clock engine) requests
  have hlocate' : (after json (.start dbRoot clock engine) requests).engine.locate
      ((after json (.start dbRoot clock engine) requests).url gid) = .ok place := by
    rw [hextends.engine, hextends.url_eq]
    exact hlocate
  generalize after json (.start dbRoot clock engine) requests = w at hinStep hlocate'
  have hplace := hinStep.pooled.pool hlocate'
  constructor
  · intro params
    exact hinStep.showsNewest json hlocate' none _ (eval_queryView_recent hplace params)
  · exact hinStep.showsNewest json hlocate' none _ (eval_queryView_recent hplace _)
  · intro params val hparse
    exact hinStep.showsNewest json hlocate' _ _ (eval_queryView_bySpeaker hplace hparse)
  · intro params e hparse
    exact eval_queryView_bySpeaker_error hplace hparse
  · intro viewName params val hparse hchat
    rw [eval_handleCall_view hparse, hchat]
    rfl

/-- Two chats share a file, as `dev` and `./dev` name one path: the views of `dev` are still those
of the rows that its file holds. -/
theorem viewsExact_after_shared : ViewsExact JsonText.codec (after JsonText.codec Scanning.world
    [.write (messagesPath "dev" []) "\x7b\"speaker\": \"ann\", \"text\": \"here\"\x7d",
      .write (messagesPath "./dev" []) "\x7b\"speaker\": \"bob\", \"text\": \"there\"\x7d"]) "dev" :=
  viewsExact_after JsonText.codec "/data/memory" _ Scanning.engine _ "dev" ["data", "memory", "dev.db"]
    (by decide +kernel)

end LogosFs.Memory
