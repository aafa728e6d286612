import LogosFs.Memory.Ranges

/-! # Isolation of the groups

The queries of `MessageDb` look into the file that a chat id opens and do not look at the column
`chat_id`. So a query for one chat shows messages of another exactly when both ids open one file
(`isolated_iff`). Distinct segments of a URI do not, as long as no `?` cuts the connection URL short and
no `%` spells a character by its bytes (`isolated_segments`): `d%65v` opens the file of `dev`. The chat
id of a call is any text, and `./dev` opens the file of `dev` as well. -/

namespace LogosFs.Memory

open Program (eval)

variable (json : JsonCodec)

/-! ## Queries and what they show -/

/-- A query for the messages of a chat. -/
inductive Query where
  /-- The message of an id. -/
  | byId (msgId : Int)
  /-- The messages that match a text. -/
  | search (query : Str) (limit : Int)
  /-- The messages in ranges of ids. -/
  | range (params : Str)
deriving DecidableEq, Repr

/-- What a query answers with. -/
def Query.ask (chatId : Str) : Query → MemoryM (Option Str)
  | .byId msgId => MessageDb.getById json chatId msgId
  | .search query limit => return some (← MessageDb.searchFts json chatId query limit)
  | .range params => return some (← MessageDb.rangeFetch json chatId params)

/-- An answer shows a message: it is the JSON of the message, or of an array with the message in it. -/
def Shows (answer : Str) (row : MessageRow) : Prop :=
  ∃ value, json.fromStr answer = .ok value ∧
    (value = msgRowToJson row ∨ ∃ items, value = .array items ∧ msgRowToJson row ∈ items)

/-- **The messages of `d` do not show in `c`**: whatever requests are made, no query for `c` shows a
message that was written under `d`. -/
def Isolated (w : World) (c d : Str) : Prop :=
  ∀ requests (query : Query) answer,
    (eval handler (query.ask json c) (after json w requests)).1 = .ok (some answer) →
      ∀ row, Shows json answer row → row.chatId ≠ d

/-- The databases of two chats are in one file. -/
def World.SameFile (w : World) (c d : Str) : Prop :=
  ∃ place, w.engine.locate (w.url c) = .ok place ∧ w.engine.locate (w.url d) = .ok place

/-! ## Messages as JSON -/

/-- The numbers of a message are integers of 64 bits. -/
structure MessageRow.InRange (row : MessageRow) : Prop where
  /-- The id. -/
  msgId : -2 ^ 63 ≤ row.msgId ∧ row.msgId < 2 ^ 63
  /-- The message it replies to. -/
  replyTo : ∀ id ∈ row.replyTo, -2 ^ 63 ≤ id ∧ id < 2 ^ 63

/-- A number that `asI64` accepts is within the 64 bits. -/
theorem range_of_asI64 {value : Json} {i : Int} (h : value.asI64 = some i) :
    -2 ^ 63 ≤ i ∧ i < 2 ^ 63 := by
  unfold Json.asI64 at h
  split at h
  · split at h
    · rename_i hrange
      rwa [← Option.some_inj.mp h]
    · cases h
  · cases h

/-- A message that is `InRange` can be read back from its JSON: `msgRowToJson` is `ExactAt` every
depth. -/
theorem MessageRow.InRange.exactAt {row : MessageRow} (h : row.InRange) (depth : Nat) :
    (msgRowToJson row).ExactAt (depth + 1) := by
  refine Json.exactAt_ofPairs fun pair hpair => ?_
  have hid : ∀ id : Int, -2 ^ 63 ≤ id ∧ id < 2 ^ 63 → (Json.number (.int id)).ExactAt depth :=
    fun id hid => .int hid.1 (by omega)
  simp only [List.mem_cons, List.not_mem_nil, or_false] at hpair
  rcases hpair with rfl | rfl | rfl | rfl | rfl | rfl | rfl
  · exact hid _ h.msgId
  · exact .string
  · exact .string
  · exact .string
  · cases hreply : row.replyTo with
    | none => exact .null
    | some id => exact hid id (h.replyTo id hreply)
  · exact .string
  · exact .string

/-- `msgRowToJson` tells the chat of a message. -/
theorem chatId_eq_of_msgRowToJson_eq {row row' : MessageRow}
    (h : msgRowToJson row = msgRowToJson row') : row.chatId = row'.chatId := by
  have hchat : ∀ row, ((msgRowToJson row).get "chat_id").asStr = some row.chatId := by
    intro row
    rw [Json.get, msgRowToJson, Json.get?_ofPairs]
    rfl
  exact Option.some_inj.mp ((hchat row).symm.trans (h ▸ hchat row'))

variable {json}

/-- An array of messages that are `InRange` can be read back: it is `Exact`. -/
theorem exact_rows {rows : List MessageRow} (hrange : ∀ row ∈ rows, row.InRange) :
    (Json.array (rows.map msgRowToJson)).Exact := by
  refine .array fun item hitem => ?_
  obtain ⟨row, hrow, rfl⟩ := List.mem_map.mp hitem
  exact (hrange row hrow).exactAt 125

/-- The JSON of an array of messages that are `InRange` `Shows` each of them. -/
theorem shows_of_mem {rows : List MessageRow} (hrange : ∀ row ∈ rows, row.InRange) {row : MessageRow}
    (hrow : row ∈ rows) : Shows json (json.toStr (.array (rows.map msgRowToJson))) row :=
  ⟨_, json.fromStr_toStr _ (exact_rows hrange), .inr ⟨_, rfl, List.mem_map_of_mem hrow⟩⟩

/-- What the JSON of an array of messages `Shows` has the chat of one of them. -/
theorem Shows.exists_of_array {rows : List MessageRow} (hrange : ∀ row ∈ rows, row.InRange)
    {row : MessageRow} (h : Shows json (json.toStr (.array (rows.map msgRowToJson))) row) :
    ∃ row' ∈ rows, row'.chatId = row.chatId := by
  obtain ⟨value, hparse, hshows⟩ := h
  rw [json.fromStr_toStr _ (exact_rows hrange)] at hparse
  obtain rfl := Except.ok.inj hparse
  rcases hshows with heq | ⟨items, heq, hitem⟩
  · cases heq
  · rw [← Json.array.inj heq] at hitem
    obtain ⟨row', hrow', hsame⟩ := List.mem_map.mp hitem
    exact ⟨row', hrow', chatId_eq_of_msgRowToJson_eq hsame⟩

/-- What the JSON of a message `Shows` has its chat. -/
theorem Shows.chatId_eq {row row' : MessageRow} (hrange : row'.InRange)
    (h : Shows json (json.toStr (msgRowToJson row')) row) : row'.chatId = row.chatId := by
  obtain ⟨value, hparse, hshows⟩ := h
  rw [json.fromStr_toStr _ (hrange.exactAt 126)] at hparse
  obtain rfl := Except.ok.inj hparse
  rcases hshows with heq | ⟨items, heq, -⟩
  · exact chatId_eq_of_msgRowToJson_eq heq
  · cases heq

/-! ## What queries answer with -/

section Answers

variable {w : World} {chatId : Str} {place : Place}

/-- `getById` answers the message that is found under the id, as JSON. -/
theorem eval_getById (hplace : (w.pool chatId).1 = .ok place) (msgId : Int) :
    (eval handler (MessageDb.getById json chatId msgId) w).1
      = .ok (((w.files place).messages.find? msgId).map fun row => json.toStr (msgRowToJson row)) := by
  have hselect : ∀ w₁ : World, eval handler (selectMessage place msgId) w₁
      = (.ok ((w₁.files place).messages.find? msgId), w₁) := by
    intro w₁
    exact (eval_send w₁ place _ _).trans (congrArg (Prod.mk _) (World.withDb_self w₁ place))
  unfold MessageDb.getById
  rw [Program.eval_bind, eval_pool, hplace, Program.evalNext_ok, Program.eval_bind, hselect,
    Program.evalNext_ok, Program.eval_pure, (sameArchive_pool w chatId).messages]

/-- An answer that is handed on as `some` was answered. -/
theorem eval_eq_of_some {p : MemoryM Str} {answer : Str}
    (h : (eval handler (do return some (← p)) w).1 = .ok (some answer)) :
    (eval handler p w).1 = .ok answer := by
  rw [Program.eval_bind] at h
  generalize eval handler p w = ended at h ⊢
  obtain ⟨e | found, w'⟩ := ended
  · cases h
  · cases h
    rfl

/-- A program that answers a text answers `some` of it where an option is asked for. -/
theorem eval_some {p : MemoryM Str} {answer : Str} (h : (eval handler p w).1 = .ok answer) :
    (eval handler (do return some (← p)) w).1 = .ok (some answer) := by
  rw [Program.eval_bind]
  generalize eval handler p w = ended at h ⊢
  obtain ⟨found, w'⟩ := ended
  cases h
  rfl

/-- Where `pool` finds no file there is no answer. -/
theorem exists_place_of_eval {α : Type} {p : Place → MemoryM α} {answer : α}
    (h : (eval handler (do p (← pool chatId)) w).1 = .ok answer) :
    ∃ place, (w.pool chatId).1 = .ok place := by
  rw [Program.eval_bind, eval_pool] at h
  cases hplace : (w.pool chatId).1 with
  | error e =>
    rw [hplace, Program.evalNext_error] at h
    cases h
  | ok place => exact ⟨place, rfl⟩

variable (w chatId) in
/-- **An answer** to a `Query` is about messages in the file of the chat. -/
theorem answer_cases (query : Query) {answer : Str}
    (h : (eval handler (query.ask json chatId) w).1 = .ok (some answer)) :
    ∃ rows : List MessageRow, (∀ row ∈ rows, ∃ place, (w.pool chatId).1 = .ok place ∧
        row ∈ (w.files place).messages.contents) ∧
      (answer = json.toStr (.array (rows.map msgRowToJson)) ∨
        ∃ row ∈ rows, answer = json.toStr (msgRowToJson row)) := by
  cases query with
  | byId msgId =>
    obtain ⟨place, hplace⟩ := exists_place_of_eval h
    rw [Query.ask, eval_getById hplace] at h
    obtain ⟨row, hfind, rfl⟩ := Option.map_eq_some_iff.mp (Except.ok.inj h)
    have hrow := (Table.find?_eq_some_iff.mp hfind).1
    refine ⟨[row], fun row' hrow' => ⟨place, hplace, ?_⟩, .inr ⟨row, List.mem_singleton_self row, rfl⟩⟩
    rwa [List.mem_singleton.mp hrow']
  | search query limit =>
    have hanswer := eval_eq_of_some h
    obtain ⟨place, hplace⟩ := exists_place_of_eval hanswer
    rw [eval_searchFts json hplace] at hanswer
    refine ⟨_, fun row hrow => ⟨place, hplace, ?_⟩, .inl (Except.ok.inj hanswer).symm⟩
    obtain ⟨id, -, hfind⟩ := List.mem_filterMap.mp (List.mem_of_mem_take hrow)
    exact (Table.find?_eq_some_iff.mp hfind).1
  | range params =>
    have hanswer := eval_eq_of_some h
    cases hparse : json.fromStr params with
    | error e =>
      rw [MessageDb.rangeFetch, parseJson, hparse] at hanswer
      cases hanswer
    | ok val =>
      -- Without ranges no file is opened at all.
      by_cases hranges : MessageDb.rangesOf val = []
      · rw [eval_rangeFetch_nil hparse hranges] at hanswer
        refine ⟨[], fun _ hrow => (by cases hrow), .inl ?_⟩
        rw [List.map_nil, json.toStr_nil]
        exact (Except.ok.inj hanswer).symm
      · obtain ⟨place, hplace⟩ : ∃ place, (w.pool chatId).1 = .ok place := by
          rw [MessageDb.rangeFetch, parseJson, hparse] at hanswer
          dsimp only at hanswer
          rw [Program.eval_bind, Program.eval_pure, Program.evalNext_ok,
            if_neg (mt List.isEmpty_iff.mp hranges)] at hanswer
          exact exists_place_of_eval hanswer
        rw [eval_rangeFetch hparse hranges hplace] at hanswer
        exact ⟨_, fun row hrow => ⟨place, hplace, mem_of_mem_inRanges hrow⟩,
          .inl (Except.ok.inj hanswer).symm⟩

end Answers

/-! ## The messages in a file -/

/-- The numbers of all messages are integers of 64 bits. -/
def World.InRange (w : World) : Prop :=
  ∀ place, ∀ row ∈ (w.files place).messages.contents, row.InRange

/-- The id that `idFor` gives fits 64 bits. -/
theorem Engine.range_of_idFor {engine : Engine} {messages : Table MessageRow Int MessageRow.msgId}
    {val : Json} {id : Int} (h : engine.idFor messages (MessageDb.userMsgId val) = some id) :
    -2 ^ 63 ≤ id ∧ id < 2 ^ 63 := by
  rw [Engine.idFor, Option.or_eq_some_iff] at h
  rcases h with hgiven | ⟨-, hfresh⟩
  · exact range_of_asI64 hgiven
  · exact engine.freshId_range hfresh

variable (json) in
/-- `World.InRange` is kept by every request. -/
theorem inRange_step {w : World} (h : w.InRange) (request : Request) :
    (request.after json w).InRange := by
  rcases after_cases json w request with hsame | ⟨gid, content, hwrite⟩
  · intro place row hrow
    rw [hsame.messages] at hrow
    exact h place row hrow
  · rw [hwrite]
    rcases eval_writeMessage_cases json w gid content with
      ⟨e, w', hrun, hsame⟩ | ⟨val, place, now, id, w', -, -, hid, -, hrun, hstored⟩
    · rw [hrun]
      intro place row hrow
      rw [hsame.messages] at hrow
      exact h place row hrow
    · rw [hrun]
      intro place' row hrow
      by_cases hplace : place' = place
      · rw [hplace, hstored.messages] at hrow
        rcases List.mem_append.mp hrow with hold | hnew
        · exact h place row hold
        · rw [List.mem_singleton.mp hnew]
          exact ⟨Engine.range_of_idFor hid, fun reply hreply => range_of_asI64 hreply⟩
      · rw [hstored.otherMessages place' hplace] at hrow
        exact h place' row hrow

/-- At the start, where there are no rows, the world is `InRange`. -/
theorem inRange_start (dbRoot : Str) (clock : Nat → System.DateTime) (engine : Engine) :
    (World.start dbRoot clock engine).InRange := fun _ _ hrow => nomatch hrow

variable (json) in
/-- `World.InRange` is kept by any run of requests. -/
theorem inRange_after {w : World} (h : w.InRange) (requests : List Request) :
    (after json w requests).InRange :=
  after_induction json h (fun _ request hw => inRange_step json hw request) requests

/-- Under `List.Forall₂` every item of the second list has one of the first that it is related to.
-/
theorem exists_mem_of_forall₂ {α β : Type} {R : α → β → Prop} {l : List α} {l' : List β}
    (h : List.Forall₂ R l l') : ∀ b ∈ l', ∃ a ∈ l, R a b := by
  induction h with
  | nil => exact fun _ hb => nomatch hb
  | cons hab _ ih =>
    intro b hb
    rcases List.mem_cons.mp hb with rfl | hb
    · exact ⟨_, List.mem_cons_self, hab⟩
    · obtain ⟨a, ha, hR⟩ := ih b hb
      exact ⟨a, List.mem_cons_of_mem _ ha, hR⟩

/-- In a world that is `InStep` each message is in the file that its chat opens. -/
theorem InStep.locate_chatId {w : World} (h : InStep w) {place : Place} {row : MessageRow}
    (hrow : row ∈ (w.files place).messages.contents) :
    w.engine.locate (w.url row.chatId) = .ok place := by
  obtain ⟨msg, hmsg, htells⟩ := exists_mem_of_forall₂ (h.observed place) row hrow
  rw [← htells.chatId]
  exact of_decide_eq_true (List.mem_filter.mp hmsg).2

/-! ## Isolation in every run -/

section Isolated

variable {dbRoot : Str} {clock : Nat → System.DateTime} {engine : Engine} {c d : Str}

/-- **Chats with files of their own are isolated**: not `SameFile` gives `Isolated`. -/
theorem isolated_of_not_sameFile (h : ¬(World.start dbRoot clock engine).SameFile c d) :
    Isolated json (.start dbRoot clock engine) c d := by
  intro requests query answer hanswer row hshows hchat
  have hinStep := inStep_after json (inStep_start dbRoot clock engine) requests
  have hextends := extends_after json (.start dbRoot clock engine) requests
  have hrange := inRange_after json (inRange_start dbRoot clock engine) requests
  obtain ⟨rows, hrows, hencoded⟩ := answer_cases _ c query hanswer
  -- Some message of the file of `c` has the chat `d`.
  obtain ⟨row', hrow', hsame⟩ : ∃ row' ∈ rows, row'.chatId = row.chatId := by
    have hinRange : ∀ row' ∈ rows, row'.InRange := by
      intro row' hrow'
      obtain ⟨place, -, hmem⟩ := hrows row' hrow'
      exact hrange place row' hmem
    rcases hencoded with rfl | ⟨row', hrow', rfl⟩
    · exact hshows.exists_of_array hinRange
    · exact ⟨row', hrow', hshows.chatId_eq (hinRange row' hrow')⟩
  obtain ⟨place, hplace, hmem⟩ := hrows row' hrow'
  have hc := hinStep.pooled.locate hplace
  have hd := hinStep.locate_chatId hmem
  rw [hsame, hchat] at hd
  rw [hextends.engine, hextends.url_eq] at hc hd
  exact h ⟨place, hc, hd⟩

/-- A first message, with an id. -/
def firstMessage : Json := .ofPairs [("msg_id", .number (.int 1))]

/-- The range of its id. -/
def firstRange : Json :=
  .ofPairs [("ranges", .array [.array [.number (.int 1), .number (.int 1)]])]

/-- `firstMessage` is `Exact`, so it survives being printed. -/
theorem exact_firstMessage : firstMessage.Exact := by
  refine Json.exactAt_ofPairs fun pair hpair => ?_
  rw [List.mem_singleton.mp hpair]
  exact .int (by decide) (by decide)

/-- `firstRange` is `Exact`, so it survives being printed. -/
theorem exact_firstRange : firstRange.Exact := by
  refine Json.exactAt_ofPairs fun pair hpair => ?_
  rw [List.mem_singleton.mp hpair]
  refine .array fun item hitem => ?_
  rw [List.mem_singleton.mp hitem]
  refine .array fun number hnumber => ?_
  simp only [List.mem_cons, List.not_mem_nil, or_false, or_self] at hnumber
  rw [hnumber]
  exact .int (by decide) (by decide)

/-- `firstRange` asks for the range of the id 1. -/
theorem rangesOf_firstRange : MessageDb.rangesOf firstRange = [(1, 1)] := by decide +kernel

/-- `firstRange` selects the only row there is, if its id is 1. -/
theorem inRanges_firstRange {w : World} {place : Place} {row : MessageRow}
    (hrows : (w.files place).messages.contents = [row]) (hid : row.msgId = 1) :
    w.inRanges place firstRange = [row] := by
  have hoffset : (firstRange.get "offset").asI64 = none := by decide +kernel
  have hlimit : (firstRange.get "limit").asI64 = none := by decide +kernel
  rw [World.inRanges, hrows, rangesOf_firstRange, hoffset, hlimit, List.filter_cons_of_pos (by simp [hid]),
    List.filter_nil, List.mergeSort_singleton]
  rfl

/-- **A message that is written under one chat shows in another**, if both have their databases in
the `SameFile`. -/
theorem not_isolated_of_sameFile (h : (World.start dbRoot clock engine).SameFile c d) :
    ¬Isolated json (.start dbRoot clock engine) c d := by
  intro hisolated
  obtain ⟨place, hc, hd⟩ := h
  have hpooled := World.pooled_start dbRoot clock engine
  have hparse := json.fromStr_toStr firstMessage exact_firstMessage
  -- The message is written under `d`.
  have hid : engine.idFor (Table.empty : Table MessageRow Int MessageRow.msgId)
      (MessageDb.userMsgId firstMessage) = some 1 := rfl
  have hfree : (Table.empty : Table MessageRow Int MessageRow.msgId).find?
      (MessageDb.newRow json firstMessage d (((World.start dbRoot clock engine).pool d).2.clock 0)
        1).msgId = none := Table.find?_empty _
  obtain ⟨messages, hinsert⟩ := Table.exists_insert?_of_find?_none hfree
  obtain ⟨w', hrun, hstored⟩ := eval_writeMessage_of_insert? hparse (hpooled.pool hd) hid hinsert
  have hafter : after json (.start dbRoot clock engine)
      [.write (messagesPath d []) (json.toStr firstMessage)] = w' := by
    show (eval handler (MemoryModule.write json (messagesPath d []) _) _).2 = w'
    rw [write_messagesPath, hrun]
  have hrange := inRange_after json (inRange_start dbRoot clock engine)
    [.write (messagesPath d []) (json.toStr firstMessage)]
  rw [hafter] at hrange
  have hrows := hstored.messages
  have hnone : ((World.start dbRoot clock engine).files place).messages.contents = [] := rfl
  rw [hnone, List.nil_append] at hrows
  generalize hrow : MessageDb.newRow json firstMessage d
    (((World.start dbRoot clock engine).pool d).2.clock 0) 1 = row at hrows
  have hchat : row.chatId = d := by rw [← hrow]; rfl
  have hmsgId : row.msgId = 1 := by rw [← hrow]; rfl
  -- It is found through `c`.
  have hextends := extends_after json (.start dbRoot clock engine)
    [.write (messagesPath d []) (json.toStr firstMessage)]
  rw [hafter] at hextends
  have hlocate : w'.engine.locate (w'.url c) = .ok place := by
    rw [hextends.engine, hextends.url_eq]
    exact hc
  have hplace : (w'.pool c).1 = .ok place := (hstored.pooled hpooled).pool hlocate
  have hanswer := eval_rangeFetch (json.fromStr_toStr firstRange exact_firstRange)
    (by rw [rangesOf_firstRange]; exact List.cons_ne_nil _ _) hplace
  rw [inRanges_firstRange hrows hmsgId] at hanswer
  have hinRange : ∀ other ∈ [row], other.InRange := by
    intro other hother
    rw [← hrows] at hother
    exact hrange place other hother
  refine hisolated [.write (messagesPath d []) (json.toStr firstMessage)]
    (.range (json.toStr firstRange)) (json.toStr (.array ([row].map msgRowToJson))) ?_ row
    (shows_of_mem hinRange (List.mem_singleton_self row)) hchat
  rw [hafter]
  exact eval_some (congrArg Prod.fst hanswer)

end Isolated

/-- **Which chats are isolated**: `Isolated` holds of exactly those that do not have their databases
in the `SameFile`. -/
theorem isolated_iff (json : JsonCodec) (dbRoot : Str) (clock : Nat → System.DateTime)
    (engine : Engine) (c d : Str) :
    Isolated json (.start dbRoot clock engine) c d ↔
      ¬(World.start dbRoot clock engine).SameFile c d :=
  ⟨fun hisolated h => not_isolated_of_sameFile h hisolated, isolated_of_not_sameFile⟩

/-! ## Segments and other texts -/

/-- A text that stands for itself in a connection URL. -/
def Plain (text : Str) : Prop := '?' ∉ text ∧ '%' ∉ text

instance (text : Str) : Decidable (Plain text) := inferInstanceAs (Decidable (_ ∧ _))

/-- `Scanning.locate` finds the file of a chat whose id is a segment and `Plain`, where names are
resolved as paths. -/
theorem locate_segment {dbRoot c : Str} (hroot : Plain dbRoot) (hsep : '/' ∉ c) (hc : Plain c)
    (clock : Nat → System.DateTime) :
    Scanning.locate ((World.start dbRoot clock Scanning.engine).url c)
      = .ok ((HostPath.ofStr dbRoot).resolve [] ++ [c ++ ".db".toList]) := by
  have hplain : Plain (HostPath.joinText dbRoot (c ++ ".db".toList)) := by
    have hnone : ∀ a : Char, a ∉ dbRoot → a ∉ c → a ∉ ".db".toList → a ≠ '/' →
        a ∉ HostPath.joinText dbRoot (c ++ ".db".toList) := by
      intro a hinRoot hinName hinSuffix hne ha
      rcases HostPath.mem_of_mem_joinText ha with ha | ha | ha
      · exact hinRoot ha
      · exact (List.mem_append.mp ha).elim hinName hinSuffix
      · exact hne ha
    exact ⟨hnone _ hroot.1 hc.1 (by decide) (by decide), hnone _ hroot.2 hc.2 (by decide) (by decide)⟩
  have hdecode : Utf8.decode? (Utf8.percentDecode (HostPath.joinText dbRoot (c ++ ".db".toList)))
      = some (HostPath.joinText dbRoot (c ++ ".db".toList)) := by
    rw [Utf8.percentDecode_of_notMem hplain.2, Utf8.decode?_eq_some_iff]
  have hpath : (HostPath.joinText dbRoot (c ++ ".db".toList) ++ "?mode=rwc".toList).takeWhile
      (· ≠ '?') = HostPath.joinText dbRoot (c ++ ".db".toList) := by
    have hmark : ∀ a ∈ HostPath.joinText dbRoot (c ++ ".db".toList), decide (a ≠ '?') = true := by
      intro a ha
      rw [decide_eq_true_iff]
      rintro rfl
      exact hplain.1 ha
    rw [List.takeWhile_append_of_pos hmark]
    exact List.append_nil _
  have hurl : (World.start dbRoot clock Scanning.engine).url c
      = "sqlite:".toList ++ (HostPath.joinText dbRoot (c ++ ".db".toList) ++ "?mode=rwc".toList) :=
    List.append_assoc ..
  have hsegment : ∀ segment ∈ [c ++ ".db".toList], segment ≠ [] ∧ '/' ∉ segment := by
    intro segment hsegment
    rw [List.mem_singleton.mp hsegment, List.mem_append, not_or]
    exact ⟨List.append_ne_nil_of_right_ne_nil _ (by decide), hsep, by decide⟩
  have hname : Component.ofPiece (c ++ ".db".toList) = .name (c ++ ".db".toList) := by
    -- It ends in `b`, unlike `.` and `..`.
    have hlast : ∀ special : Str, special.getLast? ≠ some 'b' → c ++ ".db".toList ≠ special := by
      rintro special hne rfl
      exact hne (by rw [List.getLast?_append]; rfl)
    rw [Component.ofPiece, if_neg, if_neg (hlast _ (by decide))]
    rw [not_or]
    exact ⟨hlast _ (by decide), hlast _ (by decide)⟩
  rw [Scanning.locate, hurl, Str.stripPrefix_append]
  dsimp only
  rw [hpath, hdecode]
  dsimp only
  have hjoin : HostPath.ofStr (HostPath.joinText dbRoot (c ++ ".db".toList))
      = (HostPath.ofStr dbRoot).join (c ++ ".db".toList) := rfl
  rw [hjoin, ← Str.join_singleton (c ++ ".db".toList), HostPath.resolve_join [] _ hsegment,
    List.map_singleton, hname, Str.join_singleton]
  rfl

/-- **Distinct segments are isolated** where names are resolved as paths, if they are `Plain`. -/
theorem isolated_segments {dbRoot c d : Str} (hroot : Plain dbRoot) (hne : c ≠ d)
    (hc : '/' ∉ c ∧ Plain c) (hd : '/' ∉ d ∧ Plain d) (clock : Nat → System.DateTime) :
    Isolated json (.start dbRoot clock Scanning.engine) c d := by
  refine isolated_of_not_sameFile ?_
  rintro ⟨place, hplaceC, hplaceD⟩
  have hsame := hplaceC.trans hplaceD.symm
  rw [show (World.start dbRoot clock Scanning.engine).engine.locate = Scanning.locate from rfl,
    locate_segment hroot hc.1 hc.2, locate_segment hroot hd.1 hd.2] at hsame
  have hnames := List.append_cancel_left (Except.ok.inj hsame)
  exact hne (List.append_cancel_right (List.singleton_inj.mp hnames))

/-- The id of a call that begins with `./` names the file of another chat. -/
theorem not_isolated_dot : ¬∀ c d : Str, c ≠ d → Isolated JsonText.codec Scanning.world c d := by
  intro h
  refine not_isolated_of_sameFile ?_ (h "./dev" "dev" (by decide))
  exact ⟨["data", "memory", "dev.db"], by decide +kernel, by decide +kernel⟩

end LogosFs.Memory
