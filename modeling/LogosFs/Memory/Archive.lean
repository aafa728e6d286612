import LogosFs.Memory.Module

/-! # What a request does to the archives

The archive of a group is its table of messages and the full-text index over them. Everything but the
write of a message leaves the archives, and what the session store has been handed, as they are
(`SameArchive`); a message that is written successfully is added to all three (`Archives`). -/

namespace LogosFs.Memory

open Program (eval)
open Sessions (MsgRef)
open LogosFs.System (strField)

/-- Each pool is of the file that the URL of its chat opens. -/
def World.Pooled (w : World) : Prop :=
  ∀ chatId place, w.pools.get chatId = some place → w.engine.locate (w.url chatId) = .ok place

/-- Two worlds with the same archives, in which the session store has been handed the same messages.
-/
structure SameArchive (w w' : World) : Prop where
  /-- The tables of messages are the same. -/
  messages : ∀ place, (w'.files place).messages = (w.files place).messages
  /-- The full-text indices are the same. -/
  index : ∀ place, (w'.files place).messagesFts = (w.files place).messagesFts
  /-- The session store has been handed the same messages. -/
  observed : w'.observed = w.observed
  /-- The directory is the same. -/
  dbRoot : w'.dbRoot = w.dbRoot
  /-- The engine is the same. -/
  engine : w'.engine = w.engine
  /-- Pools are still of the right files. -/
  pooled : w.Pooled → w'.Pooled

/-- A message was archived: a row was added to the table of a file, an entry to its index, and the
session store has been handed one more message. -/
structure Archives (place : Place) (row : MessageRow) (msg : MsgRef) (w w' : World) : Prop where
  /-- The row is added to the table. -/
  messages : (w'.files place).messages.contents = (w.files place).messages.contents ++ [row]
  /-- Its text is added to the index, under its id. -/
  index : (w'.files place).messagesFts = (w.files place).messagesFts ++ [⟨row.msgId, row.text⟩]
  /-- The session store is handed the message. -/
  observed : w'.observed = w.observed ++ [msg]
  /-- The tables of the other files are the same. -/
  otherMessages : ∀ place' ≠ place, (w'.files place').messages = (w.files place').messages
  /-- The indices of the other files are the same. -/
  otherIndex : ∀ place' ≠ place, (w'.files place').messagesFts = (w.files place').messagesFts
  /-- The directory is the same. -/
  dbRoot : w'.dbRoot = w.dbRoot
  /-- The engine is the same. -/
  engine : w'.engine = w.engine
  /-- Pools are still of the right files. -/
  pooled : w.Pooled → w'.Pooled

namespace SameArchive

variable {w w' w'' : World}

/-- `SameArchive` is reflexive. -/
theorem refl (w : World) : SameArchive w w := ⟨fun _ => rfl, fun _ => rfl, rfl, rfl, rfl, id⟩

/-- `SameArchive` is transitive. -/
theorem trans (h : SameArchive w w') (h' : SameArchive w' w'') : SameArchive w w'' where
  messages place := (h'.messages place).trans (h.messages place)
  index place := (h'.index place).trans (h.index place)
  observed := h'.observed.trans h.observed
  dbRoot := h'.dbRoot.trans h.dbRoot
  engine := h'.engine.trans h.engine
  pooled hw := h'.pooled (h.pooled hw)

/-- Under `SameArchive` the URL of a chat is the same. -/
theorem url_eq (h : SameArchive w w') (chatId : Str) : w'.url chatId = w.url chatId := by
  unfold World.url World.dbPath
  rw [h.dbRoot]

/-- `Archives` may come after what leaves the `SameArchive`. -/
theorem archives {place : Place} {row : MessageRow} {msg : MsgRef} (h : SameArchive w w')
    (h' : Archives place row msg w' w'') : Archives place row msg w w'' where
  messages := by rw [h'.messages, h.messages]
  index := by rw [h'.index, h.index]
  observed := by rw [h'.observed, h.observed]
  otherMessages place' hne := (h'.otherMessages place' hne).trans (h.messages place')
  otherIndex place' hne := (h'.otherIndex place' hne).trans (h.index place')
  dbRoot := h'.dbRoot.trans h.dbRoot
  engine := h'.engine.trans h.engine
  pooled hw := h'.pooled (h.pooled hw)

end SameArchive

/-! ## Pools -/

section Pools

variable {w : World} {chatId : Str} {place : Place}

/-- `World.pool` changes the pools only: `SameArchive`. -/
theorem sameArchive_pool (w : World) (chatId : Str) : SameArchive w (w.pool chatId).2 := by
  rw [World.pool]
  cases hget : w.pools.get chatId with
  | some place => exact .refl w
  | none =>
    cases hlocate : w.engine.locate (w.url chatId) with
    | error e => exact .refl w
    | ok place =>
      refine ⟨fun _ => rfl, fun _ => rfl, rfl, rfl, rfl, fun hw chat other hother => ?_⟩
      change (w.pools.insert chatId place).get chat = some other at hother
      rw [HashMap.get_insert] at hother
      by_cases hchat : chat = chatId
      · rw [if_pos hchat, Option.some_inj] at hother
        rw [hchat, ← hother]
        exact hlocate
      · rw [if_neg hchat] at hother
        exact hw chat other hother

/-- In a `Pooled` world a pool is of the file that the URL of the chat opens. -/
theorem World.Pooled.locate (hw : w.Pooled) (h : (w.pool chatId).1 = .ok place) :
    w.engine.locate (w.url chatId) = .ok place := by
  rw [World.pool] at h
  cases hget : w.pools.get chatId with
  | some other =>
    rw [hget] at h
    cases h
    exact hw chatId place hget
  | none =>
    rw [hget] at h
    cases hlocate : w.engine.locate (w.url chatId) with
    | error e => rw [hlocate] at h; cases h
    | ok other => rw [hlocate] at h; cases h; rfl

/-- In a `Pooled` world the pool of a chat whose URL opens a file is of this file. -/
theorem World.Pooled.pool (hw : w.Pooled) (h : w.engine.locate (w.url chatId) = .ok place) :
    (w.pool chatId).1 = .ok place := by
  rw [World.pool]
  cases hget : w.pools.get chatId with
  | some other =>
    rw [hw chatId other hget] at h
    cases h
    rfl
  | none => rw [h]

/-- A pool that `World.pool` opened is kept under its chat. -/
theorem World.get_pool (h : (w.pool chatId).1 = .ok place) :
    (w.pool chatId).2.pools.get chatId = some place := by
  rw [World.pool] at h ⊢
  cases hget : w.pools.get chatId with
  | some other =>
    rw [hget] at h
    cases h
    exact hget
  | none =>
    rw [hget] at h
    cases hlocate : w.engine.locate (w.url chatId) with
    | error e => rw [hlocate] at h; cases h
    | ok other =>
      rw [hlocate] at h
      cases h
      exact (HashMap.get_insert ..).trans (if_pos rfl)

/-- `World.pool` answers the pool of a chat that has one. -/
theorem World.pool_of_get (h : w.pools.get chatId = some place) : (w.pool chatId).1 = .ok place := by
  rw [World.pool, h]

/-- `World.pool` answers the same the second time. -/
theorem World.pool_pool (h : (w.pool chatId).1 = .ok place) :
    ((w.pool chatId).2.pool chatId).1 = .ok place := World.pool_of_get (World.get_pool h)

/-- `World.pool` leaves the pools that there are. -/
theorem World.get_pool_of_get {chat : Str} (h : w.pools.get chat = some place) (chatId : Str) :
    (w.pool chatId).2.pools.get chat = some place := by
  by_cases hchat : chat = chatId
  · subst hchat
    exact World.get_pool (World.pool_of_get h)
  rw [World.pool]
  cases hget : w.pools.get chatId with
  | some other => exact h
  | none =>
    cases hlocate : w.engine.locate (w.url chatId) with
    | error e => exact h
    | ok other => exact (HashMap.get_insert ..).trans ((if_neg hchat).trans h)

/-- `World.pool` leaves the files alone. -/
@[simp] theorem World.pool_files (w : World) (chatId : Str) : (w.pool chatId).2.files = w.files := by
  rw [World.pool]
  cases w.pools.get chatId with
  | some place => rfl
  | none => cases w.engine.locate (w.url chatId) <;> rfl

/-- `World.start` is `Pooled`: it has no pools. -/
theorem World.pooled_start (dbRoot : Str) (clock : Nat → System.DateTime) (engine : Engine) :
    (World.start dbRoot clock engine).Pooled := fun _ _ h => nomatch h

/-- `pool` answers what `World.pool` answers, and leaves the world that it leaves. -/
@[simp] theorem eval_pool (w : World) (chatId : Str) :
    eval handler (pool chatId) w = ((w.pool chatId).1, (w.pool chatId).2) := rfl

end Pools

/-! ## What leaves the archives as they are -/

/-- An operation that leaves the archives and the session store as they are. -/
def QuietOp : MemoryOp → Prop
  | .sql _ (.insertMessage ..) | .sql _ (.insertMessageFts ..) | .observe _ => False
  | _ => True

/-- A statement that is a `QuietOp` leaves the archive as it is. -/
theorem sameArchive_sql {w : World} {place : Place} {statement : Statement}
    (h : QuietOp (.sql place statement)) :
    SameArchive w (w.withDb place (exec w.engine statement (w.files place)).2) := by
  have hdb : (exec w.engine statement (w.files place)).2.messages = (w.files place).messages ∧
      (exec w.engine statement (w.files place)).2.messagesFts = (w.files place).messagesFts := by
    cases statement with
    | insertMessage => exact h.elim
    | insertMessageFts => exact h.elim
    | _ => exact ⟨rfl, rfl⟩
  refine ⟨fun place' => ?_, fun place' => ?_, rfl, rfl, rfl, id⟩
  · by_cases hplace : place' = place
    · rw [hplace, World.withDb_files_self, hdb.1]
    · rw [World.withDb_files_ne _ _ _ _ hplace]
  · by_cases hplace : place' = place
    · rw [hplace, World.withDb_files_self, hdb.2]
    · rw [World.withDb_files_ne _ _ _ _ hplace]

/-- A `QuietOp` leaves the archives as they are. -/
theorem sameArchive_handler {op : MemoryOp} (h : QuietOp op) (w : World) :
    SameArchive w (handler op w).2 := by
  cases op with
  | pool chatId => exact sameArchive_pool w chatId
  | now => exact ⟨fun _ => rfl, fun _ => rfl, rfl, rfl, rfl, id⟩
  | sql place statement => exact sameArchive_sql h
  | observe msg => exact h.elim

/-- A program of operations with `QuietOp` leaves the archives as they are. -/
theorem sameArchive_eval {α : Type} {p : MemoryM α} (hp : p.run.AllOps QuietOp) (w : World) :
    SameArchive w (eval handler p w).2 :=
  Program.AllOps.run_keeps handler (I := fun w' => SameArchive w w')
    (fun _ w' hop h => h.trans (sameArchive_handler hop w')) hp (.refl w)

/-! ## The programs that do so -/

section Quiet

variable (json : JsonCodec) (place : Place) (chatId : Str)

/-- `send` of a quiet statement is quiet. -/
theorem quiet_send (context : Str) {statement : Statement} (h : QuietOp (.sql place statement)) :
    (send context place statement).run.AllOps QuietOp :=
  Program.AllOps.bind ((Program.allOps_perform _).mpr h) fun _ => trivial

/-- `pool` performs a `QuietOp` only. -/
theorem quiet_pool : (pool chatId).run.AllOps QuietOp := (Program.allOps_perform _).mpr trivial

/-- `utcNow` performs a `QuietOp` only. -/
theorem quiet_utcNow : utcNow.run.AllOps QuietOp :=
  Program.AllOps.lift ((Program.allOps_perform _).mpr trivial)

/-- `parseJson` performs no operation, so it is quiet. -/
theorem quiet_parseJson (text : Str) : (parseJson json text).run.AllOps QuietOp := by
  rw [parseJson]
  split <;> trivial

/-- `getById` is quiet. -/
theorem quiet_getById (msgId : Int) : (MessageDb.getById json chatId msgId).run.AllOps QuietOp :=
  Program.AllOps.exceptBind (quiet_pool chatId) fun place =>
    Program.AllOps.exceptBind (quiet_send place _ trivial) fun _ => trivial

/-- `searchFts` is quiet. -/
theorem quiet_searchFts (query : Str) (limit : Int) :
    (MessageDb.searchFts json chatId query limit).run.AllOps QuietOp :=
  Program.AllOps.exceptBind (quiet_pool chatId) fun place =>
    Program.AllOps.exceptBind (quiet_send place _ trivial) fun _ => trivial

/-- `rangeFetch` is quiet. -/
theorem quiet_rangeFetch (params : Str) :
    (MessageDb.rangeFetch json chatId params).run.AllOps QuietOp := by
  refine Program.AllOps.exceptBind (quiet_parseJson json params) fun val => ?_
  dsimp only
  split
  · trivial
  · exact Program.AllOps.exceptBind (quiet_pool chatId) fun place =>
      Program.AllOps.exceptBind (quiet_send place _ trivial) fun _ => trivial

/-- `queryView` is quiet, by whichever view. -/
theorem quiet_queryView (viewName params : Str) :
    (MemoryModule.queryView json viewName chatId params).run.AllOps QuietOp := by
  have hbySpeaker : ∀ place, (bySpeakerView json place chatId params).run.AllOps QuietOp :=
    fun place => Program.AllOps.exceptBind (quiet_parseJson json params) fun val =>
      Program.AllOps.exceptBind (quiet_send place _ trivial) fun _ => trivial
  have hrecent : ∀ place, (recentView json place chatId params).run.AllOps QuietOp :=
    fun place => Program.AllOps.exceptBind (quiet_send place _ trivial) fun _ => trivial
  rw [MemoryModule.queryView, viewNamed]
  split_ifs
  · exact Program.AllOps.exceptBind (quiet_pool chatId) hbySpeaker
  · exact Program.AllOps.exceptBind (quiet_pool chatId) hrecent
  · trivial

/-- `handleCall` performs operations with `QuietOp` only. -/
theorem quiet_handleCall (tool params : Str) :
    (MemoryModule.handleCall json tool params).run.AllOps QuietOp := by
  refine Program.AllOps.exceptBind (quiet_parseJson json params) fun val => ?_
  dsimp only
  split_ifs
  · exact quiet_searchFts json _ _ _
  · exact quiet_rangeFetch json _ _
  · split
    · exact quiet_queryView json _ _ _
    · trivial

/-- A plugin whose operations are quiet. -/
structure MemoryPlugin.Quiet (plugin : MemoryPlugin) : Prop where
  /-- It does not have the name of the archive. -/
  name : plugin.name ≠ "messages".toList
  /-- Reading is quiet. -/
  read : ∀ place chatId path, (plugin.read place chatId path).run.AllOps QuietOp
  /-- Writing is quiet. -/
  write : ∀ place chatId path content, (plugin.write place chatId path content).run.AllOps QuietOp
  /-- Patching is quiet. -/
  patch : ∀ place chatId path partialText,
    (plugin.patch place chatId path partialText).run.AllOps QuietOp

/-- Reads, writes and patches of the plugin `summary` are quiet. -/
theorem quiet_hierarchicalPlugin : (hierarchicalPlugin json).Quiet := by
  have hread : ∀ place chatId path,
      (HierarchicalPlugin.read json place chatId path).run.AllOps QuietOp := by
    intro place chatId path
    cases path with
    | nil => trivial
    | cons layer rest =>
      refine Program.AllOps.exceptBind ?_ fun _ => trivial
      exact Program.AllOps.exceptBind (quiet_send place _ trivial) fun _ => trivial
  have hwrite : ∀ place chatId path content,
      (HierarchicalPlugin.write json place chatId path content).run.AllOps QuietOp :=
    fun place _ _ content => Program.AllOps.exceptBind (quiet_parseJson json content) fun val =>
      Program.AllOps.exceptBind quiet_utcNow fun now => quiet_send place _ trivial
  have hname : "summary".toList ≠ "messages".toList := by decide
  refine ⟨hname, hread, hwrite, fun place chatId path partialText => ?_⟩
  refine Program.AllOps.exceptBind (hread place chatId path) fun existing => ?_
  split
  · exact hwrite place chatId path _
  · exact hwrite place chatId path _

/-- Reads, writes and patches of the plugin `graph` are quiet. -/
theorem quiet_graphPlugin : (graphPlugin json).Quiet := by
  have hwrite : ∀ place chatId path content,
      (GraphPlugin.write json place chatId path content).run.AllOps QuietOp := by
    intro place chatId path content
    cases path with
    | nil => trivial
    | cons subject rest =>
      refine Program.AllOps.exceptBind quiet_utcNow fun now =>
        Program.AllOps.exceptBind (quiet_parseJson json content) fun val =>
          Program.AllOps.forM (fun triple => ?_) _
      split
      · trivial
      · exact quiet_send place _ trivial
  have hname : "graph".toList ≠ "messages".toList := by decide
  refine ⟨hname, fun place chatId path => ?_, hwrite, hwrite⟩
  cases path with
  | nil => exact Program.AllOps.exceptBind (quiet_send place _ trivial) fun _ => trivial
  | cons subject rest =>
    refine Program.AllOps.exceptBind (quiet_send place _ trivial) fun rows => ?_
    split <;> trivial

variable {json}

/-- The plugins that `pluginFor` finds are `Quiet`. -/
theorem quiet_of_pluginFor {resource : Str} {plugin : MemoryPlugin}
    (h : MemoryModule.pluginFor json resource = some plugin) :
    plugin.Quiet ∧ plugin.name = resource := by
  have hmem : plugin ∈ MemoryModule.plugins json := List.mem_of_find?_eq_some h
  refine ⟨?_, by simpa using List.find?_some h⟩
  rcases List.mem_cons.mp hmem with rfl | hmem
  · exact quiet_hierarchicalPlugin json
  · rw [List.mem_singleton.mp hmem]
    exact quiet_graphPlugin json

/-- `pluginFor` finds no plugin with the name of the archive. -/
theorem pluginFor_messages : MemoryModule.pluginFor json "messages".toList = none := by
  cases h : MemoryModule.pluginFor json "messages".toList with
  | none => rfl
  | some plugin =>
    obtain ⟨hquiet, hname⟩ := quiet_of_pluginFor h
    exact absurd hname hquiet.name

variable (json)

/-- `MemoryModule.read` performs operations with `QuietOp` only. -/
theorem quiet_read (path : List Str) : (MemoryModule.read json path).run.AllOps QuietOp := by
  unfold MemoryModule.read
  split
  · trivial
  rcases path with _ | ⟨groups, _ | ⟨gid, _ | ⟨resource, rest⟩⟩⟩
  · trivial
  · trivial
  · trivial
  dsimp only
  split_ifs
  · trivial
  · rcases rest with _ | ⟨msgIdStr, rest⟩
    · trivial
    · dsimp only
      split
      · trivial
      · exact Program.AllOps.exceptBind (quiet_getById json _ _) fun _ => trivial
  · rcases rest with _ | ⟨viewName, params⟩
    · trivial
    · exact quiet_queryView json _ _ _
  · split
    · rename_i hplugin
      exact Program.AllOps.exceptBind (quiet_pool _) fun place =>
        (quiet_of_pluginFor hplugin).1.read place _ _
    · trivial

end Quiet

end LogosFs.Memory
