import Mathlib.Data.List.Dedup
import LogosFs.Lib.Upsert
import LogosFs.Memory.Ingestion

/-! # The graph of a group

The plugin `graph` keeps triples of a subject, a predicate and an object in the database of a group: a
triple that is told again is replaced, and none is ever removed. `graphExact_after` says what the graph
of a group shows after any run of requests to the memory module: of each triple that was told, what was
told last of it. -/

namespace LogosFs.Memory

open Program (eval AllOps)
open Sessions (MsgRef)
open LogosFs.System (DateTime strField)

variable (json : JsonCodec)

/-! ## What reading asks for -/

/-- A statement that only looks. -/
def Statement.Selects : Statement → Prop
  | .selectMessage _ | .matchMessages .. | .rangeMessages .. | .recentMessages .. | .selectSummary ..
  | .listSubjects | .selectTriples _ => True
  | _ => False

/-- An operation that only looks. -/
def Looks : MemoryOp → Prop
  | .pool _ | .now => True
  | .sql _ statement => statement.Selects
  | .observe _ => False

section Looks

variable (place : Place) (chatId : Str)

/-- `send` of a statement that `Selects` only looks. -/
theorem looks_send (context : Str) {statement : Statement} (h : statement.Selects) :
    (send context place statement).run.AllOps Looks :=
  AllOps.bind ((Program.allOps_perform _).mpr h) fun _ => trivial

/-- `pool` only looks. -/
theorem looks_pool : (pool chatId).run.AllOps Looks := (Program.allOps_perform _).mpr trivial

/-- `parseJson` performs no operation, so it only looks. -/
theorem looks_parseJson (text : Str) : (parseJson json text).run.AllOps Looks := by
  rw [parseJson]
  split <;> trivial

/-- `getById` selects one message, so it only looks. -/
theorem looks_getById (msgId : Int) : (MessageDb.getById json chatId msgId).run.AllOps Looks :=
  AllOps.exceptBind (looks_pool chatId) fun place =>
    AllOps.exceptBind (looks_send place _ trivial) fun _ => trivial

/-- `searchFts` matches messages in the index, so it only looks. -/
theorem looks_searchFts (query : Str) (limit : Int) :
    (MessageDb.searchFts json chatId query limit).run.AllOps Looks :=
  AllOps.exceptBind (looks_pool chatId) fun place =>
    AllOps.exceptBind (looks_send place _ trivial) fun _ => trivial

/-- `rangeFetch` selects messages by their ids, so it only looks. -/
theorem looks_rangeFetch (params : Str) : (MessageDb.rangeFetch json chatId params).run.AllOps Looks := by
  refine AllOps.exceptBind (looks_parseJson json params) fun val => ?_
  dsimp only
  split
  · trivial
  · exact AllOps.exceptBind (looks_pool chatId) fun place =>
      AllOps.exceptBind (looks_send place _ trivial) fun _ => trivial

/-- `queryView` answers from the messages, by whichever view, so it only looks. -/
theorem looks_queryView (viewName params : Str) :
    (MemoryModule.queryView json viewName chatId params).run.AllOps Looks := by
  rw [MemoryModule.queryView, viewNamed]
  split_ifs
  · refine AllOps.exceptBind (looks_pool chatId) fun place => ?_
    exact AllOps.exceptBind (looks_parseJson json params) fun val =>
      AllOps.exceptBind (looks_send place _ trivial) fun _ => trivial
  · refine AllOps.exceptBind (looks_pool chatId) fun place => ?_
    exact AllOps.exceptBind (looks_send place _ trivial) fun _ => trivial
  · trivial

/-- `handleCall` only looks: it performs operations with `Looks`. -/
theorem looks_handleCall (tool params : Str) :
    (MemoryModule.handleCall json tool params).run.AllOps Looks := by
  refine AllOps.exceptBind (looks_parseJson json params) fun val => ?_
  dsimp only
  split_ifs
  · exact looks_searchFts json _ _ _
  · exact looks_rangeFetch json _ _
  · split
    · exact looks_queryView json _ _ _
    · trivial

/-- The plugin `summary` reads summaries by `selectSummary`, so its reads only look. -/
theorem looks_hierarchicalRead (path : List Str) :
    (HierarchicalPlugin.read json place chatId path).run.AllOps Looks := by
  cases path with
  | nil => trivial
  | cons layer rest =>
    refine AllOps.exceptBind ?_ fun _ => trivial
    exact AllOps.exceptBind (looks_send place _ trivial) fun _ => trivial

/-- The plugin `graph` reads its subjects or the triples of one, so its reads only look. -/
theorem looks_graphRead (path : List Str) :
    (GraphPlugin.read json place chatId path).run.AllOps Looks := by
  cases path with
  | nil => exact AllOps.exceptBind (looks_send place _ trivial) fun _ => trivial
  | cons subject rest =>
    refine AllOps.exceptBind (looks_send place _ trivial) fun rows => ?_
    split <;> trivial

variable {json}

/-- `pluginFor` knows two plugins, each under its name. -/
theorem pluginFor_cases {resource : Str} {plugin : MemoryPlugin}
    (h : MemoryModule.pluginFor json resource = some plugin) :
    resource = "summary".toList ∧ plugin = hierarchicalPlugin json ∨
      resource = "graph".toList ∧ plugin = graphPlugin json := by
  have hmem : plugin ∈ MemoryModule.plugins json := List.mem_of_find?_eq_some h
  have hname : plugin.name = resource := by simpa using List.find?_some h
  rcases List.mem_cons.mp hmem with rfl | hmem
  · exact .inl ⟨hname.symm, rfl⟩
  · rw [List.mem_singleton] at hmem
    subst hmem
    exact .inr ⟨hname.symm, rfl⟩

variable (json)

/-- `MemoryModule.read` only looks: it performs operations with `Looks`. -/
theorem looks_read (path : List Str) : (MemoryModule.read json path).run.AllOps Looks := by
  unfold MemoryModule.read
  split
  · trivial
  rcases path with _ | ⟨groups, _ | ⟨gid, _ | ⟨resource, rest⟩⟩⟩
  · trivial
  · trivial
  · trivial
  dsimp only
  split_ifs
  · trivial
  · rcases rest with _ | ⟨msgIdStr, rest⟩
    · trivial
    · dsimp only
      split
      · trivial
      · exact AllOps.exceptBind (looks_getById json _ _) fun _ => trivial
  · rcases rest with _ | ⟨viewName, params⟩
    · trivial
    · exact looks_queryView json _ _ _
  · split
    · rename_i plugin hplugin
      refine AllOps.exceptBind (looks_pool _) fun place => ?_
      rcases pluginFor_cases hplugin with ⟨-, rfl⟩ | ⟨-, rfl⟩
      · exact looks_hierarchicalRead json place _ _
      · exact looks_graphRead json place gid _
    · trivial

end Looks

/-! ## What is told -/

/-- The path of the graph of a group, or of a subject in it. -/
def graphPath (gid : Str) (rest : List Str) : List Str :=
  "groups".toList :: gid :: "graph".toList :: rest

/-- A JSON value that has a predicate and an object. -/
def TellsTriple (triple : Json) : Prop := strField triple "predicate" ≠ [] ∧ strField triple "object" ≠ []

instance (triple : Json) : Decidable (TellsTriple triple) := inferInstanceAs (Decidable (_ ∧ _))

/-- Success, or why a text is not JSON. -/
def checked (content : Str) : Except VfsError Unit :=
  match json.fromStr content with
  | .ok _ => .ok ()
  | .error e => .error (.invalidJson e)

/-- The triples that a text tells of a subject: its elements if it is an array, or itself, where they
have a predicate and an object. -/
def toldBy (subject content : Str) (now : DateTime) : List TripleRow :=
  match json.fromStr content with
  | .ok val => ((val.asArray.getD [val]).filter fun triple => TellsTriple triple).map fun triple =>
      GraphPlugin.newRow json triple subject now
  | .error _ => []

/-- The triples that a request tells to a file: a write or a patch of a subject of a group whose
database is in the file. -/
def Request.told (w : World) (place : Place) : Request → List TripleRow
  | .write path content | .patch path content => match path with
    | groups :: gid :: resource :: subject :: _ =>
      if groups = "groups".toList ∧ resource = "graph".toList ∧ w.engine.locate (w.url gid) = .ok place
      then toldBy json subject content (w.clock 0)
      else []
    | _ => []
  | _ => []

/-- The triples that some requests tell to a file, one after another. -/
def told (place : Place) : World → List Request → List TripleRow
  | _, [] => []
  | w, request :: requests => request.told json w place ++ told place (request.after json w) requests

/-- From one world to another one, some triples have been put into each file. -/
structure Learns (rows : Place → List TripleRow) (w w' : World) : Prop where
  /-- They are put into the table one after another. -/
  triples : ∀ place, (w'.files place).triples
    = (rows place).foldl (Upsert.put TripleRow.key) (w.files place).triples
  /-- The directory is the same. -/
  dbRoot : w'.dbRoot = w.dbRoot
  /-- The engine is the same. -/
  engine : w'.engine = w.engine
  /-- Pools stay of the right files. -/
  pooled : w.Pooled → w'.Pooled

namespace Learns

variable {rows rows' : Place → List TripleRow} {w w' w'' : World}

/-- `Learns` nothing is reflexive. -/
theorem refl (w : World) : Learns (fun _ => []) w w := ⟨fun _ => rfl, rfl, rfl, id⟩

/-- What a world `Learns` first and what it learns afterwards is learned in this order. -/
theorem trans (h : Learns rows w w') (h' : Learns rows' w' w'') :
    Learns (fun place => rows place ++ rows' place) w w'' where
  triples place := by rw [h'.triples, h.triples, List.foldl_append]
  dbRoot := h'.dbRoot.trans h.dbRoot
  engine := h'.engine.trans h.engine
  pooled hw := h'.pooled (h.pooled hw)

/-- What `Learns` nothing may come first. -/
theorem after (h : Learns (fun _ => []) w w') (h' : Learns rows w' w'') : Learns rows w w'' := h.trans h'

/-- `Learns` depends on the rows file by file only. -/
theorem congr (h : Learns rows w w') (heq : ∀ place, rows place = rows' place) : Learns rows' w w' :=
  funext heq ▸ h

/-- Under `Learns` the URL of a chat is the same. -/
theorem url_eq (h : Learns rows w w') (chatId : Str) : w'.url chatId = w.url chatId := by
  unfold World.url World.dbPath
  rw [h.dbRoot]

end Learns

/-! ## What leaves the triples as they are -/

/-- An operation that does not write triples. -/
def SparesTriples : MemoryOp → Prop
  | .sql _ (.replaceTriple _) => False
  | _ => True

/-- An operation with `SparesTriples` leaves all triples as they are: it `Learns` nothing. -/
theorem learns_handler {op : MemoryOp} (h : SparesTriples op) (w : World) :
    Learns (fun _ => []) w (handler op w).2 := by
  cases op with
  | pool chatId =>
    have hsame := sameArchive_pool w chatId
    refine ⟨fun place => ?_, hsame.dbRoot, hsame.engine, hsame.pooled⟩
    show ((w.pool chatId).2.files place).triples = (w.files place).triples
    rw [World.pool_files]
  | now => exact ⟨fun _ => rfl, rfl, rfl, id⟩
  | observe msg => exact ⟨fun _ => rfl, rfl, rfl, id⟩
  | sql place statement =>
    have htriples : (exec w.engine statement (w.files place)).2.triples = (w.files place).triples := by
      cases statement with
      | replaceTriple row => exact h.elim
      | insertMessage msgId row =>
        rw [exec]
        split
        · rfl
        · split <;> rfl
      | _ => rfl
    refine ⟨fun place' => ?_, rfl, rfl, id⟩
    by_cases hplace : place' = place
    · rw [hplace]
      exact (congrArg ChatDb.triples (World.withDb_files_self ..)).trans htriples
    · exact congrArg ChatDb.triples (World.withDb_files_ne _ _ _ _ hplace)

/-- A program of operations with `SparesTriples` leaves all triples as they are. -/
theorem learns_eval {α : Type} {p : MemoryM α} (hp : p.run.AllOps SparesTriples) (w : World) :
    Learns (fun _ => []) w (eval handler p w).2 :=
  AllOps.run_keeps handler (I := fun w' => Learns (fun _ => []) w w')
    (fun _ w' hop h => h.trans (learns_handler hop w')) hp (.refl w)

/-- An operation with `Looks` has `SparesTriples`. -/
theorem sparesTriples_of_looks {op : MemoryOp} (h : Looks op) : SparesTriples op := by
  cases op with
  | sql place statement =>
    cases statement with
    | replaceTriple row => exact h.elim
    | _ => trivial
  | _ => trivial

section Spares

variable (place : Place) (chatId : Str)

/-- `send` of a statement that spares the triples spares them. -/
theorem sparesTriples_send (context : Str) {statement : Statement}
    (h : SparesTriples (.sql place statement)) :
    (send context place statement).run.AllOps SparesTriples :=
  AllOps.bind ((Program.allOps_perform _).mpr h) fun _ => trivial

/-- `utcNow` spares the triples. -/
theorem sparesTriples_utcNow : utcNow.run.AllOps SparesTriples :=
  AllOps.lift ((Program.allOps_perform _).mpr trivial)

/-- `writeMessage` inserts a message and its index entry, and spares the triples. -/
theorem sparesTriples_writeMessage (content : Str) :
    (MemoryModule.writeMessage json chatId content).run.AllOps SparesTriples := by
  refine AllOps.exceptBind ?_ fun msgId => ?_
  · refine AllOps.exceptBind ((looks_parseJson json content).mono fun _ => sparesTriples_of_looks)
      fun val => AllOps.exceptBind ((looks_pool chatId).mono fun _ => sparesTriples_of_looks)
        fun place => AllOps.exceptBind sparesTriples_utcNow fun now => ?_
    exact AllOps.exceptBind (sparesTriples_send place _ trivial) fun _ =>
      AllOps.exceptBind (sparesTriples_send place _ trivial) fun _ => trivial
  · split
    · exact AllOps.lift ((Program.allOps_perform _).mpr trivial)
    · trivial

/-- A write of the plugin `summary` spares the triples. -/
theorem sparesTriples_summaryWrite (path : List Str) (content : Str) :
    (HierarchicalPlugin.write json place chatId path content).run.AllOps SparesTriples :=
  AllOps.exceptBind ((looks_parseJson json content).mono fun _ => sparesTriples_of_looks) fun _ =>
    AllOps.exceptBind sparesTriples_utcNow fun _ => sparesTriples_send place _ trivial

/-- A patch of the plugin `summary` spares the triples. -/
theorem sparesTriples_summaryPatch (path : List Str) (partialText : Str) :
    (HierarchicalPlugin.patch json place chatId path partialText).run.AllOps SparesTriples := by
  refine AllOps.exceptBind ((looks_hierarchicalRead json place chatId path).mono fun _ =>
    sparesTriples_of_looks) fun existing => ?_
  split
  · exact sparesTriples_summaryWrite json place chatId path _
  · exact sparesTriples_summaryWrite json place chatId path _

end Spares

/-! ## Writing triples -/

/-- The world after a triple has been put into a file. -/
def World.putTriple (place : Place) (w : World) (row : TripleRow) : World :=
  w.withDb place { w.files place with triples := Upsert.put TripleRow.key (w.files place).triples row }

/-- `replaceTriple` puts the row into its file by `putTriple` and never fails. -/
theorem eval_replaceTriple (w : World) (place : Place) (row : TripleRow) :
    eval handler (replaceTriple place row) w = (.ok (), w.putTriple place row) := eval_send w place _ _

/-- The rows for one file. -/
def onlyAt (place : Place) (rows : List TripleRow) (place' : Place) : List TripleRow :=
  if place' = place then rows else []

/-- Rows put one after another by `putTriple` are learned by their file, and by no other one. -/
theorem learns_foldl_putTriple (place : Place) (rows : List TripleRow) (w : World) :
    Learns (onlyAt place rows) w (rows.foldl (World.putTriple place) w) := by
  induction rows generalizing w with
  | nil => exact (Learns.refl w).congr fun place' => by rw [onlyAt, ite_self]
  | cons row rows ih =>
    have hfirst : Learns (onlyAt place [row]) w (w.putTriple place row) := by
      refine ⟨fun place' => ?_, rfl, rfl, id⟩
      by_cases hplace : place' = place
      · rw [onlyAt, if_pos hplace, hplace, World.putTriple, World.withDb_files_self]
        rfl
      · rw [onlyAt, if_neg hplace, World.putTriple, World.withDb_files_ne _ _ _ _ hplace]
        rfl
    refine (hfirst.trans (ih (w.putTriple place row))).congr fun place' => ?_
    by_cases hplace : place' = place <;> simp [onlyAt, hplace]

/-- **A write of the graph** by `GraphPlugin.write` fails if its text is not JSON, and else puts the
triples in `toldBy`. -/
theorem eval_graphWrite (w : World) (place : Place) (gid subject content : Str) (rest : List Str) :
    eval handler (GraphPlugin.write json place gid (subject :: rest) content) w
      = (checked json content,
        (toldBy json subject content (w.clock 0)).foldl (World.putTriple place) w.tick) := by
  rw [GraphPlugin.write, Program.eval_bind, eval_utcNow, Program.evalNext_ok, Program.eval_bind,
    parseJson, toldBy, checked]
  cases hparse : json.fromStr content with
  | error e => rfl
  | ok val =>
    rw [Program.eval_pure, Program.evalNext_ok,
      Program.eval_forM handler (fun w' triple => if TellsTriple triple
        then w'.putTriple place (GraphPlugin.newRow json triple subject (w.clock 0)) else w')
        (fun triple w' => ?_)]
    · simp only [List.foldl_map, List.foldl_filter, decide_eq_true_eq]
    · by_cases htells : TellsTriple triple
      · rw [if_pos htells, if_neg (by rw [not_or]; exact htells), eval_replaceTriple]
      · rw [if_neg htells, if_pos (by rwa [TellsTriple, not_and_or, not_not, not_not] at htells),
          Program.eval_pure]

/-! ## Runs -/

section Runs

variable {json} {w : World}

/-- `World.pool` leaves the clock as it is. -/
theorem World.pool_clock (w : World) (chatId : Str) : (w.pool chatId).2.clock = w.clock := by
  rw [World.pool]
  split
  · rfl
  · split <;> rfl

/-- `World.pool` teaches nothing: it `Learns` no triple. -/
theorem learns_pool (w : World) (chatId : Str) : Learns (fun _ => []) w (w.pool chatId).2 :=
  @learns_handler (.pool chatId) trivial w

/-- A write to the graph of a group `Learns` what its request has `told`. -/
theorem learns_graphWrite (hpooled : w.Pooled) (gid content : Str) (rest : List Str) :
    Learns ((Request.write (graphPath gid rest) content).told json w) w
      (eval handler (pool gid >>= fun place => GraphPlugin.write json place gid rest content) w).2 := by
  rw [Program.eval_bind, eval_pool]
  cases hplace : (w.pool gid).1 with
  | error e =>
    -- No database is opened, so the request tells nothing.
    refine (learns_pool w gid).congr fun place => ?_
    cases rest with
    | nil => rfl
    | cons subject rest =>
      rw [graphPath, Request.told, if_neg]
      rintro ⟨-, -, hlocate⟩
      rw [hpooled.pool hlocate] at hplace
      cases hplace
  | ok place =>
    rw [Program.evalNext_ok]
    cases rest with
    | nil => exact learns_pool w gid
    | cons subject rest =>
      rw [eval_graphWrite]
      have hwrite := learns_foldl_putTriple place
        (toldBy json subject content ((w.pool gid).2.clock 0)) (w.pool gid).2.tick
      have htick : Learns (fun _ => []) (w.pool gid).2 (w.pool gid).2.tick :=
        ⟨fun _ => rfl, rfl, rfl, id⟩
      refine (((learns_pool w gid).trans htick).trans hwrite).congr fun place' => ?_
      rw [World.pool_clock, graphPath, Request.told, onlyAt, hpooled.locate hplace]
      by_cases heq : place' = place
      · subst heq
        simp
      · simp [heq, Ne.symm heq]

/-- The resource `graph` is that of `graphPlugin`. -/
theorem pluginFor_graph : MemoryModule.pluginFor json "graph".toList = some (graphPlugin json) := rfl

/-- A request to another resource than the graph has `told` nothing. -/
theorem told_of_ne {gid resource content : Str} {rest : List Str} (h : resource ≠ "graph".toList)
    (groups : Str) : (Request.write (groups :: gid :: resource :: rest) content).told json w
      = fun _ => [] := by
  funext place
  cases rest with
  | nil => rfl
  | cons subject rest => exact if_neg fun hgraph => h hgraph.2.1

/-- `MemoryModule.write` `Learns` what its request has `told`. -/
theorem learns_write (hpooled : w.Pooled) (path : List Str) (content : Str) :
    Learns ((Request.write path content).told json w) w
      (eval handler (MemoryModule.write json path content) w).2 := by
  rcases path with _ | ⟨groups, _ | ⟨gid, _ | ⟨resource, rest⟩⟩⟩
  · exact .refl w
  · exact .refl w
  · exact .refl w
  rw [MemoryModule.write]
  split_ifs with hgroups hmessages
  · refine (Learns.refl w).congr fun place => ?_
    cases rest with
    | nil => rfl
    | cons subject rest => exact (if_neg fun hgraph => hgroups hgraph.1).symm
  · rw [hmessages, told_of_ne (by decide)]
    exact learns_eval (sparesTriples_writeMessage json gid content) w
  · split
    · rename_i plugin hplugin
      rcases pluginFor_cases hplugin with ⟨hsummary, rfl⟩ | ⟨hgraph, rfl⟩
      · rw [hsummary, told_of_ne (by decide)]
        exact learns_eval (AllOps.exceptBind ((looks_pool gid).mono fun _ => sparesTriples_of_looks)
          fun place => sparesTriples_summaryWrite json place gid rest content) w
      · rw [not_not.mp hgroups, hgraph]
        exact learns_graphWrite hpooled gid content rest
    · rename_i hplugin
      rw [told_of_ne fun hgraph => ?_]
      · exact .refl w
      · rw [hgraph, pluginFor_graph] at hplugin
        cases hplugin

/-- `MemoryModule.patch` `Learns` what a write of its text has `told`. -/
theorem learns_patch (hpooled : w.Pooled) (path : List Str) (partialText : Str) :
    Learns ((Request.patch path partialText).told json w) w
      (eval handler (MemoryModule.patch json path partialText) w).2 := by
  rcases path with _ | ⟨groups, _ | ⟨gid, _ | ⟨resource, rest⟩⟩⟩
  · exact .refl w
  · exact .refl w
  · exact .refl w
  rw [MemoryModule.patch]
  split_ifs with hgroups
  · refine (Learns.refl w).congr fun place => ?_
    cases rest with
    | nil => rfl
    | cons subject rest => exact (if_neg fun hgraph => hgroups hgraph.1).symm
  · split
    · rename_i plugin hplugin
      rcases pluginFor_cases hplugin with ⟨hsummary, rfl⟩ | ⟨hgraph, rfl⟩
      · have hne : resource ≠ "graph".toList := by rw [hsummary]; decide
        have htold : (Request.patch (groups :: gid :: resource :: rest) partialText).told json w
            = fun _ => [] := told_of_ne hne groups
        refine Learns.congr ?_ fun place => (congrFun htold place).symm
        exact learns_eval (AllOps.exceptBind ((looks_pool gid).mono fun _ => sparesTriples_of_looks)
          fun place => sparesTriples_summaryPatch json place gid rest partialText) w
      · rw [not_not.mp hgroups, hgraph]
        exact learns_graphWrite hpooled gid partialText rest
    · exact learns_write hpooled _ partialText

/-- **A request** `Learns` the triples that it has `told`, and no others. -/
theorem learns_after (hpooled : w.Pooled) (request : Request) :
    Learns (request.told json w) w (request.after json w) := by
  cases request with
  | read path => exact learns_eval ((looks_read json path).mono fun _ => sparesTriples_of_looks) w
  | write path content => exact learns_write hpooled path content
  | patch path partialText => exact learns_patch hpooled path partialText
  | call tool params =>
    exact learns_eval ((looks_handleCall json tool params).mono fun _ => sparesTriples_of_looks) w

/-- A run of requests `Learns` the triples that they have `told`, one after another. -/
theorem learns_run (hpooled : w.Pooled) (requests : List Request) :
    Learns (fun place => told json place w requests) w (after json w requests) := by
  induction requests generalizing w with
  | nil => exact .refl w
  | cons request requests ih =>
    have hfirst : Learns (request.told json w) w (request.after json w) := learns_after hpooled request
    exact hfirst.trans (ih (hfirst.pooled hpooled))

end Runs

/-! ## What a graph shows -/

/-- The graphs show what was told last of each triple: `told` is what was told to each file. -/
structure GraphExact (w : World) (told : Place → List TripleRow) : Prop where
  /-- A subject is read as its triples, each as it was told last, in the order of the predicates; or
  not found if there are none. -/
  readSubject : ∀ gid subject rest place, w.engine.locate (w.url gid) = .ok place →
    ∃ rows : List TripleRow, (rows.map TripleRow.key).Nodup ∧
      rows.Pairwise (fun row row' => row.predicate ≤ row'.predicate) ∧
      (∀ row, row ∈ rows ↔
        row.subject = subject ∧ Upsert.last TripleRow.key (told place) row.key = some row) ∧
      (eval handler (MemoryModule.read json (graphPath gid (subject :: rest))) w).1
        = if rows = [] then .error (.notFound ("no triples for subject: " ++ subject))
          else .ok (json.toStr (.array (rows.map tripleRowToJson)))
  /-- The graph is read as the subjects of what was told, each of them once, in order. -/
  readSubjects : ∀ gid place, w.engine.locate (w.url gid) = .ok place →
    ∃ subjects : List Str, subjects.Nodup ∧
      subjects.Pairwise (fun subject subject' => subject ≤ subject') ∧
      (∀ subject, subject ∈ subjects ↔ ∃ row ∈ told place, row.subject = subject) ∧
      (eval handler (MemoryModule.read json (graphPath gid [])) w).1
        = .ok (json.toStr (.strings subjects))
  /-- A write or a patch of a subject succeeds exactly if its text is JSON. -/
  writeSubject : ∀ gid subject rest content place, w.engine.locate (w.url gid) = .ok place →
    (eval handler (MemoryModule.write json (graphPath gid (subject :: rest)) content) w).1
        = checked json content ∧
      (eval handler (MemoryModule.patch json (graphPath gid (subject :: rest)) content) w).1
        = checked json content

section Shows

variable {json} {w : World} {gid : Str} {place : Place}

/-- A read of a `graphPath` opens the database of the group and reads by `GraphPlugin`. -/
theorem read_graphPath (gid : Str) (rest : List Str) : MemoryModule.read json (graphPath gid rest)
    = pool gid >>= fun place => GraphPlugin.read json place gid rest := rfl

/-- A write below `graphPath` opens the database of the group and writes by `GraphPlugin`. -/
theorem write_graphPath (gid content : Str) (rest : List Str) :
    MemoryModule.write json (graphPath gid rest) content
      = pool gid >>= fun place => GraphPlugin.write json place gid rest content := rfl

/-- A patch below `graphPath` does what a write does. -/
theorem patch_graphPath (gid content : Str) (rest : List Str) :
    MemoryModule.patch json (graphPath gid rest) content
      = pool gid >>= fun place => GraphPlugin.write json place gid rest content := rfl

/-- `mergeSort` by a text puts items in order of their texts. -/
theorem pairwise_mergeSort_text {α : Type} (text : α → Str) (items : List α) :
    (items.mergeSort fun a b => text a ≤ text b).Pairwise fun a b => text a ≤ text b := by
  have h := @List.pairwise_mergeSort α (fun a b => decide (text a ≤ text b))
    (fun a b c hab hbc => decide_eq_true (List.le_trans (of_decide_eq_true hab) (of_decide_eq_true hbc)))
    (fun a b => by simpa using List.le_total (text a) (text b)) items
  simpa using h

/-- A read of a subject answers its triples, sorted by `mergeSort`. -/
theorem eval_read_subject (hplace : (w.pool gid).1 = .ok place) (subject : Str) (rest : List Str) :
    (eval handler (MemoryModule.read json (graphPath gid (subject :: rest))) w).1
      = if ((w.files place).triples.filter fun row => row.subject = subject).mergeSort
            (fun row row' => row.predicate ≤ row'.predicate) = []
        then .error (.notFound ("no triples for subject: " ++ subject))
        else .ok (json.toStr (.array ((((w.files place).triples.filter fun row =>
          row.subject = subject).mergeSort fun row row' =>
            row.predicate ≤ row'.predicate).map tripleRowToJson))) := by
  have hselect : ∀ w₁ : World, eval handler (selectTriples place subject) w₁
      = (.ok (((w₁.files place).triples.filter fun row => row.subject = subject).mergeSort
          fun row row' => row.predicate ≤ row'.predicate), w₁) := by
    intro w₁
    exact (eval_send w₁ place _ _).trans (congrArg (Prod.mk _) (World.withDb_self w₁ place))
  rw [read_graphPath, Program.eval_bind, eval_pool, hplace, Program.evalNext_ok, GraphPlugin.read,
    Program.eval_bind, hselect, Program.evalNext_ok, World.pool_files]
  generalize ((w.files place).triples.filter fun row => row.subject = subject).mergeSort
    (fun row row' => row.predicate ≤ row'.predicate) = rows
  cases rows <;> rfl

/-- A read of the graph answers the subjects, sorted by `mergeSort`. -/
theorem eval_read_subjects (hplace : (w.pool gid).1 = .ok place) :
    (eval handler (MemoryModule.read json (graphPath gid [])) w).1
      = .ok (json.toStr (.strings (((w.files place).triples.map TripleRow.subject).dedup.mergeSort
          fun subject subject' => subject ≤ subject'))) := by
  have hselect : ∀ w₁ : World, eval handler (listSubjects place) w₁
      = (.ok (((w₁.files place).triples.map TripleRow.subject).dedup.mergeSort
          fun subject subject' => subject ≤ subject'), w₁) := by
    intro w₁
    exact (eval_send w₁ place _ _).trans (congrArg (Prod.mk _) (World.withDb_self w₁ place))
  rw [read_graphPath, Program.eval_bind, eval_pool, hplace, Program.evalNext_ok, GraphPlugin.read,
    Program.eval_bind, hselect, Program.evalNext_ok, World.pool_files]
  rfl

/-- A write of a subject answers what `checked` does: whether the text is JSON, once the database is
opened. -/
theorem eval_graphWrite_fst (hplace : (w.pool gid).1 = .ok place) (subject content : Str)
    (rest : List Str) :
    (eval handler (pool gid >>= fun place =>
        GraphPlugin.write json place gid (subject :: rest) content) w).1
      = checked json content := by
  rw [Program.eval_bind, eval_pool, hplace, Program.evalNext_ok, eval_graphWrite]

/-- **A table that holds what was told** shows it exactly: `GraphExact`. -/
theorem GraphExact.of_triples (hpooled : w.Pooled) {told : Place → List TripleRow}
    (htriples : ∀ place, (w.files place).triples = (told place).foldl (Upsert.put TripleRow.key) []) :
    GraphExact json w told := by
  have hnodup : ∀ place, ((w.files place).triples.map TripleRow.key).Nodup := by
    intro place
    rw [htriples]
    exact @Upsert.nodup_foldl_put _ _ _ TripleRow.key [] List.nodup_nil _
  -- A row is in the table exactly if it is what was told last of its triple.
  have hmem : ∀ place row, row ∈ (w.files place).triples ↔
      Upsert.last TripleRow.key (told place) row.key = some row := by
    intro place row
    have hlast := @Upsert.last_eq_some_iff _ _ _ TripleRow.key _ (hnodup place) row.key row
    rw [and_iff_left rfl] at hlast
    rw [← hlast, htriples, Upsert.last_foldl_put, Upsert.last_nil, Option.or_none]
  refine ⟨fun gid subject rest place hlocate => ?_, fun gid place hlocate => ?_,
    fun gid subject rest content place hlocate => ?_⟩
  · have hsorted := List.mergeSort_perm ((w.files place).triples.filter fun row =>
      row.subject = subject) fun row row' => row.predicate ≤ row'.predicate
    refine ⟨_, ?_, pairwise_mergeSort_text TripleRow.predicate _, fun row => ?_,
      eval_read_subject (hpooled.pool hlocate) subject rest⟩
    · rw [(hsorted.map TripleRow.key).nodup_iff]
      exact (hnodup place).sublist (List.filter_sublist.map _)
    · rw [hsorted.mem_iff, List.mem_filter, hmem, decide_eq_true_iff, and_comm]
  · have hsorted := List.mergeSort_perm ((w.files place).triples.map TripleRow.subject).dedup
      fun subject subject' => subject ≤ subject'
    refine ⟨((w.files place).triples.map TripleRow.subject).dedup.mergeSort fun subject subject' =>
      subject ≤ subject', ?_, pairwise_mergeSort_text id _, fun subject => ?_,
      eval_read_subjects (hpooled.pool hlocate)⟩
    · exact hsorted.nodup_iff.mpr (List.nodup_dedup _)
    · rw [hsorted.mem_iff, List.mem_dedup, List.mem_map]
      constructor
      · rintro ⟨row, hrow, rfl⟩
        exact ⟨row, (Upsert.mem_of_last _ ((hmem place row).mp hrow)).1, rfl⟩
      · rintro ⟨row, hrow, rfl⟩
        -- What was told last of its triple is in the table, under the same subject.
        obtain ⟨row', hlast⟩ := Upsert.exists_last TripleRow.key hrow
        have hkey := (Upsert.mem_of_last _ hlast).2
        refine ⟨row', (hmem place row').mpr (hkey ▸ hlast), congrArg Prod.fst hkey⟩
  · rw [write_graphPath, patch_graphPath]
    exact ⟨eval_graphWrite_fst (hpooled.pool hlocate) subject content rest,
      eval_graphWrite_fst (hpooled.pool hlocate) subject content rest⟩

end Shows

/-- **The graphs are exact**: `GraphExact` holds after every run of requests to the memory module,
from empty databases; what a graph shows of each triple is what the requests told last of it. -/
theorem graphExact_after (dbRoot : Str) (clock : Nat → DateTime) (engine : Engine)
    (requests : List Request) :
    GraphExact json (after json (.start dbRoot clock engine) requests) fun place =>
      told json place (.start dbRoot clock engine) requests := by
  have hpooled := World.pooled_start dbRoot clock engine
  have hlearns := @learns_run json _ hpooled requests
  exact .of_triples (hlearns.pooled hpooled) hlearns.triples

end LogosFs.Memory
