import LogosFs.Kernel.Persona
import LogosFs.Lib.SharedList
import LogosFs.Lib.Trace

/-! # Concurrent appends to the short memory

`append_persona_short` reads the array, adds the entry and writes the array back, without a lock. A
writer that succeeds does exactly this (`returns_appendTask`), so writers of one file, interleaved in
any way, are threads that append by copy (`copied_of_run`): no entry is lost if, and only if, no writer
writes between another's reading and writing (`appendsAll_iff`). -/

namespace LogosFs.Kernel

open Program (eval)

variable (json : JsonCodec) (root : HostPath) (cwd : List Str) (uid period : Str)

/-! ## Writers -/

/-- The path of the short memory of a period. -/
def shortPath : HostPath := root.join (Str.join [uid, "persona", "short", period])

/-- The entry that a content is appended as. -/
def shortEntry (content : Str) : Json := (json.fromStr content).toOption.getD (.string content)

/-- A write to the short memory. -/
def appendTask (content : Str) : Program FsSig (Except VfsError Unit) :=
  (UsersNs.write json root [uid, "persona", "short", period] content).run

/-- The writes, one thread each. -/
def appendThreads (contents : List Str) : List (Program FsSig Unit) :=
  contents.map fun content => appendTask json root uid period content >>= fun _ => .done ()

/-- All writes have returned `Ok`. -/
def AllOk (contents : List Str) (moves : List (Move FsSig FileTree)) : Prop :=
  ∀ i content, contents[i]? = some content →
    (appendTask json root uid period content).Returns (trace (diskHandler cwd) i moves) (.ok ())

/-- The array in the file; an empty one if there is no file. -/
def HoldsArray (place : List Str) (t : FileTree) (entries : List Json) : Prop :=
  StoresArray json place t entries ∨ (∀ text, t.lookup place ≠ some (.file text)) ∧ entries = []

/-- **No append is lost**: the array is that from before the writes, followed by all the written
entries in some order. -/
def AppendsAll (contents : List Str) (entries : List Json) (t : FileTree) : Prop :=
  ∃ order, order.Perm (contents.map (shortEntry json)) ∧
    HoldsArray json (shortPlace root cwd uid period) t (entries ++ order)

/-- What a move is to the array: a writer that reads takes a copy, one that writes stores it. -/
def copyStep? (move : Move FsSig FileTree) : Option CopyStep :=
  match move.op with
  | .readToString _ => some (.take move.thread)
  | .write .. => some (.store move.thread)
  | _ => none

/-- The moves as steps on the array. -/
def copySteps (moves : List (Move FsSig FileTree)) : List CopyStep := moves.filterMap copyStep?

/-- What an answer says about the array. -/
def ReadsArray (answer : Except FsError Str) (entries : List Json) : Prop :=
  (∃ text, answer = .ok text ∧ json.fromStr text = .ok (.array entries)) ∨
    (∃ message, answer = .error (.notFound message)) ∧ entries = []

section Writers

variable {json root cwd uid period}

/-! ## What a writer does -/

/-- `ask op` that returns an answer has performed `op` and got this answer. -/
theorem returns_ask {op : FsOp} {events : List (Event FsSig)} {answer : FsSig.Res op}
    (h : (ask op).run.Returns events (.ok answer)) : events = [⟨op, answer⟩] := by
  replace h : (Program.call op fun answer => .done (Except.ok (ε := VfsError) answer)).Follows events
    (.done (.ok answer)) := h
  cases h with
  | call rest =>
    obtain ⟨rfl, hanswer⟩ := rest.of_done
    rw [Except.ok.inj (Program.done.inj hanswer)]

/-- `orIo` that returns a value has performed nothing, and the answer was the value. -/
theorem returns_orIo {α : Type} {context : Str} {answer : Except FsError α} {value : α}
    {events : List (Event FsSig)} (h : (orIo context answer).run.Returns events (.ok value)) :
    events = [] ∧ answer = .ok value := by
  cases answer with
  | ok found =>
    obtain ⟨hevents, hvalue⟩ := Program.Follows.of_done h
    exact ⟨hevents, congrArg Except.ok (Except.ok.inj (Program.done.inj hvalue)).symm⟩
  | error e => cases h

/-- A `writePath` that succeeds makes directories, by `createDirAll` only, and then writes. -/
theorem returns_writePath {shown : HostPath → Str} {filePath : HostPath} {content : Str}
    {events : List (Event FsSig)} (h : (writePath shown filePath content).run.Returns events (.ok ())) :
    ∃ made, events = made ++ [⟨.write filePath content, (.ok () : Except FsError Unit)⟩] ∧
      ∀ event ∈ made, ∃ parent, event.op = .createDirAll parent := by
  unfold writePath at h
  obtain ⟨made, rest, _, rfl, hmade, hrest⟩ := Program.Returns.exceptBind_cases h
  obtain ⟨asked, shown', answer, rfl, hasked, hshown⟩ := Program.Returns.exceptBind_cases hrest
  obtain ⟨rfl, rfl⟩ := returns_orIo hshown
  rw [returns_ask hasked]
  refine ⟨made, by rw [List.append_nil], ?_⟩
  unfold makeParent at hmade
  cases hparent : filePath.parent with
  | none =>
    rw [hparent] at hmade
    obtain ⟨rfl, -⟩ := Program.Follows.of_done hmade
    exact fun _ h => nomatch h
  | some parent =>
    rw [hparent] at hmade
    obtain ⟨asked, shown', answer, rfl, hasked, hshown⟩ := Program.Returns.exceptBind_cases hmade
    obtain ⟨rfl, -⟩ := returns_orIo hshown
    rw [returns_ask hasked, List.append_nil]
    exact List.forall_mem_singleton.mpr ⟨parent, rfl⟩

/-- **A write that succeeds**, `appendTask`, reads an array, makes directories, and writes the array
with its entry. -/
theorem returns_appendTask {content : Str} {events : List (Event FsSig)}
    (h : (appendTask json root uid period content).Returns events (.ok ())) :
    ∃ (answer : Except FsError Str) (entries : List Json) (made : List (Event FsSig)),
      ReadsArray json answer entries ∧
      (∀ event ∈ made, ∃ parent, event.op = .createDirAll parent) ∧
      events = ⟨.readToString (shortPath root uid period), answer⟩ :: (made ++
        [⟨.write (shortPath root uid period)
          (json.toStr (.array (entries ++ [shortEntry json content]))),
          (.ok () : Except FsError Unit)⟩]) := by
  replace h : (UsersNs.appendPersonaShort json root [uid, "persona", "short", period] content).run.Returns
    events (.ok ()) := h
  -- What comes after the read succeeds only if an array was found.
  have hrest : ∀ existing events,
      (UsersNs.appendEntry json (shortPath root uid period) content existing).run.Returns events
          (.ok ()) → ∃ entries, json.fromStr existing = .ok (.array entries) ∧
        (writePath shownPath (shortPath root uid period)
          (json.toStr (.array (entries ++ [shortEntry json content])))).run.Returns events (.ok ()) := by
    intro existing events hreturns
    by_cases hparse : ∃ entries, json.fromStr existing = .ok (.array entries)
    · obtain ⟨entries, hparse⟩ := hparse
      rw [UsersNs.appendEntry_of_array hparse] at hreturns
      exact ⟨entries, hparse, hreturns⟩
    · obtain ⟨e, he⟩ := UsersNs.appendEntry_of_other (fun entries h => hparse ⟨entries, h⟩)
        (shortPath root uid period) content
      rw [he] at hreturns
      cases hreturns
  rw [UsersNs.appendPersonaShort] at h
  obtain ⟨asked, events, answer, rfl, hasked, hnext⟩ := Program.Returns.exceptBind_cases h
  obtain rfl := returns_ask hasked
  -- A file that is not found counts as the empty array; any other error ends the append.
  have hread : ∃ existing,
      (UsersNs.appendEntry json (shortPath root uid period) content existing).run.Returns events
        (.ok ()) ∧
      (answer = .ok existing ∨ ∃ message, answer = .error (.notFound message) ∧ existing = "[]") := by
    rcases answer with (message | message) | text
    · exact ⟨"[]", hnext, .inr ⟨message, rfl, rfl⟩⟩
    · cases hnext
    · exact ⟨text, hnext, .inl rfl⟩
  obtain ⟨existing, hreturns, hanswer⟩ := hread
  obtain ⟨entries, hparse, hwrite⟩ := hrest existing events hreturns
  obtain ⟨made, rfl, hmade⟩ := returns_writePath hwrite
  refine ⟨answer, entries, made, ?_, hmade, rfl⟩
  rcases hanswer with rfl | ⟨message, rfl, rfl⟩
  · exact .inl ⟨existing, rfl, hparse⟩
  · have hnil := fromStr_empty.symm.trans hparse
    exact .inr ⟨⟨message, rfl⟩, (Json.array.inj (Except.ok.inj hnil)).symm⟩

/-! ## The array in the file -/

variable {t t' : FileTree} {place : List Str} {entries entries' : List Json}

/-- The file decides the array: a place that `HoldsArray` of two of them has one. -/
theorem HoldsArray.inj (h : HoldsArray json place t entries) (h' : HoldsArray json place t entries') :
    entries = entries' := by
  rcases h with harray | ⟨hnone, rfl⟩ <;> rcases h' with harray' | ⟨hnone', rfl⟩
  · exact harray.inj harray'
  · obtain ⟨text, hlookup, -⟩ := harray
    exact absurd hlookup (hnone' text)
  · obtain ⟨text, hlookup, -⟩ := harray'
    exact absurd hlookup (hnone text)
  · rfl

/-- The array stays where `Spares` says that no text is changed. -/
theorem HoldsArray.of_spares (h : HoldsArray json place t entries) (hspares : t.Spares t' place) :
    HoldsArray json place t' entries := by
  rcases h with ⟨text, hlookup, hparse⟩ | ⟨hnone, rfl⟩
  · exact .inl ⟨text, hspares.lookup_eq_file_iff.mpr hlookup, hparse⟩
  · exact .inr ⟨fun text hlookup => hnone text (hspares.lookup_eq_file_iff.mp hlookup), rfl⟩

/-- **If no file is found there is none**: below a root that is a directory, `shortPath` is followed
until a directory is missing, so `shortPlace` is no file. -/
theorem lookup_ne_file_of_notFound (huid : uid ≠ [] ∧ '/' ∉ uid) (hperiod : period ≠ [] ∧ '/' ∉ period)
    (hroot : t.isDir cwd root = true)
    (hmissing : t.readToString cwd (shortPath root uid period) = .error .notFound) (text : Str) :
    t.lookup (shortPlace root cwd uid period) ≠ some (.file text) := by
  have hsegments : ∀ segment ∈ [uid, "persona".toList, "short".toList, period],
      segment ≠ [] ∧ '/' ∉ segment :=
    List.forall_mem_cons.mpr ⟨huid, List.forall_mem_cons.mpr ⟨by decide,
      List.forall_mem_cons.mpr ⟨by decide, List.forall_mem_singleton.mpr hperiod⟩⟩⟩
  rcases lookup_of_readToString_notFound hmissing with hlocate | hnone
  · obtain ⟨place, hplace⟩ : ∃ place, t.locate cwd root = .ok place := by
      unfold FileTree.isDir at hroot
      split at hroot
      · exact ⟨_, ‹_›⟩
      · cases hroot
    have hdir := FileTree.lookup_of_isDir hroot
    obtain rfl := FileTree.resolve_of_locate hplace
    -- The first segment can be followed from the root; the names after it are those of the path.
    rw [shortPath, FileTree.locate_join root hsegments, hplace] at hlocate
    rw [shortPlace, HostPath.resolve_join cwd root hsegments]
    replace hlocate : (Component.ofPiece uid :: ([("persona" : Str), "short"].map Component.name ++
      [Component.ofPiece period])).foldlM t.follow (root.resolve cwd) = .error .notFound := hlocate
    show t.lookup (LexicalPath.walk (LexicalPath.enter (root.resolve cwd) (Component.ofPiece uid))
      ([("persona" : Str), "short"].map Component.name ++ [Component.ofPiece period])) ≠ _
    have hstep : t.follow (root.resolve cwd) (Component.ofPiece uid)
        = .ok (LexicalPath.enter (root.resolve cwd) (Component.ofPiece uid)) := by
      rw [FileTree.follow, hdir]
    rw [List.foldlM_cons, hstep] at hlocate
    exact FileTree.lookup_walk_cons_ne_file hlocate text
  · show t.lookup ((shortPath root uid period).resolve cwd) ≠ _
    rw [hnone]
    simp

/-- What `ReadsArray` reads at `shortPath` is the array that `shortPlace` holds. -/
theorem HoldsArray.eq_of_reads (huid : uid ≠ [] ∧ '/' ∉ uid) (hperiod : period ≠ [] ∧ '/' ∉ period)
    (hroot : t.isDir cwd root = true)
    (h : HoldsArray json (shortPlace root cwd uid period) t entries)
    (hreads : ReadsArray json
      ((t.readToString cwd (shortPath root uid period)).mapError osError) entries') :
    entries = entries' := by
  refine h.inj ?_
  cases hanswer : t.readToString cwd (shortPath root uid period) with
  | ok found =>
    rw [hanswer] at hreads
    rcases hreads with ⟨text, heq, hparse⟩ | ⟨⟨message, heq⟩, -⟩
    · obtain rfl := Except.ok.inj heq
      exact .inl ⟨_, lookup_of_readToString hanswer, hparse⟩
    · cases heq
  | error e =>
    rw [hanswer] at hreads
    rcases hreads with ⟨text, heq, -⟩ | ⟨⟨message, heq⟩, rfl⟩
    · cases heq
    · -- Only a missing file is reported as one.
      cases e with
      | notFound => exact .inr ⟨lookup_ne_file_of_notFound huid hperiod hroot hanswer, rfl⟩
      | notDirectory => cases heq
      | isDirectory => cases heq
      | alreadyExists => cases heq

end Writers

/-! ## Writers, interleaved -/

/-- The entry that a thread appends. -/
def entryOf (contents : List Str) (i : Nat) : Json := shortEntry json (contents[i]?.getD [])

/-- The array and the copies of the writers, after some moves. -/
def sharedArray (contents : List Str) (entries : List Json) (moves : List (Move FsSig FileTree)) :
    SharedList Json :=
  SharedList.run (entryOf json contents) ⟨entries, fun _ => []⟩ (copySteps moves)

/-- The files are to the moves as the shared array is. -/
structure Copied (contents : List Str) (entries : List Json) (moves : List (Move FsSig FileTree))
    (t : FileTree) : Prop where
  /-- The file holds the shared array. -/
  holds : HoldsArray json (shortPlace root cwd uid period) t
    (sharedArray json contents entries moves).content
  /-- The root is there. -/
  isDir : t.isDir cwd root = true
  /-- Who has written has read. -/
  prepared : Prepared (copySteps moves)
  /-- What a writer has read is its copy. -/
  copies : ∀ i (answer : Except FsError Str) rest found, trace (diskHandler cwd) i moves
      = ⟨.readToString (shortPath root uid period), answer⟩ :: rest →
    ReadsArray json answer found → (sharedArray json contents entries moves).copies i = found

section Interleaved

variable {json root cwd uid period} {contents : List Str} {entries : List Json} {t : FileTree}
  {moves : List (Move FsSig FileTree)} {c : Config FsSig FileTree}

/-- `copySteps` of two sequences of moves is that of the one and then that of the other. -/
theorem copySteps_append (moves' : List (Move FsSig FileTree)) :
    copySteps (moves ++ moves') = copySteps moves ++ copySteps moves' := List.filterMap_append

/-- Where an `event` of a list stands, that is a `first` one, some in the `middle`, and a `last`
one. -/
theorem event_cases {α : Type} {before after middle : List α} {event first last : α}
    (h : before ++ event :: after = first :: (middle ++ [last])) :
    before = [] ∧ event = first ∨ (∃ rest, before = first :: rest ∧ event ∈ middle) ∨
      before = first :: middle ∧ event = last := by
  cases before with
  | nil => exact .inl ⟨rfl, (List.cons.inj h).1⟩
  | cons head rest =>
    rw [List.cons_append] at h
    obtain ⟨rfl, hrest⟩ := List.cons.inj h
    rcases List.eq_nil_or_concat after with rfl | ⟨init, end', rfl⟩
    · obtain ⟨rfl, hlast⟩ := List.append_inj' hrest rfl
      exact .inr (.inr ⟨rfl, List.singleton_inj.mp hlast⟩)
    · rw [List.concat_eq_append, ← List.cons_append, ← List.append_assoc] at hrest
      obtain ⟨rfl, -⟩ := List.append_inj' hrest rfl
      exact .inr (.inl ⟨rest, rfl, List.mem_append_right _ List.mem_cons_self⟩)

/-- Only the writers move: the `thread` of a move is one of `contents`. -/
theorem thread_lt_of_mem (run : Interleaving (diskHandler cwd)
      ⟨appendThreads json root uid period contents, t⟩ moves c)
    {move : Move FsSig FileTree} (hmove : move ∈ moves) : move.thread < contents.length := by
  obtain ⟨earlier, later, hsplit⟩ := List.append_of_mem hmove
  obtain ⟨p, next, hp, -⟩ := run.follows_of_split hsplit
  have hlt := (List.getElem?_eq_some_iff.mp hp).1
  rwa [appendThreads, List.length_map] at hlt

/-- A step of `copySteps`, `.take i` or `.store i`, is a move of its thread. -/
theorem exists_move_of_mem_copySteps {i : Nat}
    (h : .take i ∈ copySteps moves ∨ .store i ∈ copySteps moves) :
    ∃ move ∈ moves, move.thread = i := by
  have hstep : ∀ (move : Move FsSig FileTree) (step : CopyStep), copyStep? move = some step →
      step = .take move.thread ∨ step = .store move.thread := by
    intro move step hmove
    unfold copyStep? at hmove
    split at hmove <;> cases hmove
    · exact .inl rfl
    · exact .inr rfl
  rcases h with h | h <;> obtain ⟨move, hmove, hcopy⟩ := List.mem_filterMap.mp h <;>
    rcases hstep move _ hcopy with heq | heq <;> cases heq <;> exact ⟨move, hmove, rfl⟩

/-- What is in `sharedArray` or in a copy was among the `entries` before, or is the `shortEntry` of
a content. -/
theorem mem_sharedArray (run : Interleaving (diskHandler cwd)
      ⟨appendThreads json root uid period contents, t⟩ moves c) (i : Nat) :
    ∀ e ∈ (sharedArray json contents entries moves).copies i,
      e ∈ entries ++ contents.map (shortEntry json) := by
  refine (SharedList.forall_mem_run (fun e he => List.mem_append_left _ he)
    (fun _ _ h => absurd h List.not_mem_nil) fun j hj => ?_).2 i
  obtain ⟨move, hmove, rfl⟩ := exists_move_of_mem_copySteps (.inr hj)
  have hlt := thread_lt_of_mem run hmove
  rw [entryOf, List.getElem?_eq_getElem hlt, Option.getD_some]
  exact List.mem_append_right _ (List.mem_map_of_mem (List.getElem_mem hlt))

/-! ### One move -/

variable {i : Nat}

/-- A writer that has read keeps its `copies` through any further move of its own. -/
theorem Copied.copies_concat (h : Copied json root cwd uid period contents entries moves t)
    (hstarted : trace (diskHandler cwd) i moves ≠ []) (op : FsOp) (c : Config FsSig FileTree) :
    ∀ j (answer : Except FsError Str) rest found, trace (diskHandler cwd) j (moves ++ [⟨i, op, c⟩])
        = ⟨.readToString (shortPath root uid period), answer⟩ :: rest →
      ReadsArray json answer found → (sharedArray json contents entries moves).copies j = found := by
  intro j answer rest found htrace hreads
  by_cases hj : i = j
  · subst hj
    obtain ⟨first, started, hfirst⟩ := List.exists_cons_of_ne_nil hstarted
    rw [trace_concat_self, hfirst, List.cons_append] at htrace
    obtain ⟨rfl, -⟩ := List.cons.inj htrace
    exact h.copies i answer started found hfirst hreads
  · rw [trace_concat_ne _ _ hj] at htrace
    exact h.copies j answer rest found htrace hreads

/-- A writer that reads keeps `Copied`: what it finds is the shared array. -/
theorem Copied.read (huid : uid ≠ [] ∧ '/' ∉ uid) (hperiod : period ≠ [] ∧ '/' ∉ period)
    (h : Copied json root cwd uid period contents entries moves c.state)
    (hnone : trace (diskHandler cwd) i moves = []) :
    Copied json root cwd uid period contents entries
      (moves ++ [⟨i, .readToString (shortPath root uid period), c⟩]) c.state := by
  have hsteps : copySteps (moves ++ [⟨i, .readToString (shortPath root uid period), c⟩])
      = copySteps moves ++ [.take i] := copySteps_append _
  have hholds := h.holds
  refine ⟨?_, h.isDir, ?_, ?_⟩
  · rw [sharedArray, hsteps, SharedList.content_run_take]
    exact hholds
  · rw [hsteps]
    exact prepared_concat_take h.prepared
  · intro j answer rest found htrace hreads
    rw [sharedArray, hsteps, SharedList.copies_run_take]
    by_cases hj : i = j
    · subst hj
      rw [trace_concat_self, hnone] at htrace
      obtain ⟨-, hanswer⟩ := Event.mk.inj (List.cons.inj htrace).1
      rw [← eq_of_heq hanswer] at hreads
      rw [Function.update_self]
      exact hholds.eq_of_reads huid hperiod h.isDir hreads
    · rw [trace_concat_ne _ _ hj] at htrace
      rw [Function.update_of_ne (Ne.symm hj)]
      exact h.copies j answer rest found htrace hreads

/-- A writer that makes a directory, by `createDirAll`, keeps `Copied`: it is nothing to the array.
-/
theorem Copied.made (h : Copied json root cwd uid period contents entries moves c.state)
    (hstarted : trace (diskHandler cwd) i moves ≠ []) (parent : HostPath) :
    Copied json root cwd uid period contents entries (moves ++ [⟨i, .createDirAll parent, c⟩])
      (diskHandler cwd (.createDirAll parent) c.state).2 := by
  have hsteps : copySteps (moves ++ [⟨i, .createDirAll parent, c⟩]) = copySteps moves :=
    (copySteps_append _).trans (List.append_nil _)
  refine ⟨?_, FileTree.isDir_of_dirs (fun _ => dir_of_diskHandler _) h.isDir, ?_, ?_⟩
  · rw [sharedArray, hsteps]
    exact h.holds.of_spares (FileTree.grows_createDirAll parent _)
  · rw [hsteps]
    exact h.prepared
  · rw [sharedArray, hsteps]
    exact h.copies_concat hstarted _ c

/-- A writer that writes its copy with its entry keeps `Copied`: it stores into the shared array. -/
theorem Copied.written {answer : Except FsError Str} {rest : List (Event FsSig)} {found : List Json}
    (h : Copied json root cwd uid period contents entries moves c.state)
    (hstarted : trace (diskHandler cwd) i moves
      = ⟨.readToString (shortPath root uid period), answer⟩ :: rest)
    (hreads : ReadsArray json answer found)
    (hsurvives : json.fromStr (json.toStr (.array (found ++ [entryOf json contents i])))
      = .ok (.array (found ++ [entryOf json contents i])))
    (hok : (diskHandler cwd (.write (shortPath root uid period)
      (json.toStr (.array (found ++ [entryOf json contents i])))) c.state).1 = .ok ()) :
    Copied json root cwd uid period contents entries
      (moves ++ [⟨i, .write (shortPath root uid period)
        (json.toStr (.array (found ++ [entryOf json contents i]))), c⟩])
      (diskHandler cwd (.write (shortPath root uid period)
        (json.toStr (.array (found ++ [entryOf json contents i])))) c.state).2 := by
  set text := json.toStr (.array (found ++ [entryOf json contents i])) with htext
  have hcopy := h.copies i answer rest found hstarted hreads
  have hsteps : copySteps (moves ++ [⟨i, .write (shortPath root uid period) text, c⟩])
      = copySteps moves ++ [.store i] := copySteps_append _
  refine ⟨?_, FileTree.isDir_of_dirs (fun _ => dir_of_diskHandler _) h.isDir, ?_, ?_⟩
  · rw [sharedArray, hsteps, SharedList.content_run_store]
    replace hcopy : (SharedList.run (entryOf json contents) ⟨entries, fun _ => []⟩
      (copySteps moves)).copies i = found := hcopy
    rw [hcopy]
    have hwrite : (c.state.write cwd (shortPath root uid period) text).1 = .ok () := by
      replace hok : (c.state.write cwd (shortPath root uid period) text).1.mapError osError
        = .ok () := hok
      cases hanswer : (c.state.write cwd (shortPath root uid period) text).1 with
      | ok _ => rfl
      | error e => rw [hanswer] at hok; cases hok
    obtain ⟨old, -, hlookup⟩ := FileTree.modify_ok hwrite
    exact .inl ⟨text, (hlookup _).trans (if_pos rfl), hsurvives⟩
  · rw [hsteps]
    refine prepared_concat_store h.prepared ?_
    -- The event that it has read comes from a move.
    have hread : ⟨.readToString (shortPath root uid period), answer⟩
        ∈ trace (diskHandler cwd) i moves := by
      rw [hstarted]
      exact List.mem_cons_self
    obtain ⟨move, hmove, rfl, hevent⟩ := exists_move_of_mem_trace (diskHandler cwd) i hread
    refine List.mem_filterMap.mpr ⟨move, hmove, ?_⟩
    have hop : move.op = .readToString (shortPath root uid period) :=
      (congrArg Event.op hevent).symm
    rw [copyStep?, hop]
  · rw [sharedArray, hsteps, SharedList.copies_run_store]
    exact h.copies_concat (hstarted ▸ List.cons_ne_nil _ _) _ c

/-! ### All moves -/

/-- **The files follow the shared array**: `Copied` holds after every interleaving of
`appendThreads`, as long as the arrays survive being printed. -/
theorem copied_of_run (huid : uid ≠ [] ∧ '/' ∉ uid) (hperiod : period ≠ [] ∧ '/' ∉ period)
    (hroot : t.isDir cwd root = true)
    (hentries : HoldsArray json (shortPlace root cwd uid period) t entries)
    (hsurvives : ∀ array : List Json, (∀ e ∈ array, e ∈ entries ++ contents.map (shortEntry json)) →
      json.fromStr (json.toStr (.array array)) = .ok (.array array))
    (run : Interleaving (diskHandler cwd) ⟨appendThreads json root uid period contents, t⟩ moves c)
    (hok : ∀ i content, contents[i]? = some content → ∃ more,
      (appendTask json root uid period content).Returns (trace (diskHandler cwd) i moves ++ more)
        (.ok ())) :
    Copied json root cwd uid period contents entries moves c.state := by
  induction run with
  | start =>
    refine ⟨hentries, hroot, fun earlier later i hsteps => ?_, fun _ _ _ _ htrace => nomatch htrace⟩
    exact absurd hsteps.symm (List.append_ne_nil_of_right_ne_nil earlier (List.cons_ne_nil _ _))
  | @step moves c i op next run ready ih =>
    have hbefore := ih fun j content hcontent => by
      obtain ⟨more, hmore⟩ := hok j content hcontent
      rw [trace_append, List.append_assoc] at hmore
      exact ⟨_, hmore⟩
    -- What the thread has done, does, and will do.
    have hlt : i < contents.length :=
      thread_lt_of_mem (run.step ready) (List.mem_append_right _ List.mem_cons_self)
    obtain ⟨more, hreturns⟩ := hok i _ (List.getElem?_eq_getElem hlt)
    rw [trace_concat_self, List.append_assoc, List.singleton_append] at hreturns
    obtain ⟨answer, found, made, hreads, hmade, hevents⟩ := returns_appendTask hreturns
    have hentry : shortEntry json contents[i] = entryOf json contents i := by
      rw [entryOf, List.getElem?_eq_getElem hlt, Option.getD_some]
    rw [hentry] at hevents
    rcases event_cases hevents with ⟨hnone, hread⟩ | ⟨rest, hstarted, hmkdir⟩ | ⟨hstarted, hwrite⟩
    · obtain ⟨rfl, -⟩ := Event.mk.inj hread
      exact hbefore.read huid hperiod hnone
    · obtain ⟨parent, rfl⟩ := hmade _ hmkdir
      exact hbefore.made (hstarted ▸ List.cons_ne_nil _ _) parent
    · obtain ⟨rfl, hanswer⟩ := Event.mk.inj hwrite
      refine hbefore.written hstarted hreads (hsurvives _ ?_) (eq_of_heq hanswer)
      -- Its copy has nothing in it but entries.
      rw [← hbefore.copies i answer made found hstarted hreads, List.forall_mem_append]
      refine ⟨mem_sharedArray run i, List.forall_mem_singleton.mpr ?_⟩
      rw [← hentry]
      exact List.mem_append_right _ (List.mem_map_of_mem (List.getElem_mem hlt))

/-! ### Who has written -/

/-- Whether an event is a write. -/
def isWrite (event : Event FsSig) : Bool :=
  match event.op with
  | .write .. => true
  | _ => false

/-- A thread stores, in `storing` of the steps, as often as it writes. -/
theorem count_storing (i : Nat) (moves : List (Move FsSig FileTree)) :
    (storing (copySteps moves)).count i = (trace (diskHandler cwd) i moves).countP isWrite := by
  induction moves with
  | nil => rfl
  | cons move moves ih =>
    obtain ⟨j, op, c⟩ := move
    rw [← List.singleton_append, copySteps_append, storing_append, trace_append, List.count_append,
      List.countP_append, ih]
    congr 1
    have hevents := trace_concat_self (diskHandler cwd) j [] op c
    rw [List.nil_append, trace_nil, List.nil_append] at hevents
    by_cases hj : j = i
    · subst hj
      rw [hevents]
      cases op with
      | write path content => exact List.count_singleton_self
      | _ => rfl
    · have hnone := trace_concat_ne (diskHandler cwd) i hj [] op c
      rw [List.nil_append, trace_nil] at hnone
      rw [hnone, List.countP_nil]
      cases op with
      | write path content =>
        exact List.count_eq_zero_of_not_mem fun hmem => hj (List.mem_singleton.mp hmem).symm
      | _ => rfl

/-- **Each writer that has succeeded has stored once**: `storing` is a permutation of the writers.
-/
theorem perm_storing (run : Interleaving (diskHandler cwd)
      ⟨appendThreads json root uid period contents, t⟩ moves c)
    (hok : AllOk json root cwd uid period contents moves) :
    (storing (copySteps moves)).Perm (List.range contents.length) := by
  refine List.perm_iff_count.mpr fun i => ?_
  rw [List.Nodup.count List.nodup_range, @count_storing cwd]
  by_cases hlt : i < contents.length
  · rw [if_pos (List.mem_range.mpr hlt)]
    obtain ⟨answer, found, made, -, hmade, hevents⟩ :=
      returns_appendTask (hok i _ (List.getElem?_eq_getElem hlt))
    have hnone : made.countP isWrite = 0 := by
      refine List.countP_eq_zero.mpr fun event hevent => ?_
      obtain ⟨parent, hop⟩ := hmade event hevent
      rw [isWrite, hop]
      exact Bool.false_ne_true
    rw [hevents, List.countP_cons, List.countP_append, hnone]
    rfl
  · rw [if_neg fun h => hlt (List.mem_range.mp h)]
    refine List.countP_eq_zero.mpr fun event hevent => ?_
    obtain ⟨move, hmove, rfl, -⟩ := exists_move_of_mem_trace (diskHandler cwd) i hevent
    exact absurd (thread_lt_of_mem run hmove) hlt

/-- The entries `entryOf` of the writers, in order, are the `shortEntry` of their contents. -/
theorem map_entryOf_range (json : JsonCodec) (contents : List Str) :
    (List.range contents.length).map (entryOf json contents) = contents.map (shortEntry json) := by
  refine List.ext_getElem (by rw [List.length_map, List.length_map, List.length_range]) fun i h _ => ?_
  rw [List.length_map, List.length_range] at h
  rw [List.getElem_map, List.getElem_map, List.getElem_range, entryOf, List.getElem?_eq_getElem h,
    Option.getD_some]

end Interleaved

/-- **Appends are not lost exactly if the writers are isolated**: writers of one short memory, of
which all succeed, leave the array from before with all their entries, `AppendsAll`, if and only if
no writer writes between another's reading and writing, `Isolated`. -/
theorem appendsAll_iff {json : JsonCodec} {root : HostPath} {cwd : List Str} {uid period : Str}
    {contents : List Str} {entries : List Json} {t : FileTree} {moves : List (Move FsSig FileTree)}
    {c : Config FsSig FileTree} (huid : uid ≠ [] ∧ '/' ∉ uid) (hperiod : period ≠ [] ∧ '/' ∉ period)
    (hroot : t.isDir cwd root = true)
    (hentries : HoldsArray json (shortPlace root cwd uid period) t entries)
    (hsurvives : ∀ array : List Json, (∀ e ∈ array, e ∈ entries ++ contents.map (shortEntry json)) →
      json.fromStr (json.toStr (.array array)) = .ok (.array array))
    (run : Interleaving (diskHandler cwd) ⟨appendThreads json root uid period contents, t⟩ moves c)
    (hok : AllOk json root cwd uid period contents moves) :
    AppendsAll json root cwd uid period contents entries c.state ↔ Isolated (copySteps moves) := by
  have hcopied := copied_of_run huid hperiod hroot hentries hsurvives run fun i content hcontent =>
    ⟨[], (List.append_nil _).symm ▸ hok i content hcontent⟩
  have hperm := (perm_storing run hok).map (entryOf json contents)
  rw [map_entryOf_range] at hperm
  constructor
  · rintro ⟨order, horder, harray⟩
    -- The array has as many entries as there were writes.
    have hcontent := hcopied.holds.inj harray
    refine @isolated_of_length _ (entryOf json contents) ⟨entries, fun _ => []⟩ _
      hcopied.prepared ?_
    have hlength : order.length = ((storing (copySteps moves)).map (entryOf json contents)).length :=
      (horder.trans hperm.symm).length_eq
    rw [List.length_map] at hlength
    rw [sharedArray] at hcontent
    rw [hcontent, List.length_append, hlength]
  · intro hisolated
    have hcontent := @content_run_of_isolated _ (entryOf json contents)
      ⟨entries, fun _ => []⟩ _ hcopied.prepared hisolated
    refine ⟨_, hperm, ?_⟩
    have hholds := hcopied.holds
    rwa [sharedArray, hcontent] at hholds

/-! ## Two writers -/

/-- What the two writers append. -/
def habits : List Str := ["likes tea", "likes coffee"]

/-- The files when the kernel has started. -/
def users : FileTree := (FileTree.empty.createDirAll [] usersRoot).2

/-- The two writers, with nothing remembered yet. -/
def bothWriters : Config FsSig FileTree :=
  ⟨appendThreads JsonText.codec usersRoot "u-1" "2026-03-12T14" habits, users⟩

/-- In `users`, the tree at the start, the file of the short memory is missing. -/
theorem lookup_users :
    users.lookup (shortPlace usersRoot [] "u-1" "2026-03-12T14") = none := by decide +kernel

/-- The writers are `AllOk` in every schedule in which `returned?` shows them to be. -/
theorem allOk_of_play {schedule : List Nat}
    (h : ∀ i : Fin 2, (appendTask JsonText.codec usersRoot "u-1" "2026-03-12T14" habits[i]).returned?
      (trace (diskHandler []) i (bothWriters.play (diskHandler []) schedule).1) = some (.ok ())) :
    AllOk JsonText.codec usersRoot [] "u-1" "2026-03-12T14" habits
      (bothWriters.play (diskHandler []) schedule).1 := by
  intro i content hcontent
  obtain ⟨hlt, rfl⟩ := List.getElem?_eq_some_iff.mp hcontent
  exact Program.returns_of_returned? (h ⟨i, hlt⟩)

/-- An array of the texts of `habits` survives: `fromStr` reads back what `toStr` prints of it. -/
theorem fromStr_toStr_texts (array : List Json)
    (h : ∀ e ∈ array, e ∈ [] ++ habits.map (shortEntry JsonText.codec)) :
    JsonText.codec.fromStr (JsonText.codec.toStr (.array array)) = .ok (.array array) := by
  have htexts : habits.map (shortEntry JsonText.codec) = habits.map Json.string := rfl
  rw [List.nil_append, htexts] at h
  have hstrings : ∃ texts : List Str, array = texts.map Json.string := by
    induction array with
    | nil => exact ⟨[], rfl⟩
    | cons e array ih =>
      obtain ⟨hhead, htail⟩ := List.forall_mem_cons.mp h
      obtain ⟨text, -, rfl⟩ := List.mem_map.mp hhead
      obtain ⟨texts, rfl⟩ := ih htail
      exact ⟨text :: texts, rfl⟩
  obtain ⟨texts, rfl⟩ := hstrings
  exact JsonText.codec.fromStr_toStr _ (Json.exact_strings texts)

/-- One writer after the other: the schedule `[0, 0, 0, 1, 1, 1]` is `Isolated` exactly as it
`AppendsAll`. -/
theorem appendsAll_iff_turns :
    AppendsAll JsonText.codec usersRoot [] "u-1" "2026-03-12T14" habits []
        (bothWriters.play (diskHandler []) [0, 0, 0, 1, 1, 1]).2.state ↔
      Isolated (copySteps (bothWriters.play (diskHandler []) [0, 0, 0, 1, 1, 1]).1) :=
  appendsAll_iff (by decide) (by decide) (by decide +kernel)
    (.inr ⟨fun text => by rw [lookup_users]; exact nofun, rfl⟩) fromStr_toStr_texts
    (.of_play _ _ _) (allOk_of_play (by decide +kernel))

/-- **The second writer overwrites the first**: both have read before either writes, both return `Ok`,
and one entry is left. -/
theorem not_appendsAll_both :
    Interleaving (diskHandler []) bothWriters
        (bothWriters.play (diskHandler []) [0, 1, 0, 1, 0, 1]).1
        (bothWriters.play (diskHandler []) [0, 1, 0, 1, 0, 1]).2 ∧
      AllOk JsonText.codec usersRoot [] "u-1" "2026-03-12T14" habits
        (bothWriters.play (diskHandler []) [0, 1, 0, 1, 0, 1]).1 ∧
      HoldsArray JsonText.codec (shortPlace usersRoot [] "u-1" "2026-03-12T14") users [] ∧
      ¬AppendsAll JsonText.codec usersRoot [] "u-1" "2026-03-12T14" habits []
        (bothWriters.play (diskHandler []) [0, 1, 0, 1, 0, 1]).2.state := by
  refine ⟨.of_play _ _ _, allOk_of_play (by decide +kernel),
    .inr ⟨fun text => by rw [lookup_users]; exact nofun, rfl⟩, ?_⟩
  rintro ⟨order, horder, harray⟩
  have hlookup : (bothWriters.play (diskHandler []) [0, 1, 0, 1, 0, 1]).2.state.lookup
      (shortPlace usersRoot [] "u-1" "2026-03-12T14") = some (.file "[\"likes coffee\"]") := by
    decide +kernel
  have hone := harray.inj (.inl ⟨_, hlookup, rfl⟩ : HoldsArray JsonText.codec _ _
    [.string "likes coffee"])
  have hlength := horder.length_eq
  rw [List.nil_append] at hone
  rw [hone] at hlength
  exact absurd hlength (by decide)

end LogosFs.Kernel
