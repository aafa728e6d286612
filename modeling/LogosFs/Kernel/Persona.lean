import LogosFs.Kernel.Disk
import LogosFs.Lib.JsonText

/-! # The short memory of a persona

`users/{uid}/persona/short/{period}` is a JSON array to which entries are appended. A write whose
segments spell `persona/short` goes through `append_persona_short`; a patch, and a write that reaches
the file by other segments, do not. `KeepsShort` is what is promised of one operation, and
`keepsShort_of_respects` proves it of every operation that goes through the append or elsewhere;
`keepsShort_of_run` is about sequences of them. -/

namespace LogosFs.Kernel

open Program (eval)

variable (json : JsonCodec) (root : HostPath) (cwd : List Str)

/-! ## Operations -/

/-- A change to the files of the users. -/
inductive UserOp where
  /-- Write. -/
  | write (path : List Str) (content : Str)
  /-- Patch. -/
  | patch (path : List Str) (partialText : Str)
deriving DecidableEq, Repr

namespace UserOp

/-- What the namespace does. -/
def perform : UserOp → FsM Unit
  | .write path content => UsersNs.write json root path content
  | .patch path partialText => UsersNs.patch json root path partialText

/-- The outcome of an operation, and the files after it. -/
def run (op : UserOp) (t : FileTree) : Except VfsError Unit × FileTree :=
  eval (diskHandler cwd) (op.perform json root) t

/-- The entry that a write appends, if it appends one. -/
def entry? : UserOp → Option Json
  | .write path content =>
    if UsersNs.isPersonaShort path then some ((json.fromStr content).toOption.getD (.string content))
    else none
  | .patch .. => none

/-- The file that an operation is about. -/
def filePath : UserOp → HostPath
  | .write path _ =>
    if UsersNs.isPersonaShort path then UsersNs.personaShortPath root path
    else root.join (Str.join path)
  | .patch path _ => root.join (Str.join path)

end UserOp

/-! ## What is promised -/

/-- The place of the short memory of a period. -/
def shortPlace (uid period : Str) : List Str :=
  (root.join (Str.join [uid, "persona", "short", period])).resolve cwd

/-- There is a JSON array at a place. -/
def StoresArray (place : List Str) (t : FileTree) (entries : List Json) : Prop :=
  ∃ text, t.lookup place = some (.file text) ∧ json.fromStr text = .ok (.array entries)

/-- What an operation may do to the short memory at a place, and what it answers. -/
structure KeepsShort (place : List Str) (op : UserOp) (t : FileTree) : Prop where
  /-- The array before is a prefix of the array after. -/
  keeps : ∀ entries, StoresArray json place t entries →
    ∃ more, StoresArray json place (op.run json root cwd t).2 (entries ++ more)
  /-- A write to the file that succeeds adds one entry: its content, parsed or as a string. -/
  adds : ∀ path content, op = .write path content → (op.filePath root).resolve cwd = place →
    (op.run json root cwd t).1 = .ok () →
    ∃ entries, (StoresArray json place t entries ∨ t.lookup place = none ∧ entries = []) ∧
      StoresArray json place (op.run json root cwd t).2
        (entries ++ [(json.fromStr content).toOption.getD (.string content)])
  /-- A file that is no array stays as it is, and an operation on it fails. -/
  refuses : ∀ text, t.lookup place = some (.file text) →
    (∀ entries, json.fromStr text ≠ .ok (.array entries)) →
    (op.run json root cwd t).2.lookup place = some (.file text) ∧
      ((op.filePath root).resolve cwd = place → ∃ e, (op.run json root cwd t).1 = .error e)

/-- There is a JSON array at a place, or nothing yet. -/
def HasEntries (place : List Str) (t : FileTree) (entries : List Json) : Prop :=
  StoresArray json place t entries ∨ t.lookup place = none ∧ entries = []

/-- The operation is about another file; or it appends an entry, on a path whose directories are
there if the file is, and the array with the entry survives being printed and parsed. -/
def Respects (place : List Str) (t : FileTree) (op : UserOp) : Prop :=
  (op.filePath root).resolve cwd = place → ∃ entry, op.entry? json = some entry ∧
    (t.locate cwd (op.filePath root) = .error .notFound → ∀ text, t.lookup place ≠ some (.file text)) ∧
    ∀ entries, HasEntries json place t entries →
      json.fromStr (json.toStr (.array (entries ++ [entry]))) = .ok (.array (entries ++ [entry]))

section Persona

variable {json root cwd} {t : FileTree}

/-- A place stores at most one array: two `StoresArray` of it have the same entries. -/
theorem StoresArray.inj {place : List Str} {entries entries' : List Json}
    (h : StoresArray json place t entries) (h' : StoresArray json place t entries') :
    entries = entries' := by
  obtain ⟨text, hlookup, hparse⟩ := h
  obtain ⟨text', hlookup', hparse'⟩ := h'
  obtain rfl : text = text' := by
    rw [hlookup] at hlookup'
    exact Node.file.inj (Option.some_inj.mp hlookup')
  rw [hparse] at hparse'
  exact Json.array.inj (Except.ok.inj hparse')

/-- What a place stores by `StoresArray` are the entries that it has by `HasEntries`. -/
theorem HasEntries.eq_of_storesArray {place : List Str} {entries entries' : List Json}
    (h : HasEntries json place t entries) (h' : StoresArray json place t entries') :
    entries = entries' := by
  rcases h with harray | ⟨hnone, -⟩
  · exact harray.inj h'
  · obtain ⟨text, hlookup, -⟩ := h'
    rw [hnone] at hlookup
    cases hlookup

/-! ## The append -/

/-- The text `[]` is the empty array. -/
theorem fromStr_empty : json.fromStr "[]" = .ok (.array []) := by
  rw [← json.toStr_nil]
  exact json.fromStr_toStr _ (Json.exact_strings [])

/-- **What the append does**: `appendPersonaShort` writes the array that it found, or an empty one
if no file was found, with the entry; or it fails and leaves everything as it is. -/
theorem eval_appendPersonaShort (path : List Str) (content : Str) (t : FileTree) :
    let filePath := UsersNs.personaShortPath root path
    let entry := (json.fromStr content).toOption.getD (.string content)
    let run := eval (diskHandler cwd) (UsersNs.appendPersonaShort json root path content) t
    (∃ entries, ((∃ text, t.readToString cwd filePath = .ok text ∧
          json.fromStr text = .ok (.array entries)) ∨
        t.readToString cwd filePath = .error .notFound ∧ entries = []) ∧
      run = eval (diskHandler cwd)
        (writePath shownPath filePath (json.toStr (.array (entries ++ [entry])))) t) ∨
    ∃ e, run = (.error e, t) := by
  intro filePath entry run
  have hrun : run = eval (diskHandler cwd) (do
      let existing ← UsersNs.existingText filePath ((t.readToString cwd filePath).mapError osError)
      UsersNs.appendEntry json filePath content existing) t := by
    show eval (diskHandler cwd) (UsersNs.appendPersonaShort json root path content) t = _
    rw [UsersNs.appendPersonaShort, Program.eval_bind, eval_ask, Program.evalNext_ok]
    rfl
  cases hread : t.readToString cwd filePath with
  | ok text =>
    rw [hread] at hrun
    by_cases hparse : ∃ entries, json.fromStr text = .ok (.array entries)
    · obtain ⟨entries, hparse⟩ := hparse
      refine .inl ⟨entries, .inl ⟨text, rfl, hparse⟩, hrun.trans ?_⟩
      rw [← UsersNs.appendEntry_of_array hparse]
      rfl
    · obtain ⟨e, he⟩ := UsersNs.appendEntry_of_other (fun entries h => hparse ⟨entries, h⟩)
        filePath content
      refine .inr ⟨e, hrun.trans ?_⟩
      show eval (diskHandler cwd) (UsersNs.appendEntry json filePath content text) t = _
      rw [he]
      rfl
  | error e =>
    rw [hread] at hrun
    cases e with
    | notFound =>
      -- An array is read back from the text that is taken where there is no file.
      refine .inl ⟨[], .inr ⟨rfl, rfl⟩, hrun.trans ?_⟩
      rw [← UsersNs.appendEntry_of_array fromStr_empty]
      rfl
    | notDirectory => exact .inr ⟨_, hrun⟩
    | isDirectory => exact .inr ⟨_, hrun⟩
    | alreadyExists => exact .inr ⟨_, hrun⟩

/-! ## One operation -/

variable {place : List Str} {op : UserOp}

/-- An operation on another file than that at `place` spares its text: `op.run` changes the text of
its own file only. -/
theorem spares_run (hplace : (op.filePath root).resolve cwd ≠ place) :
    t.Spares (op.run json root cwd t).2 place := by
  -- Every branch that changes anything writes the file of the operation.
  have hwrite : ∀ (filePath : HostPath) (content : Str), filePath.resolve cwd ≠ place →
      t.Spares (eval (diskHandler cwd) (writePath shownPath filePath content) t).2 place := by
    intro filePath content hne
    rcases writePath_cases shownPath filePath content t with ⟨-, -, -, hothers⟩ | ⟨-, hgrows⟩
    · exact hothers place hne.symm
    · exact hgrows place
  cases op with
  | write path content =>
    show t.Spares (eval (diskHandler cwd) (UsersNs.write json root path content) t).2 place
    replace hplace : (if UsersNs.isPersonaShort path then UsersNs.personaShortPath root path
      else root.join (Str.join path)).resolve cwd ≠ place := hplace
    unfold UsersNs.write
    split
    · exact .inl rfl
    · split
      · rename_i hshort
        rw [if_pos hshort] at hplace
        rcases eval_appendPersonaShort path content t with ⟨entries, -, hrun⟩ | ⟨e, hrun⟩
        · rw [hrun]
          exact hwrite _ _ hplace
        · rw [hrun]
          exact .inl rfl
      · rename_i hshort
        rw [if_neg hshort] at hplace
        exact hwrite _ _ hplace
  | patch path partialText =>
    show t.Spares (eval (diskHandler cwd) (UsersNs.patch json root path partialText) t).2 place
    unfold UsersNs.patch
    split
    · exact .inl rfl
    · rw [Program.eval_bind, eval_ask, Program.evalNext_ok]
      dsimp only
      split
      · exact hwrite _ _ hplace
      · exact hwrite _ _ hplace

/-- An operation on another file than that at `place` keeps the promise, `KeepsShort`. -/
theorem keepsShort_of_other (hplace : (op.filePath root).resolve cwd ≠ place) :
    KeepsShort json root cwd place op t := by
  have hspares := @spares_run json root cwd t place op hplace
  refine ⟨?_, fun _ _ _ heq => absurd heq hplace, ?_⟩
  · rintro entries ⟨text, hlookup, hparse⟩
    refine ⟨[], text, hspares.lookup_eq_file_iff.mpr hlookup, ?_⟩
    rw [List.append_nil]
    exact hparse
  · intro text hlookup _
    exact ⟨hspares.lookup_eq_file_iff.mpr hlookup, fun heq => absurd heq hplace⟩

/-- **What an append does to its own file**, if no missing directory hides it: the array there, or
an empty one, gets the entry, as `StoresArray` says; or the operation fails and the file stays. -/
theorem append_cases {path : List Str} {content : Str} (hshort : UsersNs.isPersonaShort path)
    (hlocate : t.locate cwd (UsersNs.personaShortPath root path) = .error .notFound →
      ∀ text, t.lookup ((UsersNs.personaShortPath root path).resolve cwd) ≠ some (.file text)) :
    let place := (UsersNs.personaShortPath root path).resolve cwd
    let entry := (json.fromStr content).toOption.getD (.string content)
    let run := (UserOp.write path content).run json root cwd t
    (run.1 = .ok () ∧ ∃ entries, HasEntries json place t entries ∧
      run.2.lookup place = some (.file (json.toStr (.array (entries ++ [entry]))))) ∨
    (∃ e, run.1 = .error e) ∧ t.Spares run.2 place := by
  intro place entry run
  have hrun : run = eval (diskHandler cwd) (UsersNs.appendPersonaShort json root path content) t := by
    show eval (diskHandler cwd) (UsersNs.write json root path content) t = _
    have hne : path ≠ [] := by
      rintro rfl
      cases hshort
    rw [UsersNs.write, if_neg hne, if_pos hshort]
  -- The append gets to the write, or fails before it.
  rcases eval_appendPersonaShort path content t with ⟨entries, hread, happend⟩ | ⟨e, hfail⟩
  · rw [hrun, happend]
    rcases writePath_cases shownPath (UsersNs.personaShortPath root path)
      (json.toStr (.array (entries ++ [entry]))) t with ⟨hok, hlookup, hdir, -⟩ | ⟨herror, hgrows⟩
    · refine .inl ⟨hok, entries, ?_, hlookup⟩
      rcases hread with ⟨text, hread, hparse⟩ | ⟨hread, rfl⟩
      · exact .inl ⟨text, lookup_of_readToString hread, hparse⟩
      · -- No file was found, and neither is there one, nor a directory: the write would have failed.
        refine .inr ⟨?_, rfl⟩
        rcases lookup_of_readToString_notFound hread with hmissing | hnone
        · rcases hfound : t.lookup place with _ | _ | text
          · rfl
          · exact absurd hfound hdir
          · exact absurd hfound (hlocate hmissing text)
        · exact hnone
    · exact .inr ⟨herror, hgrows place⟩
  · rw [hrun, hfail]
    exact .inr ⟨⟨e, rfl⟩, .inl rfl⟩

/-- **One operation** that `Respects` the place, being about another file or appending an entry,
keeps the promise. -/
theorem keepsShort_of_respects (h : Respects json root cwd place t op) :
    KeepsShort json root cwd place op t := by
  -- Only an append can be about the place itself.
  by_cases hplace : (op.filePath root).resolve cwd = place
  · obtain ⟨entry, hentry, hlocate, hsurvives⟩ := h hplace
    cases op with
    | patch path partialText => cases hentry
    | write path content =>
      unfold UserOp.entry? at hentry
      dsimp only at hentry
      split at hentry
      · rename_i hshort
        obtain rfl := Option.some_inj.mp hentry
        have hfile : (UserOp.write path content).filePath root = UsersNs.personaShortPath root path :=
          if_pos hshort
        rw [hfile] at hplace hlocate
        subst hplace
        have hcases := @append_cases json root cwd t path content hshort hlocate
        refine ⟨?_, ?_, ?_⟩
        · rintro entries harray
          rcases hcases with ⟨-, entries', hentries, hlookup⟩ | ⟨-, hspares⟩
          · obtain rfl := hentries.eq_of_storesArray harray
            exact ⟨_, _, hlookup, hsurvives entries' hentries⟩
          · obtain ⟨text, hlookup, hparse⟩ := harray
            refine ⟨[], text, hspares.lookup_eq_file_iff.mpr hlookup, ?_⟩
            rw [List.append_nil]
            exact hparse
        · rintro _ _ ⟨⟩ - hok
          rcases hcases with ⟨-, entries, hentries, hlookup⟩ | ⟨⟨e, herror⟩, -⟩
          · exact ⟨entries, hentries, _, hlookup, hsurvives entries hentries⟩
          · rw [herror] at hok
            cases hok
        · intro text hlookup hcorrupt
          rcases hcases with ⟨-, entries, hentries, -⟩ | ⟨herror, hspares⟩
          · -- Neither an array nor nothing.
            rcases hentries with ⟨text', hlookup', hparse⟩ | ⟨hnone, -⟩
            · rw [hlookup] at hlookup'
              obtain rfl := Node.file.inj (Option.some_inj.mp hlookup')
              exact absurd hparse (hcorrupt entries)
            · rw [hlookup] at hnone
              cases hnone
          · exact ⟨hspares.lookup_eq_file_iff.mpr hlookup, fun _ => herror⟩
      · cases hentry
  · exact keepsShort_of_other hplace

end Persona

/-! ## Sequences of operations -/

/-- The files after a sequence of operations. -/
def runAll (ops : List UserOp) (t : FileTree) : FileTree :=
  ops.foldl (fun t op => (op.run json root cwd t).2) t

/-- Every operation of a sequence has a property in the state it starts from. -/
def Throughout (P : UserOp → FileTree → Prop) : List UserOp → FileTree → Prop
  | [], _ => True
  | op :: ops, t => P op t ∧ Throughout P ops (op.run json root cwd t).2

variable {json root cwd} in
/-- A sequence of operations each of which `Respects` the place keeps the promise `Throughout`. -/
theorem throughout_keepsShort (place : List Str) (ops : List UserOp) (t : FileTree)
    (h : Throughout json root cwd (fun op t => Respects json root cwd place t op) ops t) :
    Throughout json root cwd (fun op t => KeepsShort json root cwd place op t) ops t := by
  induction ops generalizing t with
  | nil => trivial
  | cons op ops ih => exact ⟨keepsShort_of_respects h.1, ih _ h.2⟩

variable {json root cwd} in
/-- What `KeepsShort` says of every operation holds of the sequence: the array at the start is a
prefix of that at the end. -/
theorem keeps_of_throughout (place : List Str) (ops : List UserOp) (t : FileTree)
    (h : Throughout json root cwd (fun op t => KeepsShort json root cwd place op t) ops t)
    (entries : List Json) (harray : StoresArray json place t entries) :
    ∃ more, StoresArray json place (runAll json root cwd ops t) (entries ++ more) := by
  induction ops generalizing t entries with
  | nil => exact ⟨[], (List.append_nil entries).symm ▸ harray⟩
  | cons op ops ih =>
    obtain ⟨more, hmore⟩ := h.1.keeps entries harray
    obtain ⟨more', hmore'⟩ := ih _ h.2 _ hmore
    exact ⟨more ++ more', by rw [← List.append_assoc]; exact hmore'⟩

variable {json root cwd} in
/-- A write to the path itself, below a `root` that is there, `Respects` the place: what remains of
the condition is that the array with the entry survives being printed and parsed. -/
theorem respects_write {uid period content : Str} {t : FileTree}
    (hroot : ∃ place, t.locate cwd root = .ok place)
    (huid : Component.ofPiece uid = .name uid ∧ '/' ∉ uid)
    (hperiod : Component.ofPiece period = .name period ∧ '/' ∉ period)
    (hsurvives : ∀ entries, HasEntries json (shortPlace root cwd uid period) t entries →
      json.fromStr (json.toStr (.array (entries ++
        [(json.fromStr content).toOption.getD (.string content)])))
        = .ok (.array (entries ++ [(json.fromStr content).toOption.getD (.string content)]))) :
    Respects json root cwd (shortPlace root cwd uid period) t
      (.write [uid, "persona", "short", period] content) := by
  intro _
  refine ⟨_, rfl, ?_, hsurvives⟩
  intro hmissing text hlookup
  -- The file is below the root, so the path to it is located.
  have hnames : ∀ name ∈ [uid, "persona".toList, "short".toList, period],
      Component.ofPiece name = .name name ∧ '/' ∉ name :=
    List.forall_mem_cons.mpr ⟨huid, List.forall_mem_cons.mpr ⟨by decide,
      List.forall_mem_cons.mpr ⟨by decide, List.forall_mem_singleton.mpr hperiod⟩⟩⟩
  have hsegments : ∀ name ∈ [uid, "persona".toList, "short".toList, period],
      name ≠ [] ∧ '/' ∉ name := fun name hname =>
    ⟨Component.ne_nil_of_ofPiece (hnames name hname).1, (hnames name hname).2⟩
  obtain ⟨place, hplace⟩ := hroot
  obtain rfl := FileTree.resolve_of_locate hplace
  have hshort : shortPlace root cwd uid period
      = root.resolve cwd ++ [uid, "persona".toList, "short".toList, period] := by
    rw [shortPlace, HostPath.resolve_join cwd root hsegments,
      List.map_congr_left fun name hname => (hnames name hname).1, FileTree.walk_names]
  rw [hshort] at hlookup
  have hlocated := FileTree.locate_join_names hnames hplace hlookup
  have hfile : (UserOp.write [uid, "persona", "short", period] content).filePath root
      = root.join (Str.join [uid, "persona", "short", period]) := rfl
  rw [hfile, hlocated] at hmissing
  cases hmissing

/-- **The short memory is only appended to**: in a sequence of operations each of which `Respects`
its place, each one keeps the promise, and the array at the start is a prefix of the array at the
end. -/
theorem keepsShort_of_run (uid period : Str) (ops : List UserOp) (t : FileTree)
    (h : Throughout json root cwd
      (fun op t => Respects json root cwd (shortPlace root cwd uid period) t op) ops t) :
    Throughout json root cwd
        (fun op t => KeepsShort json root cwd (shortPlace root cwd uid period) op t) ops t ∧
      ∀ entries, StoresArray json (shortPlace root cwd uid period) t entries →
        ∃ more, StoresArray json (shortPlace root cwd uid period) (runAll json root cwd ops t)
          (entries ++ more) := by
  have hkeeps := throughout_keepsShort _ ops t h
  exact ⟨hkeeps, keeps_of_throughout _ ops t hkeeps⟩

/-! ## A persona -/

/-- The root of the users. -/
def usersRoot : HostPath := .ofStr "/data/users"

/-- The first entry of the short memory of `u-1` in an hour. -/
def firstEntry : UserOp := .write ["u-1", "persona", "short", "2026-03-12T14"] "likes tea"

/-- The files after the first entry. -/
def remembered : FileTree := (firstEntry.run JsonText.codec usersRoot [] .empty).2

/-- In the run of `firstEntry` alone the short memory is only appended to. -/
theorem keepsShort_of_run_firstEntry :
    Throughout JsonText.codec usersRoot [] (fun op t => KeepsShort JsonText.codec usersRoot []
        (shortPlace usersRoot [] "u-1" "2026-03-12T14") op t) [firstEntry] .empty ∧
      ∀ entries, StoresArray JsonText.codec (shortPlace usersRoot [] "u-1" "2026-03-12T14") .empty
          entries → ∃ more, StoresArray JsonText.codec
        (shortPlace usersRoot [] "u-1" "2026-03-12T14")
        (runAll JsonText.codec usersRoot [] [firstEntry] .empty) (entries ++ more) := by
  refine keepsShort_of_run JsonText.codec usersRoot [] "u-1" "2026-03-12T14" [firstEntry] .empty
    ⟨fun _ => ⟨.string "likes tea", rfl, fun _ text => ?_, fun entries hentries => ?_⟩,
      trivial⟩
  · have hnone : FileTree.empty.lookup (shortPlace usersRoot [] "u-1" "2026-03-12T14") = none := by
      decide +kernel
    rw [hnone]
    exact nofun
  · have hnil : entries = [] := by
      rcases hentries with ⟨text, hlookup, -⟩ | ⟨-, hnil⟩
      · have hnone : FileTree.empty.lookup (shortPlace usersRoot [] "u-1" "2026-03-12T14") = none := by
          decide +kernel
        rw [hnone] at hlookup
        cases hlookup
      · exact hnil
    subst hnil
    exact JsonText.codec.fromStr_toStr _ (Json.exact_strings ["likes tea"])

/-- **A patch is not an append**: the patch `["likes coffee"]` leaves none of the entries that were
there. -/
theorem not_keepsShort_patch : ¬KeepsShort JsonText.codec usersRoot []
    (shortPlace usersRoot [] "u-1" "2026-03-12T14")
    (.patch ["u-1", "persona", "short", "2026-03-12T14"] "[\"likes coffee\"]") remembered := by
  intro h
  obtain ⟨more, text, hlookup, hparse⟩ := h.keeps [.string "likes tea"]
    ⟨"[\"likes tea\"]", by decide +kernel, rfl⟩
  have hafter : ((UserOp.patch ["u-1", "persona", "short", "2026-03-12T14"]
      "[\"likes coffee\"]").run JsonText.codec usersRoot [] remembered).2.lookup
        (shortPlace usersRoot [] "u-1" "2026-03-12T14")
      = some (.file "[\n  \"likes coffee\"\n]") := by decide +kernel
  rw [hafter] at hlookup
  obtain rfl := Node.file.inj (Option.some_inj.mp hlookup)
  have hcoffee : JsonText.codec.fromStr "[\n  \"likes coffee\"\n]"
      = .ok (.array [.string "likes coffee"]) := rfl
  rw [hcoffee] at hparse
  have hfirst := (List.cons.inj (Json.array.inj (Except.ok.inj hparse))).1
  exact absurd (Json.string.inj hfirst) (by decide)

end LogosFs.Kernel
