import LogosFs.Lib.HashMap
import LogosFs.Lib.HostPath

/-! # A tree of files

A file system without links: directories and texts, each at a place, and every place below a
directory (`FileTree.closed`). A path is located component by component, and every component but the
last one has to lead through a directory; where it leads is what the path says on its face
(`resolve_of_locate`). The operations are those of a program that reads and writes whole files, and
`Grows` says what those that only make directories may change. -/

namespace LogosFs

/-- What is at a place. -/
inductive Node where
  /-- A directory. -/
  | dir
  /-- A file with a text. -/
  | file (text : Str)
deriving DecidableEq, Repr

/-- The file system: what is at each place but the root, which is a directory. -/
structure FileTree where
  /-- What is at each place. -/
  nodes : HashMap (List Str) Node
  /-- What is at a place is in a directory. -/
  closed : ∀ place name node, nodes.get (place ++ [name]) = some node → place ≠ [] →
    nodes.get place = some .dir

namespace FileTree

/-- Why an operation fails. -/
inductive Error where
  /-- There is nothing. -/
  | notFound
  /-- There is a file where a directory is needed. -/
  | notDirectory
  /-- There is a directory where a file is needed. -/
  | isDirectory
  /-- There is something already. -/
  | alreadyExists
deriving DecidableEq, Repr

/-- The file system with nothing in it. -/
def empty : FileTree := ⟨.empty, nofun⟩

variable (t : FileTree)

/-- What is at a place. -/
def lookup (place : List Str) : Option Node :=
  if place = [] then some .dir else t.nodes.get place

/-- Something may be put at a place: in a directory, and not a file in the place of a directory. -/
def Admits (place : List Str) (node : Node) : Prop :=
  place ≠ [] ∧ t.lookup place.dropLast = some .dir ∧ (t.lookup place = some .dir → node = .dir)

instance (place : List Str) (node : Node) : Decidable (t.Admits place node) :=
  inferInstanceAs (Decidable (_ ∧ _ ∧ (_ → _)))

/-- The file system with something at a place. -/
def put (place : List Str) (node : Node) (h : t.Admits place node) : FileTree where
  nodes := t.nodes.insert place node
  closed := by
    intro parent name found hfound hparent
    rw [HashMap.get_insert] at hfound ⊢
    by_cases hp : parent = place
    · -- The place has something in it, so it was a directory, and still is one.
      subst hp
      have hne : parent ++ [name] ≠ parent := fun heq => nomatch List.append_right_eq_self.mp heq
      rw [if_neg hne] at hfound
      have hdir : t.lookup parent = some .dir := by
        rw [lookup, if_neg hparent]
        exact t.closed parent name found hfound hparent
      rw [if_pos rfl, h.2.2 hdir]
    · rw [if_neg hp]
      by_cases hc : parent ++ [name] = place
      · subst hc
        have hdir := h.2.1
        rwa [List.dropLast_concat, lookup, if_neg hparent] at hdir
      · rw [if_neg hc] at hfound
        exact t.closed parent name found hfound hparent

variable {t}

/-- After `put` the node is at its place, and `lookup` is as before everywhere else. -/
theorem lookup_put {place place' : List Str} {node : Node} (h : t.Admits place node) :
    (t.put place node h).lookup place' = if place' = place then some node else t.lookup place' := by
  unfold lookup put
  dsimp only
  rw [HashMap.get_insert]
  by_cases hroot : place' = []
  · rw [if_pos hroot, if_pos hroot, if_neg fun heq => h.1 (heq.symm.trans hroot)]
  · rw [if_neg hroot, if_neg hroot]

variable (t) (cwd : List Str)

/-! ## Paths -/

/-- One component of a path, from a directory. -/
def follow (place : List Str) (component : Component Str) : Except Error (List Str) :=
  match t.lookup place with
  | some .dir => .ok (LexicalPath.enter place component)
  | some (.file _) => .error .notDirectory
  | none => .error .notFound

/-- The place that a path leads to. -/
def locate (p : HostPath) : Except Error (List Str) :=
  p.components.foldlM t.follow (if p.absolute then [] else cwd)

/-! ## Operations -/

/-- Whether there is a directory. -/
def isDir (p : HostPath) : Bool :=
  match t.locate cwd p with
  | .ok place => t.lookup place = some .dir
  | .error _ => false

/-- The names in a directory. -/
def readDir (p : HostPath) : Except Error (List Str) := do
  let place ← t.locate cwd p
  match t.lookup place with
  | some .dir => .ok (t.nodes.entries.filterMap fun entry =>
      if entry.1.dropLast = place then entry.1.getLast? else none)
  | some (.file _) => .error .notDirectory
  | none => .error .notFound

/-- The text of a file. -/
def readToString (p : HostPath) : Except Error Str := do
  let place ← t.locate cwd p
  match t.lookup place with
  | some (.file text) => .ok text
  | some .dir => .error .isDirectory
  | none => .error .notFound

/-- Put something at a place, if the place admits it. -/
def tryPut (place : List Str) (node : Node) : Except Error Unit × FileTree :=
  if h : t.Admits place node then (.ok (), t.put place node h) else (.error .notFound, t)

/-- Change the text of a file, or make the file; nothing else than a text can be changed. -/
def modify (p : HostPath) (f : Option Str → Str) : Except Error Unit × FileTree :=
  match t.locate cwd p with
  | .error e => (.error e, t)
  | .ok place =>
    match t.lookup place with
    | some .dir => (.error .isDirectory, t)
    | some (.file text) => t.tryPut place (.file (f (some text)))
    | none => t.tryPut place (.file (f none))

/-- Write a file. -/
def write (p : HostPath) (content : Str) : Except Error Unit × FileTree :=
  t.modify cwd p fun _ => content

/-- Append to a file, which is made if it is missing. -/
def append (p : HostPath) (text : Str) : Except Error Unit × FileTree :=
  t.modify cwd p fun old => old.getD [] ++ text

/-- Make a directory. -/
def mkdir (p : HostPath) : Except Error Unit × FileTree :=
  match t.locate cwd p with
  | .error e => (.error e, t)
  | .ok place =>
    match t.lookup place with
    | some _ => (.error .alreadyExists, t)
    | none => t.tryPut place .dir

/-- An attempt to make a directory is as good as done if there is one. -/
def unlessDir (p : HostPath) (e : Error) : Except Error Unit × FileTree :=
  (if t.isDir cwd p then .ok () else .error e, t)

/-- Make a directory, and the missing ones above it. -/
def createDirAll (p : HostPath) : Except Error Unit × FileTree :=
  go (p.components.length + 1) t p
where
  /-- At most `fuel` directories deep; the length of the path is always enough. -/
  go : Nat → FileTree → HostPath → Except Error Unit × FileTree
    | 0, t, _ => (.error .notFound, t)
    | fuel + 1, t, p =>
      match t.mkdir cwd p with
      | (.ok (), t') => (.ok (), t')
      | (.error .notFound, _) =>
        match p.parent with
        | none => (.error .notFound, t)
        | some parent =>
          match go fuel t parent with
          | (.error e, t') => (.error e, t')
          | (.ok (), t') =>
            match t'.mkdir cwd p with
            | (.ok (), t'') => (.ok (), t'')
            | (.error e, _) => t'.unlessDir cwd p e
      | (.error e, _) => t.unlessDir cwd p e

/-! ## Where a path leads -/

variable {t cwd}

/-- A component that can be followed is entered, by `enter`, from a directory. -/
theorem lookup_of_follow {place place' : List Str} {component : Component Str}
    (h : t.follow place component = .ok place') :
    t.lookup place = some .dir ∧ place' = LexicalPath.enter place component := by
  unfold follow at h
  split at h
  · rename_i hdir
    exact ⟨hdir, (Except.ok.inj h).symm⟩
  · cases h
  · cases h

/-- **A path leads where it says**: what `locate` finds is what `resolve` reads off the path. -/
theorem resolve_of_locate {p : HostPath} {place : List Str} (h : t.locate cwd p = .ok place) :
    place = p.resolve cwd := by
  unfold locate at h
  unfold HostPath.resolve
  generalize (if p.absolute then [] else cwd) = start at h ⊢
  generalize p.components = components at h ⊢
  induction components generalizing start with
  | nil => exact (Except.ok.inj h).symm
  | cons component components ih =>
    rw [List.foldlM_cons] at h
    cases hstep : t.follow start component with
    | error e => rw [hstep] at h; cases h
    | ok next =>
      rw [hstep] at h
      rw [LexicalPath.walk_cons, ← (lookup_of_follow hstep).2]
      exact ih next h

/-- What is below a place makes it a `dir`. -/
theorem lookup_eq_dir_of_append {place names : List Str} {node : Node} (hne : names ≠ [])
    (h : t.lookup (place ++ names) = some node) : t.lookup place = some .dir := by
  -- From the bottom, one name at a time.
  induction names using List.reverseRecOn generalizing node with
  | nil => exact absurd rfl hne
  | append_singleton names name ih =>
    have hparent : t.lookup (place ++ names) = some .dir := by
      rw [lookup]
      split
      · rfl
      · rename_i hroot
        rw [← List.append_assoc, lookup, if_neg (List.concat_ne_nil _ _)] at h
        exact t.closed _ name node h hroot
    rcases eq_or_ne names [] with rfl | hnames
    · rwa [List.append_nil] at hparent
    · exact ih hnames hparent

/-- `follow` leads from a place along names if there is something where they lead. -/
theorem foldlM_follow_names {names : List Str} {place : List Str} {node : Node}
    (h : t.lookup (place ++ names) = some node) :
    (names.map Component.name).foldlM t.follow place = .ok (place ++ names) := by
  induction names generalizing place with
  | nil => exact congrArg Except.ok (List.append_nil place).symm
  | cons name names ih =>
    have hdir : t.lookup place = some .dir := lookup_eq_dir_of_append (List.cons_ne_nil _ _) h
    have hstep : t.follow place (.name name) = .ok (place ++ [name]) := by
      rw [follow, hdir]
      rfl
    rw [List.append_cons] at h ⊢
    rw [List.map_cons, List.foldlM_cons, hstep]
    exact ih h

/-- Segments that are joined to a path are followed from the place that `locate` finds for the path.
-/
theorem locate_join (p : HostPath) {segments : List Str}
    (h : ∀ segment ∈ segments, segment ≠ [] ∧ '/' ∉ segment) :
    t.locate cwd (p.join (Str.join segments)) = t.locate cwd p >>= fun place =>
      (segments.map Component.ofPiece).foldlM t.follow place := by
  rw [locate, HostPath.absolute_join p (HostPath.startsWith_join_eq_false h),
    HostPath.components_join_segments p h, List.foldlM_append]
  rfl

/-- **What is below a directory that is located is located**, if names without `.` and `..` lead
there. -/
theorem locate_join_names {p : HostPath} {place names : List Str} {node : Node}
    (hnames : ∀ name ∈ names, Component.ofPiece name = .name name ∧ '/' ∉ name)
    (hlocate : t.locate cwd p = .ok place) (h : t.lookup (place ++ names) = some node) :
    t.locate cwd (p.join (Str.join names)) = .ok (place ++ names) := by
  have hsegments : ∀ name ∈ names, name ≠ [] ∧ '/' ∉ name := fun name hname =>
    ⟨Component.ne_nil_of_ofPiece (hnames name hname).1, (hnames name hname).2⟩
  rw [locate_join p hsegments, hlocate,
    List.map_congr_left fun name hname => (hnames name hname).1]
  exact foldlM_follow_names h

/-- `readToString` looks at the place that `locate` finds. -/
theorem readToString_of_locate {p : HostPath} {place : List Str} (h : t.locate cwd p = .ok place) :
    t.readToString cwd p = match t.lookup place with
      | some (.file text) => .ok text
      | some .dir => .error .isDirectory
      | none => .error .notFound := by
  rw [readToString, h]
  rfl

/-- `locate` finds the same place wherever the directories are that the path leads through. -/
theorem locate_of_dirs {t' : FileTree} (h : ∀ place, t.lookup place = some .dir → t'.lookup place = some .dir)
    {p : HostPath} {place : List Str} (hlocate : t.locate cwd p = .ok place) :
    t'.locate cwd p = .ok place := by
  unfold locate at hlocate ⊢
  generalize (if p.absolute then [] else cwd) = start at hlocate ⊢
  generalize p.components = components at hlocate ⊢
  induction components generalizing start with
  | nil => exact hlocate
  | cons component components ih =>
    rw [List.foldlM_cons] at hlocate ⊢
    cases hstep : t.follow start component with
    | error e => rw [hstep] at hlocate; cases hlocate
    | ok next =>
      rw [hstep] at hlocate
      obtain ⟨hdir, rfl⟩ := lookup_of_follow hstep
      have hstep' : t'.follow start component = .ok (LexicalPath.enter start component) := by
        rw [follow, h start hdir]
      rw [hstep']
      exact ih _ hlocate

/-! ## What is missing -/

/-- Below a place where `lookup` finds nothing it finds nothing either. -/
theorem lookup_eq_none_of_append {place : List Str} (h : t.lookup place = none) (names : List Str) :
    t.lookup (place ++ names) = none := by
  rcases eq_or_ne names [] with rfl | hne
  · rwa [List.append_nil]
  · by_contra hsome
    obtain ⟨node, hnode⟩ := Option.ne_none_iff_exists'.mp hsome
    rw [lookup_eq_dir_of_append hne hnode] at h
    cases h

/-- One component from a place below nothing leads to nothing, also if it is `..`. -/
theorem lookup_enter_eq_none {place : List Str} (h : t.lookup place = none) (name : Str)
    (names : List Str) (last : Component Str) :
    t.lookup (LexicalPath.enter (place ++ name :: names) last) = none := by
  cases last with
  | here => exact lookup_eq_none_of_append h _
  | up =>
    have hparent : LexicalPath.enter (place ++ name :: names) .up
        = place ++ (name :: names).dropLast := List.dropLast_append_of_ne_nil (List.cons_ne_nil _ _)
    rw [hparent]
    exact lookup_eq_none_of_append h _
  | name other =>
    show t.lookup (place ++ name :: names ++ [other]) = none
    rw [List.append_assoc]
    exact lookup_eq_none_of_append h _

/-- `walk` enters names one after the other. -/
theorem walk_names (place names : List Str) :
    LexicalPath.walk place (names.map Component.name) = place ++ names := by
  induction names generalizing place with
  | nil => exact (List.append_nil place).symm
  | cons name names ih =>
    rw [List.map_cons, LexicalPath.walk_cons, ih, List.append_cons]
    rfl

/-- **Where a directory is missing there is no file**: if some names and one more component cannot
be followed from a `dir` because something is missing, they do not lead to a file. -/
theorem lookup_walk_ne_file {place names : List Str} {last : Component Str}
    (hplace : t.lookup place = some .dir)
    (hmissing : (names.map Component.name ++ [last]).foldlM t.follow place = .error .notFound)
    (text : Str) :
    t.lookup (LexicalPath.walk place (names.map Component.name ++ [last])) ≠ some (.file text) := by
  induction names generalizing place with
  | nil =>
    -- The last component can be followed from a directory.
    have hstep : t.follow place last = .ok (LexicalPath.enter place last) := by
      rw [follow, hplace]
    rw [List.map_nil, List.nil_append, List.foldlM_cons, hstep] at hmissing
    cases hmissing
  | cons name names ih =>
    have hstep : t.follow place (.name name) = .ok (place ++ [name]) := by
      rw [follow, hplace]
      rfl
    rw [List.map_cons, List.cons_append] at hmissing ⊢
    rw [List.foldlM_cons, hstep] at hmissing
    replace hmissing : (names.map Component.name ++ [last]).foldlM t.follow (place ++ [name])
      = .error .notFound := hmissing
    rw [LexicalPath.walk_cons]
    show t.lookup (LexicalPath.walk (place ++ [name]) _) ≠ _
    rcases hnext : t.lookup (place ++ [name]) with _ | _ | found
    · rw [LexicalPath.walk_append, walk_names, LexicalPath.walk_cons, LexicalPath.walk_nil]
      cases names with
      | nil =>
        rw [List.append_nil]
        cases last with
        | here =>
          show t.lookup (place ++ [name]) ≠ _
          rw [hnext]
          exact nofun
        | up =>
          show t.lookup (place ++ [name]).dropLast ≠ _
          rw [List.dropLast_concat, hplace]
          exact nofun
        | name other =>
          show t.lookup (place ++ [name] ++ [other]) ≠ _
          rw [lookup_eq_none_of_append hnext]
          exact nofun
      | cons second names =>
        rw [lookup_enter_eq_none hnext]
        exact nofun
    · exact ih hnext hmissing
    · -- There is a file in the way.
      obtain ⟨component, rest, hrest⟩ := List.exists_cons_of_ne_nil
        (List.concat_ne_nil last (names.map Component.name))
      rw [hrest, List.foldlM_cons, follow, hnext] at hmissing
      cases hmissing

/-- The same as `lookup_walk_ne_file` from anywhere, if there is a name to follow. -/
theorem lookup_walk_cons_ne_file {place names : List Str} {name : Str} {last : Component Str}
    (hmissing : ((name :: names).map Component.name ++ [last]).foldlM t.follow place
      = .error .notFound) (text : Str) :
    t.lookup (LexicalPath.walk place ((name :: names).map Component.name ++ [last]))
      ≠ some (.file text) := by
  rcases hplace : t.lookup place with _ | _ | found
  · rw [LexicalPath.walk_append, walk_names, LexicalPath.walk_cons, LexicalPath.walk_nil,
      lookup_enter_eq_none hplace]
    exact nofun
  · exact lookup_walk_ne_file hplace hmissing text
  · rw [List.map_cons, List.cons_append, List.foldlM_cons, follow, hplace] at hmissing
    cases hmissing

/-! ## What an operation changes -/

/-- `tryPut` that succeeds puts the node into its place, and changes no other place. -/
theorem tryPut_ok {place : List Str} {node : Node} (h : (t.tryPut place node).1 = .ok ())
    (place' : List Str) :
    (t.tryPut place node).2.lookup place' = if place' = place then some node else t.lookup place' := by
  unfold tryPut at h ⊢
  split at h
  · rename_i hadmits
    rw [dif_pos hadmits]
    exact lookup_put hadmits
  · cases h

/-- `tryPut` that fails changes nothing. -/
theorem tryPut_error {place : List Str} {node : Node} {e : Error}
    (h : (t.tryPut place node).1 = .error e) : (t.tryPut place node).2 = t := by
  unfold tryPut at h ⊢
  split at h
  · cases h
  · rename_i hadmits
    rw [dif_neg hadmits]

section Modify

variable {p : HostPath} {f : Option Str → Str}

/-- **A modification changes the text of one file**: by `f`, at the place that `resolve` reads off
the path. -/
theorem modify_ok (h : (t.modify cwd p f).1 = .ok ()) :
    ∃ old : Option Str, t.lookup (p.resolve cwd) = old.map Node.file ∧
      ∀ place, (t.modify cwd p f).2.lookup place =
        if place = p.resolve cwd then some (.file (f old)) else t.lookup place := by
  unfold modify at h ⊢
  cases hlocate : t.locate cwd p with
  | error e => rw [hlocate] at h; cases h
  | ok place =>
    rw [hlocate] at h
    obtain rfl := resolve_of_locate hlocate
    dsimp only at h ⊢
    -- Either the file is there, or it is made.
    rcases hlookup : t.lookup (p.resolve cwd) with _ | _ | text
    · rw [hlookup] at h
      exact ⟨none, rfl, fun place => tryPut_ok h place⟩
    · rw [hlookup] at h
      cases h
    · rw [hlookup] at h
      exact ⟨some text, rfl, fun place => tryPut_ok h place⟩

/-- A `modify` that fails changes nothing. -/
theorem modify_error {e : Error} (h : (t.modify cwd p f).1 = .error e) :
    (t.modify cwd p f).2 = t := by
  unfold modify at h ⊢
  cases hlocate : t.locate cwd p with
  | error e => rfl
  | ok place =>
    rw [hlocate] at h
    dsimp only at h ⊢
    rcases hlookup : t.lookup place with _ | _ | text
    · rw [hlookup] at h
      exact tryPut_error h
    · rfl
    · rw [hlookup] at h
      exact tryPut_error h

end Modify

/-- What is at a place stays; only where nothing was a directory may be made. -/
def Spares (t t' : FileTree) (place : List Str) : Prop :=
  t'.lookup place = t.lookup place ∨ t.lookup place = none ∧ t'.lookup place = some .dir

/-- Where `Spares` holds a file stays as it is, and none is made. -/
theorem Spares.lookup_eq_file_iff {t' : FileTree} {place : List Str} (h : t.Spares t' place)
    {text : Str} : t'.lookup place = some (.file text) ↔ t.lookup place = some (.file text) := by
  rcases h with hsame | ⟨hnone, hdir⟩
  · rw [hsame]
  · rw [hnone, hdir]
    exact ⟨nofun, nofun⟩

/-- `Spares` is transitive. -/
theorem Spares.trans {t' t'' : FileTree} {place : List Str} (h : t.Spares t' place)
    (h' : t'.Spares t'' place) : t.Spares t'' place := by
  rcases h with hsame | ⟨hnone, hdir⟩ <;> rcases h' with hsame' | ⟨hnone', hdir'⟩
  · exact .inl (hsame'.trans hsame)
  · exact .inr ⟨hsame ▸ hnone', hdir'⟩
  · exact .inr ⟨hnone, hsame'.trans hdir⟩
  · exact .inr ⟨hnone, hdir'⟩

/-- Only directories are made, and only where nothing was. -/
def Grows (t t' : FileTree) : Prop := ∀ place, t.Spares t' place

/-- `Grows` is reflexive. -/
theorem Grows.refl (t : FileTree) : t.Grows t := fun _ => .inl rfl

/-- `Grows` is transitive. -/
theorem Grows.trans {t t' t'' : FileTree} (h : t.Grows t') (h' : t'.Grows t'') : t.Grows t'' :=
  fun place => (h place).trans (h' place)

/-- `mkdir` makes at most a directory where nothing was. -/
theorem grows_mkdir (p : HostPath) : t.Grows (t.mkdir cwd p).2 := by
  unfold mkdir
  split
  · exact .refl t
  · rename_i place _
    split
    · exact .refl t
    · rename_i hnone
      intro place'
      cases hput : (t.tryPut place .dir).1 with
      | error e => exact .inl (by rw [tryPut_error hput])
      | ok _ =>
        rw [Spares, tryPut_ok hput]
        split
        · rename_i heq
          exact .inr ⟨heq ▸ hnone, rfl⟩
        · exact .inl rfl

/-- **Making directories leaves every file alone**: `createDirAll` only `Grows` the file system. -/
theorem grows_createDirAll (p : HostPath) : t.Grows (t.createDirAll cwd p).2 := by
  unfold createDirAll
  generalize p.components.length + 1 = fuel
  induction fuel generalizing t p with
  | zero => exact .refl t
  | succ fuel ih =>
    have hmkdir : ∀ t : FileTree, t.Grows (t.mkdir cwd p).2 := fun t => grows_mkdir p
    unfold createDirAll.go
    split
    · rename_i t' hfirst
      exact hfirst ▸ hmkdir t
    · split
      · exact .refl t
      · rename_i parent _
        have hparent := ih (t := t) parent
        split
        · rename_i e t' hgo
          exact hgo ▸ hparent
        · rename_i t' hgo
          rw [hgo] at hparent
          split
          · rename_i t'' hsecond
            exact hparent.trans (hsecond ▸ hmkdir t')
          · exact hparent
    · exact .refl t

/-- After an `mkdir` that succeeds there is a `dir`. -/
theorem mkdir_ok {p : HostPath} (h : (t.mkdir cwd p).1 = .ok ()) :
    (t.mkdir cwd p).2.lookup (p.resolve cwd) = some .dir := by
  unfold mkdir at h ⊢
  cases hlocate : t.locate cwd p with
  | error e => rw [hlocate] at h; cases h
  | ok place =>
    rw [hlocate] at h
    obtain rfl := resolve_of_locate hlocate
    dsimp only at h ⊢
    cases hlookup : t.lookup (p.resolve cwd) with
    | some node => rw [hlookup] at h; cases h
    | none =>
      rw [hlookup] at h
      exact (tryPut_ok h _).trans (if_pos rfl)

/-- Where `isDir` says so, there is a directory. -/
theorem lookup_of_isDir {p : HostPath} (h : t.isDir cwd p = true) :
    t.lookup (p.resolve cwd) = some .dir := by
  unfold isDir at h
  cases hlocate : t.locate cwd p with
  | error e => rw [hlocate] at h; cases h
  | ok place =>
    rw [hlocate] at h
    obtain rfl := resolve_of_locate hlocate
    exact of_decide_eq_true h

/-- `isDir` stays true where no directory is removed. -/
theorem isDir_of_dirs {t' : FileTree}
    (h : ∀ place, t.lookup place = some .dir → t'.lookup place = some .dir) {p : HostPath}
    (hdir : t.isDir cwd p = true) : t'.isDir cwd p = true := by
  unfold isDir at hdir ⊢
  cases hlocate : t.locate cwd p with
  | error e => rw [hlocate] at hdir; cases hdir
  | ok place =>
    rw [hlocate] at hdir
    rw [locate_of_dirs h hlocate]
    exact decide_eq_true (h place (of_decide_eq_true hdir))

/-- `unlessDir` succeeds only where there is a directory. -/
theorem unlessDir_ok {p : HostPath} {e : Error} (h : (t.unlessDir cwd p e).1 = .ok ()) :
    (t.unlessDir cwd p e).2.lookup (p.resolve cwd) = some .dir := by
  unfold unlessDir at h ⊢
  dsimp only at h ⊢
  split at h
  · exact lookup_of_isDir ‹_›
  · cases h

/-- **After the directories have been made**, by `createDirAll`, **the directory is there**. -/
theorem createDirAll_ok {p : HostPath} (h : (t.createDirAll cwd p).1 = .ok ()) :
    (t.createDirAll cwd p).2.lookup (p.resolve cwd) = some .dir := by
  unfold createDirAll at h ⊢
  generalize p.components.length + 1 = fuel at h ⊢
  cases fuel with
  | zero => cases h
  | succ fuel =>
    have hmkdir : ∀ t t' : FileTree, t.mkdir cwd p = (.ok (), t') →
        t'.lookup (p.resolve cwd) = some .dir := by
      intro t t' hmkdir
      have hdir := @mkdir_ok t cwd p (by rw [hmkdir])
      rwa [hmkdir] at hdir
    unfold createDirAll.go at h ⊢
    cases hfirst : t.mkdir cwd p with
    | mk answer t₁ =>
      rw [hfirst] at h
      rcases answer with e | _
      · cases e with
        | notFound =>
          -- The directories above it come first, and then it is tried again.
          dsimp only at h ⊢
          cases hparent : p.parent with
          | none => rw [hparent] at h; cases h
          | some parent =>
            rw [hparent] at h
            dsimp only at h ⊢
            rcases hgo : createDirAll.go cwd fuel t parent with ⟨e | _, t₂⟩
            · rw [hgo] at h; cases h
            · rw [hgo] at h
              dsimp only at h ⊢
              rcases hsecond : t₂.mkdir cwd p with ⟨e | _, t₃⟩
              · rw [hsecond] at h
                exact unlessDir_ok h
              · exact hmkdir t₂ t₃ hsecond
        | notDirectory => exact unlessDir_ok h
        | isDirectory => exact unlessDir_ok h
        | alreadyExists => exact unlessDir_ok h
      · exact hmkdir t t₁ hfirst

end FileTree

end LogosFs
