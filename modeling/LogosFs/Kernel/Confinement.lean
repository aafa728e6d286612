import LogosFs.Kernel.Routing
import LogosFs.Kernel.Stores

/-! # Whether the file-backed namespaces stay inside their roots

A segment of a path may be `..`, and joining it below a root is all that the namespaces do with it.
`Touches` speaks about every path that a request reads, writes or appends to, whatever the file
system answers; `touches_confines_iff` says that these lie under the root (for a task's sandbox:
under the directory of the task) exactly when the segments stay inside on their own account. -/

namespace LogosFs.Kernel

open HostPath (Under Inside)

variable (json : JsonCodec)

/-- The path that an operation reads, writes or appends to. Making the directories on the way to a
file is not counted: the file itself is. -/
@[simp] def FsOp.target : FsOp → Option HostPath
  | .isDir path | .readDir path | .readToString path | .write path _ | .openAppend path
  | .writeAll path _ => some path
  | .createDirAll _ => none

/-- Every path that a program reads, writes or appends to satisfies `P`, whatever it is answered. -/
def Touches {α : Type} (P : HostPath → Prop) (p : FsM α) : Prop :=
  p.run.AllOps fun op : FsOp => ∀ path ∈ op.target, P path

/-- What holds of every path in `some p` holds of `p`. -/
@[simp] theorem forall_mem_some {P : HostPath → Prop} {p : HostPath} :
    (∀ path ∈ some p, P path) ↔ P p := by
  simp only [Option.mem_some_iff, forall_eq']

section Touches

variable {α β : Type} {P : HostPath → Prop} {json}

/-- `pure` touches nothing. -/
@[simp] theorem touches_pure (value : α) : Touches P (pure value : FsM α) := trivial

/-- `throw` touches nothing. -/
@[simp] theorem touches_throw (e : VfsError) : Touches P (throw e : FsM α) := trivial

/-- `ask op` touches the `target` of `op`, if it has one. -/
@[simp] theorem touches_ask (op : FsOp) : Touches P (ask op) ↔ ∀ path ∈ op.target, P path :=
  ⟨fun h => h.1, fun h => ⟨h, fun _ => trivial⟩⟩

/-- What follows `ask op` may touch more, whatever the answer is. -/
@[simp] theorem touches_ask_bind (op : FsOp) (f : FsSig.Res op → FsM β) :
    Touches P (ask op >>= f) ↔ (∀ path ∈ op.target, P path) ∧ ∀ answer, Touches P (f answer) :=
  Iff.rfl

/-- `orIo` touches nothing. -/
@[simp] theorem touches_orIo (context : Str) (answer : Except FsError α) :
    Touches P (orIo context answer) := by
  cases answer <;> trivial

/-- What follows `orIo` happens, and touches something, if the answer is a value. -/
@[simp] theorem touches_orIo_bind (context : Str) (answer : Except FsError α) (f : α → FsM β) :
    Touches P (orIo context answer >>= f) ↔ ∀ value, answer = .ok value → Touches P (f value) := by
  cases answer with
  | ok value => simp [orIo]
  | error e => simp [orIo, Touches]

/-- Reading a path by `readPath` touches this `filePath` and no other one. -/
@[simp] theorem touches_readPath (shown : HostPath → Str) (uri : Str) (filePath : HostPath) :
    Touches P (readPath json shown uri filePath) ↔ P filePath := by
  rw [readPath, touches_ask_bind, FsOp.target, forall_mem_some]
  refine and_iff_left_of_imp fun h isDir => ?_
  cases isDir with
  | true =>
    refine (touches_ask_bind _ _).mpr ⟨forall_mem_some.mpr h, fun answer => ?_⟩
    exact (touches_orIo_bind _ _ _).mpr fun _ _ => trivial
  | false =>
    refine (touches_ask_bind _ _).mpr ⟨forall_mem_some.mpr h, fun answer => ?_⟩
    rcases answer with (_ | _) | _ <;> trivial

/-- Making the directory that a path is in, by `makeParent`, touches nothing. -/
theorem touches_makeParent_bind (shown : HostPath → Str) (filePath : HostPath) (f : Unit → FsM β) :
    Touches P (makeParent shown filePath >>= f) ↔ Touches P (f ()) := by
  rw [makeParent]
  cases filePath.parent with
  | none => exact Iff.rfl
  | some parent =>
    dsimp only
    rw [bind_assoc, touches_ask_bind]
    simp only [touches_orIo_bind, FsOp.target]
    constructor
    · rintro ⟨-, h⟩
      exact h (.ok ()) () rfl
    · intro h
      exact ⟨fun _ hnone => (nomatch hnone), fun _ _ _ => h⟩

/-- Writing a path by `writePath` touches this `filePath` and no other one. -/
@[simp] theorem touches_writePath (shown : HostPath → Str) (filePath : HostPath) (content : Str) :
    Touches P (writePath shown filePath content) ↔ P filePath := by
  rw [writePath, touches_makeParent_bind, touches_ask_bind, FsOp.target, forall_mem_some]
  exact and_iff_left fun answer => touches_orIo _ _

/-- Reading by `readStore` touches the `root` with the segments joined to it. -/
theorem touches_readStore (name : Str) (shown : HostPath → Str) (root : HostPath) (path : List Str) :
    Touches P (readStore json name shown root path) ↔
      P (if path = [] then root else root.join (Str.join path)) := by
  rw [readStore]
  split
  · rw [touches_ask_bind, FsOp.target, forall_mem_some]
    exact and_iff_left fun answer => (touches_orIo_bind _ _ _).mpr fun _ _ => trivial
  · exact touches_readPath ..

/-- Writing by `writeStore` touches the `root` with the segments joined to it, unless there are
none. -/
theorem touches_writeStore (name : Str) (shown : HostPath → Str) (root : HostPath) (path : List Str)
    (content : Str) : Touches P (writeStore name shown root path content) ↔
      (path ≠ [] → P (root.join (Str.join path))) := by
  rw [writeStore]
  split
  · rename_i h; exact iff_of_true trivial fun hne => absurd h hne
  · rename_i h; rw [touches_writePath]; exact ⟨fun hp _ => hp, fun hp => hp h⟩

/-- Reading a user's file by `UsersNs.read` touches this file. -/
theorem touches_users_read (root : HostPath) (path : List Str) :
    Touches P (UsersNs.read json root path) ↔ (path ≠ [] → P (root.join (Str.join path))) := by
  rw [UsersNs.read]
  split
  · rename_i h; exact iff_of_true trivial fun hne => absurd h hne
  · rename_i h; rw [touches_readPath]; exact ⟨fun hp _ => hp, fun hp => hp h⟩

/-- A patch of a user's file by `UsersNs.patch` touches this file. -/
theorem touches_users_patch (root : HostPath) (path : List Str) (partialText : Str) :
    Touches P (UsersNs.patch json root path partialText) ↔
      (path ≠ [] → P (root.join (Str.join path))) := by
  rw [UsersNs.patch]
  split
  · rename_i h; exact iff_of_true trivial fun hne => absurd h hne
  · rename_i h
    rw [touches_ask_bind, FsOp.target, forall_mem_some]
    constructor
    · intro hp _; exact hp.1
    · intro hp
      refine ⟨hp h, fun answer => ?_⟩
      dsimp only
      split <;> exact (touches_writePath ..).mpr (hp h)

/-- An entry of a persona's short memory touches the file `personaShortPath` that it is appended to.
-/
theorem touches_appendPersonaShort (root : HostPath) (path : List Str) (content : Str) :
    Touches P (UsersNs.appendPersonaShort json root path content) ↔
      P (UsersNs.personaShortPath root path) := by
  rw [UsersNs.appendPersonaShort, touches_ask_bind, FsOp.target, forall_mem_some]
  refine and_iff_left_of_imp fun h answer => ?_
  have hrest : ∀ existing : Str,
      Touches P (UsersNs.appendEntry json (UsersNs.personaShortPath root path) content existing) := by
    intro existing
    by_cases hparse : ∃ entries, json.fromStr existing = .ok (.array entries)
    · obtain ⟨entries, hparse⟩ := hparse
      rw [UsersNs.appendEntry_of_array hparse]
      exact (touches_writePath ..).mpr h
    · obtain ⟨e, he⟩ := UsersNs.appendEntry_of_other (fun entries h => hparse ⟨entries, h⟩)
        (UsersNs.personaShortPath root path) content
      rw [he]
      trivial
  rcases answer with (_ | _) | text
  · exact hrest "[]".toList
  · trivial
  · exact hrest text

/-- A write of a user's file by `UsersNs.write` touches this file; for a persona's short memory it
is `personaShortPath`, without a period the file of the latest one. -/
theorem touches_users_write (root : HostPath) (path : List Str) (content : Str) :
    Touches P (UsersNs.write json root path content) ↔ (path ≠ [] →
      P (if UsersNs.isPersonaShort path then UsersNs.personaShortPath root path
        else root.join (Str.join path))) := by
  rw [UsersNs.write]
  split
  · rename_i h; exact iff_of_true trivial fun hne => absurd h hne
  · rename_i h
    rw [forall_prop_of_true h]
    split
    · exact touches_appendPersonaShort root path content
    · exact touches_writePath ..

/-- The host path of a sandbox path, if its task has an agent with a container. -/
def SandboxNs.target (ns : SandboxNs) (path : List Str) : Option HostPath :=
  if path.head? = some "__system__".toList then some (ns.hostRoot.join (Str.join path))
  else match path with
    | [] => none
    | taskId :: rest => ((ns.taskAgent taskId).bind ns.containers).map fun hostPath =>
      if rest = [] then hostPath.join taskId else (hostPath.join taskId).join (Str.join rest)

/-- Resolving a path of a sandbox by `resolvePath` touches nothing; what `f` does with the `target`
may. -/
theorem touches_resolvePath_bind (ns : SandboxNs) (path : List Str) (f : HostPath → FsM β) :
    Touches P (ns.resolvePath path >>= f) ↔ ∀ filePath ∈ ns.target path, Touches P (f filePath) := by
  unfold SandboxNs.resolvePath SandboxNs.target
  split
  · rw [pure_bind, forall_mem_some]
  · rcases path with _ | ⟨taskId, rest⟩
    · exact iff_of_true trivial fun _ h => nomatch h
    · dsimp only
      cases ns.taskAgent taskId with
      | none => exact iff_of_true trivial fun _ h => nomatch h
      | some agentId =>
        dsimp only
        rw [Option.bind_some]
        cases ns.containers agentId with
        | none => exact iff_of_true trivial fun _ h => nomatch h
        | some hostPath =>
          dsimp only
          rw [bind_assoc, touches_ask_bind, Option.map_some, forall_mem_some]
          simp only [bind_assoc, pure_bind, touches_orIo_bind, FsOp.target]
          constructor
          · rintro ⟨-, h⟩
            exact h (.ok ()) () rfl
          · intro h
            exact ⟨fun _ hnone => (nomatch hnone), fun _ _ _ => h⟩

section Sandbox

variable (ns : SandboxNs) (path : List Str)

/-- A read of the sandbox touches its `target`, and nothing else. -/
theorem touches_sandbox_read : Touches P (ns.read json path) ↔
    ∀ filePath ∈ ns.target path, P filePath := by
  rw [SandboxNs.read]
  split
  · rename_i h; subst h; exact iff_of_true trivial fun _ h => nomatch h
  · simp only [touches_resolvePath_bind, touches_readPath]

/-- A write to the sandbox touches its `target`, and nothing else. -/
theorem touches_sandbox_write (content : Str) : Touches P (ns.write path content) ↔
    ∀ filePath ∈ ns.target path, P filePath := by
  rw [SandboxNs.write]
  split
  · rename_i h; subst h; exact iff_of_true trivial fun _ h => nomatch h
  · simp only [touches_resolvePath_bind, touches_writePath]

/-- A patch of the sandbox touches its `target`, and nothing else. -/
theorem touches_sandbox_patch (partialText : Str) : Touches P (ns.patch path partialText) ↔
    ∀ filePath ∈ ns.target path, P filePath := by
  rw [SandboxNs.patch]
  split
  · simp only [touches_resolvePath_bind]
    refine forall₂_congr fun filePath _ => ?_
    rw [touches_makeParent_bind, touches_ask_bind, FsOp.target, forall_mem_some]
    refine and_iff_left_of_imp fun h opened => ?_
    -- The file is opened, and appended to twice.
    refine (touches_orIo_bind _ _ _).mpr fun _ _ => (touches_ask_bind _ _).mpr
      ⟨forall_mem_some.mpr h, fun appended => ?_⟩
    exact (touches_orIo_bind _ _ _).mpr fun _ _ => (touches_ask_bind _ _).mpr
      ⟨forall_mem_some.mpr h, fun ended => touches_orIo _ _⟩
  · exact touches_sandbox_write ns path partialText

end Sandbox

end Touches

/-! ## Requests to the four namespaces -/

variable (s : Stores)

/-- The directory of a task's container. -/
def SandboxNs.container? (ns : SandboxNs) (taskId : Str) : Option HostPath :=
  (ns.taskAgent taskId).bind ns.containers

/-- Where a namespace may go for a path: under its root; in the sandbox of a task under the
directory of the container and under that of the task. -/
def Stores.Confines (store : Store) (path : List Str) (p : HostPath) : Prop :=
  match store, path with
  | .users, _ => Under s.cwd s.users p
  | .procStore, _ => Under s.cwd s.procStore p
  | .svcStore, _ => Under s.cwd s.svcStore p
  | .sandbox, [] => False
  | .sandbox, first :: _ =>
    if first = "__system__".toList then Under s.cwd s.sandbox.hostRoot p
    else ∀ container ∈ s.sandbox.container? first,
      Under s.cwd container p ∧ Under s.cwd (container.join first) p

/-- The segments of a path stay inside the root on their own account: seen from it they never climb
out of it, or spell again what they have climbed. In the sandbox of a task this is asked of the
segments seen from the container's directory, and of those after the task seen from the task's. -/
def Stores.StaysInside (store : Store) (path : List Str) : Prop :=
  match store, path with
  | .users, _ => Inside s.cwd s.users path
  | .procStore, _ => Inside s.cwd s.procStore path
  | .svcStore, _ => Inside s.cwd s.svcStore path
  | .sandbox, [] => True
  | .sandbox, first :: rest =>
    if first = "__system__".toList then Inside s.cwd s.sandbox.hostRoot path
    else ∀ container ∈ s.sandbox.container? first,
      Inside s.cwd container path ∧ Inside s.cwd (container.join first) rest

instance (store : Store) (path : List Str) : Decidable (s.StaysInside store path) :=
  match store, path with
  | .users, path => inferInstanceAs (Decidable (Inside s.cwd s.users path))
  | .procStore, path => inferInstanceAs (Decidable (Inside s.cwd s.procStore path))
  | .svcStore, path => inferInstanceAs (Decidable (Inside s.cwd s.svcStore path))
  | .sandbox, [] => .isTrue trivial
  | .sandbox, first :: rest => inferInstanceAs (Decidable (if first = "__system__".toList then
      Inside s.cwd s.sandbox.hostRoot (first :: rest)
    else ∀ container ∈ s.sandbox.container? first,
      Inside s.cwd container (first :: rest) ∧ Inside s.cwd (container.join first) rest))

section Confined

variable {s} {json} {cwd : List Str} {root : HostPath} {path : List Str}

/-- A program that answers another `value` touches what it has touched. -/
theorem touches_bind_pure {α β : Type} {P : HostPath → Prop} {p : FsM α} {value : β} :
    Touches P (do let _ ← p; return value) ↔ Touches P p := by
  rw [Touches, ExceptT.run_bind]
  refine Program.allOps_bind_iff fun result => ?_
  cases result <;> trivial

/-- No segments at all stay `Inside` every directory. -/
theorem inside_nil : Inside cwd root [] := LexicalPath.Offset.reenters_of_ups_eq_zero rfl _

/-- A store stays `Under` its root exactly when the segments stay `Inside`. -/
theorem under_store_iff (h : ∀ segment ∈ path, segment ≠ [] ∧ '/' ∉ segment) :
    Under cwd root (if path = [] then root else root.join (Str.join path)) ↔
      Inside cwd root path := by
  split
  · rename_i hnil; subst hnil; exact iff_of_true (List.prefix_refl _) inside_nil
  · exact HostPath.under_join_iff cwd root h

/-- A path below a root stays under it exactly if its segments stay `Inside`. -/
theorem under_store_of_ne_iff (h : ∀ segment ∈ path, segment ≠ [] ∧ '/' ∉ segment) :
    (path ≠ [] → Under cwd root (root.join (Str.join path))) ↔ Inside cwd root path := by
  by_cases hnil : path = []
  · subst hnil; exact iff_of_true (fun hne => absurd rfl hne) inside_nil
  · rw [forall_prop_of_true hnil]; exact HostPath.under_join_iff cwd root h

/-- The file `latest` of a short memory is `Inside` the root exactly when the directory it is in is.
-/
theorem inside_latest_iff (uid : Str) : Inside cwd root [uid, "persona", "short", "latest"] ↔
    Inside cwd root [uid, "persona", "short"] := by
  refine LexicalPath.Offset.reenters_name_iff ?_ "latest".toList (root.resolve cwd)
  show (LexicalPath.offset [Component.ofPiece uid, .name "persona".toList,
    .name "short".toList]).ups ≤ _
  cases Component.ofPiece uid with
  | here => decide
  | up => decide
  | name a => simp [LexicalPath.offset, LexicalPath.Offset.enter]

/-- The file `personaShortPath` is `Under` the root exactly when the segments stay `Inside`. -/
theorem under_personaShort_iff (h : ∀ segment ∈ path, segment ≠ [] ∧ '/' ∉ segment)
    (hshort : UsersNs.isPersonaShort path) :
    Under cwd root (UsersNs.personaShortPath root path) ↔ Inside cwd root path := by
  rw [UsersNs.personaShortPath]
  split
  · exact HostPath.under_join_iff cwd root h
  · rename_i hshorter
    rcases path with _ | ⟨uid, _ | ⟨second, _ | ⟨third, rest⟩⟩⟩
    · cases hshort
    · cases hshort
    · cases hshort
    · obtain ⟨rfl, rfl⟩ : second = "persona".toList ∧ third = "short".toList :=
        of_decide_eq_true hshort
      have hnil : rest = [] := by
        rw [← List.length_eq_zero_iff]
        simp only [List.length_cons] at hshorter
        omega
      subst hnil
      have hjoin : (uid ++ "/persona/short/latest" : Str)
          = Str.join [uid, "persona", "short", "latest"] := by
        rw [Str.join_cons_cons]; rfl
      have hsegments : ∀ segment ∈ ([uid, "persona", "short", "latest"] : List Str),
          segment ≠ [] ∧ '/' ∉ segment := by
        refine List.forall_mem_cons.mpr ⟨h uid List.mem_cons_self, by decide⟩
      show Under cwd root (root.join (uid ++ "/persona/short/latest")) ↔ _
      rw [hjoin, HostPath.under_join_iff cwd root hsegments, inside_latest_iff]

/-- A path in the sandbox of a task stays `Under` the container and its directory exactly when its
segments stay `Inside` each. -/
theorem under_sandbox_iff {first : Str} {rest : List Str}
    (h : ∀ segment ∈ first :: rest, segment ≠ [] ∧ '/' ∉ segment) (container : HostPath) :
    (Under cwd container (if rest = [] then container.join first
        else (container.join first).join (Str.join rest)) ∧
      Under cwd (container.join first) (if rest = [] then container.join first
        else (container.join first).join (Str.join rest))) ↔
    Inside cwd container (first :: rest) ∧ Inside cwd (container.join first) rest := by
  have hfirst : ∀ segment ∈ [first], segment ≠ [] ∧ '/' ∉ segment := by
    intro segment hsegment
    exact h segment (List.mem_singleton.mp hsegment ▸ List.mem_cons_self)
  have hrest : ∀ segment ∈ rest, segment ≠ [] ∧ '/' ∉ segment :=
    fun segment hsegment => h segment (List.mem_cons_of_mem _ hsegment)
  have hdir : container.join first = container.join (Str.join [first]) := by
    rw [Str.join_singleton]
  split
  · rename_i hnil
    subst hnil
    refine and_congr ?_ (iff_of_true (List.prefix_refl _) inside_nil)
    rw [hdir]
    exact HostPath.under_join_iff cwd container hfirst
  · rename_i hne
    refine and_congr ?_ (HostPath.under_join_iff cwd _ hrest)
    rw [← HostPath.under_join_iff cwd container h, HostPath.join_join_segments container hne h]

/-- A write to the users leads `Under` the root exactly when the segments stay `Inside`. -/
theorem under_users_write_iff (h : ∀ segment ∈ path, segment ≠ [] ∧ '/' ∉ segment) :
    (path ≠ [] → Under cwd root (if UsersNs.isPersonaShort path then
      UsersNs.personaShortPath root path else root.join (Str.join path))) ↔
        Inside cwd root path := by
  by_cases hshort : UsersNs.isPersonaShort path
  · have hne : path ≠ [] := by rintro rfl; cases hshort
    rw [forall_prop_of_true hne, if_pos hshort]
    exact under_personaShort_iff h hshort
  · rw [if_neg hshort]
    exact under_store_of_ne_iff h

/-- The `target` of a request to a sandbox is where `Confines` wants it exactly when the segments
`StaysInside`. -/
theorem sandbox_target_iff (h : ∀ segment ∈ path, segment ≠ [] ∧ '/' ∉ segment) :
    (∀ filePath ∈ s.sandbox.target path, s.Confines .sandbox path filePath) ↔
      s.StaysInside .sandbox path := by
  rcases path with _ | ⟨first, rest⟩
  · exact iff_of_true (fun _ hnone => nomatch hnone) trivial
  · by_cases hsystem : first = "__system__".toList
    · have htarget : s.sandbox.target (first :: rest)
          = some (s.sandbox.hostRoot.join (Str.join (first :: rest))) := by
        rw [hsystem]; rfl
      simp only [htarget, forall_mem_some, Stores.Confines, Stores.StaysInside, if_pos hsystem]
      exact HostPath.under_join_iff s.cwd _ h
    · have htarget : s.sandbox.target (first :: rest) = (s.sandbox.container? first).map
          fun container => if rest = [] then container.join first
            else (container.join first).join (Str.join rest) := by
        unfold SandboxNs.target
        rw [if_neg (by rw [List.head?_cons, Option.some_inj]; exact hsystem)]
        rfl
      simp only [htarget, Stores.Confines, Stores.StaysInside, if_neg hsystem]
      cases s.sandbox.container? first with
      | none => exact iff_of_true (fun _ hnone => nomatch hnone) fun _ hnone => nomatch hnone
      | some container =>
        rw [Option.map_some, forall_mem_some, forall_mem_some, forall_mem_some]
        exact under_sandbox_iff h container

end Confined

/-- **Confinement of the file-backed namespaces**: whatever a `raw` URI parses to, `serve` touches
only what `Confines` allows, exactly when the segments stay inside, `StaysInside`. -/
theorem touches_confines_iff {raw : Str} {store : Store} {path : List Str}
    (hparse : Uri.parse raw = .ok ⟨store.name, path⟩) (op : Operation) :
    Touches (s.Confines store path) (s.serve json store path op) ↔ s.StaysInside store path := by
  have h : ∀ segment ∈ path, segment ≠ [] ∧ '/' ∉ segment := fun segment hsegment =>
    Uri.parse_segments hparse segment (List.mem_cons_of_mem _ hsegment)
  -- For each namespace and operation: what it touches, and when that is inside.
  cases store with
  | users =>
    cases op with
    | read => exact (touches_users_read ..).trans (under_store_of_ne_iff h)
    | write content =>
      exact (touches_bind_pure.trans (touches_users_write ..)).trans (under_users_write_iff h)
    | patch partialText =>
      exact (touches_bind_pure.trans (touches_users_patch ..)).trans (under_store_of_ne_iff h)
  | procStore =>
    cases op with
    | read => exact (touches_readStore ..).trans (under_store_iff h)
    | write content =>
      exact (touches_bind_pure.trans (touches_writeStore ..)).trans (under_store_of_ne_iff h)
    | patch partialText =>
      exact (touches_bind_pure.trans (touches_writeStore ..)).trans (under_store_of_ne_iff h)
  | svcStore =>
    cases op with
    | read => exact (touches_readStore ..).trans (under_store_iff h)
    | write content =>
      exact (touches_bind_pure.trans (touches_writeStore ..)).trans (under_store_of_ne_iff h)
    | patch partialText =>
      exact (touches_bind_pure.trans (touches_writeStore ..)).trans (under_store_of_ne_iff h)
  | sandbox =>
    rw [← sandbox_target_iff h]
    cases op with
    | read => exact touches_sandbox_read ..
    | write content => exact touches_bind_pure.trans (touches_sandbox_write ..)
    | patch partialText => exact touches_bind_pure.trans (touches_sandbox_patch ..)

/-- A kernel with its data below `/data`, and the agent of `t-1` in a container. -/
def onData : Stores where
  cwd := []
  users := .ofStr "/data/users"
  procStore := .ofStr "/data/proc-store"
  svcStore := .ofStr "/data/svc-store"
  sandbox := {
    hostRoot := .ofStr "/data/sandbox"
    containers := fun agent =>
      if agent = "a-1".toList then some (.ofStr "/data/sandbox/a-1") else none
    taskAgent := fun task => if task = "t-1".toList then some "a-1".toList else none }

/-- The notes of `t-1` stay where they belong. -/
theorem touches_confines_iff_notes :
    Touches (onData.Confines .sandbox ["t-1", "notes"])
      (onData.serve JsonText.codec .sandbox ["t-1", "notes"] .read) :=
  (touches_confines_iff JsonText.codec onData
    (show Uri.parse "logos://sandbox/t-1/notes" = .ok ⟨Store.sandbox.name, ["t-1", "notes"]⟩ by
      decide) .read).mpr (by decide)

/-- The URI `logos://sandbox/t-1/../t-2/notes` is accepted for the session of `t-1`, and its two
dots lead to the file of `t-2`. -/
theorem not_touches_confines_dots :
    Uri.parse "logos://sandbox/t-1/../t-2/notes"
        = .ok ⟨Store.sandbox.name, ["t-1", "..", "t-2", "notes"]⟩ ∧
      Accepts JsonText.codec (some userOfOne) "logos://sandbox/t-1/../t-2/notes" false
        System.onePending ∧
      ¬Touches (onData.Confines .sandbox ["t-1", "..", "t-2", "notes"])
        (onData.serve JsonText.codec .sandbox ["t-1", "..", "t-2", "notes"] .read) := by
  refine ⟨by decide, by decide, fun h => ?_⟩
  have htarget := (touches_sandbox_read onData.sandbox ["t-1", "..", "t-2", "notes"]).mp h
  have hinside := (sandbox_target_iff (by decide)).mp htarget
  exact absurd hinside (by decide)

end LogosFs.Kernel
