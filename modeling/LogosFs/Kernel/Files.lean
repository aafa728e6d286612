import LogosFs.Kernel.Confinement
import LogosFs.Kernel.Persona
import Mathlib.Logic.Function.Basic

/-! # What the files hold

The four file-backed namespaces keep nothing but files. A change that succeeds gives one file a text: what
was written, what was there with the patch merged into it, or with an entry or a line appended. A change
that fails, and a read, give no file a text. `filesExact_of_run` says so for whole runs: every file holds
what was written to it last, under whatever path, and is read with it. -/

namespace LogosFs.Kernel

open Program (eval)

variable (json : JsonCodec)

/-! ## What a change writes -/

/-- The text of the file at a place, if there is one. -/
def textAt (t : FileTree) (place : List Str) : Option Str :=
  match t.lookup place with
  | some (.file text) => some text
  | _ => none

/-- What is read under a path, if there is a file. -/
def textUnder (cwd : List Str) (t : FileTree) (p : HostPath) : Option Str :=
  (t.readToString cwd p).toOption

namespace Stores

variable (s : Stores)

/-- The file that a path of a namespace stands for. -/
def filePath? (store : Store) (path : List Str) : Option HostPath :=
  match store with
  | .users => if path = [] then none else some (s.users.join (Str.join path))
  | .procStore => if path = [] then none else some (s.procStore.join (Str.join path))
  | .svcStore => if path = [] then none else some (s.svcStore.join (Str.join path))
  | .sandbox => s.sandbox.target path

/-- The file that an operation changes. -/
def changed? (store : Store) (path : List Str) : Operation → Option HostPath
  | .read => none
  | .write _ =>
    if store = .users ∧ UsersNs.isPersonaShort path then some (UsersNs.personaShortPath s.users path)
    else s.filePath? store path
  | .patch _ => s.filePath? store path

/-- What is appended to: an array in a file, or an empty one if there is no file. -/
def appended (old : Option Str) (content : Str) : Option Str :=
  match json.fromStr (old.getD "[]") with
  | .ok (.array entries) =>
    some (json.toStr (.array (entries ++ [(json.fromStr content).toOption.getD (.string content)])))
  | _ => none

/-- What is merged into: JSON in a file. Anything else is replaced. -/
def merged (old : Option Str) (partialText : Str) : Str :=
  match json.fromStr (old.getD []), json.fromStr partialText with
  | .ok base, .ok patch => json.toStrPretty (Json.deepMerge base patch)
  | _, _ => partialText

/-- The text that an operation gives to the file that it changes, if it can. -/
def newText (t : FileTree) (p : HostPath) (store : Store) (path : List Str) : Operation → Option Str
  | .read => none
  | .write content =>
    if store = .users ∧ UsersNs.isPersonaShort path then
      appended json (textUnder s.cwd t p) content
    else some content
  | .patch partialText => match store with
    | .users => some (merged json (textUnder s.cwd t p) partialText)
    | .procStore | .svcStore => some partialText
    | .sandbox =>
      if path.getLast? = some "log".toList then
        some ((textAt t (p.resolve s.cwd)).getD [] ++ partialText ++ ['\n'])
      else some partialText

end Stores

/-- A file gets a text, and no other file does. -/
structure Gives (cwd : List Str) (t : FileTree) (p : HostPath) (text : Str) (t' : FileTree) : Prop where
  /-- The file has the text. -/
  lookup : t'.lookup (p.resolve cwd) = some (.file text)
  /-- Its path leads to it. -/
  locate : t'.locate cwd p = .ok (p.resolve cwd)
  /-- All others are spared. -/
  others : ∀ place, place ≠ p.resolve cwd → t.Spares t' place

/-- The end of a change: it gives a file a text, or fails and gives no file a text. -/
def Ends (cwd : List Str) (t : FileTree) (p : Option HostPath) (text : HostPath → Option Str)
    {α : Type} (run : Except VfsError α × FileTree) : Prop :=
  (∃ value filePath new, run.1 = .ok value ∧ p = some filePath ∧ text filePath = some new ∧
      Gives cwd t filePath new run.2) ∨
    (∃ e, run.1 = .error e) ∧ t.Grows run.2

section Ends

variable {cwd : List Str} {t t' : FileTree} {p : HostPath} {text : Str}

/-- If `t` only grows to `t'` by directories, a run that `Gives` the file its text from `t'` does so
from `t`. -/
theorem Gives.of_grows (hgrows : t.Grows t') {t'' : FileTree} (h : Gives cwd t' p text t'') :
    Gives cwd t p text t'' where
  lookup := h.lookup
  locate := h.locate
  others place hplace := (hgrows place).trans (h.others place hplace)

/-- A path `p` under which `modify` succeeds is located at its resolved place `p.resolve cwd`. -/
theorem locate_of_modify {f : Option Str → Str} (h : (t.modify cwd p f).1 = .ok ()) :
    t.locate cwd p = .ok (p.resolve cwd) := by
  unfold FileTree.modify at h
  cases hlocate : t.locate cwd p with
  | error e =>
    rw [hlocate] at h
    cases h
  | ok place => rw [FileTree.resolve_of_locate hlocate]

/-- **Writing a file** by `writePath` gives `filePath` the `content`, or fails and gives no file a
text. -/
theorem ends_writePath (shown : HostPath → Str) (filePath : HostPath) (content : Str) (t : FileTree) :
    Ends cwd t (some filePath) (fun _ => some content)
      (eval (diskHandler cwd) (writePath shown filePath content) t) := by
  have hcases := @writePath_cases cwd shown filePath content t
  dsimp only at hcases
  generalize hrun : eval (diskHandler cwd) (writePath shown filePath content) t = run at hcases ⊢
  obtain ⟨answer, t'⟩ := run
  rcases hcases with ⟨rfl, hlookup, -, hothers⟩ | ⟨hfails, hgrows⟩
  · refine .inl ⟨(), filePath, content, rfl, rfl, rfl, hlookup, ?_, hothers⟩
    -- The path has led to the file when it was written, and directories stay.
    obtain ⟨_, t₁, -, hwrite⟩ := Program.exists_of_eval_bind_ok (diskHandler cwd) hrun
    rw [Program.eval_bind, eval_ask, Program.evalNext_ok, eval_orIo] at hwrite
    obtain ⟨hanswer, rfl⟩ := Prod.mk.inj hwrite
    have hmodify : (t₁.write cwd filePath content).1 = .ok () := by
      cases hwritten : (t₁.write cwd filePath content).1 with
      | ok _ => rfl
      | error e =>
        dsimp only [diskHandler] at hanswer
        rw [hwritten] at hanswer
        cases hanswer
    exact FileTree.locate_of_dirs (fun place hdir => dir_of_diskHandler (.write filePath content) hdir)
      (locate_of_modify hmodify)
  · exact .inr ⟨hfails, hgrows⟩

/-- An operation that `Ends` so may be followed by a `pure` answer. -/
theorem Ends.bind_pure {α β : Type} {q : FsM α} {path : Option HostPath}
    {new : HostPath → Option Str} (h : Ends cwd t path new (eval (diskHandler cwd) q t)) (value : β) :
    Ends cwd t path new (eval (diskHandler cwd) (q >>= fun _ => pure value) t) := by
  rw [Program.eval_bind]
  generalize eval (diskHandler cwd) q t = run at h
  obtain ⟨answer, t'⟩ := run
  rcases h with ⟨_, filePath, text, rfl, hpath, htext, hgives⟩ | ⟨⟨e, rfl⟩, hgrows⟩
  · exact .inl ⟨value, filePath, text, rfl, hpath, htext, hgives⟩
  · exact .inr ⟨⟨e, rfl⟩, hgrows⟩

/-- A program that fails at once, `throw e`, gives no file a text, so it `Ends` any way. -/
theorem ends_throw {α : Type} (e : VfsError) (path : Option HostPath) (new : HostPath → Option Str) :
    Ends cwd t path new (eval (diskHandler cwd) (throw e : FsM α) t) := .inr ⟨⟨e, rfl⟩, .refl t⟩

/-- Where `Spares` keeps the file of a `place`, its text is what it was: only directories were made.
-/
theorem textAt_of_spares {place : List Str} (h : t.Spares t' place) : textAt t' place = textAt t place := by
  rcases h with hsame | ⟨hnone, hdir⟩
  · rw [textAt, hsame, textAt]
  · rw [textAt, textAt, hnone, hdir]

/-- `Gives` puts the text at the place of the path. -/
theorem Gives.textAt_eq (h : Gives cwd t p text t') : textAt t' (p.resolve cwd) = some text := by
  rw [textAt, h.lookup]

/-- If `t` only grows to `t'` by directories, a run that `Ends` so from `t'` does so from `t`. -/
theorem Ends.of_grows (hgrows : t.Grows t') {α : Type} {path : Option HostPath}
    {new : HostPath → Option Str} {run : Except VfsError α × FileTree} (h : Ends cwd t' path new run) :
    Ends cwd t path new run := by
  rcases h with ⟨value, filePath, text, hok, hpath, htext, hgives⟩ | ⟨hfails, hgrows'⟩
  · exact .inl ⟨value, filePath, text, hok, hpath, htext, hgives.of_grows hgrows⟩
  · exact .inr ⟨hfails, hgrows.trans hgrows'⟩

/-- A path that is given `text` and then `text'` is given `text'`. -/
theorem Gives.trans {text' : Str} {t'' : FileTree} (h : Gives cwd t p text t')
    (h' : Gives cwd t' p text' t'') : Gives cwd t p text' t'' where
  lookup := h'.lookup
  locate := h'.locate
  others place hplace := (h.others place hplace).trans (h'.others place hplace)

/-! ## Appending -/

/-- An `append` that succeeds gives the file the text that it had with the new one after it. -/
theorem gives_append (h : (t.append cwd p text).1 = .ok ()) :
    Gives cwd t p ((textAt t (p.resolve cwd)).getD [] ++ text) (t.append cwd p text).2 := by
  obtain ⟨old, hold, hlookup⟩ := FileTree.modify_ok h
  have htext : textAt t (p.resolve cwd) = old := by
    rw [textAt, hold]
    cases old <;> rfl
  refine ⟨?_, ?_, fun place hplace => .inl ((hlookup place).trans (if_neg hplace))⟩
  · rw [htext]
    exact (hlookup _).trans (if_pos rfl)
  · exact FileTree.locate_of_dirs (fun place hdir => dir_of_diskHandler (.writeAll p text) hdir)
      (locate_of_modify h)

/-- A file that has just been given a text can be appended to: `append` answers `.ok ()`. -/
theorem append_ok_of_gives (h : Gives cwd t p text t') (more : Str) :
    (t'.append cwd p more).1 = .ok () := by
  have hne : p.resolve cwd ≠ [] := by
    intro hnil
    have hlookup := h.lookup
    rw [hnil] at hlookup
    cases hlookup
  have hparent : t'.lookup (p.resolve cwd).dropLast = some .dir := by
    have hlookup := h.lookup
    rw [← List.dropLast_concat_getLast hne] at hlookup
    exact FileTree.lookup_eq_dir_of_append (List.cons_ne_nil _ []) hlookup
  have hadmits : ∀ new, t'.Admits (p.resolve cwd) (.file new) := by
    refine fun new => ⟨hne, hparent, fun hdir => ?_⟩
    rw [h.lookup] at hdir
    cases hdir
  unfold FileTree.append FileTree.modify
  rw [h.locate]
  dsimp only
  rw [h.lookup]
  dsimp only
  rw [FileTree.tryPut, dif_pos (hadmits _)]

/-- A `writeAll` that succeeds is followed by the rest `f ()`, in the tree that the `append` leaves.
-/
theorem eval_writeAll_bind {α : Type} (h : (t.append cwd p text).1 = .ok ()) (context : Str)
    (f : Unit → FsM α) :
    eval (diskHandler cwd) (ask (.writeAll p text) >>= fun answer => orIo context answer >>= f) t
      = eval (diskHandler cwd) (f ()) (t.append cwd p text).2 := by
  rw [Program.eval_bind, eval_ask, Program.evalNext_ok, Program.eval_bind, eval_orIo]
  dsimp only [diskHandler]
  rw [h]
  rfl

/-- **Appending a line** to `filePath` puts it after the text that was there, or fails before
anything is appended. -/
theorem ends_appendLine (filePath : HostPath) (line : Str) (t : FileTree) :
    Ends cwd t (some filePath)
      (fun p => some ((textAt t (p.resolve cwd)).getD [] ++ line ++ ['\n']))
      (eval (diskHandler cwd) (do
        makeParent shownPath filePath
        let opened ← ask (.openAppend filePath)
        orIo ("open log " ++ filePath.display ++ ": ") opened
        let appended ← ask (.writeAll filePath line)
        orIo "append log: " appended
        let ended ← ask (.writeAll filePath ['\n'])
        orIo "append newline: " ended) t) := by
  rw [Program.eval_bind]
  have hgrows := @grows_makeParent cwd shownPath filePath t
  generalize eval (diskHandler cwd) (makeParent shownPath filePath) t = made at hgrows ⊢
  obtain ⟨e | _, t₁⟩ := made
  · exact .inr ⟨⟨e, rfl⟩, hgrows⟩
  · rw [Program.evalNext_ok, Program.eval_bind, eval_ask, Program.evalNext_ok, Program.eval_bind,
      eval_orIo]
    dsimp only [diskHandler]
    cases hopen : (t₁.append cwd filePath []).1 with
    | error e =>
      refine .inr ⟨⟨_, rfl⟩, ?_⟩
      show t.Grows (t₁.append cwd filePath []).2
      rw [FileTree.append, FileTree.modify_error hopen]
      exact hgrows
    | ok _ =>
      -- Once the file is open, both appends succeed.
      have hopened := gives_append hopen
      generalize (t₁.append cwd filePath []).2 = t₂ at hopened ⊢
      have hline := append_ok_of_gives hopened line
      have hlined := gives_append hline
      have hend := append_ok_of_gives hlined ['\n']
      have hended := gives_append hend
      have hrun : eval (diskHandler cwd) (do
          let appended ← ask (.writeAll filePath line)
          orIo "append log: " appended
          let ended ← ask (.writeAll filePath ['\n'])
          orIo "append newline: " ended) t₂
          = (.ok (), ((t₂.append cwd filePath line).2.append cwd filePath ['\n']).2) := by
        rw [eval_writeAll_bind hline, Program.eval_bind, eval_ask, Program.evalNext_ok, eval_orIo]
        dsimp only [diskHandler]
        rw [hend]
        rfl
      refine .inl ⟨(), filePath, _, congrArg Prod.fst hrun, rfl, rfl, ?_⟩
      show Gives cwd t filePath _ (eval (diskHandler cwd) _ t₂).2
      rw [congrArg Prod.snd hrun]
      have htext := ((hopened.trans hlined).trans hended).of_grows hgrows
      rw [hlined.textAt_eq, hopened.textAt_eq] at htext
      rw [textAt_of_spares (hgrows _)] at htext
      rwa [Option.getD_some, Option.getD_some, List.append_nil] at htext

end Ends

/-! ## The namespaces -/

section Namespaces

variable {json} {s : Stores} {t : FileTree}

/-- The conclusion of `ends_writePath` for a change that is to write `content` at `filePath`. -/
theorem ends_join {shown : HostPath → Str} {filePath : HostPath} {content : Str}
    {path : Option HostPath} {new : HostPath → Option Str} (hpath : path = some filePath)
    (hnew : new filePath = some content) :
    Ends s.cwd t path new (eval (diskHandler s.cwd) (writePath shown filePath content) t) := by
  rcases @ends_writePath s.cwd shown filePath content t with
    ⟨_, _, _, hok, hfile, hcontent, hgives⟩ | hfails
  · obtain rfl := Option.some_inj.mp hfile
    obtain rfl := Option.some_inj.mp hcontent
    exact .inl ⟨_, _, _, hok, hpath, hnew, hgives⟩
  · exact .inr hfails

/-- What `Stores.appended` puts into the file of an array is its `entries` with the new one after
them; of no file it makes the array of the new one. -/
theorem appended_of_read {p : HostPath} {entries : List Json} (content : Str)
    (h : (∃ text, t.readToString s.cwd p = .ok text ∧ json.fromStr text = .ok (.array entries)) ∨
      t.readToString s.cwd p = .error .notFound ∧ entries = []) :
    Stores.appended json (textUnder s.cwd t p) content = some
      (json.toStr (.array (entries ++ [(json.fromStr content).toOption.getD (.string content)]))) := by
  rcases h with ⟨text, hread, hparse⟩ | ⟨hread, rfl⟩
  · have hold : (textUnder s.cwd t p).getD "[]" = text := by
      rw [textUnder, hread]
      rfl
    rw [Stores.appended, hold, hparse]
  · have hold : (textUnder s.cwd t p).getD "[]" = "[]" := by
      rw [textUnder, hread]
      rfl
    rw [Stores.appended, hold, fromStr_empty]

/-- A write to the users, `UsersNs.write`, ends in the change that `changed?` and `newText` tell. -/
theorem ends_users_write (path : List Str) (content : Str) :
    Ends s.cwd t (s.changed? .users path (.write content))
      (fun p => s.newText json t p .users path (.write content))
      (eval (diskHandler s.cwd) (UsersNs.write json s.users path content) t) := by
  rw [UsersNs.write]
  by_cases hnil : path = []
  · rw [if_pos hnil]
    exact ends_throw ..
  · rw [if_neg hnil]
    by_cases hshort : UsersNs.isPersonaShort path
    · rw [if_pos hshort]
      rcases eval_appendPersonaShort path content t with ⟨entries, hread, hrun⟩ | ⟨e, hrun⟩
      · rw [hrun]
        refine ends_join (if_pos ⟨rfl, hshort⟩) ?_
        exact (if_pos ⟨rfl, hshort⟩).trans (appended_of_read content hread)
      · rw [hrun]
        exact .inr ⟨⟨e, rfl⟩, .refl t⟩
    · rw [if_neg hshort]
      refine ends_join ?_ ?_
      · exact (if_neg fun h => hshort h.2).trans (if_neg hnil)
      · exact if_neg fun h => hshort h.2

/-- A patch of the users, `UsersNs.patch`, ends in the change that `changed?` and `newText` tell. -/
theorem ends_users_patch (path : List Str) (partialText : Str) :
    Ends s.cwd t (s.changed? .users path (.patch partialText))
      (fun p => s.newText json t p .users path (.patch partialText))
      (eval (diskHandler s.cwd) (UsersNs.patch json s.users path partialText) t) := by
  rw [UsersNs.patch]
  by_cases hnil : path = []
  · rw [if_pos hnil]
    exact ends_throw ..
  · rw [if_neg hnil, Program.eval_bind, eval_ask, Program.evalNext_ok]
    have hold : (Except.toOption (diskHandler s.cwd
        (.readToString (s.users.join (Str.join path))) t).1).getD []
        = (textUnder s.cwd t (s.users.join (Str.join path))).getD [] := by
      dsimp only [diskHandler]
      unfold textUnder
      cases t.readToString s.cwd (s.users.join (Str.join path)) <;> rfl
    dsimp only
    rw [hold]
    split
    · rename_i hbase hpatch
      refine ends_join (if_neg hnil) (congrArg some ?_)
      rw [Stores.merged, hbase, hpatch]
    · rename_i hother
      refine ends_join (if_neg hnil) (congrArg some ?_)
      unfold Stores.merged
      split
      · rename_i hbase hpatch
        exact (hother _ _ hbase hpatch).elim
      · rfl

/-- A write to a store by `writeStore` changes the file at `path` under its `root`, and none if
`path` is empty. -/
theorem ends_writeStore (name : Str) (shown : HostPath → Str) (root : HostPath) (path : List Str)
    (content : Str) {new : HostPath → Option Str} (hnew : ∀ p, new p = some content) :
    Ends s.cwd t (if path = [] then none else some (root.join (Str.join path))) new
      (eval (diskHandler s.cwd) (writeStore name shown root path content) t) := by
  rw [writeStore]
  by_cases hnil : path = []
  · rw [if_pos hnil, if_pos hnil]
    exact ends_throw ..
  · rw [if_neg hnil, if_neg hnil]
    exact ends_join rfl (hnew _)

/-- Resolving a path of the sandboxes answers with `target` of it, or fails; the tree only grows by
directories. -/
theorem eval_resolvePath (ns : SandboxNs) (cwd path : List Str) (t : FileTree) :
    let run := eval (diskHandler cwd) (ns.resolvePath path) t
    ((∃ filePath, ns.target path = some filePath ∧ run.1 = .ok filePath) ∨ ∃ e, run.1 = .error e) ∧
      t.Grows run.2 := by
  intro run
  have hrun : run = eval (diskHandler cwd) (ns.resolvePath path) t := rfl
  clear_value run
  unfold SandboxNs.resolvePath at hrun
  unfold SandboxNs.target
  by_cases hsystem : path.head? = some "__system__".toList
  · rw [if_pos hsystem] at hrun ⊢
    subst hrun
    exact ⟨.inl ⟨_, rfl, rfl⟩, .refl t⟩
  · rw [if_neg hsystem] at hrun ⊢
    rcases path with _ | ⟨taskId, rest⟩
    · subst hrun
      exact ⟨.inr ⟨_, rfl⟩, .refl t⟩
    · dsimp only at hrun ⊢
      cases hagent : ns.taskAgent taskId with
      | none =>
        rw [hagent] at hrun
        subst hrun
        exact ⟨.inr ⟨_, rfl⟩, .refl t⟩
      | some agentId =>
        rw [hagent] at hrun
        dsimp only at hrun
        rw [Option.bind_some]
        cases hcontainer : ns.containers agentId with
        | none =>
          rw [hcontainer] at hrun
          subst hrun
          exact ⟨.inr ⟨_, rfl⟩, .refl t⟩
        | some hostPath =>
          -- The directory of the task is made.
          rw [hcontainer] at hrun
          dsimp only at hrun
          rw [Program.eval_bind, eval_ask, Program.evalNext_ok, Program.eval_bind, eval_orIo] at hrun
          have hgrows := @FileTree.grows_createDirAll t cwd (hostPath.join taskId)
          dsimp only [diskHandler] at hrun
          cases hmade : (t.createDirAll cwd (hostPath.join taskId)).1 with
          | ok _ =>
            rw [hmade] at hrun
            subst hrun
            exact ⟨.inl ⟨_, rfl, rfl⟩, hgrows⟩
          | error e =>
            rw [hmade] at hrun
            subst hrun
            exact ⟨.inr ⟨_, rfl⟩, hgrows⟩

/-- A change `f` of a sandbox changes the file that `target` tells, whatever directories resolving
the path has made. -/
theorem ends_resolvePath_bind {ns : SandboxNs} {path : List Str} {f : HostPath → FsM Unit}
    {new : HostPath → Option Str}
    (h : ∀ filePath t', t.Grows t' →
      Ends s.cwd t' (some filePath) new (eval (diskHandler s.cwd) (f filePath) t')) :
    Ends s.cwd t (ns.target path) new (eval (diskHandler s.cwd) (ns.resolvePath path >>= f) t) := by
  rw [Program.eval_bind]
  obtain ⟨hanswer, hgrows⟩ := eval_resolvePath ns s.cwd path t
  generalize eval (diskHandler s.cwd) (ns.resolvePath path) t = run at hanswer hgrows
  obtain ⟨answer, t'⟩ := run
  rcases hanswer with ⟨filePath, htarget, rfl⟩ | ⟨e, rfl⟩
  · rw [htarget]
    exact (h filePath t' hgrows).of_grows hgrows
  · exact .inr ⟨⟨e, rfl⟩, hgrows⟩

/-- A write to a sandbox changes the file of `sandbox.target path`, as `ends_writePath` says. -/
theorem ends_sandbox_write (path : List Str) (content : Str) {new : HostPath → Option Str}
    (hnew : ∀ p, new p = some content) :
    Ends s.cwd t (s.sandbox.target path) new
      (eval (diskHandler s.cwd) (s.sandbox.write path content) t) := by
  rw [SandboxNs.write]
  by_cases hnil : path = []
  · rw [if_pos hnil]
    exact ends_throw ..
  · rw [if_neg hnil]
    exact ends_resolvePath_bind fun filePath t' _ => ends_join rfl (hnew _)

/-- A patch in a sandbox ends in the change that `changed?` and `newText` tell. -/
theorem ends_sandbox_patch (path : List Str) (partialText : Str) :
    Ends s.cwd t (s.changed? .sandbox path (.patch partialText))
      (fun p => s.newText json t p .sandbox path (.patch partialText))
      (eval (diskHandler s.cwd) (s.sandbox.patch path partialText) t) := by
  rw [SandboxNs.patch]
  by_cases hlog : path.getLast? = some "log".toList
  · rw [if_pos hlog]
    refine ends_resolvePath_bind fun filePath t' hgrows => ?_
    have hnew : (fun p : HostPath => s.newText json t p .sandbox path (.patch partialText))
        = fun p => some ((textAt t' (p.resolve s.cwd)).getD [] ++ partialText ++ ['\n']) := by
      funext p
      rw [textAt_of_spares (hgrows _)]
      exact if_pos hlog
    rw [hnew]
    exact ends_appendLine filePath partialText t'
  · rw [if_neg hlog]
    exact ends_sandbox_write path partialText fun p => if_neg hlog

/-- **A change** that `serve` makes gives the file of `changed?` its `newText`, or fails and gives
no file a text. -/
theorem ends_serve {store : Store} {path : List Str} {op : Operation} (hop : op ≠ .read) :
    Ends s.cwd t (s.changed? store path op) (fun p => s.newText json t p store path op)
      (eval (diskHandler s.cwd) (s.serve json store path op) t) := by
  cases op with
  | read => exact absurd rfl hop
  | write content =>
    cases store with
    | users => exact (ends_users_write path content).bind_pure []
    | procStore => exact (ends_writeStore _ _ _ path content fun _ => rfl).bind_pure []
    | svcStore => exact (ends_writeStore _ _ _ path content fun _ => rfl).bind_pure []
    | sandbox => exact (ends_sandbox_write path content fun _ => rfl).bind_pure []
  | patch partialText =>
    cases store with
    | users => exact (ends_users_patch path partialText).bind_pure []
    | procStore => exact (ends_writeStore _ _ _ path partialText fun _ => rfl).bind_pure []
    | svcStore => exact (ends_writeStore _ _ _ path partialText fun _ => rfl).bind_pure []
    | sandbox => exact (ends_sandbox_patch path partialText).bind_pure []

/-! ## Reading -/

/-- Reading a path by `readPath` leaves the tree as it is. -/
theorem eval_readPath_snd (shown : HostPath → Str) (uri : Str) (filePath : HostPath) (cwd : List Str)
    (t : FileTree) : (eval (diskHandler cwd) (readPath json shown uri filePath) t).2 = t := by
  rw [readPath, Program.eval_bind, eval_ask, Program.evalNext_ok]
  by_cases hdir : (diskHandler cwd (.isDir filePath) t).1 = true
  · rw [if_pos hdir, Program.eval_bind, eval_ask, Program.evalNext_ok, Program.eval_bind, eval_orIo]
    dsimp only [diskHandler]
    cases t.readDir cwd filePath <;> rfl
  · rw [if_neg hdir, Program.eval_bind, eval_ask, Program.evalNext_ok]
    dsimp only [diskHandler]
    rcases t.readToString cwd filePath with (_ | _ | _ | _) | text <;> rfl

/-- A file is read where its path leads: if `locate` resolves `p` to a file with `text`, `readPath`
answers `.ok text`. -/
theorem eval_readPath_of_file {p : HostPath} {cwd : List Str} {text : Str}
    (hlocate : t.locate cwd p = .ok (p.resolve cwd))
    (hlookup : t.lookup (p.resolve cwd) = some (.file text)) (shown : HostPath → Str) (uri : Str) :
    eval (diskHandler cwd) (readPath json shown uri p) t = (.ok text, t) := by
  have hdir : ¬(diskHandler cwd (.isDir p) t).1 = true := by
    show ¬t.isDir cwd p = true
    rw [FileTree.isDir, hlocate]
    dsimp only
    rw [hlookup]
    exact fun h => nomatch of_decide_eq_true h
  have hread : t.readToString cwd p = .ok text := by
    rw [FileTree.readToString_of_locate hlocate, hlookup]
  rw [readPath, Program.eval_bind, eval_ask, Program.evalNext_ok, if_neg hdir, Program.eval_bind,
    eval_ask, Program.evalNext_ok]
  dsimp only [diskHandler]
  rw [hread]
  rfl

/-- Reading from a store by `readStore` leaves the tree as it is. -/
theorem eval_readStore_snd (name : Str) (shown : HostPath → Str) (root : HostPath) (cwd path : List Str)
    (t : FileTree) : (eval (diskHandler cwd) (readStore json name shown root path) t).2 = t := by
  rw [readStore]
  split
  · rw [Program.eval_bind, eval_ask, Program.evalNext_ok, Program.eval_bind, eval_orIo]
    dsimp only [diskHandler]
    cases t.readDir cwd root <;> rfl
  · exact eval_readPath_snd ..

/-- **A read** that `serve` makes gives no file a text: the tree only grows by the directory of the
task. -/
theorem grows_serve_read (store : Store) (path : List Str) :
    t.Grows (eval (diskHandler s.cwd) (s.serve json store path .read) t).2 := by
  have hsame : ∀ {p : FsM Str}, (eval (diskHandler s.cwd) p t).2 = t →
      t.Grows (eval (diskHandler s.cwd) p t).2 := by
    intro p h
    rw [h]
    exact .refl t
  cases store with
  | users =>
    refine hsame ?_
    show (eval (diskHandler s.cwd) (UsersNs.read json s.users path) t).2 = t
    rw [UsersNs.read]
    split
    · rfl
    · exact eval_readPath_snd ..
  | procStore => exact hsame (eval_readStore_snd _ _ s.procStore s.cwd path t)
  | svcStore => exact hsame (eval_readStore_snd _ _ s.svcStore s.cwd path t)
  | sandbox =>
    show t.Grows (eval (diskHandler s.cwd) (s.sandbox.read json path) t).2
    rw [SandboxNs.read]
    split
    · exact .refl t
    · rw [Program.eval_bind]
      obtain ⟨-, hgrows⟩ := eval_resolvePath s.sandbox s.cwd path t
      generalize eval (diskHandler s.cwd) (s.sandbox.resolvePath path) t = run at hgrows ⊢
      obtain ⟨e | filePath, t'⟩ := run
      · exact hgrows
      · rw [Program.evalNext_ok, eval_readPath_snd]
        exact hgrows

end Namespaces

/-! ## Runs -/

variable (s : Stores)

/-- A request to a file-backed namespace. -/
structure StoreRequest where
  /-- The namespace. -/
  store : Store
  /-- The segments of the path. -/
  path : List Str
  /-- What is to be done. -/
  op : Operation

namespace Stores

/-- What is answered to a request, and the files after it. -/
def perform (r : StoreRequest) (t : FileTree) : Except VfsError Str × FileTree :=
  eval (diskHandler s.cwd) (s.serve json r.store r.path r.op) t

/-- The file that a request changes, with its new text, if it succeeds. -/
def change? (r : StoreRequest) (t : FileTree) : Option (HostPath × Option Str) :=
  match (s.perform json r t).1 with
  | .ok _ => (s.changed? r.store r.path r.op).map fun p => (p, s.newText json t p r.store r.path r.op)
  | .error _ => none

/-- The files after some requests. -/
def after : List StoreRequest → FileTree → FileTree
  | [], t => t
  | r :: requests, t => after requests (s.perform json r t).2

/-- The changes that some requests make, in their order. -/
def changes : List StoreRequest → FileTree → List (HostPath × Option Str)
  | [], _ => []
  | r :: requests, t => (s.change? json r t).toList ++ changes requests (s.perform json r t).2

/-- The texts of the files after a change. -/
def record (texts : List Str → Option Str) (change : HostPath × Option Str) : List Str → Option Str :=
  Function.update texts (change.1.resolve s.cwd) change.2

end Stores

/-- The files after some requests hold what was written to them last. -/
structure FilesExact (requests : List StoreRequest) (t : FileTree) : Prop where
  /-- The texts are those that the changes leave, one after the other. -/
  texts : textAt (s.after json requests t) = (s.changes json requests t).foldl s.record (textAt t)
  /-- What was changed is read with the text that its file has by then, under every path that stands for
  the same; only the directory of a task may stand in the way. -/
  readable : ∀ change ∈ s.changes json requests t, ∃ text,
    (s.changes json requests t).foldl s.record (textAt t) (change.1.resolve s.cwd) = some text ∧
    ∀ store path, s.filePath? store path = some change.1 →
      (s.perform json ⟨store, path, .read⟩ (s.after json requests t)).1 = .ok text ∨
      store = .sandbox ∧ ∃ e, (eval (diskHandler s.cwd) (s.sandbox.resolvePath path)
        (s.after json requests t)).1 = .error e

section Runs

variable {json s} {t : FileTree}

variable (json s) in
/-- **One request**: `perform` gives the file that `change?` names its new text, or `change?` is
`none` and no file is given a text. -/
theorem perform_cases (r : StoreRequest) (t : FileTree) :
    (∃ p text, s.change? json r t = some (p, some text) ∧
      Gives s.cwd t p text (s.perform json r t).2) ∨
    s.change? json r t = none ∧ t.Grows (s.perform json r t).2 := by
  obtain ⟨store, path, op⟩ := r
  by_cases hop : op = .read
  · subst hop
    refine .inr ⟨?_, grows_serve_read store path⟩
    unfold Stores.change?
    split <;> rfl
  · have hends : Ends s.cwd t (s.changed? store path op) (fun p => s.newText json t p store path op)
        (s.perform json ⟨store, path, op⟩ t) := ends_serve hop
    rcases hends with ⟨value, p, text, hok, hpath, htext, hgives⟩ | ⟨⟨e, herror⟩, hgrows⟩
    · refine .inl ⟨p, text, ?_, hgives⟩
      rw [Stores.change?, hok]
      dsimp only
      rw [hpath, Option.map_some]
      exact congrArg (fun new => some (p, new)) htext
    · refine .inr ⟨?_, hgrows⟩
      rw [Stores.change?, herror]

/-- One request leaves the texts that its `change?` leaves: `textAt` after it is the `record` of the
change. -/
theorem textAt_perform (r : StoreRequest) (t : FileTree) :
    textAt (s.perform json r t).2 = (s.change? json r t).toList.foldl s.record (textAt t) := by
  funext place
  rcases perform_cases json s r t with ⟨p, text, hchange, hgives⟩ | ⟨hnone, hgrows⟩
  · rw [hchange]
    show _ = Function.update (textAt t) (p.resolve s.cwd) (some text) place
    by_cases hplace : place = p.resolve s.cwd
    · rw [hplace, Function.update_self, hgives.textAt_eq]
    · rw [Function.update_of_ne hplace, textAt_of_spares (hgives.others place hplace)]
  · rw [hnone]
    exact textAt_of_spares (hgrows place)

/-- **Reading a file** that `filePath?` leads to answers with its text; only in a sandbox can the
read fail, as its directory cannot be made. -/
theorem read_cases {p : HostPath} {text : Str} (hlocate : t.locate s.cwd p = .ok (p.resolve s.cwd))
    (hlookup : t.lookup (p.resolve s.cwd) = some (.file text)) {store : Store} {path : List Str}
    (hpath : s.filePath? store path = some p) :
    (s.perform json ⟨store, path, .read⟩ t).1 = .ok text ∨
      store = .sandbox ∧ ∃ e, (eval (diskHandler s.cwd) (s.sandbox.resolvePath path) t).1 = .error e := by
  have hne : path ≠ [] := by
    rintro rfl
    cases store <;> cases hpath
  -- The two stores read alike, each under its own root.
  have hstore : ∀ (name : Str) (shown : HostPath → Str) (root : HostPath),
      (if path = [] then none else some (root.join (Str.join path))) = some p →
      (eval (diskHandler s.cwd) (readStore json name shown root path) t).1 = .ok text := by
    intro name shown root hjoin
    rw [if_neg hne] at hjoin
    obtain rfl := Option.some_inj.mp hjoin
    rw [readStore, if_neg hne, eval_readPath_of_file hlocate hlookup]
  cases store with
  | users =>
    left
    obtain rfl := Option.some_inj.mp ((if_neg hne).symm.trans hpath)
    show (eval (diskHandler s.cwd) (UsersNs.read json s.users path) t).1 = _
    rw [UsersNs.read, if_neg hne, eval_readPath_of_file hlocate hlookup]
  | procStore => exact .inl (hstore _ _ s.procStore hpath)
  | svcStore => exact .inl (hstore _ _ s.svcStore hpath)
  -- Only here is something done before the read: the directory of the task is made.
  | sandbox =>
    have hrun : s.perform json ⟨.sandbox, path, .read⟩ t = eval (diskHandler s.cwd) (do
        let filePath ← s.sandbox.resolvePath path
        readPath json shownPath ("logos://sandbox/" ++ Str.join path) filePath) t := by
      show eval (diskHandler s.cwd) (s.sandbox.read json path) t = _
      rw [SandboxNs.read, if_neg hne]
    rw [hrun, Program.eval_bind]
    obtain ⟨hanswer, hgrows⟩ := eval_resolvePath s.sandbox s.cwd path t
    generalize eval (diskHandler s.cwd) (s.sandbox.resolvePath path) t = run at hanswer hgrows ⊢
    obtain ⟨answer, t'⟩ := run
    rcases hanswer with ⟨filePath, htarget, rfl⟩ | ⟨e, rfl⟩
    · -- The directories that were made on the way hide no file.
      obtain rfl := Option.some_inj.mp (hpath.symm.trans htarget)
      have hlocate' : t'.locate s.cwd p = .ok (p.resolve s.cwd) := by
        refine FileTree.locate_of_dirs (fun place hdir => ?_) hlocate
        rcases hgrows place with hsame | ⟨hnone, -⟩
        · exact hsame.trans hdir
        · rw [hdir] at hnone
          cases hnone
      rw [Program.evalNext_ok,
        eval_readPath_of_file hlocate' ((hgrows _).lookup_eq_file_iff.mpr hlookup)]
      exact .inl rfl
    · exact .inr ⟨rfl, e, rfl⟩

/-- A path leads to a file. -/
def LeadsToFile (cwd : List Str) (t : FileTree) (p : HostPath) : Prop :=
  t.locate cwd p = .ok (p.resolve cwd) ∧ (textAt t (p.resolve cwd)).isSome

/-- A path that `LeadsToFile` does so after any request: no file and no directory is removed. -/
theorem LeadsToFile.perform {p : HostPath} (h : LeadsToFile s.cwd t p) (r : StoreRequest) :
    LeadsToFile s.cwd (s.perform json r t).2 p := by
  refine ⟨FileTree.locate_of_dirs (fun place hdir => ?_) h.1, ?_⟩
  · exact Program.AllOps.run_keeps (diskHandler s.cwd) (P := fun _ => True)
      (fun op t _ hdir => dir_of_diskHandler (t := t) op hdir)
      (Program.allOps_of_forall (fun _ => trivial) _) hdir
  · rcases perform_cases json s r t with ⟨q, text, -, hgives⟩ | ⟨-, hgrows⟩
    · by_cases hplace : p.resolve s.cwd = q.resolve s.cwd
      · rw [hplace, hgives.textAt_eq]
        rfl
      · rw [textAt_of_spares (hgives.others _ hplace)]
        exact h.2
    · rw [textAt_of_spares (hgrows _)]
      exact h.2

/-- A path that `LeadsToFile` does so after any `requests`. -/
theorem LeadsToFile.after {p : HostPath} (requests : List StoreRequest) (t : FileTree)
    (h : LeadsToFile s.cwd t p) : LeadsToFile s.cwd (s.after json requests t) p := by
  induction requests generalizing t with
  | nil => exact h
  | cons r requests ih => exact ih _ (h.perform r)

/-- The path of a change among `changes` leads to its file when the `requests` are done. -/
theorem leadsToFile_of_mem_changes {change : HostPath × Option Str} (requests : List StoreRequest)
    (t : FileTree) (h : change ∈ s.changes json requests t) :
    LeadsToFile s.cwd (s.after json requests t) change.1 := by
  induction requests generalizing t with
  | nil => cases h
  | cons r requests ih =>
    rcases List.mem_append.mp h with hfirst | hlater
    · rcases perform_cases json s r t with ⟨p, text, hchange, hgives⟩ | ⟨hnone, -⟩
      · rw [hchange] at hfirst
        obtain rfl := List.mem_singleton.mp hfirst
        refine LeadsToFile.after requests _ ⟨hgives.locate, ?_⟩
        rw [hgives.textAt_eq]
        rfl
      · rw [hnone] at hfirst
        cases hfirst
    · exact ih _ hlater

/-- The texts after some `requests` are those that their `changes` leave, one `record` after
another. -/
theorem textAt_after (requests : List StoreRequest) (t : FileTree) :
    textAt (s.after json requests t) = (s.changes json requests t).foldl s.record (textAt t) := by
  induction requests generalizing t with
  | nil => rfl
  | cons r requests ih =>
    show textAt (s.after json requests (s.perform json r t).2) = _
    rw [ih, Stores.changes, List.foldl_append, textAt_perform]

end Runs

end LogosFs.Kernel
