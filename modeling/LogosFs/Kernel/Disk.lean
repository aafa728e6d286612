import LogosFs.Kernel.Stores
import LogosFs.Lib.FileTree

/-! # The file-backed namespaces on a file system

`diskHandler` answers the operations of the four namespaces from a tree of files. What they share,
writing a file with the directories above it, has one specification (`writePath_cases`): it changes
the text of one file, or no file at all, and makes directories where nothing was. -/

namespace LogosFs.Kernel

open Program (eval)

/-- How the operating system reports a failure. -/
def osError : FileTree.Error → FsError
  | .notFound => .notFound "No such file or directory (os error 2)"
  | .notDirectory => .other "Not a directory (os error 20)"
  | .isDirectory => .other "Is a directory (os error 21)"
  | .alreadyExists => .other "File exists (os error 17)"

/-- What an operation does to the files; `cwd` is the working directory of the kernel. -/
def diskHandler (cwd : List Str) : Handler FsSig FileTree
  | .isDir path, t => (t.isDir cwd path, t)
  | .readDir path, t => ((t.readDir cwd path).mapError osError, t)
  | .readToString path, t => ((t.readToString cwd path).mapError osError, t)
  | .createDirAll path, t => ((t.createDirAll cwd path).1.mapError osError, (t.createDirAll cwd path).2)
  | .write path content, t =>
    ((t.write cwd path content).1.mapError osError, (t.write cwd path content).2)
  | .openAppend path, t => ((t.append cwd path []).1.mapError osError, (t.append cwd path []).2)
  | .writeAll path text, t =>
    ((t.append cwd path text).1.mapError osError, (t.append cwd path text).2)

variable {cwd : List Str} {t t' : FileTree}

/-! ## Reading -/

/-- The text of a file that `readToString` yields is at the place where its path is resolved. -/
theorem lookup_of_readToString {p : HostPath} {text : Str} (h : t.readToString cwd p = .ok text) :
    t.lookup (p.resolve cwd) = some (.file text) := by
  cases hlocate : t.locate cwd p with
  | error e => rw [FileTree.readToString, hlocate] at h; cases h
  | ok place =>
    rw [FileTree.readToString_of_locate hlocate] at h
    obtain rfl := FileTree.resolve_of_locate hlocate
    rcases hlookup : t.lookup (p.resolve cwd) with _ | _ | found <;> rw [hlookup] at h <;> cases h
    rfl

/-- If `readToString` finds no file, the path leads through a directory that is missing, or to
nothing. -/
theorem lookup_of_readToString_notFound {p : HostPath} (h : t.readToString cwd p = .error .notFound) :
    t.locate cwd p = .error .notFound ∨ t.lookup (p.resolve cwd) = none := by
  cases hlocate : t.locate cwd p with
  | error e =>
    rw [FileTree.readToString, hlocate] at h
    exact .inl (congrArg Except.error (Except.error.inj h))
  | ok place =>
    rw [FileTree.readToString_of_locate hlocate] at h
    obtain rfl := FileTree.resolve_of_locate hlocate
    rcases hlookup : t.lookup (p.resolve cwd) with _ | _ | found <;> rw [hlookup] at h <;> cases h
    exact .inr rfl

/-! ## Writing -/

/-- No operation of `diskHandler` removes a directory. -/
theorem dir_of_diskHandler (op : FsOp) {place : List Str} (h : t.lookup place = some .dir) :
    (diskHandler cwd op t).2.lookup place = some .dir := by
  have hmodify : ∀ (p : HostPath) (f : Option Str → Str),
      (t.modify cwd p f).2.lookup place = some .dir := by
    intro p f
    cases hanswer : (t.modify cwd p f).1 with
    | error e => rwa [FileTree.modify_error hanswer]
    | ok _ =>
      obtain ⟨old, hold, hlookup⟩ := FileTree.modify_ok hanswer
      -- What was modified was not a directory.
      have hne : place ≠ p.resolve cwd := by
        rintro rfl
        rw [h] at hold
        cases old <;> cases hold
      rw [hlookup, if_neg hne, h]
  cases op with
  | isDir path => exact h
  | readDir path => exact h
  | readToString path => exact h
  | createDirAll path =>
    rcases @FileTree.grows_createDirAll t cwd path place with hsame | ⟨hnone, -⟩
    · exact hsame.trans h
    · rw [h] at hnone
      cases hnone
  | write path content => exact hmodify path _
  | openAppend path => exact hmodify path _
  | writeAll path text => exact hmodify path _

/-- `ask op` answers what the disk answers, and leaves the disk as it leaves it. -/
@[simp] theorem eval_ask (op : FsOp) (t : FileTree) :
    eval (diskHandler cwd) (ask op) t
      = (.ok (diskHandler cwd op t).1, (diskHandler cwd op t).2) := by
  rw [ask, Program.eval_lift]
  rfl

/-- `orIo` turns an error of the disk into an `io` error with the context, and changes nothing. -/
theorem eval_orIo {α : Type} (context : Str) (answer : Except FsError α) (t : FileTree) :
    eval (diskHandler cwd) (orIo context answer) t
      = (answer.mapError fun e => .io (context ++ e.message), t) := by
  cases answer <;> rfl

/-- Making the directory that a path is in, by `makeParent`, makes directories only: the tree
`Grows`. -/
theorem grows_makeParent (shown : HostPath → Str) (filePath : HostPath) (t : FileTree) :
    t.Grows (eval (diskHandler cwd) (makeParent shown filePath) t).2 := by
  unfold makeParent
  cases filePath.parent with
  | none => exact .refl t
  | some parent =>
    dsimp only
    rw [Program.eval_bind, eval_ask, Program.evalNext_ok, eval_orIo]
    exact FileTree.grows_createDirAll parent

/-- **Writing a file** by `writePath` changes its text, or fails and changes no text; a directory is
never overwritten. -/
theorem writePath_cases (shown : HostPath → Str) (filePath : HostPath) (content : Str)
    (t : FileTree) :
    let run := eval (diskHandler cwd) (writePath shown filePath content) t
    (run.1 = .ok () ∧ run.2.lookup (filePath.resolve cwd) = some (.file content) ∧
        t.lookup (filePath.resolve cwd) ≠ some .dir ∧
        ∀ place, place ≠ filePath.resolve cwd → t.Spares run.2 place) ∨
      (∃ e, run.1 = .error e) ∧ t.Grows run.2 := by
  intro run
  have hgrows := @grows_makeParent cwd shown filePath t
  have hrun : run = Program.evalNext (diskHandler cwd) (fun _ => do
      let answer ← ask (.write filePath content)
      orIo ("write" ++ shown filePath ++ ": ") answer)
        (eval (diskHandler cwd) (makeParent shown filePath) t) := Program.eval_bind ..
  -- Making the directory fails, or it is there and the file is written.
  rcases hparent : eval (diskHandler cwd) (makeParent shown filePath) t with ⟨e | _, t₁⟩
  · rw [hparent] at hrun hgrows
    rw [hrun]
    exact .inr ⟨⟨e, rfl⟩, hgrows⟩
  · rw [hparent] at hrun hgrows
    rw [Program.evalNext_ok, Program.eval_bind, eval_ask, Program.evalNext_ok, eval_orIo] at hrun
    rw [hrun]
    dsimp only [diskHandler]
    cases hwrite : (t₁.write cwd filePath content).1 with
    | error e =>
      rw [FileTree.write, FileTree.modify_error hwrite]
      exact .inr ⟨⟨_, rfl⟩, hgrows⟩
    | ok _ =>
      obtain ⟨old, hold, hlookup⟩ := FileTree.modify_ok hwrite
      left
      refine ⟨rfl, ?_, ?_, ?_⟩
      · exact (hlookup _).trans (if_pos rfl)
      · -- There was a file or nothing, and making directories leaves a directory.
        intro hdir
        rcases hgrows (filePath.resolve cwd) with hsame | ⟨hnone, -⟩
        · rw [hsame, hdir] at hold
          cases old <;> cases hold
        · rw [hnone] at hdir
          cases hdir
      · intro place hplace
        have hsame := (hlookup place).trans (if_neg hplace)
        refine (hgrows place).trans (.inl ?_)
        rw [FileTree.write, hsame]

end LogosFs.Kernel
