import LogosFs.Kernel.Confinement
import LogosFs.Kernel.Disk
import LogosFs.Kernel.Scope
import LogosFs.Lib.JsonText

/-! # The log of a task

`system.complete` hands the log of a turn to the sandbox, which is to append it to `{task_id}/log`. It
writes to one segment, `"{task_id}/log"`, instead of two: as the name of a task this is registered
with no agent, or has a directory of its own at that place. Either way nothing is written
(`write_log_fails`), so that no call changes the text of any file (`grows_call`). -/

namespace LogosFs.Kernel

open Program (eval)

/-! ## The kernel on files -/

section Files

variable {τ : Type} (cwd : List Str) (elsewhere : Elsewhere → τ → Except VfsError Str × τ)

/-- What happens outside the system database and the slots, on a file system. -/
def withFiles : Handler OutsideSig (FileTree × τ)
  | .inl op, s => ((diskHandler cwd op s.1).1, (diskHandler cwd op s.1).2, s.2)
  | .inr request, s => ((elsewhere request s.2).1, s.1, (elsewhere request s.2).2)

/-- A program over the file system runs in the kernel, by `onFiles`, as it does alone. -/
theorem eval_onFiles {α : Type} (p : FsM α) (k : KernelState (FileTree × τ)) :
    eval (kernelHandler (withFiles cwd elsewhere)) (onFiles p) k
      = ((eval (diskHandler cwd) p k.outside.1).1,
        { k with outside := ((eval (diskHandler cwd) p k.outside.1).2, k.outside.2) }) :=
  Program.run_hoist (diskHandler cwd) (fun k : KernelState (FileTree × τ) => k.outside.1)
    (fun k t => { k with outside := (t, k.outside.2) })
    (fun _ => rfl) (fun _ _ => rfl) (fun _ _ _ => rfl) (fun _ _ => rfl) p.run k

end Files

/-! ## The log -/

/-- The texts occur in a text one after the other. -/
def InOrder : List Str → Str → Prop
  | [], _ => True
  | log :: logs, text => ∃ front back, text = front ++ log ++ back ∧ InOrder logs back

/-- No texts but none at all are `InOrder` in the empty text, if none of them is empty. -/
theorem eq_nil_of_inOrder_nil {logs : List Str} (hne : ∀ log ∈ logs, log ≠ []) (h : InOrder logs []) :
    logs = [] := by
  cases logs with
  | nil => rfl
  | cons log logs =>
    obtain ⟨front, back, htext, -⟩ := h
    have hlog : front ++ log = [] := (List.append_eq_nil_iff.mp htext.symm).1
    exact absurd (List.append_eq_nil_iff.mp hlog).2 (hne log List.mem_cons_self)

variable (json : JsonCodec) {τ : Type} (cwd : List Str)
  (elsewhere : Elsewhere → τ → Except VfsError Str × τ) (ns : SandboxNs) (taskId : Str)

/-- The file of the log of a task. -/
def logFile (t : FileTree) : Option Str :=
  match (ns.target [taskId, "log"]).bind fun filePath => t.lookup (filePath.resolve cwd) with
  | some (.file text) => some text
  | _ => none

/-- What reading `logos://sandbox/{task_id}/log` yields. -/
def readLog (t : FileTree) : Except VfsError Str :=
  (eval (diskHandler cwd) (ns.read json [taskId, "log"]) t).1

/-- Successful calls of `system.complete` on a task, with their logs. -/
inductive Completes (k₀ : KernelState (FileTree × τ)) :
    List Str → KernelState (FileTree × τ) → Prop
  /-- No call yet. -/
  | start : Completes k₀ [] k₀
  /-- One more call. -/
  | call {logs : List Str} {k k' : KernelState (FileTree × τ)} {params reply : Str} {val : Json}
      (calls : Completes k₀ logs k) (parse : json.fromStr params = .ok val)
      (task : (SystemCompleteTool.completeParams val).taskId = taskId)
      (log : (SystemCompleteTool.completeParams val).taskLog ≠ [])
      (run : eval (kernelHandler (withFiles cwd elsewhere))
        (SystemCompleteTool.call json ns params) k = (.ok reply, k')) :
      Completes k₀ (logs ++ [(SystemCompleteTool.completeParams val).taskLog]) k'

/-- **The log is kept**: reading it yields the text of its file, which is the text from before the
calls with the logs of the calls after it, in order. -/
def LogKept (t t' : FileTree) (logs : List Str) : Prop :=
  ∃ text rest, readLog json cwd ns taskId t' = .ok text ∧ logFile cwd ns taskId t' = some text ∧
    text = (logFile cwd ns taskId t).getD [] ++ rest ∧ InOrder logs rest

section Calls

variable {json cwd elsewhere ns taskId}

/-- **The log is never written**: `write [id ++ "/log"]` fails, as its one segment has no agent as
the name of a task, or there is a directory at the place where it is to be written. -/
theorem write_log_fails (id content : Str) (t : FileTree) :
    (∃ e, (eval (diskHandler cwd) (ns.write [id ++ "/log"] content) t).1 = .error e) ∧
      t.Grows (eval (diskHandler cwd) (ns.write [id ++ "/log"] content) t).2 := by
  have hne : ([id ++ "/log"] : List Str) ≠ [] := List.cons_ne_nil _ _
  have hsystem : ¬([id ++ "/log"] : List Str).head? = some "__system__".toList := by
    intro hhead
    have hslash : '/' ∈ id ++ "/log".toList := List.mem_append_right id (by decide)
    rw [Option.some_inj.mp hhead] at hslash
    exact absurd hslash (by decide)
  unfold SandboxNs.write
  rw [if_neg hne, Program.eval_bind]
  unfold SandboxNs.resolvePath
  rw [if_neg hsystem]
  dsimp only
  cases ns.taskAgent (id ++ "/log") with
  | none => exact ⟨⟨_, rfl⟩, .refl t⟩
  | some agentId =>
    dsimp only
    cases ns.containers agentId with
    | none => exact ⟨⟨_, rfl⟩, .refl t⟩
    | some hostPath =>
      dsimp only
      rw [Program.eval_bind, eval_ask, Program.evalNext_ok, Program.eval_bind, eval_orIo]
      dsimp only [diskHandler]
      have hgrows : t.Grows (t.createDirAll cwd (hostPath.join (id ++ "/log"))).2 :=
        FileTree.grows_createDirAll _
      cases hmade : (t.createDirAll cwd (hostPath.join (id ++ "/log"))).1 with
      | error e => exact ⟨⟨_, rfl⟩, hgrows⟩
      | ok _ =>
        -- The directory is there, so nothing can be written in its place.
        have hdir := FileTree.createDirAll_ok hmade
        have hcases := @writePath_cases cwd shownPath (hostPath.join (id ++ "/log")) content
          (t.createDirAll cwd (hostPath.join (id ++ "/log"))).2
        rcases hcases with ⟨-, -, hnot, -⟩ | ⟨herror, hgrows'⟩
        · exact absurd hdir hnot
        · exact ⟨herror, hgrows.trans hgrows'⟩

/-- **A call changes the text of no file**: after `SystemCompleteTool.call` the tree has only grown
by directories. -/
theorem grows_call (params : Str) (k : KernelState (FileTree × τ)) :
    k.outside.1.Grows (eval (kernelHandler (withFiles cwd elsewhere))
      (SystemCompleteTool.call json ns params) k).2.outside.1 := by
  have hclosed := Program.closed_leads (kernelHandler (withFiles cwd elsewhere)) (ε := VfsError)
    (R := fun k k' : KernelState (FileTree × τ) => k.outside.1.Grows k'.outside.1)
    (fun k => .refl _) FileTree.Grows.trans
  have hparse : Program.Leads (kernelHandler (withFiles cwd elsewhere))
      (fun k k' : KernelState (FileTree × τ) => k.outside.1.Grows k'.outside.1)
      (parseParams json params) := by
    intro k
    unfold parseParams
    split <;> exact .refl _
  refine hclosed.of_bind hparse (fun val => ?_) k
  refine hclosed.of_bind (fun k => ?_) fun result => ?_
  · rw [eval_onSystem]
    exact .refl _
  · refine hclosed.of_when_bind (fun _ => hclosed.of_ignoreError fun k => ?_) fun _ =>
      hclosed.of_pure _
    rw [eval_onFiles]
    exact (write_log_fails result.taskId result.taskLog k.outside.1).2

variable {k k' : KernelState (FileTree × τ)} {logs : List Str}

/-- After all calls that `Completes` has, the tree has only grown by directories. -/
theorem Completes.grows (h : Completes json cwd elsewhere ns taskId k logs k') :
    k.outside.1.Grows k'.outside.1 := by
  induction h with
  | start => exact .refl _
  | @call logs k k' params reply val calls parse task log run ih =>
    have hcall := @grows_call json _ cwd elsewhere ns params k
    rw [run] at hcall
    exact ih.trans hcall

/-- The `logs` that were handed over are not empty. -/
theorem Completes.ne_nil (h : Completes json cwd elsewhere ns taskId k logs k') :
    ∀ log ∈ logs, log ≠ [] := by
  induction h with
  | start => exact fun _ h => nomatch h
  | call calls parse task log run ih =>
    intro other hother
    rcases List.mem_append.mp hother with hother | hother
    · exact ih other hother
    · rw [List.mem_singleton.mp hother]
      exact log

/-- The log of a task is the file that its `target` leads to. -/
theorem logFile_eq_some_iff {t : FileTree} {text : Str} : logFile cwd ns taskId t = some text ↔
    ∃ filePath ∈ ns.target [taskId, "log"], t.lookup (filePath.resolve cwd) = some (.file text) := by
  have hbind : logFile cwd ns taskId t = some text ↔ ((ns.target [taskId, "log"]).bind fun filePath =>
      t.lookup (filePath.resolve cwd)) = some (.file text) := by
    unfold logFile
    rcases ((ns.target [taskId, "log"]).bind fun filePath => t.lookup (filePath.resolve cwd))
      with _ | _ | found
    · exact ⟨nofun, nofun⟩
    · exact ⟨nofun, nofun⟩
    · exact ⟨fun h => congrArg (some ∘ Node.file) (Option.some_inj.mp h),
        fun h => congrArg some (Node.file.inj (Option.some_inj.mp h))⟩
  rw [hbind, Option.bind_eq_some_iff]
  rfl

/-- What is in the `logFile` does not change where the tree only grows by directories. -/
theorem logFile_of_grows {t t' : FileTree} (h : t.Grows t') :
    logFile cwd ns taskId t' = logFile cwd ns taskId t := by
  refine Option.ext fun text => ?_
  rw [logFile_eq_some_iff, logFile_eq_some_iff]
  simp only [(h _).lookup_eq_file_iff]

end Calls

/-- **No log is ever kept**: whatever calls succeed, `LogKept` holds only if none of them hands a
log over; the text of the log is what it was before. -/
theorem logKept_iff {json : JsonCodec} {cwd : List Str}
    {elsewhere : Elsewhere → τ → Except VfsError Str × τ} {ns : SandboxNs} {taskId : Str}
    {k k' : KernelState (FileTree × τ)} {logs : List Str}
    (calls : Completes json cwd elsewhere ns taskId k logs k') :
    LogKept json cwd ns taskId k.outside.1 k'.outside.1 logs ↔
      logs = [] ∧ ∃ text, readLog json cwd ns taskId k'.outside.1 = .ok text ∧
        logFile cwd ns taskId k'.outside.1 = some text := by
  have hsame := @logFile_of_grows cwd ns taskId _ _ calls.grows
  constructor
  · rintro ⟨text, rest, hread, hfile, htext, horder⟩
    -- What is added to the text of the log is empty.
    have hbefore := hsame ▸ hfile
    rw [hbefore, Option.getD_some] at htext
    obtain rfl := List.append_right_eq_self.mp htext.symm
    exact ⟨eq_nil_of_inOrder_nil calls.ne_nil horder, text, hread, hfile⟩
  · rintro ⟨rfl, text, hread, hfile⟩
    refine ⟨text, [], hread, hfile, ?_, trivial⟩
    rw [← hsame, hfile, Option.getD_some, List.append_nil]

/-! ## A turn with a log -/

/-- The task `t-1` is pending, and has noted something in its log itself. -/
def started : KernelState (FileTree × Unit) where
  world := System.onePending
  slots := ⟨fun _ => none, fun _ => 0⟩
  outside := ((eval (diskHandler []) (onData.sandbox.write ["t-1", "log"] "started") .empty).2, ())

/-- The end of a turn of `t-1`. -/
def turn : Json := .ofPairs [("sleep_reason", .string "review"), ("summary", .string "checked"),
  ("task_id", .string "t-1"), ("task_log", .string "checked")]

/-- `turn` has no floating point numbers in it, so it is `Exact`. -/
theorem exact_turn : turn.Exact := by
  refine Json.exactAt_ofPairs fun pair hpair => ?_
  simp only [List.mem_cons, List.not_mem_nil, or_false] at hpair
  rcases hpair with rfl | rfl | rfl | rfl <;> exact .string

/-- A pair `p` with the first component `a` is `(a, p.2)`. -/
theorem eq_mk_of_fst {α β : Type} {p : α × β} {a : α} (h : p.1 = a) : p = (a, p.2) := by
  rw [← h]

/-- No other tool is called. -/
def notReady : Elsewhere → Unit → Except VfsError Str × Unit := fun _ s => (.error .notReady, s)

/-- The kernel after the turn. -/
def reviewed : KernelState (FileTree × Unit) :=
  (eval (kernelHandler (withFiles [] notReady)) (SystemCompleteTool.call JsonText.codec
    onData.sandbox (JsonText.codec.toStr turn)) started).2

/-- `turn` completes the task `t-1` and leads to `reviewed`. -/
theorem completes_turn :
    Completes JsonText.codec [] notReady onData.sandbox "t-1" started ["checked"] reviewed := by
  have hparse : JsonText.codec.fromStr (JsonText.codec.toStr turn) = .ok turn :=
    JsonText.codec.fromStr_toStr turn exact_turn
  have hlog : (SystemCompleteTool.completeParams turn).taskLog = "checked".toList := by
    decide +kernel
  have hreply : (eval (kernelHandler (withFiles [] notReady)) (SystemCompleteTool.call
      JsonText.codec onData.sandbox (JsonText.codec.toStr turn)) started).1
        = .ok "\x7b\"anchor_id\":\"\",\"reply\":\"\",\"task_id\":\"t-1\"\x7d" := by
    decide +kernel
  have htask : (SystemCompleteTool.completeParams turn).taskId = "t-1".toList := by decide +kernel
  have hcall := Completes.call .start hparse htask (by rw [hlog]; decide) (eq_mk_of_fst hreply)
  rw [hlog] at hcall
  exact hcall

/-- `logKept_iff` for the run that `turn` makes. -/
theorem logKept_iff_turn :
    LogKept JsonText.codec [] onData.sandbox "t-1" started.outside.1 reviewed.outside.1 ["checked"] ↔
      ["checked".toList] = [] ∧ ∃ text,
        readLog JsonText.codec [] onData.sandbox "t-1" reviewed.outside.1 = .ok text ∧
          logFile [] onData.sandbox "t-1" reviewed.outside.1 = some text :=
  logKept_iff completes_turn

/-- **The log of the turn is lost**: reading yields what `t-1` had noted itself. -/
theorem not_logKept_turn :
    Completes JsonText.codec [] notReady onData.sandbox "t-1" started ["checked"] reviewed ∧
      ¬LogKept JsonText.codec [] onData.sandbox "t-1" started.outside.1 reviewed.outside.1
        ["checked"] := by
  refine ⟨completes_turn, ?_⟩
  rintro ⟨text, rest, hread, -, htext, horder⟩
  have hstarted : readLog JsonText.codec [] onData.sandbox "t-1" reviewed.outside.1
      = .ok "started" := by decide +kernel
  have hbefore : logFile [] onData.sandbox "t-1" started.outside.1 = some "started".toList := by
    decide +kernel
  rw [hstarted] at hread
  obtain rfl := Except.ok.inj hread
  rw [hbefore, Option.getD_some] at htext
  obtain rfl := List.append_right_eq_self.mp htext.symm
  obtain ⟨front, back, hnil, -⟩ := horder
  exact absurd (List.append_eq_nil_iff.mp (List.append_eq_nil_iff.mp hnil.symm).1).2 (by decide)

end LogosFs.Kernel
