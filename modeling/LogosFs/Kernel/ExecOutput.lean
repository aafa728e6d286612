import LogosFs.Kernel.Access
import LogosFs.Lib.Utf8

/-! # The output of a process in a container

A process in a container writes its output to FIFOs, which two readers empty while it runs. A reader
stops at the end of the file, but also when 500 ms pass without any data. `Fifo.Prompt` says that no
data comes so late, and `returnsWholeOutput_iff` that the output is whole exactly then. -/

namespace LogosFs.Kernel

/-! ## FIFOs -/

/-- What happens at the writing end of a FIFO. -/
inductive FifoEvent where
  /-- Bytes are written. -/
  | data (chunk : List UInt8)
  /-- Time passes. -/
  | pause (millis : Nat)
deriving DecidableEq, Repr

/-- How the events end. -/
inductive FifoEnd where
  /-- The writing end is closed. -/
  | closed
  /-- Reading fails. -/
  | failure
deriving DecidableEq, Repr

/-- A FIFO as its reader finds it. -/
structure Fifo where
  /-- What has been written and not yet read. -/
  buffered : List UInt8
  /-- What will happen. -/
  coming : List FifoEvent
  /-- How it will end. -/
  ending : FifoEnd
deriving DecidableEq, Repr

/-- What a read with a time limit yields. -/
inductive ReadOutcome where
  /-- Some bytes, at least one. -/
  | bytes (bytes : List UInt8)
  /-- The end of the file. -/
  | eof
  /-- An error. -/
  | failed
  /-- Nothing within the time. -/
  | elapsed
deriving DecidableEq, Repr

/-- A read with a time limit: what it yields, how long it takes, and the FIFO after it. -/
structure TimedRead where
  /-- The outcome. -/
  outcome : ReadOutcome
  /-- The time it takes, in milliseconds. -/
  took : Nat
  /-- The FIFO after it. -/
  after : Fifo

/-- The size of the buffer of a read. -/
def chunkSize : Nat := 4096

/-- How long a read waits, in milliseconds. -/
def readTimeout : Nat := 500

namespace Fifo

/-- What the events write. -/
def content : List FifoEvent → List UInt8
  | [] => []
  | .data chunk :: coming => chunk ++ content coming
  | .pause _ :: coming => content coming

/-- Everything that is there to be read until the end. -/
def written (fifo : Fifo) : List UInt8 := fifo.buffered ++ content fifo.coming

/-- Wait for data in an empty FIFO; at the limit itself it is too late. -/
def awaitData (ending : FifoEnd) : Nat → List FifoEvent → TimedRead
  | _, [] => ⟨match ending with
      | .closed => .eof
      | .failure => .failed, 0, ⟨[], [], ending⟩⟩
  | limit, .data chunk :: coming =>
    -- A write of nothing wakes nobody.
    if chunk = [] then awaitData ending limit coming
    else ⟨.bytes (chunk.take chunkSize), 0, ⟨chunk.drop chunkSize, coming, ending⟩⟩
  | limit, .pause millis :: coming =>
    if millis < limit then
      let later := awaitData ending (limit - millis) coming
      ⟨later.outcome, millis + later.took, later.after⟩
    else ⟨.elapsed, limit, ⟨[], .pause (millis - limit) :: coming, ending⟩⟩

/-- Read with a time limit. -/
def timedRead (fifo : Fifo) : TimedRead :=
  if fifo.buffered = [] then awaitData fifo.ending readTimeout fifo.coming
  else ⟨.bytes (fifo.buffered.take chunkSize), 0,
    ⟨fifo.buffered.drop chunkSize, fifo.coming, fifo.ending⟩⟩

/-- No data comes when nothing has come for so long that a read has given up, if nothing has come for
some time already. -/
def PromptAfter : Nat → List FifoEvent → Prop
  | _, [] => True
  | waited, .data chunk :: coming =>
    if chunk = [] then PromptAfter waited coming else waited < readTimeout ∧ PromptAfter 0 coming
  | waited, .pause millis :: coming => PromptAfter (waited + millis) coming

/-- No data comes after 500 ms without any. -/
def Prompt (fifo : Fifo) : Prop := PromptAfter 0 fifo.coming

/-! ### What a read yields -/

variable {ending : FifoEnd} {fifo : Fifo}

/-- Once a read has waited for `readTimeout`, what comes is prompt only if there is no more data. -/
theorem promptAfter_of_ge {waited : Nat} (hwaited : readTimeout ≤ waited) (coming : List FifoEvent) :
    PromptAfter waited coming ↔ content coming = [] := by
  induction coming generalizing waited with
  | nil => exact iff_of_true trivial rfl
  | cons event coming ih =>
    cases event with
    | data chunk =>
      unfold PromptAfter content
      split
      · rename_i hnil
        rw [hnil, List.nil_append]
        exact ih hwaited
      · rename_i hchunk
        refine iff_of_false (fun h => ?_) fun h => hchunk (List.append_eq_nil_iff.mp h).1
        exact absurd h.1 (Nat.not_lt.mpr hwaited)
    | pause millis => exact ih (Nat.le_trans hwaited (Nat.le_add_right _ _))

/-- What is to be said of a read that starts after some time without data, when these events are to
come. -/
def ReadSpec (waited : Nat) (coming : List FifoEvent) (read : TimedRead) : Prop :=
  match read.outcome with
  | .bytes bytes => bytes ≠ [] ∧ content coming = bytes ++ read.after.written ∧
      (PromptAfter waited coming ↔ read.after.Prompt)
  | .eof | .failed | .elapsed => PromptAfter waited coming ↔ content coming = []

/-- Reading a part of a `chunk`, `chunkSize` bytes at most, leaves the others, as `ReadSpec` says.
-/
theorem readSpec_bytes {waited : Nat} {coming later : List FifoEvent} {chunk : List UInt8}
    (hchunk : chunk ≠ []) (hcontent : content coming = chunk ++ content later)
    (hprompt : PromptAfter waited coming ↔ PromptAfter 0 later) :
    ReadSpec waited coming
      ⟨.bytes (chunk.take chunkSize), 0, ⟨chunk.drop chunkSize, later, ending⟩⟩ := by
  refine ⟨fun hnil => ?_, ?_, hprompt⟩
  · rcases List.take_eq_nil_iff.mp hnil with hzero | hnil
    · cases hzero
    · exact hchunk hnil
  · rw [hcontent, written, ← List.append_assoc, List.take_append_drop]

/-- **A read in an empty FIFO**, `awaitData`, yields the next bytes, or stops: then there is no more
data, or what comes is too late. -/
theorem awaitData_spec {waited limit : Nat} (htime : waited + limit = readTimeout)
    (hlimit : 0 < limit) (coming : List FifoEvent) :
    ReadSpec waited coming (awaitData ending limit coming) := by
  induction coming generalizing waited limit with
  | nil => cases ending <;> exact iff_of_true trivial rfl
  | cons event coming ih =>
    cases event with
    | data chunk =>
      unfold awaitData
      split
      · rename_i hnil
        have hspec := ih htime hlimit
        unfold ReadSpec at hspec ⊢
        unfold content PromptAfter
        rwa [if_pos hnil, hnil, List.nil_append]
      · rename_i hchunk
        refine readSpec_bytes hchunk rfl ?_
        rw [PromptAfter, if_neg hchunk]
        exact and_iff_right (by omega)
    | pause millis =>
      unfold awaitData
      split
      · rename_i hlt
        have htime' : waited + millis + (limit - millis) = readTimeout := by omega
        exact ih htime' (by omega)
      · rename_i hge
        exact promptAfter_of_ge (by omega) coming

/-- **A read**, `timedRead`, yields the next bytes, or stops: then there is no more data, or what
comes is too late. -/
theorem timedRead_spec (fifo : Fifo) :
    match fifo.timedRead.outcome with
    | .bytes bytes => bytes ≠ [] ∧ fifo.written = bytes ++ fifo.timedRead.after.written ∧
        (fifo.Prompt ↔ fifo.timedRead.after.Prompt)
    | .eof | .failed | .elapsed => fifo.Prompt ↔ fifo.written = [] := by
  obtain ⟨buffered, coming, ending⟩ := fifo
  by_cases hbuffered : buffered = []
  · subst hbuffered
    exact awaitData_spec rfl (by decide) coming
  · have hread : timedRead ⟨buffered, coming, ending⟩ = ⟨.bytes (buffered.take chunkSize), 0,
        ⟨buffered.drop chunkSize, coming, ending⟩⟩ := if_neg hbuffered
    rw [hread]
    refine ⟨fun hnil => ?_, ?_, Iff.rfl⟩
    · rcases List.take_eq_nil_iff.mp hnil with hzero | hnil
      · cases hzero
      · exact hbuffered hnil
    · rw [written, written, ← List.append_assoc, List.take_append_drop]

/-! ### Reading to the end -/

/-- Read until the end of the file, an error, or a read that takes too long: the bytes that were read,
after those that have been read before, and when it is over. -/
def readLoop (buf : List UInt8) (now : Nat) (fifo : Fifo) : List UInt8 × Nat :=
  match _h : fifo.timedRead with
  | ⟨.bytes bytes, took, after⟩ => readLoop (buf ++ bytes) (now + took) after
  | ⟨.eof, took, _⟩ => (buf, now + took)
  | ⟨.failed, took, _⟩ => (buf, now + took)
  | ⟨.elapsed, took, _⟩ => (buf, now + took)
termination_by fifo.written.length
decreasing_by
  have hspec := timedRead_spec fifo
  rw [_h] at hspec
  have hpos := List.length_pos_iff.mpr hspec.1
  have hlength := congrArg List.length hspec.2.1
  rw [List.length_append] at hlength
  dsimp only at hlength
  omega

/-- A read that stops with `buf` leaves nothing of what is `written` exactly if the FIFO is
`Prompt`. -/
theorem eq_append_written_iff {buf : List UInt8} (h : fifo.Prompt ↔ fifo.written = []) :
    buf = buf ++ fifo.written ↔ fifo.Prompt := by
  rw [h]
  exact ⟨fun heq => List.append_right_eq_self.mp heq.symm, fun hnil => by rw [hnil, List.append_nil]⟩

/-- **All bytes are read** by `readLoop` exactly if the FIFO is `Prompt`. -/
theorem readLoop_eq_iff (buf : List UInt8) (now : Nat) (fifo : Fifo) :
    (readLoop buf now fifo).1 = buf ++ fifo.written ↔ fifo.Prompt := by
  induction buf, now, fifo using readLoop.induct with
  | case1 buf now fifo bytes took after h ih =>
    have hspec := timedRead_spec fifo
    rw [h] at hspec
    rw [readLoop, h]
    dsimp only
    rw [hspec.2.1, ← List.append_assoc, ih, hspec.2.2]
  | case2 buf now fifo took after h =>
    have hspec := timedRead_spec fifo
    rw [h] at hspec
    rw [readLoop, h]
    exact eq_append_written_iff hspec
  | case3 buf now fifo took after h =>
    have hspec := timedRead_spec fifo
    rw [h] at hspec
    rw [readLoop, h]
    exact eq_append_written_iff hspec
  | case4 buf now fifo took after h =>
    have hspec := timedRead_spec fifo
    rw [h] at hspec
    rw [readLoop, h]
    exact eq_append_written_iff hspec

end Fifo

/-! ## Processes -/

/-- One output of a process, as its reader meets it. -/
structure Output where
  /-- When the FIFO has been opened, in milliseconds. -/
  openedAt : Nat
  /-- The FIFO, if it could be opened. -/
  fifo : Option Fifo

namespace Output

/-- What the reader has read at the end, and when it is at the end. -/
def collected (output : Output) : List UInt8 × Nat :=
  match output.fifo with
  | none => ([], output.openedAt)
  | some fifo => Fifo.readLoop [] output.openedAt fifo

/-- What is written. -/
def written (output : Output) : List UInt8 := output.fifo.elim [] Fifo.written

end Output

/-- Read from a FIFO until its end, or until nothing comes any more: the text, and when it is there. -/
def readFifoIncremental (output : Output) : Str × Nat :=
  (Utf8.decodeLossy output.collected.1, output.collected.2)

/-- A process in a container. -/
structure ContainerProcess where
  /-- Its output. -/
  stdout : Output
  /-- Its errors. -/
  stderr : Output
  /-- When its exit has been reported, in milliseconds. -/
  exitedAt : Nat
  /-- Its exit status. -/
  exitStatus : Int

/-- The outcome of a command. -/
structure ExecResult where
  /-- The output. -/
  stdout : Str
  /-- The errors. -/
  stderr : Str
  /-- The exit code. -/
  exitCode : Int
deriving DecidableEq, Repr

/-- How long a reader is waited for after the exit, in milliseconds. -/
def drainTimeout : Nat := 5000

/-- Wait for a reader: its text, or nothing if it takes too long, and when the waiting is over. -/
def awaitReader (now : Nat) (reader : Str × Nat) : Str × Nat :=
  if reader.2 ≤ now + drainTimeout then (reader.1, max now reader.2) else ([], now + drainTimeout)

namespace ContainerdExecutor

/-- The text that the shell in the container runs. -/
def fullCmd (command cwd : Str) : Str :=
  "mkdir -p " ++ cwd ++ " && cd " ++ cwd ++ " && " ++ command

/-- Run a command in a container; `containerd` runs a text in a container, or fails to. -/
def execInContainer (containerd : Str → Str → Except VfsError ContainerProcess)
    (containerId command cwd : Str) : Except VfsError ExecResult := do
  let process ← containerd containerId (fullCmd command cwd)
  let (stdout, now) := awaitReader process.exitedAt (readFifoIncremental process.stdout)
  let (stderr, _) := awaitReader now (readFifoIncremental process.stderr)
  return ⟨stdout, stderr, process.exitStatus⟩

end ContainerdExecutor

/-! ## The whole output -/

/-- A text is the whole output: all that is written has been read, and the text is what it decodes
to. -/
def IsWhole (output : Output) (text : Str) : Prop :=
  output.collected.1 = output.written ∧ text = Utf8.decodeLossy output.written

/-- The outcome of a command has all that its process wrote. -/
def ExecResult.IsWhole (result : ExecResult) (process : ContainerProcess) : Prop :=
  Kernel.IsWhole process.stdout result.stdout ∧ Kernel.IsWhole process.stderr result.stderr

/-- Both readers are done within 5 s after the exit. -/
def ContainerProcess.Drained (process : ContainerProcess) : Prop :=
  (readFifoIncremental process.stdout).2 ≤ process.exitedAt + drainTimeout ∧
    (readFifoIncremental process.stderr).2 ≤ process.exitedAt + drainTimeout

section Whole

/-- **What the reader returns**, `readFifoIncremental`, is the whole output exactly if the FIFO is
`Prompt`. -/
theorem isWhole_iff {output : Output} {fifo : Fifo} (hopened : output.fifo = some fifo) :
    IsWhole output (readFifoIncremental output).1 ↔ fifo.Prompt := by
  have hcollected : output.collected = Fifo.readLoop [] output.openedAt fifo := by
    rw [Output.collected, hopened]
  have hwritten : output.written = fifo.written := by
    rw [Output.written, hopened]
    rfl
  rw [IsWhole, readFifoIncremental, hcollected, hwritten, ← Fifo.readLoop_eq_iff [] output.openedAt,
    List.nil_append]
  exact and_iff_left_of_imp fun heq => congrArg Utf8.decodeLossy heq

/-- A `reader` that is done within `drainTimeout` is waited for. -/
theorem awaitReader_of_le {now : Nat} {reader : Str × Nat} (h : reader.2 ≤ now + drainTimeout) :
    awaitReader now reader = (reader.1, max now reader.2) := if_pos h

/-- If both readers are done in time, `Drained`, what they return is the outcome of
`execInContainer`. -/
theorem execInContainer_of_drained {containerd : Str → Str → Except VfsError ContainerProcess}
    {containerId command cwd : Str} {process : ContainerProcess}
    (hrun : containerd containerId (ContainerdExecutor.fullCmd command cwd) = .ok process)
    (hdrained : process.Drained) :
    ContainerdExecutor.execInContainer containerd containerId command cwd
      = .ok ⟨(readFifoIncremental process.stdout).1, (readFifoIncremental process.stderr).1,
        process.exitStatus⟩ := by
  have hstderr : (readFifoIncremental process.stderr).2
      ≤ max process.exitedAt (readFifoIncremental process.stdout).2 + drainTimeout := by
    have hle := hdrained.2
    omega
  have hafter := awaitReader_of_le hstderr
  unfold ContainerdExecutor.execInContainer
  simp only [hrun, bind, Except.bind, awaitReader_of_le hdrained.1, hafter]
  rfl

end Whole

/-- **The output is whole exactly if it comes in time**: what a reader of a FIFO returns is all that
is written if and only if no data comes after `readTimeout`, 500 ms, without any, and so is what a
command returns whose readers are done within `drainTimeout`, 5 s, after its exit. -/
theorem returnsWholeOutput_iff {containerd : Str → Str → Except VfsError ContainerProcess}
    {containerId command cwd : Str} {process : ContainerProcess} {stdout stderr : Fifo}
    (hrun : containerd containerId (ContainerdExecutor.fullCmd command cwd) = .ok process)
    (hstdout : process.stdout.fifo = some stdout) (hstderr : process.stderr.fifo = some stderr) :
    (IsWhole process.stdout (readFifoIncremental process.stdout).1 ↔ stdout.Prompt) ∧
      (IsWhole process.stderr (readFifoIncremental process.stderr).1 ↔ stderr.Prompt) ∧
      (process.Drained → ∃ result,
        ContainerdExecutor.execInContainer containerd containerId command cwd = .ok result ∧
          (result.IsWhole process ↔ stdout.Prompt ∧ stderr.Prompt)) := by
  refine ⟨isWhole_iff hstdout, isWhole_iff hstderr, fun hdrained => ?_⟩
  refine ⟨_, execInContainer_of_drained hrun hdrained, ?_⟩
  exact and_congr (isWhole_iff hstdout) (isWhole_iff hstderr)

/-! ## A slow command -/

/-- A process that sleeps for a second, writes a line and exits. -/
def slowProcess : ContainerProcess where
  stdout := ⟨0, some ⟨[], [.pause 1000, .data (Utf8.encode "x\n")], .closed⟩⟩
  stderr := ⟨0, some ⟨[], [.pause 1000], .closed⟩⟩
  exitedAt := 1000
  exitStatus := 0

/-- Of the `slowProcess`, which pauses for a second, the output is whole only if that were prompt.
-/
theorem returnsWholeOutput_iff_slow :
    (IsWhole slowProcess.stdout (readFifoIncremental slowProcess.stdout).1 ↔
        Fifo.Prompt ⟨[], [.pause 1000, .data (Utf8.encode "x\n")], .closed⟩) ∧
      (IsWhole slowProcess.stderr (readFifoIncremental slowProcess.stderr).1 ↔
        Fifo.Prompt ⟨[], [.pause 1000], .closed⟩) ∧
      (slowProcess.Drained → ∃ result, ContainerdExecutor.execInContainer (fun _ _ => .ok slowProcess)
        "logos-sandbox-a-1" "sleep 1; echo x" "/workspace/t-1" = .ok result ∧
          (result.IsWhole slowProcess ↔
            Fifo.Prompt ⟨[], [.pause 1000, .data (Utf8.encode "x\n")], .closed⟩ ∧
              Fifo.Prompt ⟨[], [.pause 1000], .closed⟩)) :=
  returnsWholeOutput_iff rfl rfl rfl

/-- **The line is lost** in `slowProcess`: both readers have given up before it comes. -/
theorem not_isWhole_slow :
    slowProcess.Drained ∧
      ContainerdExecutor.execInContainer (fun _ _ => .ok slowProcess)
        "logos-sandbox-a-1" "sleep 1; echo x" "/workspace/t-1" = .ok ⟨[], [], 0⟩ ∧
      slowProcess.stdout.written = Utf8.encode "x\n" ∧
      ¬ExecResult.IsWhole ⟨[], [], 0⟩ slowProcess := by
  have hstdout : slowProcess.stdout.collected = ([], 500) := by
    show Fifo.readLoop [] 0 _ = _
    rw [Fifo.readLoop]
    rfl
  have hstderr : slowProcess.stderr.collected = ([], 500) := by
    show Fifo.readLoop [] 0 _ = _
    rw [Fifo.readLoop]
    rfl
  have hdrained : slowProcess.Drained := by
    rw [ContainerProcess.Drained, readFifoIncremental, readFifoIncremental, hstdout, hstderr]
    decide
  refine ⟨hdrained, ?_, rfl, fun hwhole => ?_⟩
  · rw [execInContainer_of_drained rfl hdrained, readFifoIncremental, readFifoIncremental, hstdout,
      hstderr]
    rfl
  · have hall := hwhole.1.1
    rw [hstdout] at hall
    exact absurd hall (by decide)

end LogosFs.Kernel
