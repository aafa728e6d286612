import LogosFs.Kernel.Proc

/-! # The slots of calls

A call is submitted by writing its parameters, and its result is read from the slot that the write
fills. The same write drops every slot made five minutes ago or earlier, and a slot that is there
already is filled again without being made anew: its age is that of the first call under its key that
has not been read. `readable_iff_of_run` says that a result can be read exactly when this age is below
five minutes, in every run. -/

namespace LogosFs.Kernel

open Program (eval Leads)

variable (json : JsonCodec) {σ : Type} (outside : Handler OutsideSig σ)

/-! ## The history of a slot -/

section History

variable (key : Str) (made : Instant)

/-- The move makes a slot under the key. -/
def Makes (move : Move KernelSig (KernelState σ)) : Prop :=
  ∃ toolName input result, move.op = .slots (.record key toolName input result) ∧
    move.before.state.slots.slots key = none ∧ move.before.state.slots.clock 0 = made ∧
    move.before.state.slots.clock 1 < made + slotTtl

/-- The move drops the slot: its output is read, or it has become too old. -/
def Drops (move : Move KernelSig (KernelState σ)) : Prop :=
  (move.op = .slots (.take key) ∧
    ∃ slot ∈ move.before.state.slots.slots key, slot.output.isSome) ∨
  ∃ key' toolName input result, move.op = .slots (.record key' toolName input result) ∧
    made + slotTtl ≤ move.before.state.slots.clock 1

/-- After these moves there is a slot under the key: it was made, and since then it was not dropped,
whatever calls have filled it. -/
def HeldSince (moves : List (Move KernelSig (KernelState σ))) : Prop :=
  Since (Makes key made) (fun move => ¬Drops key made move) moves

variable {key made}

/-- What one move does to the time `made` of the slot under a key: it `Makes` the slot, or the slot
was there and is not one that it `Drops`. -/
theorem handler_createdAt_iff (c : Config KernelSig (KernelState σ)) (i : Nat) (op : KernelOp) :
    (∃ slot ∈ (kernelHandler outside op c.state).2.slots.slots key, slot.createdAt = made) ↔
      Makes key made ⟨i, op, c⟩ ∨
        (∃ slot ∈ c.state.slots.slots key, slot.createdAt = made) ∧ ¬Drops key made ⟨i, op, c⟩ := by
  have hsame : ∀ (slot : CallSlot) input result,
      (CallSlots.withResult slot input result).createdAt = slot.createdAt := by
    intro slot input result
    cases result <;> rfl
  have hswap : ∀ made' now : Instant,
      now < made' + slotTtl ∧ made' = made ↔ made' = made ∧ now < made + slotTtl := by
    intro made' now
    constructor
    · rintro ⟨hyoung, rfl⟩
      exact ⟨rfl, hyoung⟩
    · rintro ⟨rfl, hyoung⟩
      exact ⟨hyoung, rfl⟩
  cases op with
  -- Only an operation on the slots can make or drop one.
  | system op => simp [kernelHandler, Makes, Drops]
  | outside op => simp [kernelHandler, Makes, Drops]
  | slots op =>
    cases op with
    | get key' => simp [kernelHandler, CallSlots.handler, Makes, Drops]
    | take key' =>
      by_cases hkey : key = key'
      · subst hkey
        cases hslot : c.state.slots.slots key with
        | none => simp [kernelHandler, CallSlots.handler, Makes, Drops, hslot]
        | some slot =>
          cases houtput : slot.output <;>
            simp [kernelHandler, CallSlots.handler, Makes, Drops, hslot, houtput]
      · have hkey' := Ne.symm hkey
        simp [kernelHandler, CallSlots.handler, Makes, Drops, Function.update_of_ne hkey, hkey']
    | record key' toolName input result =>
      by_cases hkey : key = key'
      · subst hkey
        cases hslot : c.state.slots.slots key with
        | none =>
          simp [kernelHandler, CallSlots.handler, Makes, Drops, hslot, hsame,
            Option.filter_eq_some_iff]
          exact hswap _ _
        | some slot =>
          simp [kernelHandler, CallSlots.handler, Makes, Drops, hslot, hsame,
            Option.filter_eq_some_iff]
          exact hswap _ _
      · have hkey' := Ne.symm hkey
        simp [kernelHandler, CallSlots.handler, Makes, Drops, Function.update_of_ne hkey, hkey',
          Option.filter_eq_some_iff]
        constructor
        · rintro ⟨slot, ⟨hslot, hyoung⟩, rfl⟩
          exact ⟨⟨slot, hslot, rfl⟩, hyoung⟩
        · rintro ⟨⟨slot, hslot, rfl⟩, hyoung⟩
          exact ⟨slot, ⟨hslot, hyoung⟩, rfl⟩

/-- **The slots know their age**: after every run of programs of the kernel, the slot under a key
was made at `made` exactly when the history says so, `HeldSince`. -/
theorem createdAt_iff_heldSince {c₀ c : Config KernelSig (KernelState σ)}
    {moves : List (Move KernelSig (KernelState σ))} (hempty : ∀ key, c₀.state.slots.slots key = none)
    (run : Interleaving (kernelHandler outside) c₀ moves c) :
    (∃ slot ∈ c.state.slots.slots key, slot.createdAt = made) ↔ HeldSince key made moves := by
  induction run with
  | start =>
    refine iff_of_false ?_ not_since_nil
    rintro ⟨slot, hslot, -⟩
    rw [hempty] at hslot
    cases hslot
  | @step moves c i op next run ready ih =>
    rw [HeldSince, since_append_singleton, ← HeldSince, ← ih]
    exact handler_createdAt_iff outside c i op

end History

/-! ## What a tool does to the slots -/

/-- An operation that leaves the slots alone. -/
def SparesSlots : KernelOp → Prop
  | .slots _ => False
  | _ => True

section SparesSlots

variable {ε α : Type}

/-- `onSystem` spares the slots. -/
theorem sparesSlots_onSystem (p : ExceptT ε (Program System.Sql) α) :
    (onSystem p).run.AllOps SparesSlots :=
  Program.AllOps.hoist (Q := SparesSlots)
    (fun op _ => (Program.allOps_perform (S := KernelSig) (.system op)).mpr trivial)
    (Program.allOps_of_forall (P := fun _ => True) (fun _ => trivial) p.run)

/-- `onFiles` spares the slots. -/
theorem sparesSlots_onFiles (p : FsM α) : (onFiles p).run.AllOps SparesSlots :=
  Program.AllOps.hoist (Q := SparesSlots)
    (fun op _ => (Program.allOps_perform (S := KernelSig) (.outside (.inl op))).mpr trivial)
    (Program.allOps_of_forall (P := fun _ => True) (fun _ => trivial) p.run)

/-- `parseParams` performs no operation, so it spares the slots. -/
theorem sparesSlots_parseParams (params : Str) :
    (parseParams json params).run.AllOps SparesSlots := by
  rw [parseParams]
  split <;> trivial

/-- No tool touches the slots: all operations of `tool.call` are `SparesSlots`. -/
theorem sparesSlots_toolCall (sandbox : SandboxNs) (tool : Tool) (params : Str) :
    (tool.call json sandbox params).run.AllOps SparesSlots := by
  obtain ⟨name, schema, body⟩ := tool
  cases body with
  | searchTasks =>
    exact Program.AllOps.exceptBind (sparesSlots_parseParams json params) fun val =>
      sparesSlots_onSystem _
  | complete =>
    refine Program.AllOps.exceptBind (sparesSlots_parseParams json params) fun val =>
      Program.AllOps.exceptBind (sparesSlots_onSystem _) fun result => ?_
    split
    · exact Program.AllOps.exceptBind (Program.AllOps.ignoreError (sparesSlots_onFiles _))
        fun _ => trivial
    · trivial
  | elsewhere => exact (Program.allOps_perform _).mpr trivial

/-- A `tool.call` leaves the slots as they are. -/
theorem slots_toolCall (sandbox : SandboxNs) (tool : Tool) (params : Str) (k : KernelState σ) :
    (eval (kernelHandler outside) (tool.call json sandbox params) k).2.slots = k.slots := by
  refine Leads.of_allOps (kernelHandler outside)
    (R := fun k k' : KernelState σ => k'.slots = k.slots) (fun _ => rfl)
    (fun h h' => h'.trans h) (fun op k hop => ?_) (sparesSlots_toolCall json sandbox tool params) k
  cases op with
  | system op => rfl
  | outside op => rfl
  | slots op => exact hop.elim

end SparesSlots

/-! ## One call -/

variable (ns : ProcNs) (toolName callId input : Str) (k : KernelState σ)

/-- The outcome of the tool itself. -/
def outcomeOf (tool : Tool) : Except VfsError Str :=
  (eval (kernelHandler outside) (tool.call json ns.sandbox input) k).1

/-- The call is submitted. -/
def submit : Except VfsError Unit × KernelState σ :=
  eval (kernelHandler outside) (ns.write json [toolName, callId, "input"] input) k

/-- Right after the call has been submitted, a field of its slot is read. -/
def readAfter (field : Str) : Except VfsError Str :=
  (eval (kernelHandler outside) (ns.read json [toolName, callId, field])
    (submit json outside ns toolName callId input k).2).1

/-- **A submitted call is readable**: if the write succeeds, the output or the error of the tool can
be read, and neither read says that there is no such call. -/
def Readable (tool : Tool) : Prop :=
  (submit json outside ns toolName callId input k).1 = .ok () →
    (∀ output, outcomeOf json outside ns input k tool = .ok output →
      readAfter json outside ns toolName callId input k "output" = .ok output) ∧
    (∀ e, outcomeOf json outside ns input k tool = .error e →
      readAfter json outside ns toolName callId input k "error" = .ok e.toStr) ∧
    ∀ field ∈ ["output".toList, "error"], readAfter json outside ns toolName callId input k field
      ≠ .error (.notFound ("call not found: " ++ ProcNs.slotKey toolName callId))

variable {ns toolName callId input k}

/-- `onSlots` does to the slots what `CallSlots.handler` does, and nothing else. -/
theorem eval_onSlots (op : SlotOp) (k : KernelState σ) : eval (kernelHandler outside) (onSlots op) k
    = (.ok (CallSlots.handler op k.slots).1, { k with slots := (CallSlots.handler op k.slots).2 }) :=
  rfl

/-- What `submit` does: the tool runs, and its outcome is recorded under its key. -/
theorem submit_eq {tool : Tool} (htool : ns.tool? toolName = some tool) :
    submit json outside ns toolName callId input k = (.ok (), {
      (eval (kernelHandler outside) (tool.call json ns.sandbox input) k).2 with
      slots := (CallSlots.handler (.record (ProcNs.slotKey toolName callId) toolName input
        (outcomeOf json outside ns input k tool)) k.slots).2 }) := by
  have hwrite : ns.write json [toolName, callId, "input"] input
      = ns.executeCall json toolName callId input := rfl
  rw [submit, hwrite, ProcNs.executeCall, htool]
  dsimp only
  rw [Program.eval_bind, Program.eval_outcome, Program.evalNext_ok, eval_onSlots, slots_toolCall]
  rfl

/-- The slot that a call fills: the one that is there, or a new one. -/
def CallSlots.slotFor (s : CallSlots) (key toolName input : Str) : CallSlot :=
  (s.slots key).getD ⟨toolName, input, none, none, s.clock 0⟩

/-- The slot that a call fills is less than five minutes old when the call drops the old ones. -/
def CallSlots.Young (s : CallSlots) (key toolName input : Str) : Prop :=
  s.clock 1 < (s.slotFor key toolName input).createdAt + slotTtl

instance (s : CallSlots) (key toolName input : Str) : Decidable (s.Young key toolName input) :=
  inferInstanceAs (Decidable (_ < _))

/-- The slot that is found after a `.record`: the one of the key with the result, unless it is too
old. -/
theorem slots_record (s : CallSlots) (key : Str) (result : Except VfsError Str) :
    (CallSlots.handler (.record key toolName input result) s).2.slots key
      = (some (CallSlots.withResult (s.slotFor key toolName input) input result)).filter
          fun slot => s.clock 1 < slot.createdAt + slotTtl := by
  show Option.filter _ (Function.update s.slots key _ key) = _
  rw [Function.update_self]
  rfl

/-- After a `.record` the slot is found with the result, where it is `Young`. -/
theorem slots_record_of_young {s : CallSlots} {key : Str} (h : s.Young key toolName input)
    (result : Except VfsError Str) :
    (CallSlots.handler (.record key toolName input result) s).2.slots key
      = some (CallSlots.withResult (s.slotFor key toolName input) input result) := by
  have hcreated : (CallSlots.withResult (s.slotFor key toolName input) input result).createdAt
      = (s.slotFor key toolName input).createdAt := by cases result <;> rfl
  rw [slots_record, Option.filter_some, if_pos]
  rw [hcreated]
  exact decide_eq_true h

/-- After a `.record` nothing is found under the key, where its slot is not `Young`. -/
theorem slots_record_of_not_young {s : CallSlots} {key : Str} (h : ¬s.Young key toolName input)
    (result : Except VfsError Str) :
    (CallSlots.handler (.record key toolName input result) s).2.slots key = none := by
  have hcreated : (CallSlots.withResult (s.slotFor key toolName input) input result).createdAt
      = (s.slotFor key toolName input).createdAt := by cases result <;> rfl
  rw [slots_record, Option.filter_some, if_neg]
  rw [hcreated]
  exact fun hyoung => h (of_decide_eq_true hyoung)

/-- Reading the `output` of a slot answers with it, or that there is no slot or no output. -/
theorem eval_read_output (k : KernelState σ) :
    (eval (kernelHandler outside) (ns.read json [toolName, callId, "output"]) k).1
      = match k.slots.slots (ProcNs.slotKey toolName callId) with
        | none => .error (.notFound ("call not found: " ++ ProcNs.slotKey toolName callId))
        | some slot => match slot.output with
          | some output => .ok output
          | none =>
            .error (.notFound ("call " ++ ProcNs.slotKey toolName callId ++ ": no output yet")) := by
  have hread : ns.read json [toolName, callId, "output"]
      = ProcNs.readSlot (ProcNs.slotKey toolName callId) "output" := rfl
  rw [hread, ProcNs.readSlot, if_pos rfl, Program.eval_bind, eval_onSlots, Program.evalNext_ok,
    Program.eval_bind]
  show (Program.evalNext _ _ (eval _ (ProcNs.found _ (k.slots.slots _)) _)).1 = _
  cases k.slots.slots (ProcNs.slotKey toolName callId) with
  | none => rfl
  | some slot =>
    rw [ProcNs.found, Program.eval_pure, Program.evalNext_ok]
    dsimp only
    cases slot.output <;> rfl

/-- Reading the `error` of a slot answers with it, with `null` if there is none, or that there is no
slot. -/
theorem eval_read_error (k : KernelState σ) :
    (eval (kernelHandler outside) (ns.read json [toolName, callId, "error"]) k).1
      = match k.slots.slots (ProcNs.slotKey toolName callId) with
        | none => .error (.notFound ("call not found: " ++ ProcNs.slotKey toolName callId))
        | some slot => .ok (slot.error.getD "null") := by
  have hread : ns.read json [toolName, callId, "error"]
      = ProcNs.readSlot (ProcNs.slotKey toolName callId) "error" := rfl
  rw [hread, ProcNs.readSlot, if_neg (by decide), Program.eval_bind, eval_onSlots,
    Program.evalNext_ok, Program.eval_bind]
  show (Program.evalNext _ _ (eval _ (ProcNs.found _ (k.slots.slots _)) _)).1 = _
  cases k.slots.slots (ProcNs.slotKey toolName callId) with
  | none => rfl
  | some slot => rfl

/-- **One call** is `Readable` exactly when the slot that it fills is `Young`. -/
theorem readable_iff_young {tool : Tool} (htool : ns.tool? toolName = some tool) :
    Readable json outside ns toolName callId input k tool ↔
      k.slots.Young (ProcNs.slotKey toolName callId) toolName input := by
  rw [Readable, submit_eq json outside htool]
  simp only [readAfter, submit_eq json outside htool, forall_const]
  by_cases hyoung : k.slots.Young (ProcNs.slotKey toolName callId) toolName input
  · refine iff_of_true ⟨fun output houtput => ?_, fun e he => ?_, fun field hfield => ?_⟩ hyoung
    · rw [eval_read_output, slots_record_of_young hyoung, houtput]
      rfl
    · rw [eval_read_error, slots_record_of_young hyoung, he]
      rfl
    · rcases List.mem_pair.mp hfield with rfl | rfl
      · rw [eval_read_output, slots_record_of_young hyoung]
        cases outcomeOf json outside ns input k tool with
        | ok output => exact nofun
        | error e =>
          -- The texts of the two errors differ in their lengths.
          intro h
          have hlength := congrArg List.length (VfsError.notFound.inj (Except.error.inj h))
          simp only [List.length_append] at hlength
          have hcall : "call ".toList.length + ": no output yet".toList.length
            = "call not found: ".toList.length + 4 := rfl
          omega
      · rw [eval_read_error, slots_record_of_young hyoung]
        exact nofun
  · refine iff_of_false (fun hread => hread.2.2 "output" List.mem_cons_self ?_) hyoung
    rw [eval_read_output, slots_record_of_not_young hyoung]

/-! ## All runs -/

/-- The time at which the slot was made that a call fills after these moves. -/
def FillsSlotOf (key : Str) (made : Instant) (moves : List (Move KernelSig (KernelState σ)))
    (s : CallSlots) : Prop :=
  HeldSince key made moves ∨ (∀ earlier, ¬HeldSince key earlier moves) ∧ made = s.clock 0

/-- **When a submitted call is readable.** After every run of programs of the kernel, whose calls
may have used the same key, a call is `Readable` exactly when less than `slotTtl`, five minutes, lie
between the making of the slot that it fills, by itself or by an earlier call, and its dropping of
old slots. -/
theorem readable_iff_of_run {c₀ c : Config KernelSig (KernelState σ)}
    {moves : List (Move KernelSig (KernelState σ))} (hempty : ∀ key, c₀.state.slots.slots key = none)
    (run : Interleaving (kernelHandler outside) c₀ moves c) {tool : Tool}
    (htool : ns.tool? toolName = some tool) :
    Readable json outside ns toolName callId input c.state tool ↔
      ∀ made, FillsSlotOf (ProcNs.slotKey toolName callId) made moves c.state.slots →
        c.state.slots.clock 1 < made + slotTtl := by
  rw [readable_iff_young json outside htool, CallSlots.Young, CallSlots.slotFor]
  have hage : ∀ made, (∃ slot ∈ c.state.slots.slots (ProcNs.slotKey toolName callId),
      slot.createdAt = made) ↔ HeldSince (ProcNs.slotKey toolName callId) made moves :=
    fun made => createdAt_iff_heldSince outside hempty run
  simp only [FillsSlotOf, ← hage]
  cases c.state.slots.slots (ProcNs.slotKey toolName callId) with
  | none => simp
  | some slot => simp

/-- No files, and every tool answers with its parameters. -/
def echoing : Handler OutsideSig Unit
  | .inl (.isDir _), s => (false, s)
  | .inl (.readDir path), s => (.error (.notFound path.display), s)
  | .inl (.readToString path), s => (.error (.notFound path.display), s)
  | .inl (.createDirAll path), s => (.error (.other path.display), s)
  | .inl (.write path _), s => (.error (.other path.display), s)
  | .inl (.openAppend path), s => (.error (.other path.display), s)
  | .inl (.writeAll path _), s => (.error (.other path.display), s)
  | .inr (.tool _ params), s => (.ok params, s)
  | .inr (.namespace ..), s => (.error .notReady, s)

/-- The tool that answers with its parameters. -/
def echo : Tool := ⟨"test.echo", .null, .elsewhere⟩

/-- The namespace with that tool. -/
def procOfEcho : ProcNs := ⟨[echo], ⟨.ofStr "/", fun _ => none, fun _ => none⟩⟩

/-- One call is submitted, with a clock that is read every two and a half minutes. -/
def oneCall : Config KernelSig (KernelState Unit) where
  threads := [(procOfEcho.write JsonText.codec ["test.echo", "call-001", "input"] "one").run >>=
    fun _ => .done ()]
  state := ⟨System.onePending, ⟨fun _ => none, fun n => n * (slotTtl / 2)⟩, ()⟩

/-- The run of that call. -/
def afterOneCall : List (Move KernelSig (KernelState Unit)) × Config KernelSig (KernelState Unit) :=
  oneCall.play (kernelHandler echoing) [0, 0]

/-- `afterOneCall` is an interleaving of the one call. -/
theorem run_afterOneCall :
    Interleaving (kernelHandler echoing) oneCall afterOneCall.1 afterOneCall.2 :=
  Interleaving.of_play (kernelHandler echoing) oneCall [0, 0]

/-- A call under another key, `call-002`, is readable `afterOneCall`. -/
theorem readable_iff_of_run_other_key :
    Readable JsonText.codec echoing procOfEcho "test.echo" "call-002" "two" afterOneCall.2.state echo ↔
      ∀ made, FillsSlotOf (ProcNs.slotKey "test.echo" "call-002") made afterOneCall.1
        afterOneCall.2.state.slots → afterOneCall.2.state.slots.clock 1 < made + slotTtl :=
  readable_iff_of_run JsonText.codec echoing (fun _ => rfl) run_afterOneCall rfl

/-- A second call under the key `call-001` is lost: the slot that it fills was made by the first
one, five minutes ago, and is dropped at once. -/
theorem not_readable_afterOneCall :
    Interleaving (kernelHandler echoing) oneCall afterOneCall.1 afterOneCall.2 ∧
      procOfEcho.tool? "test.echo" = some echo ∧
      ¬Readable JsonText.codec echoing procOfEcho "test.echo" "call-001" "two"
        afterOneCall.2.state echo := by
  refine ⟨run_afterOneCall, rfl, ?_⟩
  rw [readable_iff_young JsonText.codec echoing rfl]
  decide +kernel

end LogosFs.Kernel
