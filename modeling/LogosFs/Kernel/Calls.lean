import LogosFs.Kernel.Slots
import LogosFs.Lib.Trace

/-! # Clients that share the slots

Any number of clients submit calls and read their outcomes, interleaved in any way, while the tools run
without the lock. `slotStep_of_follows` says what a client may be about to do to the slots, and what it
has done before. `slotsConsistent_of_run` follows: a slot holds what the tool returned for the input in
it, calls under other keys leave it alone while it is young, and an output is handed out once. -/

namespace LogosFs.Kernel

variable (json : JsonCodec) {σ : Type} (outside : Handler OutsideSig σ) (ns : ProcNs)

/-! ## Clients -/

/-- A path as it comes out of a URI: no segment is empty or has a separator in it. -/
abbrev UriPath : Type := {path : List Str // ∀ segment ∈ path, segment ≠ [] ∧ '/' ∉ segment}

/-- What a client asks for. -/
inductive ProcRequest where
  /-- Read from the namespace. -/
  | read (path : UriPath)
  /-- Write to the namespace. -/
  | write (path : UriPath) (content : Str)
  /-- Call a tool without a slot. -/
  | call (toolName params : Str)

namespace ProcRequest

/-- What is done for a client, and what it gets. -/
def program : ProcRequest → Program KernelSig (Except VfsError Str)
  | .read path => (ns.read json path.1).run
  | .write path content =>
    (ns.write json path.1 content).run >>= fun result => .done (result.map fun _ => [])
  | .call toolName params => (ns.call json toolName params).run

/-- A client as one of several threads. -/
def thread (request : ProcRequest) : Program KernelSig Unit :=
  request.program json ns >>= fun _ => .done ()

/-- The request is about a call of a tool. -/
def Concerns (toolName callId : Str) : ProcRequest → Prop
  | .read path | .write path _ => ∃ field, path.1 = [toolName, callId, field]
  | .call .. => False

end ProcRequest

/-- What a client may be about to do to the slots, after some events. -/
inductive SlotStep (request : ProcRequest) (events : List (Event KernelSig)) : SlotOp → Prop
  /-- A call was submitted, and its tool has returned. -/
  | record {path : UriPath} {toolName callId input : Str} {tool : Tool}
    {result : Except VfsError Str} (submitted : request = .write path input)
    (shape : path.1 = [toolName, callId, "input".toList])
    (registered : ns.tool? toolName = some tool)
    (returned : (tool.call json ns.sandbox input).run.Returns events result) :
    SlotStep request events (.record (ProcNs.slotKey toolName callId) toolName input result)
  /-- An output is read, first of all. -/
  | take {path : UriPath} {toolName callId : Str} (asked : request = .read path)
    (shape : path.1 = [toolName, callId, "output".toList]) (first : events = []) :
    SlotStep request events (.take (ProcNs.slotKey toolName callId))
  /-- An error or an input is read. -/
  | get {path : UriPath} {toolName callId field : Str} (asked : request = .read path)
    (shape : path.1 = [toolName, callId, field]) :
    SlotStep request events (.get (ProcNs.slotKey toolName callId))

section Clients

variable {json ns}

/-- What reading an output answers, by the slot that was found. -/
def outputOf (key : Str) (slot : Option CallSlot) : Except VfsError Str :=
  match slot with
  | none => .error (.notFound ("call not found: " ++ key))
  | some slot => match slot.output with
    | some output => .ok output
    | none => .error (.notFound ("call " ++ key ++ ": no output yet"))

/-- Reading the field `output` is one `take`, after which the slot is gone. -/
theorem run_readSlot_output (key : Str) : (ProcNs.readSlot key "output").run
    = .call (.slots (.take key)) fun slot => .done (outputOf key slot) := by
  rw [ProcNs.readSlot, if_pos rfl]
  refine congrArg (Program.call (S := KernelSig) (.slots (.take key))) (funext fun slot => ?_)
  rcases slot with _ | slot
  · rfl
  · obtain ⟨toolName, input, _ | output, error, createdAt⟩ := slot <;> rfl

/-- What reading an error or an input answers. -/
def fieldOf (key field : Str) (slot : Option CallSlot) : Except VfsError Str :=
  match slot with
  | none => .error (.notFound ("call not found: " ++ key))
  | some slot => .ok (if field = "error".toList then slot.error.getD "null" else slot.input)

/-- Reading any other field is one `get`, which leaves the slot. -/
theorem run_readSlot_other {key field : Str} (hfield : field ≠ "output".toList) :
    (ProcNs.readSlot key field).run
      = .call (.slots (.get key)) fun slot => .done (fieldOf key field slot) := by
  rw [ProcNs.readSlot, if_neg hfield]
  refine congrArg (Program.call (S := KernelSig) (.slots (.get key))) (funext fun slot => ?_)
  rcases slot with _ | slot
  · rfl
  · show (if field = "error".toList then pure (slot.error.getD "null") else pure slot.input :
        KernelM Str).run
      = .done (.ok (if field = "error".toList then slot.error.getD "null" else slot.input))
    split <;> rfl

/-- Submitting a call by `executeCall` runs the tool, and then makes the `.record` of what it
returned. -/
theorem run_executeCall {toolName callId input : Str} {tool : Tool}
    (htool : ns.tool? toolName = some tool) : (ns.executeCall json toolName callId input).run
      = ((tool.call json ns.sandbox input).run >>= fun result =>
        .call (.slots (.record (ProcNs.slotKey toolName callId) toolName input result))
          fun _ => .done (.ok ())) := by
  have houtcome : (Program.outcome (tool.call json ns.sandbox input)).run
      = ((tool.call json ns.sandbox input).run >>= fun result =>
        .done (.ok result : Except VfsError (Except VfsError Str))) := rfl
  rw [ProcNs.executeCall, htool]
  dsimp only
  rw [ExceptT.run_bind, houtcome, Program.bind_assoc]
  rfl

/-- A `read` touches the slots with its first operation only, which is the `SlotStep` of the
request. -/
theorem slotStep_of_follows_read {path : UriPath} {events : List (Event KernelSig)} {op : SlotOp}
    {next : SlotSig.Res op → Program KernelSig (Except VfsError Str)}
    (h : (ns.read json path.1).run.Follows events (.call (.slots op) next)) :
    SlotStep json ns (.read path) events op := by
  have hdone : ∀ value : Except VfsError Str,
      ¬(Program.done value : Program KernelSig _).Follows events (.call (.slots op) next) :=
    fun value h => nomatch h.of_done.2
  -- Only a path with a tool, a call and a field leads to a slot.
  have hschema : ∀ toolName, ¬(ns.schema json toolName).run.Follows events (.call (.slots op) next) := by
    intro toolName hfollows
    unfold ProcNs.schema at hfollows
    split at hfollows <;> exact hdone _ hfollows
  obtain ⟨path, hpath⟩ := path
  unfold ProcNs.read at h
  match path, hpath, h with
  | [], _, h => exact absurd h (hdone _)
  | [toolName], _, h => exact absurd h (hschema toolName)
  | [toolName, second], _, h =>
    dsimp only at h
    split at h
    · exact absurd h (hschema toolName)
    · exact absurd h (hdone _)
  | [toolName, callId, field], hpath, h =>
    dsimp only at h
    split at h
    · by_cases houtput : field = "output".toList
      · subst houtput
        rw [run_readSlot_output] at h
        cases h with
        | refl => exact .take rfl rfl rfl
        | call rest => cases rest.of_done.2
      · rw [run_readSlot_other houtput] at h
        cases h with
        | refl => exact .get rfl rfl
        | call rest => cases rest.of_done.2
    · exact absurd h (hdone _)
  | _ :: _ :: _ :: _ :: _, _, h => exact absurd h (hdone _)

/-- A `write` touches the slots once its tool has returned, which is the `SlotStep` of the request.
-/
theorem slotStep_of_follows_write {path : UriPath} {content : Str}
    {events : List (Event KernelSig)} {op : SlotOp}
    {next : SlotSig.Res op → Program KernelSig (Except VfsError Unit)}
    (h : (ns.write json path.1 content).run.Follows events (.call (.slots op) next)) :
    SlotStep json ns (.write path content) events op := by
  -- Every branch but one answers at once, without an operation.
  have hdone : ∀ value : Except VfsError Unit,
      ¬(Program.done value : Program KernelSig _).Follows events (.call (.slots op) next) :=
    fun value h => nomatch h.of_done.2
  obtain ⟨path, hpath⟩ := path
  unfold ProcNs.write at h
  dsimp only at h
  split at h
  · rename_i toolName callId field
    split at h
    · rename_i hfield
      subst hfield
      cases htool : ns.tool? toolName with
      | none =>
        rw [ProcNs.executeCall, htool] at h
        exact absurd h (hdone _)
      | some tool =>
        rw [run_executeCall htool] at h
        have hspares := sparesSlots_toolCall json ns.sandbox tool content
        rcases h.bind_cases with ⟨p', hfollows, hcall⟩ | ⟨first, second, result, rfl, hreturns, hrest⟩
        · -- While the tool runs, no operation is on the slots.
          cases p' with
          | done value =>
            cases hcall
            exact .record rfl rfl htool hfollows
          | call op' next' =>
            cases hcall
            exact absurd (hfollows.allOps hspares).1 id
        · cases hrest with
          | refl =>
            rw [List.append_nil]
            exact .record rfl rfl htool hreturns
          | call rest => cases rest.of_done.2
    · exact absurd h (hdone _)
  · exact absurd h (hdone _)

/-- **What a client does to the slots**, and when: an operation that its `thread` is about to make
is its `SlotStep`. -/
theorem slotStep_of_follows {request : ProcRequest} {events : List (Event KernelSig)} {op : SlotOp}
    {next : SlotSig.Res op → Program KernelSig Unit}
    (h : (request.thread json ns).Follows events (.call (.slots op) next)) :
    SlotStep json ns request events op := by
  -- The operation is one of the request itself.
  have hprogram : ∃ next' : SlotSig.Res op → Program KernelSig (Except VfsError Str),
      (request.program json ns).Follows events (.call (.slots op) next') := by
    rcases h.bind_cases with ⟨p', hfollows, hcall⟩ | ⟨_, _, _, _, _, hrest⟩
    · cases p' with
      | done value => cases hcall
      | call op' next' =>
        cases hcall
        exact ⟨next', hfollows⟩
    · cases hrest.of_done.2
  obtain ⟨next', hfollows⟩ := hprogram
  cases request with
  | read path => exact slotStep_of_follows_read hfollows
  | write path content =>
    rcases hfollows.bind_cases with ⟨p', hwrite, hcall⟩ | ⟨_, _, _, _, _, hrest⟩
    · cases p' with
      | done value => cases hcall
      | call op' next' =>
        cases hcall
        exact slotStep_of_follows_write hwrite
    · cases hrest.of_done.2
  | call toolName params =>
    have hspares : (ns.call json toolName params).run.AllOps SparesSlots := by
      unfold ProcNs.call
      split
      · trivial
      · exact sparesSlots_toolCall ..
    exact absurd (hfollows.allOps hspares).1 id

end Clients

/-! ## Runs of clients -/

/-- What a slot holds of the result of a call: an output or an error. -/
def CallSlot.Holds (slot : CallSlot) (result : Except VfsError Str) : Prop :=
  match result with
  | .ok output => slot.output = some output ∧ slot.error = none
  | .error e => slot.output = none ∧ slot.error = some e.toStr

/-- The operation stores something under a key. -/
def StoresUnder (key : Str) (op : KernelOp) : Prop :=
  ∃ toolName input result, op = .slots (.record key toolName input result)

/-- The operation takes what is stored under a key. -/
def TakesUnder (key : Str) (op : KernelOp) : Prop := op = .slots (.take key)

/-- The output that the `n`-th move stores under a key is what a client takes: between the two moves
nothing is stored or taken under the key. -/
def Delivers (key output : Str) (moves : List (Move KernelSig (KernelState σ))) (n j : Nat) : Prop :=
  ∃ earlier stored between taken later toolName input,
    moves = earlier ++ stored :: (between ++ taken :: later) ∧ earlier.length = n ∧
    stored.op = .slots (.record key toolName input (.ok output)) ∧
    TakesUnder key taken.op ∧ taken.thread = j ∧
    ∀ move ∈ between, ¬TakesUnder key move.op ∧ ¬StoresUnder key move.op

/-- What is promised of the clients of a run, of its moves, and of the slots after it. -/
structure SlotsConsistent (requests : List ProcRequest)
    (moves : List (Move KernelSig (KernelState σ))) (c : Config KernelSig (KernelState σ)) : Prop where
  /-- A slot holds either an output or an error, and this is what its tool returned to a client for
  the input in the slot. -/
  holds : ∀ toolName callId, '/' ∉ callId → ∀ slot,
    c.state.slots.slots (ProcNs.slotKey toolName callId) = some slot →
    ∃ (i : Nat) (path : UriPath) (tool : Tool) (result : Except VfsError Str) (events : List _),
      requests[i]? = some (.write path slot.input) ∧
      path.1 = [toolName, callId, "input".toList] ∧ ns.tool? toolName = some tool ∧
      events <+: trace (kernelHandler outside) i moves ∧
      (tool.call json ns.sandbox slot.input).run.Returns events result ∧ slot.Holds result
  /-- A client leaves the slots of other calls alone, except that it may drop old ones. -/
  apart : ∀ move ∈ moves, ∀ toolName callId, '/' ∉ callId →
    (∀ request ∈ requests[move.thread]?, ¬request.Concerns toolName callId) →
    let key := ProcNs.slotKey toolName callId
    let after := (kernelHandler outside move.op move.before.state).2
    after.slots.slots key = move.before.state.slots.slots key ∨
      ∃ slot, move.before.state.slots.slots key = some slot ∧
        slot.createdAt + slotTtl ≤ move.before.state.slots.clock 1 ∧ after.slots.slots key = none
  /-- An output that a client reads was stored by a call and taken from there. -/
  delivered : ∀ (j : Nat) (path : UriPath) toolName callId output,
    requests[j]? = some (.read path) → path.1 = [toolName, callId, "output".toList] →
    ((ProcRequest.read path).program json ns).Returns (trace (kernelHandler outside) j moves)
      (.ok output) →
    ∃ n, Delivers (ProcNs.slotKey toolName callId) output moves n j
  /-- What a call has stored is taken by one client at most. -/
  once : ∀ key output key' output' n j j', Delivers key output moves n j →
    Delivers key' output' moves n j' → j = j'

/-- A slot was filled by a move, after which nothing was stored under its key, and nothing taken if it
has an output. -/
def FilledBy (key : Str) (slot : CallSlot) (moves : List (Move KernelSig (KernelState σ))) : Prop :=
  ∃ earlier stored later toolName result, moves = earlier ++ stored :: later ∧
    stored.op = .slots (.record key toolName slot.input result) ∧ slot.Holds result ∧
    ∀ move ∈ later, ¬StoresUnder key move.op ∧ (slot.output.isSome → ¬TakesUnder key move.op)

section Runs

variable {json outside ns} {key : Str} {slot : CallSlot}
  {moves : List (Move KernelSig (KernelState σ))} {c₀ c : Config KernelSig (KernelState σ)}

/-- Keys of slots, `slotKey`, are different for different calls, as the id of a call has no
separator. -/
theorem slotKey_inj {toolName callId toolName' callId' : Str} (hcall : '/' ∉ callId)
    (hcall' : '/' ∉ callId')
    (h : ProcNs.slotKey toolName callId = ProcNs.slotKey toolName' callId') :
    toolName = toolName' ∧ callId = callId' := by
  have hslash : ("/" : Str) = ['/'] := by decide
  rw [ProcNs.slotKey, ProcNs.slotKey, hslash, List.append_assoc, List.append_assoc,
    List.singleton_append, List.singleton_append] at h
  exact Str.append_sep_inj hcall hcall' h

/-- `withResult` holds the result, and the input that it is for. -/
theorem holds_withResult (slot : CallSlot) (input : Str) (result : Except VfsError Str) :
    (CallSlots.withResult slot input result).input = input ∧
      (CallSlots.withResult slot input result).Holds result := by
  cases result <;> exact ⟨rfl, rfl, rfl⟩

/-- What an operation does that neither `StoresUnder` a key nor `TakesUnder` it: it may drop the
slot for its age. -/
theorem slots_handler_of_other {op : KernelOp} (hstores : ¬StoresUnder key op)
    (htakes : ¬TakesUnder key op) (k : KernelState σ) :
    (kernelHandler outside op k).2.slots.slots key = k.slots.slots key ∨
      ∃ slot, k.slots.slots key = some slot ∧ slot.createdAt + slotTtl ≤ k.slots.clock 1 ∧
        (kernelHandler outside op k).2.slots.slots key = none := by
  cases op with
  | system op => exact .inl rfl
  | outside op => exact .inl rfl
  | slots op =>
    cases op with
    | get key' => exact .inl rfl
    | take key' =>
      have hne : key ≠ key' := fun heq => htakes (heq ▸ rfl)
      exact .inl (Function.update_of_ne hne ..)
    | record key' toolName input result =>
      have hne : key ≠ key' := fun heq => hstores (heq ▸ ⟨_, _, _, rfl⟩)
      have hafter : (kernelHandler outside (.slots (.record key' toolName input result)) k).2.slots.slots
          key = (k.slots.slots key).filter fun slot =>
            k.slots.clock 1 < slot.createdAt + slotTtl := by
        show Option.filter _ (Function.update k.slots.slots key' _ key) = _
        rw [Function.update_of_ne hne]
      rw [hafter]
      cases hslot : k.slots.slots key with
      | none => exact .inl rfl
      | some slot =>
        by_cases hyoung : k.slots.clock 1 < slot.createdAt + slotTtl
        · exact .inl (Option.filter_some_pos (decide_eq_true hyoung))
        · refine .inr ⟨slot, rfl, Nat.le_of_not_lt hyoung, ?_⟩
          rw [Option.filter_some, if_neg (fun h => hyoung (of_decide_eq_true h))]

/-- **Where a slot comes from**: it was there before an operation that neither `StoresUnder` its key
nor `TakesUnder` it, or the operation filled it. -/
theorem slots_handler_cases {op : KernelOp} {k : KernelState σ}
    (h : (kernelHandler outside op k).2.slots.slots key = some slot) :
    (k.slots.slots key = some slot ∧ ¬StoresUnder key op ∧
        (slot.output.isSome → ¬TakesUnder key op)) ∨
      ∃ toolName result, op = .slots (.record key toolName slot.input result) ∧
        slot.Holds result := by
  by_cases hstores : StoresUnder key op
  · obtain ⟨toolName, input, result, rfl⟩ := hstores
    have hafter : (CallSlots.handler (.record key toolName input result) k.slots).2.slots key
        = some slot := h
    rw [slots_record, Option.filter_eq_some_iff, Option.some_inj] at hafter
    obtain ⟨rfl, -⟩ := hafter
    obtain ⟨hinput, hholds⟩ := holds_withResult (k.slots.slotFor key toolName input) input result
    exact .inr ⟨toolName, result, by rw [hinput], hholds⟩
  · left
    by_cases htakes : TakesUnder key op
    · obtain rfl := htakes
      have hafter : (k.slots.slots key).filter (fun slot => slot.output.isNone) = some slot := by
        rw [← h]
        show _ = Function.update k.slots.slots key _ key
        rw [Function.update_self]
      rw [Option.filter_eq_some_iff] at hafter
      refine ⟨hafter.1, hstores, fun hsome => ?_⟩
      rw [Option.isNone_iff_eq_none.mp hafter.2] at hsome
      cases hsome
    · refine ⟨?_, hstores, fun _ => htakes⟩
      rcases @slots_handler_of_other _ outside _ _ hstores htakes k with hsame | ⟨_, _, _, hnone⟩
      · exact hsame ▸ h
      · rw [h] at hnone
        cases hnone

/-- **Every slot was filled** by a move of the run, `FilledBy`, from no slots at all. -/
theorem filledBy_of_run (hempty : ∀ key, c₀.state.slots.slots key = none)
    (run : Interleaving (kernelHandler outside) c₀ moves c)
    (hslot : c.state.slots.slots key = some slot) : FilledBy key slot moves := by
  induction run generalizing slot with
  | start =>
    rw [hempty] at hslot
    cases hslot
  | @step moves c i op next _ _ ih =>
    rcases slots_handler_cases hslot with ⟨hbefore, hother⟩ | ⟨toolName, result, rfl, hholds⟩
    · obtain ⟨earlier, stored, later, toolName, result, rfl, hop, hholds, hlater⟩ := ih hbefore
      refine ⟨earlier, stored, later ++ [⟨i, op, c⟩], toolName, result, ?_, hop, hholds, ?_⟩
      · rw [List.append_assoc, List.cons_append]
      · intro move hmove
        rcases List.mem_append.mp hmove with hmove | hmove
        · exact hlater move hmove
        · rw [List.mem_singleton.mp hmove]
          exact hother
    · exact ⟨moves, ⟨i, _, c⟩, [], toolName, result, rfl, rfl, hholds, fun _ h => nomatch h⟩

/-- Of two lists with the same elements, the first ones with the property `P` are the same. -/
theorem eq_of_first {α : Type} {P : α → Prop} {before before' after after' : List α} {a a' : α}
    (hbefore : ∀ b ∈ before, ¬P b) (hbefore' : ∀ b ∈ before', ¬P b) (ha : P a) (ha' : P a')
    (h : before ++ a :: after = before' ++ a' :: after') : a = a' := by
  induction before generalizing before' with
  | nil =>
    cases before' with
    | nil => exact (List.cons.inj h).1
    | cons b before' => exact absurd ((List.cons.inj h).1 ▸ ha) (hbefore' b List.mem_cons_self)
  | cons b before ih =>
    cases before' with
    | nil => exact absurd ((List.cons.inj h).1 ▸ ha') (hbefore b List.mem_cons_self)
    | cons b' before' =>
      exact ih (fun b hb => hbefore b (List.mem_cons_of_mem _ hb))
        (fun b hb => hbefore' b (List.mem_cons_of_mem _ hb)) (List.cons.inj h).2

/-- **An output is taken once**: two moves that `Delivers` what the same move stored are one. -/
theorem Delivers.unique {key' output output' : Str} {n j j' : Nat}
    (h : Delivers key output moves n j) (h' : Delivers key' output' moves n j') : j = j' := by
  obtain ⟨earlier, stored, between, taken, later, _, _, rfl, rfl, hstored, htakes, rfl, hbetween⟩ := h
  obtain ⟨earlier', stored', between', taken', later', _, _, hmoves, hlength, hstored', htakes', rfl,
    hbetween'⟩ := h'
  obtain ⟨-, hrest⟩ := List.append_inj hmoves hlength.symm
  obtain ⟨rfl, hrest⟩ := List.cons.inj hrest
  rw [hstored] at hstored'
  cases hstored'
  have htaken := eq_of_first (P := fun move : Move KernelSig (KernelState σ) => TakesUnder key move.op)
    (fun move hmove => (hbetween move hmove).1) (fun move hmove => (hbetween' move hmove).1)
    htakes htakes' (by assumption)
  rw [htaken]

/-- The operation of a move on the slots is the `SlotStep` of the request of its thread. -/
theorem exists_slotStep {requests : List ProcRequest} {k : KernelState σ}
    (run : Interleaving (kernelHandler outside) ⟨requests.map (ProcRequest.thread json ns), k⟩ moves c)
    {earlier later : List (Move KernelSig (KernelState σ))} {move : Move KernelSig (KernelState σ)}
    (hmoves : moves = earlier ++ move :: later) :
    ∃ request, requests[move.thread]? = some request ∧ ∀ op, move.op = .slots op →
      SlotStep json ns request (trace (kernelHandler outside) move.thread earlier) op := by
  obtain ⟨p, next, hp, hfollows⟩ := run.follows_of_split hmoves
  obtain ⟨i, op, before⟩ := move
  rw [List.getElem?_map, Option.map_eq_some_iff] at hp
  obtain ⟨request, hrequest, rfl⟩ := hp
  refine ⟨request, hrequest, ?_⟩
  rintro slotOp rfl
  exact slotStep_of_follows hfollows

/-- The call that a `SlotStep` is about has no separator in its id, and its key is `slotKey`. -/
theorem SlotStep.notMem {request : ProcRequest} {events : List (Event KernelSig)} {op : SlotOp}
    (h : SlotStep json ns request events op) :
    ∃ toolName callId, '/' ∉ callId ∧ request.Concerns toolName callId ∧
      (StoresUnder key (.slots op) ∨ TakesUnder key (.slots op) →
        key = ProcNs.slotKey toolName callId) := by
  have hnotMem : ∀ {path : UriPath} {toolName callId field : Str},
      path.1 = [toolName, callId, field] → '/' ∉ callId := fun {path} {_ _ _} hshape =>
    (path.2 _ (hshape ▸ List.mem_cons_of_mem _ List.mem_cons_self)).2
  cases h with
  | @record path toolName callId _ _ _ submitted shape =>
    subst submitted
    refine ⟨toolName, callId, hnotMem shape, ⟨_, shape⟩, ?_⟩
    rintro (⟨_, _, _, hop⟩ | hop) <;> cases hop
    rfl
  | @take path toolName callId asked shape =>
    subst asked
    refine ⟨toolName, callId, hnotMem shape, ⟨_, shape⟩, ?_⟩
    rintro (⟨_, _, _, hop⟩ | hop) <;> cases hop
    rfl
  | @get path toolName callId _ asked shape =>
    subst asked
    refine ⟨toolName, callId, hnotMem shape, ⟨_, shape⟩, ?_⟩
    rintro (⟨_, _, _, hop⟩ | hop) <;> cases hop

end Runs

/-- **Call slots are consistent and deliver at most once**: every interleaving of the `requests`,
from no slots at all, is `SlotsConsistent`. -/
theorem slotsConsistent_of_run (requests : List ProcRequest) (k : KernelState σ)
    (hempty : ∀ key, k.slots.slots key = none) {moves : List (Move KernelSig (KernelState σ))}
    {c : Config KernelSig (KernelState σ)}
    (run : Interleaving (kernelHandler outside) ⟨requests.map (ProcRequest.thread json ns), k⟩
      moves c) : SlotsConsistent json outside ns requests moves c where
  holds toolName callId hcall slot hslot := by
    obtain ⟨earlier, stored, later, storedTool, result, hmoves, hop, hholds, -⟩ :=
      filledBy_of_run hempty run hslot
    obtain ⟨request, hrequest, hstep⟩ := exists_slotStep run hmoves
    have hstep' := hstep _ hop
    -- the client that stored it was asked to
    generalize hkey : ProcNs.slotKey toolName callId = key at hstep'
    cases hstep' with
    | @record path toolName' callId' _ tool _ submitted shape registered returned =>
      have hcall' : '/' ∉ callId' :=
        (path.2 _ (shape ▸ List.mem_cons_of_mem _ List.mem_cons_self)).2
      obtain ⟨rfl, rfl⟩ := slotKey_inj hcall hcall' hkey
      subst submitted
      refine ⟨stored.thread, path, tool, result, _, hrequest, shape, registered, ?_, returned, hholds⟩
      rw [hmoves, trace_append]
      exact List.prefix_append _ _
  apart move hmove toolName callId hcall hconcerns := by
    obtain ⟨earlier, later, hmoves⟩ := List.append_of_mem hmove
    obtain ⟨request, hrequest, hstep⟩ := exists_slotStep run hmoves
    have hother : ¬StoresUnder (ProcNs.slotKey toolName callId) move.op ∧
        ¬TakesUnder (ProcNs.slotKey toolName callId) move.op := by
      rw [← not_or]
      intro htouches
      have hslots : ∃ op, move.op = .slots op := by
        rcases htouches with ⟨_, _, _, hop⟩ | hop <;> exact ⟨_, hop⟩
      obtain ⟨op, hop⟩ := hslots
      obtain ⟨toolName', callId', hcall', hconcerns', hkey⟩ :=
        @SlotStep.notMem _ _ (ProcNs.slotKey toolName callId) _ _ _ (hstep op hop)
      rw [hop] at htouches
      obtain ⟨rfl, rfl⟩ := slotKey_inj hcall hcall' (hkey htouches)
      exact hconcerns request hrequest hconcerns'
    exact slots_handler_of_other hother.1 hother.2 move.before.state
  delivered j path toolName callId output hrequest hpath hreturns := by
    have hprogram : (ProcRequest.read path).program json ns
        = .call (.slots (.take (ProcNs.slotKey toolName callId))) fun slot =>
          .done (outputOf (ProcNs.slotKey toolName callId) slot) := by
      obtain ⟨path, hsegments⟩ := path
      obtain rfl : path = [toolName, callId, "output".toList] := hpath
      exact run_readSlot_output _
    rw [hprogram] at hreturns
    generalize htrace : trace (kernelHandler outside) j moves = events at hreturns
    cases hreturns with
    | @call _ _ answer events _ rest =>
      obtain ⟨-, hanswer⟩ := rest.of_done
      -- the output was in the slot that the client took
      obtain ⟨taken, htaken, hthread, hevent⟩ := exists_move_of_mem_trace (kernelHandler outside) j
        (htrace ▸ List.mem_cons_self)
      obtain ⟨i, op, before⟩ := taken
      cases hevent
      obtain ⟨earlier, later, hmoves⟩ := List.append_of_mem htaken
      have hslot : outputOf (ProcNs.slotKey toolName callId)
          (before.state.slots.slots (ProcNs.slotKey toolName callId)) = .ok output :=
        (Program.done.inj hanswer).symm
      cases hfound : before.state.slots.slots (ProcNs.slotKey toolName callId) with
      | none =>
        rw [hfound] at hslot
        cases hslot
      | some slot =>
        rw [hfound, outputOf] at hslot
        cases houtput : slot.output with
        | none =>
          simp only [houtput] at hslot
          cases hslot
        | some output' =>
          simp only [houtput] at hslot
          obtain rfl := Except.ok.inj hslot
          obtain ⟨first, stored, between, storedTool, result, hearlier, hop, hholds, hbetween⟩ :=
            filledBy_of_run hempty (run.before_of_split hmoves) hfound
          have hresult : result = .ok output' := by
            cases result with
            | ok stored =>
              rw [CallSlot.Holds, houtput] at hholds
              rw [Option.some_inj.mp hholds.1]
            | error e =>
              rw [CallSlot.Holds, houtput] at hholds
              cases hholds.1
          refine ⟨first.length, first, stored, between, ⟨i, _, before⟩, later, storedTool, slot.input,
            ?_, rfl, hresult ▸ hop, rfl, hthread, fun move hmove => ?_⟩
          · rw [hmoves, hearlier, List.append_assoc, List.cons_append]
          · obtain ⟨hstores, htakes⟩ := hbetween move hmove
            exact ⟨htakes (houtput ▸ rfl), hstores⟩
  once _ _ _ _ _ _ _ h h' := h.unique h'

/-- Two clients submit a call under one key, and a third one reads the output. -/
def sharing : List ProcRequest :=
  [.write ⟨["test.echo", "call-001", "input"], by decide⟩ "one",
    .write ⟨["test.echo", "call-001", "input"], by decide⟩ "two",
    .read ⟨["test.echo", "call-001", "output"], by decide⟩]

/-- The tool of the second call of `sharing` returns first, and the run is `SlotsConsistent`. -/
theorem slotsConsistent_of_run_sharing : ∃ moves c,
    Interleaving (kernelHandler echoing)
      ⟨sharing.map (ProcRequest.thread JsonText.codec procOfEcho), oneCall.state⟩ moves c ∧
      SlotsConsistent JsonText.codec echoing procOfEcho sharing moves c :=
  ⟨_, _, .of_play _ _ [0, 1, 1, 0, 2],
    slotsConsistent_of_run JsonText.codec echoing procOfEcho sharing oneCall.state (fun _ => rfl)
      (.of_play ..)⟩

end LogosFs.Kernel
