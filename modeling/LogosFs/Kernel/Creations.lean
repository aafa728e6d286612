import LogosFs.Kernel.Containers
import LogosFs.Lib.Once
import LogosFs.Lib.Trace

/-! # One creation per agent

The lock of the map is not held while the executor is asked, so two calls for one agent may both find
nothing and both ask. `createdOnce_of_run` says when this does no harm: as long as no check misses while
another call for the agent is between its check and its end, one call at most has a container created
for it, all calls return the same container, and after a creation none asks the executor again. -/

namespace LogosFs.Kernel.Containers

variable (executor : SandboxExecutor) (hostRoot : HostPath) (agent : Str)

/-! ## What a call has done -/

/-- The socket that the executor is told of. -/
def sockFor (there : Bool) : Option HostPath := if there then some (hostRoot.join "logos.sock") else none

/-- The check of a call has found nothing, and the call has not got its container yet. -/
def UnderWay (events : List (Event (SandboxSig executor.sig))) : Prop :=
  (∃ rest, events = ⟨.containersGet agent, (none : Option ContainerInfo)⟩ :: rest) ∧
    ∃ op next, (ensureContainer executor hostRoot agent).run.Follows events (.call op next)

/-- The executor has created a container for a call. -/
def Created (events : List (Event (SandboxSig executor.sig))) (info : ContainerInfo) : Prop :=
  ∃ (there : Bool) (asked rest : List (Event (SandboxSig executor.sig))),
    events = ⟨.containersGet agent, (none : Option ContainerInfo)⟩ :: ⟨.sockExists, there⟩
      :: (asked ++ rest) ∧
    (onExecutor (executor.ensureContainer agent (sockFor hostRoot there))).run.Returns asked (.ok info)

/-- A call has got its container. -/
def Answered (events : List (Event (SandboxSig executor.sig))) (info : ContainerInfo) : Prop :=
  ∃ first rest, events = first ++ rest ∧
    (ensureContainer executor hostRoot agent).run.Returns first (.ok info)

section Events

variable {executor hostRoot agent} {events : List (Event (SandboxSig executor.sig))}

/-- Enter what the executor has answered, or fail as it has. -/
def enter (executor : SandboxExecutor) (agent : Str) :
    Except VfsError ContainerInfo → Program (SandboxSig executor.sig) (Except VfsError ContainerInfo)
  | .ok info => .call (.containersInsert agent info) fun _ => .done (.ok info)
  | .error e => .done (.error e)

/-- What a call does after its check has missed: `create` looks for the socket, asks the executor,
and enters the container. -/
theorem run_create : (create executor hostRoot agent).run = .call .sockExists fun there =>
    (onExecutor (executor.ensureContainer agent (sockFor hostRoot there))).run
      >>= enter executor agent := by
  refine congrArg (Program.call (S := SandboxSig executor.sig) .sockExists) (funext fun there => ?_)
  show Program.bind (onExecutor (executor.ensureContainer agent (sockFor hostRoot there))).run _
    = Program.bind (onExecutor (executor.ensureContainer agent (sockFor hostRoot there))).run _
  refine congrArg (Program.bind _) (funext fun result => ?_)
  cases result <;> rfl

/-- `ensureContainer` looks its agent up, and creates a container where it finds none. -/
theorem run_ensureContainer : (ensureContainer executor hostRoot agent).run
    = .call (.containersGet agent) fun
      | some info => .done (.ok info)
      | none => (create executor hostRoot agent).run := by
  unfold ensureContainer
  rfl

/-- An operation that is not on the map of the containers. -/
def Quiet {E : Signature} : SandboxOp E → Prop
  | .containersGet _ | .containersInsert .. => False
  | _ => True

/-- What the executor does is `Quiet`. -/
theorem quiet_onExecutor {α : Type} (p : ExceptT VfsError (Program executor.sig) α) :
    (onExecutor p).run.AllOps Quiet :=
  Program.AllOps.hoist (Q := Quiet)
    (fun op _ => (Program.allOps_perform (S := SandboxSig executor.sig) (.executor op)).mpr trivial)
    (Program.allOps_of_forall (P := fun _ => True) (fun _ => trivial) p.run)

/-- A call that is in the creation does not end with a container: before `enter` there is an
operation, or the error of the creation. -/
theorem bind_enter_cases (p : Program (SandboxSig executor.sig) (Except VfsError ContainerInfo)) :
    (∃ op next, (p >>= enter executor agent) = .call op next) ∨
      ∃ e, (p >>= enter executor agent) = .done (.error e) := by
  cases p with
  | call op next => exact .inl ⟨op, _, rfl⟩
  | done result =>
    cases result with
    | ok info => exact .inl ⟨_, _, rfl⟩
    | error e => exact .inr ⟨e, rfl⟩

variable {op : SandboxOp executor.sig}
  {next : (SandboxSig executor.sig).Res op →
    Program (SandboxSig executor.sig) (Except VfsError ContainerInfo)}

/-- The only thing left to do after a creation is to `enter` the container that it gave. -/
theorem enter_of_follows {info : ContainerInfo} {later : List (Event (SandboxSig executor.sig))}
    (h : (enter executor agent (.ok info)).Follows later (.call op next)) :
    later = [] ∧ Program.call op next = enter executor agent (.ok info) := by
  rcases Program.Follows.call_cases h with ⟨hnil, heq⟩ | ⟨answer, rest, -, hdone⟩
  · exact ⟨hnil, heq⟩
  · cases (Program.Follows.of_done hdone).2

/-- **What a creation is about to do**: something `Quiet` on the map, without which it does not end
with a container; or to `enter` what the executor has created. -/
theorem follows_create (h : (create executor hostRoot agent).run.Follows events (.call op next)) :
    (∃ info there asked, events = ⟨.sockExists, there⟩ :: asked ∧
      (onExecutor (executor.ensureContainer agent (sockFor hostRoot there))).run.Returns asked (.ok info) ∧
      Program.call op next = enter executor agent (.ok info)) ∨
    Quiet op ∧ ∀ answer, (∃ op' next', next answer = .call op' next') ∨
      ∃ e, next answer = .done (.error e) := by
  rw [run_create] at h
  rcases h.call_cases with ⟨-, heq⟩ | ⟨there, asked, rfl, hrest⟩
  · cases heq
    exact .inr ⟨trivial, fun there => bind_enter_cases _⟩
  rcases hrest.bind_cases with ⟨p, hp, heq⟩ | ⟨first, second, result, rfl, hreturns, hsecond⟩
  · cases p with
    | call op' next' =>
      cases heq
      have hquiet := (hp.allOps (quiet_onExecutor _)).1
      exact .inr ⟨hquiet, fun answer => bind_enter_cases _⟩
    | done result =>
      cases result with
      | ok info => exact .inl ⟨info, there, asked, rfl, hp, heq⟩
      | error e => cases heq
  · cases result with
    | ok info =>
      obtain ⟨rfl, heq⟩ := enter_of_follows hsecond
      exact .inl ⟨info, there, first, by rw [List.append_nil], hreturns, heq⟩
    | error e => cases (Program.Follows.of_done hsecond).2

/-- **What a call for a container is about to do**: to begin; or, when it is `UnderWay`, to `enter`
what was `Created` for it, or something `Quiet`. -/
theorem follows_ensureContainer
    (h : (ensureContainer executor hostRoot agent).run.Follows events (.call op next)) :
    (events = [] ∧ Program.call op next = (ensureContainer executor hostRoot agent).run) ∨
    UnderWay executor hostRoot agent events ∧
      ((∃ info, Created executor hostRoot agent events info ∧
        Program.call op next = enter executor agent (.ok info)) ∨
      Quiet op ∧ ∀ answer, (∃ op' next', next answer = .call op' next') ∨
        ∃ e, next answer = .done (.error e)) := by
  have hall := h
  rw [run_ensureContainer] at h
  rcases h.call_cases with ⟨rfl, heq⟩ | ⟨found, rest, rfl, hrest⟩
  · exact .inl ⟨rfl, heq.trans run_ensureContainer.symm⟩
  · cases found with
    | some info => cases (Program.Follows.of_done hrest).2
    | none =>
      refine .inr ⟨⟨⟨rest, rfl⟩, op, next, hall⟩, ?_⟩
      rcases follows_create hrest with ⟨info, there, asked, rfl, hreturns, heq⟩ | hquiet
      · exact .inl ⟨info, ⟨there, asked, [], by rw [List.append_nil], hreturns⟩, heq⟩
      · exact .inr hquiet

/-- A creation is followed by entering the container: after the events of a creation that gave
`info`, the call follows `enter executor agent (.ok info)`. -/
theorem follows_enter {info : ContainerInfo} {there : Bool}
    {asked : List (Event (SandboxSig executor.sig))}
    (h : (onExecutor (executor.ensureContainer agent (sockFor hostRoot there))).run.Returns asked
      (.ok info)) :
    (ensureContainer executor hostRoot agent).run.Follows
      (⟨.containersGet agent, (none : Option ContainerInfo)⟩ :: ⟨.sockExists, there⟩ :: asked)
      (enter executor agent (.ok info)) := by
  rw [run_ensureContainer]
  refine .call ?_
  show (create executor hostRoot agent).run.Follows _ _
  rw [run_create]
  refine .call ?_
  rw [← List.append_nil asked]
  exact h.bind (.refl _)

/-- As long as `ensureContainer` is about to do something, the call is not `Answered` with a
container. -/
theorem not_answered_of_follows
    (h : (ensureContainer executor hostRoot agent).run.Follows events (.call op next))
    (info : ContainerInfo) : ¬Answered executor hostRoot agent events info := by
  rintro ⟨first, rest, rfl, hreturns⟩
  cases (hreturns.eq_of_follows h).2

/-- After a creation that `Created` `info` a call ends with it: its result is `.ok info`. -/
theorem Created.eq_of_returns {info : ContainerInfo} {result : Except VfsError ContainerInfo}
    (h : Created executor hostRoot agent events info)
    (hreturns : (ensureContainer executor hostRoot agent).run.Returns events result) :
    result = .ok info := by
  obtain ⟨there, asked, rest, rfl, hasked⟩ := h
  rw [← List.cons_append, ← List.cons_append] at hreturns
  obtain ⟨r, hr, hrest⟩ := Program.Follows.append_cases hreturns
  rw [← Program.Follows.unique (follows_enter hasked) hr] at hrest
  rcases Program.Follows.call_cases hrest with ⟨-, heq⟩ | ⟨answer, later, -, hdone⟩
  · cases heq
  · exact Program.done.inj (Program.Follows.of_done hdone).2

section Returned

variable {first : List (Event (SandboxSig executor.sig))} {result : Except VfsError ContainerInfo}
  (hreturns : (ensureContainer executor hostRoot agent).run.Returns first result)

include hreturns

/-- A call that has returned is not `UnderWay`, whatever comes in the `rest`. -/
theorem not_underWay_append (rest : List (Event (SandboxSig executor.sig))) :
    ¬UnderWay executor hostRoot agent (first ++ rest) := by
  rintro ⟨-, op, next, hfollows⟩
  cases (hreturns.eq_of_follows hfollows).2

/-- A call that has returned is `Answered` with what it has returned, whatever comes in the `rest`.
-/
theorem answered_append_iff (rest : List (Event (SandboxSig executor.sig))) (info : ContainerInfo) :
    Answered executor hostRoot agent (first ++ rest) info ↔ result = .ok info := by
  constructor
  · rintro ⟨first', rest', heq, hreturns'⟩
    exact hreturns.eq_of_append hreturns' heq
  · rintro rfl
    exact ⟨first, rest, rfl, hreturns⟩

/-- What was `Created` for a call that has returned was created before the `rest`. -/
theorem created_append_iff (rest : List (Event (SandboxSig executor.sig))) (info : ContainerInfo) :
    Created executor hostRoot agent (first ++ rest) info ↔ Created executor hostRoot agent first info := by
  constructor
  · rintro ⟨there, asked, later, heq, hasked⟩
    rw [← List.cons_append, ← List.cons_append] at heq
    rcases List.append_eq_append_iff.mp heq with ⟨more, hmore, -⟩ | ⟨more, rfl, -⟩
    · -- The call would have returned before its container was entered.
      have hfollows := follows_enter hasked
      rw [hmore] at hfollows
      cases (hreturns.eq_of_follows hfollows).2
    · exact ⟨there, asked, more, rfl, hasked⟩
  · rintro ⟨there, asked, later, rfl, hasked⟩
    exact ⟨there, asked, later ++ rest, by simp only [List.cons_append, List.append_assoc], hasked⟩

end Returned

end Events

/-! ## Calls as threads -/

section Threads

variable {executor hostRoot}

/-- What a call does once it has its container. -/
def Call.afterwards (executor : SandboxExecutor) (hostRoot : HostPath) :
    Call → Except VfsError ContainerInfo → Program (SandboxSig executor.sig) Unit
  | _, .error _ => .done ()
  | .handshake agentConfigId taskId, .ok _ =>
    (atOnce (.taskAgentInsert taskId agentConfigId)).run >>= fun _ => .done ()
  | .command text _ taskId, .ok info =>
    (execIn executor hostRoot text taskId info).run >>= fun _ => .done ()

/-- The `thread` of a call asks for the container of its agent by `ensureContainer`, and goes on
with `afterwards`. -/
theorem thread_eq (call : Call) : call.thread executor hostRoot
    = ((ensureContainer executor hostRoot call.agent).run >>= call.afterwards executor hostRoot) := by
  cases call with
  | handshake agentConfigId taskId =>
    rw [Call.thread, ensureContainerFor, ExceptT.run_bind, Program.bind_assoc]
    refine congrArg (Program.bind _) (funext fun result => ?_)
    cases result <;> rfl
  | command text agentConfigId taskId =>
    rw [Call.thread, exec, ExceptT.run_bind, Program.bind_assoc]
    refine congrArg (Program.bind _) (funext fun result => ?_)
    cases result <;> rfl

/-- What a call does `afterwards` leaves the map alone: all its operations are `Quiet`. -/
theorem quiet_afterwards (call : Call) (result : Except VfsError ContainerInfo) :
    (call.afterwards executor hostRoot result).AllOps Quiet := by
  have hat : ∀ op : SandboxOp executor.sig, Quiet op → (atOnce op).run.AllOps Quiet :=
    fun op hop => Program.AllOps.lift ((Program.allOps_perform (S := SandboxSig executor.sig) op).mpr hop)
  cases result with
  | error e => cases call <;> trivial
  | ok info =>
    cases call with
    | handshake agentConfigId taskId =>
      exact (hat (.taskAgentInsert taskId agentConfigId) trivial).bind fun _ => trivial
    | command text agentConfigId taskId =>
      refine Program.AllOps.bind ?_ fun _ => trivial
      refine Program.AllOps.exceptBind (hat (.createDirAll _) trivial) fun made => ?_
      cases made with
      | error e => trivial
      | ok _ => exact quiet_onExecutor _

variable {events : List (Event (SandboxSig executor.sig))} {op : SandboxOp executor.sig}
  {next : (SandboxSig executor.sig).Res op → Program (SandboxSig executor.sig) Unit}

/-- **What a call is about to do**: something that belongs to its `ensureContainer`; or, when it has
returned from this, something `Quiet`. -/
theorem follows_thread {call : Call} (h : (call.thread executor hostRoot).Follows events (.call op next)) :
    (∃ next', (ensureContainer executor hostRoot call.agent).run.Follows events (.call op next')) ∨
      Quiet op ∧ ∃ first rest result, events = first ++ rest ∧
        (ensureContainer executor hostRoot call.agent).run.Returns first result := by
  have hquiet : ∀ result, (call.afterwards executor hostRoot result).AllOps Quiet :=
    quiet_afterwards call
  rw [thread_eq] at h
  rcases h.bind_cases with ⟨p, hp, heq⟩ | ⟨first, second, result, rfl, hreturns, hsecond⟩
  · cases p with
    | call op' next' =>
      cases heq
      exact .inl ⟨next', hp⟩
    | done result =>
      have hops := hquiet result
      rw [show call.afterwards executor hostRoot result = .call op next from heq.symm] at hops
      exact .inr ⟨hops.1, events, [], result, (List.append_nil _).symm, hp⟩
  · exact .inr ⟨(hsecond.allOps (hquiet result)).1, first, second, result, rfl, hreturns⟩

end Threads

/-! ## Calls, interleaved -/

section Interleaved

variable {τ : Type} (out : Outside executor.sig τ) (calls : List Call)
  (moves : List (Move (SandboxSig executor.sig) (SandboxState τ)))

/-- A thread is a call for the agent. -/
def IsFor (i : Nat) : Prop := ∃ call, calls[i]? = some call ∧ call.agent = agent

/-- What the calls for an agent have done. -/
def workers : Workers Nat ContainerInfo where
  underWay i := IsFor agent calls i ∧
    UnderWay executor hostRoot agent (trace (sandboxHandler out) i moves)
  made i info := IsFor agent calls i ∧
    Created executor hostRoot agent (trace (sandboxHandler out) i moves) info
  answered i info := IsFor agent calls i ∧
    Answered executor hostRoot agent (trace (sandboxHandler out) i moves) info

/-- **The container of an agent is created once**: the executor has created one for one call at most,
and all calls that have got a container have got the same one. -/
structure CreatedOnce : Prop where
  /-- One call at most has had a container created. -/
  once : ∀ i j info info', IsFor agent calls i → IsFor agent calls j →
    Created executor hostRoot agent (trace (sandboxHandler out) i moves) info →
    Created executor hostRoot agent (trace (sandboxHandler out) j moves) info' → i = j
  /-- All calls have got the same one. -/
  same : ∀ i j info info', IsFor agent calls i → IsFor agent calls j →
    Answered executor hostRoot agent (trace (sandboxHandler out) i moves) info →
    Answered executor hostRoot agent (trace (sandboxHandler out) j moves) info' → info = info'

/-- After a creation no other call asks the executor for a container, so nobody takes it away. -/
def LeftAlone : Prop :=
  ∀ i j info, IsFor agent calls i → IsFor agent calls j → j ≠ i →
    Created executor hostRoot agent (trace (sandboxHandler out) i moves) info →
    ¬UnderWay executor hostRoot agent (trace (sandboxHandler out) j moves)

/-- If the move is a check for the agent that misses, no call for the agent is under way. -/
def ChecksAlone (move : Move (SandboxSig executor.sig) (SandboxState τ)) : Prop :=
  move.op = .containersGet agent → move.before.state.containers.get agent = none →
    ∀ i, IsFor agent calls i →
      ¬UnderWay executor hostRoot agent (trace (sandboxHandler out) i moves)

variable {executor hostRoot agent out calls moves}
  {c : Config (SandboxSig executor.sig) (SandboxState τ)} {i : Nat} {op : SandboxOp executor.sig}

/-- The calls that do not move stay where they were among the `workers`. -/
theorem stays_of_ne {j : Nat} (hne : j ≠ i) : Workers.Stays
    (workers executor hostRoot agent out calls moves)
    (workers executor hostRoot agent out calls (moves ++ [⟨i, op, c⟩])) j := by
  have htrace : trace (sandboxHandler out) j (moves ++ [⟨i, op, c⟩])
      = trace (sandboxHandler out) j moves := trace_concat_ne _ _ (Ne.symm hne) _ _ _
  refine ⟨?_, fun info => ?_, fun info => ?_⟩ <;> simp only [workers, htrace]

/-- A call that is not `IsFor` the agent is nothing to its `workers`. -/
theorem stays_of_not_isFor (hfor : ¬IsFor agent calls i) : Workers.Stays
    (workers executor hostRoot agent out calls moves)
    (workers executor hostRoot agent out calls (moves ++ [⟨i, op, c⟩])) i := by
  refine ⟨?_, fun info => ?_, fun info => ?_⟩ <;> simp only [workers, hfor, false_and]

/-- An operation that is `Quiet` leaves `containers` as they are. -/
theorem containers_of_quiet (hquiet : Quiet op) (s : SandboxState τ) :
    (sandboxHandler out op s).2.containers = s.containers := by
  cases op with
  | containersGet agentConfigId => exact hquiet.elim
  | containersInsert agentConfigId info => exact hquiet.elim
  | _ => rfl

/-- A call that has returned from `ensureContainer` stays where it is among the `workers`, whatever
it does then. -/
theorem stays_of_returned {first rest : List (Event (SandboxSig executor.sig))}
    {result : Except VfsError ContainerInfo} (hevents : trace (sandboxHandler out) i moves = first ++ rest)
    (hreturns : (ensureContainer executor hostRoot agent).run.Returns first result) : Workers.Stays
      (workers executor hostRoot agent out calls moves)
      (workers executor hostRoot agent out calls (moves ++ [⟨i, op, c⟩])) i := by
  have hafter : trace (sandboxHandler out) i (moves ++ [⟨i, op, c⟩])
      = first ++ (rest ++ [⟨op, (sandboxHandler out op c.state).1⟩]) := by
    rw [trace_concat_self, hevents, List.append_assoc]
  refine ⟨?_, fun info => ?_, fun info => ?_⟩ <;> simp only [workers, hevents, hafter]
  · exact and_congr_right fun _ =>
      iff_of_false (not_underWay_append hreturns _) (not_underWay_append hreturns _)
  · rw [created_append_iff hreturns, created_append_iff hreturns]
  · rw [answered_append_iff hreturns, answered_append_iff hreturns]

/-- A call for the agent that checks the map while no other one is under way, `ChecksAlone`, keeps
`MadeOnce`. -/
theorem madeOnce_check (h : Workers.MadeOnce (workers executor hostRoot agent out calls moves)
      (c.state.containers.get agent))
    (hbegin : trace (sandboxHandler out) i moves = [])
    (hclean : ChecksAlone executor hostRoot agent out calls moves ⟨i, .containersGet agent, c⟩) :
    Workers.MadeOnce (workers executor hostRoot agent out calls (moves ++ [⟨i, .containersGet agent, c⟩]))
      (c.state.containers.get agent) := by
  have hafter : trace (sandboxHandler out) i (moves ++ [⟨i, .containersGet agent, c⟩])
      = [⟨.containersGet agent, c.state.containers.get agent⟩] := by
    rw [trace_concat_self, hbegin]
    rfl
  have hothers : ∀ j ≠ i, Workers.Stays (workers executor hostRoot agent out calls moves)
      (workers executor hostRoot agent out calls (moves ++ [⟨i, .containersGet agent, c⟩])) j :=
    fun j hne => stays_of_ne hne
  -- Nothing is created by the check.
  have hmade : ∀ info, ¬(workers executor hostRoot agent out calls
      (moves ++ [⟨i, .containersGet agent, c⟩])).made i info := by
    rintro info ⟨-, there, asked, rest, heq, -⟩
    rw [hafter] at heq
    exact absurd (congrArg List.length heq) (by simp)
  cases hget : c.state.containers.get agent with
  | some info =>
    rw [hget] at h hafter
    have hreturns : (ensureContainer executor hostRoot agent).run.Returns
        [⟨.containersGet agent, some info⟩] (.ok info) := by
      rw [run_ensureContainer]
      exact .call (.refl _)
    refine h.hit hothers ?_ hmade ?_
    · rintro ⟨-, hunder⟩
      rw [hafter] at hunder
      exact not_underWay_append hreturns [] hunder
    · rintro info' ⟨-, hanswered⟩
      rw [hafter, ← List.append_nil [_], answered_append_iff hreturns] at hanswered
      exact (Except.ok.inj hanswered).symm
  | none =>
    rw [hget] at h hafter
    refine h.miss hothers (fun j hj => hclean rfl hget j hj.1 hj.2) hmade ?_
    rintro info ⟨-, hanswered⟩
    rw [hafter] at hanswered
    have hmissed : (ensureContainer executor hostRoot agent).run.Follows
        [⟨.containersGet agent, (none : Option ContainerInfo)⟩]
          (create executor hostRoot agent).run := by
      rw [run_ensureContainer]
      exact .call (.refl _)
    rw [run_create] at hmissed
    exact not_answered_of_follows hmissed info hanswered

variable {next : (SandboxSig executor.sig).Res op →
    Program (SandboxSig executor.sig) (Except VfsError ContainerInfo)}

/-- A call for the agent that works on its creation, and is not yet about to enter a container,
keeps `MadeOnce`. -/
theorem madeOnce_work (h : Workers.MadeOnce (workers executor hostRoot agent out calls moves)
      (c.state.containers.get agent)) (hfor : IsFor agent calls i)
    (hfollows : (ensureContainer executor hostRoot agent).run.Follows
      (trace (sandboxHandler out) i moves) (.call op next))
    (hunder : UnderWay executor hostRoot agent (trace (sandboxHandler out) i moves))
    (hnext : ∀ answer, (∃ op' next', next answer = .call op' next') ∨
      ∃ e, next answer = .done (.error e)) :
    Workers.MadeOnce (workers executor hostRoot agent out calls (moves ++ [⟨i, op, c⟩]))
      (c.state.containers.get agent) := by
  obtain ⟨⟨rest, hrest⟩, -⟩ := id hunder
  have hafter := hfollows.concat (sandboxHandler out op c.state).1
  rw [← trace_concat_self] at hafter
  rcases hnext (sandboxHandler out op c.state).1 with ⟨op', next', hcall⟩ | ⟨e, hdone⟩
  · rw [hcall] at hafter
    have hunder' : UnderWay executor hostRoot agent
        (trace (sandboxHandler out) i (moves ++ [⟨i, op, c⟩])) := by
      refine ⟨⟨rest ++ [⟨op, (sandboxHandler out op c.state).1⟩], ?_⟩, op', next', hafter⟩
      rw [trace_concat_self, hrest, List.cons_append]
    exact h.work (fun j hne => stays_of_ne hne) ⟨hfor, hunder⟩ (fun _ _ => ⟨hfor, hunder'⟩)
      fun info hanswered => not_answered_of_follows hafter info hanswered.2
  · rw [hdone] at hafter
    refine h.work (fun j hne => stays_of_ne hne) ⟨hfor, hunder⟩ (fun info hmade => ?_)
      fun info hanswered => ?_
    · cases hmade.2.eq_of_returns hafter
    · have herror := hanswered.2
      rw [← List.append_nil (trace _ _ _), answered_append_iff hafter] at herror
      cases herror

/-- A call for the agent that enters what was `Created` for it keeps `MadeOnce`. -/
theorem madeOnce_enter {info : ContainerInfo}
    (h : Workers.MadeOnce (workers executor hostRoot agent out calls moves)
      (c.state.containers.get agent)) (hfor : IsFor agent calls i)
    (hfollows : (ensureContainer executor hostRoot agent).run.Follows
      (trace (sandboxHandler out) i moves) (enter executor agent (.ok info)))
    (hunder : UnderWay executor hostRoot agent (trace (sandboxHandler out) i moves)) :
    Workers.MadeOnce
      (workers executor hostRoot agent out calls (moves ++ [⟨i, .containersInsert agent info, c⟩]))
      (some info) := by
  have hreturns : (ensureContainer executor hostRoot agent).run.Returns
      (trace (sandboxHandler out) i (moves ++ [⟨i, .containersInsert agent info, c⟩])) (.ok info) := by
    rw [trace_concat_self]
    exact Program.Follows.concat hfollows _
  have hanswered_iff : ∀ info', Answered executor hostRoot agent
      (trace (sandboxHandler out) i (moves ++ [⟨i, .containersInsert agent info, c⟩])) info' ↔
        (Except.ok info : Except VfsError ContainerInfo) = .ok info' := by
    intro info'
    rw [← List.append_nil (trace _ _ _)]
    exact answered_append_iff hreturns [] info'
  refine h.store (fun j hne => stays_of_ne hne) ⟨hfor, hunder⟩ ?_ ?_ ?_
  · rintro ⟨-, hunder'⟩
    rw [← List.append_nil (trace _ _ _)] at hunder'
    exact not_underWay_append hreturns [] hunder'
  · rintro info' ⟨-, hmade⟩
    exact ⟨hfor, (hanswered_iff info').mpr (hmade.eq_of_returns hreturns)⟩
  · rintro info' ⟨-, hanswered⟩
    exact (Except.ok.inj ((hanswered_iff info').mp hanswered)).symm

/-- **One move** keeps `MadeOnce`, if it does not check while another call for the agent is under
way. -/
theorem madeOnce_step {call : Call}
    {rest : (SandboxSig executor.sig).Res op → Program (SandboxSig executor.sig) Unit}
    (h : Workers.MadeOnce (workers executor hostRoot agent out calls moves)
      (c.state.containers.get agent)) (hcall : calls[i]? = some call)
    (hfollows : (call.thread executor hostRoot).Follows (trace (sandboxHandler out) i moves)
      (.call op rest))
    (hclean : ChecksAlone executor hostRoot agent out calls moves ⟨i, op, c⟩) :
    Workers.MadeOnce (workers executor hostRoot agent out calls (moves ++ [⟨i, op, c⟩]))
      ((sandboxHandler out op c.state).2.containers.get agent) := by
  have hothers : ∀ j ≠ i, Workers.Stays (workers executor hostRoot agent out calls moves)
      (workers executor hostRoot agent out calls (moves ++ [⟨i, op, c⟩])) j :=
    fun j hne => stays_of_ne hne
  have hall : Workers.Stays (workers executor hostRoot agent out calls moves)
      (workers executor hostRoot agent out calls (moves ++ [⟨i, op, c⟩])) i →
        ∀ j, Workers.Stays (workers executor hostRoot agent out calls moves)
          (workers executor hostRoot agent out calls (moves ++ [⟨i, op, c⟩])) j := by
    intro hmover j
    by_cases hne : j = i
    · exact hne ▸ hmover
    · exact hothers j hne
  -- Either the move belongs to the call's asking for its container, or the call has returned from
  -- that.
  rcases follows_thread hfollows with ⟨next, hask⟩ | ⟨hquiet, first, rest', result, hevents, hreturns⟩
  · by_cases hagent : call.agent = agent
    · have hfor : IsFor agent calls i := ⟨call, hcall, hagent⟩
      rw [hagent] at hask
      rcases follows_ensureContainer hask with
        ⟨hbegin, heq⟩ | ⟨hunder, ⟨info, -, heq⟩ | ⟨hquiet, hnext⟩⟩
      · rw [run_ensureContainer] at heq
        cases heq
        exact madeOnce_check h hbegin hclean
      · rw [heq] at hask
        cases heq
        have hget : (sandboxHandler out (.containersInsert agent info) c.state).2.containers.get agent
            = some info := HashMap.get_insert_self
        rw [hget]
        exact madeOnce_enter h hfor hask hunder
      · rw [containers_of_quiet hquiet]
        exact madeOnce_work h hfor hask hunder hnext
    · -- A call for another agent does not touch what is known about this one.
      have hnot : ¬IsFor agent calls i := by
        rintro ⟨call', hcall', hagent'⟩
        rw [hcall, Option.some_inj] at hcall'
        exact hagent (hcall' ▸ hagent')
      have hget : (sandboxHandler out op c.state).2.containers.get agent
          = c.state.containers.get agent := by
        rcases follows_ensureContainer hask with
          ⟨-, heq⟩ | ⟨-, ⟨info, -, heq⟩ | ⟨hquiet, -⟩⟩
        · rw [run_ensureContainer] at heq
          cases heq
          rfl
        · cases heq
          exact HashMap.get_insert.trans (if_neg (Ne.symm hagent))
        · rw [containers_of_quiet hquiet]
      rw [hget]
      exact h.of_stays (hall (stays_of_not_isFor hnot))
  · rw [containers_of_quiet hquiet]
    refine h.of_stays (hall ?_)
    by_cases hagent : call.agent = agent
    · rw [hagent] at hreturns
      exact stays_of_returned hevents hreturns
    · refine stays_of_not_isFor ?_
      rintro ⟨call', hcall', hagent'⟩
      rw [hcall, Option.some_inj] at hcall'
      exact hagent (hcall' ▸ hagent')

/-- In every run whose checks are all made alone, `ChecksAlone`, the workers are `MadeOnce`. -/
theorem madeOnce_of_run {s : SandboxState τ}
    (run : Interleaving (sandboxHandler out) ⟨calls.map (Call.thread executor hostRoot), s⟩ moves c)
    (hclean : ∀ before move, before ++ [move] <+: moves →
      ChecksAlone executor hostRoot agent out calls before move) :
    Workers.MadeOnce (workers executor hostRoot agent out calls moves)
      (c.state.containers.get agent) := by
  induction run with
  | start =>
    refine Workers.madeOnce_of_idle ?_ ?_ ?_
    · rintro i ⟨-, ⟨rest, heq⟩, -⟩
      cases heq
    · rintro i info ⟨-, there, asked, rest, heq, -⟩
      cases heq
    · rintro i info ⟨-, first, rest, heq, hreturns⟩
      rw [(List.append_eq_nil_iff.mp heq.symm).1, run_ensureContainer] at hreturns
      cases hreturns
  | @step moves c i op next run ready ih =>
    have hih := ih fun before move hinitial => hclean before move (hinitial.trans (List.prefix_append _ _))
    obtain ⟨call, hcall⟩ : ∃ call, calls[i]? = some call := by
      have hlt : i < calls.length := by
        have hready := (List.getElem?_eq_some_iff.mp ready).1
        rwa [run.length_threads, List.length_map] at hready
      exact ⟨_, List.getElem?_eq_getElem hlt⟩
    have hthread : (calls.map (Call.thread executor hostRoot))[i]?
        = some (call.thread executor hostRoot) := by
      rw [List.getElem?_map, hcall, Option.map_some]
    obtain ⟨q, hq, hfollows⟩ := run.follows hthread
    rw [ready, Option.some_inj] at hq
    rw [← hq] at hfollows
    exact madeOnce_step hih hcall hfollows (hclean _ _ List.prefix_rfl)

end Interleaved

/-- **The container of an agent is created once** in every run of `calls` none of whose checks
misses while another call for the agent is under way; and after the creation no call asks for
another one, `LeftAlone`. -/
theorem createdOnce_of_run {executor : SandboxExecutor} {hostRoot : HostPath} {agent : Str} {τ : Type}
    {out : Outside executor.sig τ} {calls : List Call} {s : SandboxState τ}
    {moves : List (Move (SandboxSig executor.sig) (SandboxState τ))}
    {c : Config (SandboxSig executor.sig) (SandboxState τ)}
    (run : Interleaving (sandboxHandler out) ⟨calls.map (Call.thread executor hostRoot), s⟩ moves c)
    (hclean : ∀ before move, before ++ [move] <+: moves →
      ChecksAlone executor hostRoot agent out calls before move) :
    CreatedOnce executor hostRoot agent out calls moves ∧
      LeftAlone executor hostRoot agent out calls moves := by
  have h := madeOnce_of_run run hclean
  refine ⟨⟨fun i j info info' hi hj hmade hmade' => ?_, fun i j info info' hi hj hans hans' => ?_⟩,
    fun i j info hi hj hne hmade hunder => ?_⟩
  · exact h.once i j info info' ⟨hi, hmade⟩ ⟨hj, hmade'⟩
  · exact h.answered_eq (i := i) (j := j) ⟨hi, hans⟩ ⟨hj, hans'⟩
  · exact h.not_underWay (i := i) ⟨hi, hmade⟩ hne ⟨hj, hunder⟩

/-! ## Two handshakes -/

/-- A directory of the host. -/
def logosRoot : HostPath := .ofStr "/logos"

/-- Two handshakes for one agent. -/
def twoHandshakes : List Call := [.handshake "dev" "t1", .handshake "dev" "t2"]

/-- Both are about to begin; nothing is there. -/
def bothHandshakes : Config (SandboxSig ContainerdSig) (SandboxState Daemon) :=
  ⟨twoHandshakes.map (Call.thread ContainerdExecutor.executor logosRoot), ⟨.empty, .empty, .empty⟩⟩

/-- What happens in a schedule. -/
def playBoth (schedule : List Nat) :
    List (Move (SandboxSig ContainerdSig) (SandboxState Daemon)) :=
  (bothHandshakes.play (sandboxHandler Daemon.outside) schedule).1

/-- The moves of one handshake, and then the moves of the other. -/
def inTurns : List Nat := List.replicate 14 0 ++ List.replicate 3 1

/-- Both check the map; then the executor creates a container for the first one and, before this one
has entered it, finds it for the second one. -/
def bothMiss : List Nat := [0, 1] ++ List.replicate 11 0 ++ List.replicate 4 1

/-- The container of `dev` is created once if `twoHandshakes` are made `inTurns`. -/
theorem createdOnce_inTurns :
    CreatedOnce ContainerdExecutor.executor logosRoot "dev" Daemon.outside twoHandshakes
        (playBoth inTurns) ∧
      LeftAlone ContainerdExecutor.executor logosRoot "dev" Daemon.outside twoHandshakes
        (playBoth inTurns) := by
  refine createdOnce_of_run (Interleaving.of_play (sandboxHandler Daemon.outside) bothHandshakes inTurns)
    fun before move hinitial => ?_
  refine forall_prefix_of_zipIdx (P := fun before move =>
    ChecksAlone ContainerdExecutor.executor logosRoot "dev" Daemon.outside twoHandshakes before move)
    (fun entry hentry hop hmissed i _ => ?_) before move hinitial
  -- The first move is the only check that misses.
  have hfirst : ∀ entry ∈ (playBoth inTurns).zipIdx, entry.1.op = .containersGet "dev" →
      entry.1.before.state.containers.get "dev" = none → entry.2 = 0 := by decide +kernel
  rw [hfirst entry hentry hop hmissed, List.take_zero]
  rintro ⟨⟨rest, heq⟩, -⟩
  cases heq

/-- What a call has had `Created`, as the executable `returned?` says of its program. -/
theorem created_of_returned? {executor : SandboxExecutor} {hostRoot : HostPath} {agent : Str}
    [DecidableEq executor.sig.Op] {there : Bool} {asked : List (Event (SandboxSig executor.sig))}
    {info : ContainerInfo}
    (h : (onExecutor (executor.ensureContainer agent (sockFor hostRoot there))).run.returned? asked
      = some (.ok info)) :
    Created executor hostRoot agent
      (⟨.containersGet agent, (none : Option ContainerInfo)⟩ :: ⟨.sockExists, there⟩ :: asked) info :=
  ⟨there, asked, [], by rw [List.append_nil], Program.returns_of_returned? h⟩

/-- **Two handshakes for one agent may both have a container created**: some run of `twoHandshakes`
is not `CreatedOnce`. -/
theorem not_createdOnce : ¬∀ moves c,
    Interleaving (sandboxHandler Daemon.outside)
      ⟨twoHandshakes.map (Call.thread ContainerdExecutor.executor logosRoot),
        ⟨.empty, .empty, .empty⟩⟩ moves c →
    CreatedOnce ContainerdExecutor.executor logosRoot "dev" Daemon.outside twoHandshakes moves := by
  intro h
  have honce := (h _ _ (Interleaving.of_play (sandboxHandler Daemon.outside) bothHandshakes bothMiss)).once
  have hcreated : ∀ i < 2, Created ContainerdExecutor.executor logosRoot "dev"
      (trace (sandboxHandler Daemon.outside) i (playBoth bothMiss))
        ⟨"logos-sandbox-dev", .ofStr "/snapshots/1/fs/workspace"⟩ := by
    intro i hi
    have hfirst : trace (sandboxHandler Daemon.outside) i (playBoth bothMiss)
        = ⟨.containersGet "dev", (none : Option ContainerInfo)⟩ :: ⟨.sockExists, false⟩
          :: (trace (sandboxHandler Daemon.outside) i (playBoth bothMiss)).drop 2 := by
      match i, hi with
      | 0, _ => rfl
      | 1, _ => rfl
    rw [hfirst]
    refine created_of_returned? ?_
    match i, hi with
    | 0, _ => decide +kernel
    | 1, _ => decide +kernel
  have hsame := honce 0 1 _ _ ⟨_, rfl, rfl⟩ ⟨_, rfl, rfl⟩ (hcreated 0 (by decide)) (hcreated 1 (by decide))
  exact absurd hsame (by decide)

/-- The second creation may delete the container that the first handshake has returned with. -/
example : (bothHandshakes.play (sandboxHandler Daemon.outside)
    ([0, 1] ++ List.replicate 8 0 ++ List.replicate 3 1 ++ List.replicate 5 0 ++ [1])).2.state.outside.containers
      = [] := by
  decide +kernel

end LogosFs.Kernel.Containers
