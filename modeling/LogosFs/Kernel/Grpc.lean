import LogosFs.Kernel.Confinement
import LogosFs.Kernel.Containers
import LogosFs.Kernel.Handshakes
import LogosFs.Kernel.Service
import LogosFs.Kernel.Slots
import LogosFs.Lib.Staged
import LogosFs.Lib.Utf8

/-! # The calls of the service

A call asks the registry of the tokens first, and then does its work in the other parts of the kernel,
for the session that the registry has found. Calls run at the same time, and beside them the background
task that removes sessions. `bound_of_run` says that whatever is done for a session is done for a token
that a client of the management interface has registered; `keyServes_of_run` says that the key that a
handshake answers with is good for it, and for it alone. -/

namespace LogosFs.Kernel

open Program (Follows Returns AllOps)

/-- The parts of the kernel that the service calls: programs over operations of their own. -/
structure Backend where
  /-- The operations. -/
  sig : Signature
  /-- Read, write, patch or call a tool, for a session or for nobody. -/
  serve : Option SessionInfo → Request → ExceptT Status (Program sig) Str
  /-- Execute a command in the sandbox of an agent, for a task. -/
  exec : Str → Str → Str → ExceptT VfsError (Program sig) ExecResult
  /-- Make the container of an agent, and register a task. -/
  ensureContainerFor : Str → Str → ExceptT VfsError (Program sig) Unit

/-- The kernel as the backend: its table, and the containers of an executor. The namespace `sandbox` of
the table is given with the maps that it has; those that handshakes fill are beside it. -/
def Backend.kernel (json : JsonCodec) (table : RoutingTable) (executor : SandboxExecutor)
    (hostRoot : HostPath) : Backend where
  sig := KernelSig.sum (SandboxSig executor.sig)
  serve info request := ExceptT.mk (LogosService.serve json table info request).run.inl
  exec command agentConfigId taskId :=
    ExceptT.mk (Containers.exec executor hostRoot command agentConfigId taskId).run.inr
  ensureContainerFor agentConfigId taskId :=
    ExceptT.mk (Containers.ensureContainerFor executor hostRoot agentConfigId taskId).run.inr

/-- A call of the service, with its session header where one is looked at. -/
inductive Rpc where
  /-- A read, a write, a patch or a call of a tool. -/
  | request (header : Option (List UInt8)) (request : Request)
  /-- Execute a command. -/
  | exec (header : Option (List UInt8)) (command : Str)
  /-- Consume a token. -/
  | handshake (token : Str)
  /-- Register a token for a task and an agent, with the name of a role. -/
  | registerToken (token taskId agentConfigId role : Str)
  /-- Revoke a token. -/
  | revokeToken (token : Str)
  /-- Not a call: one round of the background task of the registry. -/
  | cleanup
deriving DecidableEq

/-- What a call is answered. -/
inductive Response where
  /-- The content that was read, or the result of a tool; a change has none. -/
  | content (text : Str)
  /-- What a command has printed. -/
  | exec (result : ExecResult)
  /-- Whether a handshake has succeeded, the error if not, and the session header. -/
  | handshake (ok : Bool) (error : Str) (header : Option (List UInt8))
  /-- Nothing. -/
  | empty
deriving DecidableEq

/-- The value of a header: no control characters but tabs. -/
def parseHeader (text : Str) : Option (List UInt8) :=
  if (Utf8.encode text).all fun byte => (32 ≤ byte ∧ byte ≠ 127) ∨ byte = 9 then
    some (Utf8.encode text)
  else none

/-- A program of the other parts of the kernel that may end with a status. -/
abbrev BackendM (backend : Backend) (α : Type) : Type := ExceptT Status (Program backend.sig) α

/-- A program of the service that may end with a status. -/
abbrev RpcM (backend : Backend) (α : Type) : Type :=
  ExceptT Status (Program (TokenSig.sum backend.sig)) α

/-- Ask the registry. -/
def onTokens {backend : Backend} {α : Type} (p : Program TokenSig α) : RpcM backend α :=
  liftM (p.inl (T := backend.sig))

/-- Ask the other parts of the kernel. -/
def onBackend {backend : Backend} {α : Type} (p : BackendM backend α) : RpcM backend α :=
  ExceptT.mk p.run.inr

namespace LogosService

variable (backend : Backend)

/-- Execute a command for a session. -/
def execFor (si : SessionInfo) (command : Str) : BackendM backend Response := do
  let result ← Program.mapError vfsToStatus (backend.exec command si.agentConfigId si.taskId)
  return .exec result

/-- What a handshake does that has consumed its token. A container that cannot be made does not
matter. -/
def welcome (sessionKey taskId agentConfigId : Str) : BackendM backend Response := do
  if agentConfigId ≠ [] then
    Program.ignoreError
      (Program.mapError vfsToStatus (backend.ensureContainerFor agentConfigId taskId))
  match parseHeader sessionKey with
  | none => throw (.internal "session key contains invalid characters")
  | some header => return .handshake true [] (some header)

/-- Perform a call. -/
def rpc : Rpc → RpcM backend Response
  | .request header request => do
    let info ← onTokens (extractSessionInfo header)
    return .content (← onBackend (backend.serve info request))
  | .exec header command => do
    match ← onTokens (extractSessionInfo header) with
    | none => throw (.unauthenticated "exec requires a valid session")
    | some si => onBackend (execFor backend si command)
  | .handshake token => do
    match ← onTokens (TokenRegistry.consume token) with
    | some (sessionKey, taskId, agentConfigId) =>
      onBackend (welcome backend sessionKey taskId agentConfigId)
    | none => return .handshake false "invalid or already consumed token" none
  | .registerToken token taskId agentConfigId role => do
    if token = [] ∨ taskId = [] then throw (.invalidArgument "token and task_id required")
    onTokens (TokenRegistry.register token taskId agentConfigId (AgentRole.fromStr role))
    return .empty
  | .revokeToken token => do
    onTokens (TokenRegistry.revoke token)
    return .empty
  | .cleanup => do
    onTokens TokenRegistry.cleanupExpired
    return .empty

/-- A call as a thread. -/
def thread (call : Rpc) : Program (TokenSig.sum backend.sig) Unit :=
  (rpc backend call).run >>= fun _ => .done ()

/-! ## Two stages -/

/-- What a call asks of the registry, and what is left to do in the other parts then. -/
def first : Rpc → Program TokenSig (BackendM backend Response)
  | .request header request => do
    let info ← extractSessionInfo header
    return Response.content <$> backend.serve info request
  | .exec header command => do
    match ← extractSessionInfo header with
    | none => return throw (.unauthenticated "exec requires a valid session")
    | some si => return execFor backend si command
  | .handshake token => do
    match ← TokenRegistry.consume token with
    | some (sessionKey, taskId, agentConfigId) =>
      return welcome backend sessionKey taskId agentConfigId
    | none => return pure (.handshake false "invalid or already consumed token" none)
  | .registerToken token taskId agentConfigId role => do
    if token = [] ∨ taskId = [] then
      return throw (.invalidArgument "token and task_id required")
    else
      TokenRegistry.register token taskId agentConfigId (AgentRole.fromStr role)
      return pure .empty
  | .revokeToken token => do
    TokenRegistry.revoke token
    return pure .empty
  | .cleanup => do
    TokenRegistry.cleanupExpired
    return pure .empty

/-- A call in two stages. -/
def stages (call : Rpc) : Staged TokenSig backend.sig (BackendM backend Response) Unit :=
  ⟨first backend call, fun rest => rest.run >>= fun _ => .done ()⟩

section Stages

variable {backend} {α β : Type}

/-- What follows `onTokens p` follows `p` on the left. -/
theorem run_onTokens_bind (p : Program TokenSig α) (f : α → RpcM backend β) :
    (onTokens p >>= f).run = p.inl >>= fun value => (f value).run := by
  rw [ExceptT.run_bind, onTokens]
  show (ExceptT.lift p.inl).run >>= _ = _
  rw [ExceptT.run_lift, map_eq_pure_bind, bind_assoc]
  rfl

/-- `onBackend` commutes with mapping the value. -/
theorem onBackend_map (p : BackendM backend α) (f : α → β) :
    (do let value ← onBackend p; return f value : RpcM backend β) = onBackend (f <$> p) := by
  refine ExceptT.ext ?_
  rw [onBackend, onBackend, ExceptT.run_bind, ExceptT.run_mk, ExceptT.run_mk, ExceptT.run_map,
    map_eq_pure_bind, Program.inr_bind]
  refine congrArg (Program.bind p.run.inr) (funext fun result => ?_)
  cases result <;> rfl

/-- A program that asks the registry, `onTokens p`, for what is left to do and does it runs as `p`
and then the rest. -/
theorem run_bind_inl (p : Program TokenSig α) (f : α → BackendM backend Response) :
    (onTokens p >>= fun value => onBackend (f value)).run
      = (p >>= fun value => .done (f value)).inl >>= fun rest => (onBackend rest).run := by
  rw [run_onTokens_bind, Program.inl_bind, bind_assoc]
  rfl

/-- The first stage of an `exec`: `extractSessionInfo`, and what is left to do with its answer. -/
theorem first_exec (header : Option (List UInt8)) (command : Str) :
    first backend (.exec header command) = extractSessionInfo header >>= fun info =>
      .done (match info with
        | none => throw (.unauthenticated "exec requires a valid session")
        | some si => execFor backend si command) := by
  refine congrArg (extractSessionInfo header >>= ·) (funext fun info => ?_)
  cases info <;> rfl

/-- **A call has two stages**: `rpc backend call` runs `first backend call` on the registry, and
then the rest on the backend. -/
theorem rpc_eq_stages (call : Rpc) :
    (rpc backend call).run = (first backend call).inl >>= fun rest => rest.run.inr := by
  cases call with
  | request header request =>
    show (onTokens (extractSessionInfo header) >>= fun info =>
      (do let text ← onBackend (backend.serve info request); return Response.content text)).run = _
    simp only [onBackend_map]
    exact run_bind_inl _ _
  -- Here the two stages differ in where the cases are told apart: after the registry or before.
  | exec header command =>
    have hsame : rpc backend (.exec header command) = onTokens (extractSessionInfo header) >>=
        fun info => onBackend (match info with
          | none => throw (.unauthenticated "exec requires a valid session")
          | some si => execFor backend si command) := by
      refine congrArg (onTokens (extractSessionInfo header) >>= ·) (funext fun info => ?_)
      cases info <;> rfl
    rw [hsame, first_exec, run_bind_inl]
    rfl
  | handshake token =>
    have hsame : rpc backend (.handshake token) = onTokens (TokenRegistry.consume token) >>=
        fun taken => onBackend (match taken with
          | some (sessionKey, taskId, agentConfigId) =>
            welcome backend sessionKey taskId agentConfigId
          | none => pure (.handshake false "invalid or already consumed token" none)) := by
      refine congrArg (onTokens (TokenRegistry.consume token) >>= ·) (funext fun taken => ?_)
      cases taken <;> rfl
    have hfirst : first backend (.handshake token) = TokenRegistry.consume token >>=
        fun taken => .done (match taken with
          | some (sessionKey, taskId, agentConfigId) =>
            welcome backend sessionKey taskId agentConfigId
          | none => pure (.handshake false "invalid or already consumed token" none)) := by
      refine congrArg (TokenRegistry.consume token >>= ·) (funext fun taken => ?_)
      cases taken <;> rfl
    rw [hsame, hfirst, run_bind_inl]
    rfl
  | registerToken token taskId agentConfigId role =>
    unfold rpc first
    by_cases hempty : token = [] ∨ taskId = []
    · simp only [if_pos hempty]
      rfl
    · simp only [if_neg hempty]
      rfl
  | revokeToken token => rfl
  | cleanup => rfl

end Stages

/-- The call of the registry that a call makes; one that makes none could as well make any. -/
def tokenCall : Rpc → TokenCall
  | .request header _ | .exec header _ => match header.bind headerToStr with
    | some sessionKey => .resolveInfo sessionKey
    | none => .cleanupExpired
  | .handshake token => .consume token
  | .registerToken token taskId agentConfigId role =>
    if token = [] ∨ taskId = [] then .cleanupExpired
    else .register token taskId agentConfigId (AgentRole.fromStr role)
  | .revokeToken token => .revoke token
  | .cleanup => .cleanupExpired

/-- The first stage of a call, with its rest forgotten, is the program of `tokenCall call`, or does
nothing. -/
theorem first_thread (call : Rpc) :
    (tokenCall call).program = (first backend call >>= fun _ => .done ()) ∨
      (first backend call >>= fun _ => .done ()) = .done () := by
  have hsession : ∀ (header : Option (List UInt8)) (f : Option SessionInfo → BackendM backend Response),
      TokenCall.program (match header.bind headerToStr with
        | some sessionKey => .resolveInfo sessionKey
        | none => .cleanupExpired)
          = (extractSessionInfo header >>= fun info => .done (f info)) >>= (fun _ => .done ()) ∨
        ((extractSessionInfo header >>= fun info => .done (f info)) >>= fun _ => .done ()) = .done () := by
    intro header f
    rw [extractSessionInfo]
    cases header.bind headerToStr with
    | none => exact .inr rfl
    | some sessionKey => exact .inl rfl
  cases call with
  | request header request => exact hsession header _
  | exec header command =>
    rw [first_exec]
    exact hsession header _
  | handshake token =>
    refine .inl ?_
    show TokenRegistry.consume token >>= _ = (TokenRegistry.consume token >>= _) >>= _
    rw [bind_assoc]
    refine congrArg (TokenRegistry.consume token >>= ·) (funext fun taken => ?_)
    cases taken <;> rfl
  | registerToken token taskId agentConfigId role =>
    unfold tokenCall first
    dsimp only
    by_cases hempty : token = [] ∨ taskId = []
    · rw [if_pos hempty, if_pos hempty]
      exact .inr rfl
    · rw [if_neg hempty, if_neg hempty]
      exact .inl rfl
  | revokeToken token => exact .inl rfl
  | cleanup => exact .inl rfl

end LogosService

/-! ## The registry in a run -/

open LogosService (rpc thread first execFor welcome tokenCall stages)

section Runs

variable {backend : Backend} {τ : Type} {out : Handler backend.sig τ} {calls : List Rpc}
  {clock : Nat → Instant} {t : τ}
  {moves : List (Move (TokenSig.sum backend.sig) (TokenRegistry × τ))}
  {c : Config (TokenSig.sum backend.sig) (TokenRegistry × τ)}

/-- The operations on the registry, each with the call that has performed it. -/
def registryEvents (moves : List (Move (TokenSig.sum backend.sig) (TokenRegistry × τ))) :
    List (Nat × TokenOp) :=
  (moves.filterMap Move.left?).map fun brief => (brief.1, brief.2.1)

/-- The threads of the calls are the programs of their `stages`. -/
theorem map_thread (calls : List Rpc) :
    calls.map (thread backend) = (calls.map (stages backend)).map Staged.program := by
  rw [List.map_map]
  refine List.map_congr_left fun call _ => ?_
  show (rpc backend call).run >>= _ = (first backend call).inl >>= fun rest =>
    (rest.run >>= fun _ => Program.done ()).inr
  rw [LogosService.rpc_eq_stages, bind_assoc]
  refine congrArg ((first backend call).inl >>= ·) (funext fun rest => ?_)
  rw [Program.inr_bind]
  rfl

/-- **The registry** sees a run of its own, of the programs of the calls `tokenCall`: its moves are,
in `brief`, the left moves of the whole run. -/
theorem exists_registryRun (run : Interleaving (TokenRegistry.handler.sum out)
      ⟨calls.map (thread backend), (.new clock, t)⟩ moves c) :
    ∃ moves' c', Interleaving TokenRegistry.handler
        ⟨(calls.map tokenCall).map TokenCall.program, .new clock⟩ moves' c' ∧
      moves'.map Move.brief = moves.filterMap Move.left? ∧ c'.state = c.state.1 := by
  rw [map_thread] at run
  obtain ⟨moves₁, c₁, run₁, hbriefs₁, hstate₁⟩ := run.firsts
  have hidle : List.Forall₂ (fun p p' => p' = p ∨ p = .done ())
      ((calls.map (stages backend)).map fun staged => staged.first >>= fun _ => .done ())
      ((calls.map tokenCall).map TokenCall.program) := by
    rw [List.map_map, List.map_map, List.forall₂_map_left_iff, List.forall₂_map_right_iff]
    exact List.forall₂_same.mpr fun call _ => LogosService.first_thread backend call
  obtain ⟨moves', c', run', hbriefs, hstate⟩ := run₁.of_idle hidle
  exact ⟨moves', c', run', hbriefs.trans hbriefs₁, hstate.trans hstate₁⟩

end Runs

/-! ## How a session comes about -/

/-- An operation that changes what is registered under a token. -/
def TouchesToken (token : Str) (op : TokenOp) : Prop :=
  (∃ entry, op = .pendingInsert token entry) ∨ op = .pendingRemove token

/-- After these operations the token is registered for the entry. -/
def RegisteredFor (token : Str) (entry : PendingEntry) (events : List (Nat × TokenOp)) : Prop :=
  Since (fun event => event.2 = .pendingInsert token entry)
    (fun event => ¬TouchesToken token event.2) events

/-- A call has opened the session with a key for an entry: it is a handshake that has taken its token
while this was registered, by a client that had named a token and a task, and has issued the key. -/
def Opened (calls : List Rpc) (i : Nat) (key : Str) (entry : PendingEntry)
    (events : List (Nat × TokenOp)) : Prop :=
  ∃ j token role before between middle after,
    events = before ++ (j, .pendingInsert token entry) :: (between ++ (i, .pendingRemove token)
      :: (middle ++ (i, .sessionsInsert key entry) :: after)) ∧
    (∀ event ∈ between, ¬TouchesToken token event.2) ∧
    calls[j]? = some (.registerToken token entry.taskId entry.agentConfigId role) ∧
    entry.role = AgentRole.fromStr role ∧ token ≠ [] ∧ entry.taskId ≠ [] ∧
    calls[i]? = some (.handshake token)

/-- The operations of moves of the registry, each with its thread. -/
def eventsOf (moves : List (Move TokenSig TokenRegistry)) : List (Nat × TokenOp) :=
  moves.map fun move => (move.thread, move.op)

/-- `eventsOf` of two sequences of moves is that of the one and then that of the other. -/
theorem eventsOf_append (moves moves' : List (Move TokenSig TokenRegistry)) :
    eventsOf (moves ++ moves') = eventsOf moves ++ eventsOf moves' := List.map_append

/-- Only a registration registers a token: a call that is about to `.pendingInsert` is a `.register`
of the same token and entry. -/
theorem register_of_follows {call : TokenCall} {events : List (Event TokenSig)} {token : Str}
    {entry : PendingEntry} {next : Unit → Program TokenSig Unit}
    (h : call.program.Follows events (.call (.pendingInsert token entry) next)) :
    call = .register token entry.taskId entry.agentConfigId entry.role := by
  have hall : call.program.AllOps fun op : TokenOp => ∀ token (entry : PendingEntry),
      op = .pendingInsert token entry →
        call = .register token entry.taskId entry.agentConfigId entry.role := by
    cases call with
    | register token taskId agentConfigId role =>
      refine ⟨fun token' entry' heq => ?_, fun _ => trivial⟩
      cases heq
      rfl
    | revoke token => exact ⟨by simp, fun _ => trivial⟩
    | consume token =>
      refine AllOps.bind (AllOps.bind ⟨by simp, fun _ => trivial⟩ fun taken => ?_) fun _ => trivial
      cases taken with
      | none => trivial
      | some entry => exact ⟨by simp, fun number => ⟨by simp, fun _ => trivial⟩⟩
    | resolveInfo sessionKey =>
      exact AllOps.bind (AllOps.bind ⟨by simp, fun _ => trivial⟩ fun _ => trivial) fun _ => trivial
    | cleanupExpired => exact ⟨by simp, fun now => ⟨by simp, fun _ => trivial⟩⟩
  exact (h.allOps hall).1 token entry rfl

/-- A `.register` comes from the call `.registerToken` of a client, with a token and a task that are
not empty. -/
theorem registerToken_of_tokenCall {call : Rpc} {token taskId agentConfigId : Str} {role : AgentRole}
    (h : tokenCall call = .register token taskId agentConfigId role) :
    ∃ name, call = .registerToken token taskId agentConfigId name ∧ role = AgentRole.fromStr name ∧
      token ≠ [] ∧ taskId ≠ [] := by
  unfold tokenCall at h
  split at h
  · split at h <;> cases h
  · split at h <;> cases h
  · cases h
  · rename_i token' taskId' agentConfigId' name
    split at h
    · cases h
    · rename_i hempty
      cases h
      rw [not_or] at hempty
      exact ⟨name, rfl, rfl, hempty⟩
  · cases h
  · cases h

/-- A `.consume` comes from the call `.handshake` with the same token. -/
theorem handshake_of_tokenCall {call : Rpc} {token : Str} (h : tokenCall call = .consume token) :
    call = .handshake token := by
  unfold tokenCall at h
  split at h
  · split at h <;> cases h
  · split at h <;> cases h
  · cases h
    rfl
  · split at h <;> cases h
  · cases h
  · cases h

section Registry

variable {calls : List Rpc} {clock : Nat → Instant} {moves : List (Move TokenSig TokenRegistry)}
  {c : Config TokenSig TokenRegistry} {key : Str} {entry : PendingEntry}

/-- **Whoever issues a key has opened its session**: a move that inserts `entry` under `key` comes
after all that `Opened` tells. -/
theorem opened_of_issue (run : Interleaving TokenRegistry.handler
      ⟨(calls.map tokenCall).map TokenCall.program, .new clock⟩ moves c)
    (hfew : handshakes moves < 2 ^ 64) {earlier later : List (Move TokenSig TokenRegistry)}
    {issue : Move TokenSig TokenRegistry} (hmoves : moves = earlier ++ issue :: later)
    (hop : issue.op = .sessionsInsert key entry) :
    Opened calls issue.thread key entry (eventsOf moves) := by
  obtain ⟨states, hstates⟩ := exists_issuing run hfew
  obtain ⟨token, htoken, htook⟩ := hstates.issued earlier issue later hmoves key entry hop
  have hbefore := run.before_of_split hmoves
  obtain ⟨first, take, middle, rfl, hthread, htake, hregistered⟩ := htook.tookRegistration hbefore
  obtain ⟨before, registration, between, rfl, hinsert, hbetween⟩ := hregistered
  -- The registration is a move of a client's call.
  have hsplit : before ++ registration :: between ++ take :: middle =
      before ++ registration :: (between ++ take :: middle) := by simp
  obtain ⟨p, next, hp, hfollows⟩ := hbefore.follows_of_split hsplit
  obtain ⟨tcall, htcall, rfl⟩ := Option.map_eq_some_iff.mp (List.getElem?_map ▸ hp)
  obtain ⟨call, hcall, rfl⟩ := Option.map_eq_some_iff.mp (List.getElem?_map ▸ htcall)
  obtain ⟨j, op, config⟩ := registration
  obtain rfl : op = .pendingInsert token entry := hinsert
  obtain ⟨name, rfl, hrole, hne, htask⟩ := registerToken_of_tokenCall (register_of_follows hfollows)
  -- The token is consumed by the call that issues the key.
  obtain ⟨call, hcall', hconsume⟩ := Option.map_eq_some_iff.mp (List.getElem?_map ▸ htoken)
  obtain rfl := handshake_of_tokenCall hconsume
  refine ⟨j, token, name, eventsOf before, eventsOf between, eventsOf middle, eventsOf later, ?_,
    fun event hevent => ?_, hcall, hrole, hne, htask, hcall'⟩
  · rw [hmoves]
    simp [eventsOf, hthread, htake, hop]
  · obtain ⟨move, hmove, rfl⟩ := List.mem_map.mp hevent
    exact hbetween move hmove

/-- **Whoever is told a session by a key** is told one that a handshake has `Opened`. -/
theorem exists_opened_of_session (run : Interleaving TokenRegistry.handler
      ⟨(calls.map tokenCall).map TokenCall.program, .new clock⟩ moves c)
    (hfew : handshakes moves < 2 ^ 64) {session : SessionEntry}
    (hsession : c.state.sessions key = some session) :
    ∃ i entry, Opened calls i key entry (eventsOf moves) ∧
      session.info = ⟨entry.taskId, entry.agentConfigId, entry.role⟩ := by
  obtain ⟨earlier, issue, later, hmoves, ⟨entry, hop, rfl⟩, -⟩ :=
    (sessions_eq_some_iff run).mp hsession
  exact ⟨issue.thread, entry, opened_of_issue run hfew hmoves hop, rfl⟩

end Registry

/-! ## What a call may do -/

/-- The call has looked its key up, and found a session that had been opened for the entry of the
registration. -/
def ActsFor (calls : List Rpc) (i : Nat) (header : Option (List UInt8)) (si : SessionInfo)
    (events : List (Nat × TokenOp)) : Prop :=
  ∃ key j entry earlier later, header.bind headerToStr = some key ∧
    events = earlier ++ (i, .sessionsGet key) :: later ∧ Opened calls j key entry earlier ∧
    si = ⟨entry.taskId, entry.agentConfigId, entry.role⟩

/-- What is left to do for a call, after these operations on the registry. -/
inductive MayDo (backend : Backend) (calls : List Rpc) (i : Nat) (events : List (Nat × TokenOp)) :
    Rpc → BackendM backend Response → Prop
  /-- A request is served, for a session that has been opened or for nobody. -/
  | served (header : Option (List UInt8)) (request : Request) (info : Option SessionInfo)
    (hinfo : ∀ si, info = some si → ActsFor calls i header si events) :
    MayDo backend calls i events (.request header request)
      (Response.content <$> backend.serve info request)
  /-- A command is executed, for a session that has been opened. -/
  | executed (header : Option (List UInt8)) (command : Str) (si : SessionInfo)
    (hsi : ActsFor calls i header si events) :
    MayDo backend calls i events (.exec header command) (execFor backend si command)
  /-- A command is not executed for nobody. -/
  | unauthenticated (header : Option (List UInt8)) (command : Str) :
    MayDo backend calls i events (.exec header command)
      (throw (.unauthenticated "exec requires a valid session"))
  /-- A handshake makes the container of the agent for which its token was registered. -/
  | welcomed (token key : Str) (entry : PendingEntry) (hopened : Opened calls i key entry events) :
    MayDo backend calls i events (.handshake token)
      (welcome backend key entry.taskId entry.agentConfigId)
  /-- A handshake does nothing for a token that is not registered. -/
  | notConsumed (token : Str) : MayDo backend calls i events (.handshake token)
      (pure (.handshake false "invalid or already consumed token" none))
  /-- The other calls do nothing outside of the registry. -/
  | other (call : Rpc) (result : Except Status Response)
    (hcall : ∀ header request command token, call ≠ .request header request ∧
      call ≠ .exec header command ∧ call ≠ .handshake token) :
    MayDo backend calls i events call (ExceptT.mk (.done result))

section Calls

variable {backend : Backend} {τ : Type} {out : Handler backend.sig τ} {calls : List Rpc}
  {clock : Nat → Instant} {t : τ}
  {moves : List (Move (TokenSig.sum backend.sig) (TokenRegistry × τ))}
  {c : Config (TokenSig.sum backend.sig) (TokenRegistry × τ)}

/-- Moves whose briefs are those of the left `moves` have the events `registryEvents moves`. -/
theorem registryEvents_of_briefs {moves' : List (Move TokenSig TokenRegistry)}
    (hbriefs : moves'.map Move.brief = moves.filterMap Move.left?) :
    registryEvents moves = eventsOf moves' := by
  rw [registryEvents, ← hbriefs, List.map_map]
  rfl

/-- How many handshakes have drawn a number. -/
def handshakesOf (events : List (Nat × TokenOp)) : Nat :=
  events.countP fun event => event.2 = .fetchAdd

/-- The `handshakes` of moves are those of their events. -/
theorem handshakes_eq (moves : List (Move TokenSig TokenRegistry)) :
    handshakes moves = handshakesOf (eventsOf moves) := by
  rw [handshakes, handshakesOf, eventsOf, List.countP_map]
  rfl

/-- What `extractSessionInfo` answers to a header: `none` without a key, and otherwise the session
that one look at the registry finds for it. -/
theorem returns_extractSessionInfo_iff {header : Option (List UInt8)} {events : List (Event TokenSig)}
    {info : Option SessionInfo} : (extractSessionInfo header).Returns events info ↔
      (header.bind headerToStr = none ∧ events = [] ∧ info = none) ∨
        ∃ key session, header.bind headerToStr = some key ∧
          events = [⟨.sessionsGet key, session⟩] ∧ info = Option.map SessionEntry.info session := by
  rw [extractSessionInfo]
  cases header.bind headerToStr with
  | none =>
    rw [show (pure none : Program TokenSig (Option SessionInfo)) = .done none from rfl,
      Program.returns_done_iff]
    simp
  | some key =>
    show (Program.call (S := TokenSig) (.sessionsGet key) fun session =>
      .done (session.map SessionEntry.info)).Returns events info ↔ _
    rw [Program.returns_call_iff]
    constructor
    · rintro ⟨session, rest, rfl, hrest⟩
      obtain ⟨rfl, rfl⟩ := Program.returns_done_iff.mp hrest
      exact .inr ⟨key, session, rfl, rfl, rfl⟩
    · rintro (⟨hnone, -⟩ | ⟨key', session, hkey, rfl, rfl⟩)
      · cases hnone
      · cases hkey
        exact ⟨session, [], rfl, .refl _⟩

variable {moves' : List (Move TokenSig TokenRegistry)} {c' : Config TokenSig TokenRegistry}

/-- Whoever is told a session `si` for its header has looked the key up before, and acts for who has
opened it, as `ActsFor` says. -/
theorem actsFor_of_returns (run' : Interleaving TokenRegistry.handler
      ⟨(calls.map tokenCall).map TokenCall.program, .new clock⟩ moves' c')
    (hfew : handshakes moves' < 2 ^ 64) {i : Nat} {header : Option (List UInt8)} {si : SessionInfo}
    (hreturns : (extractSessionInfo header).Returns (trace TokenRegistry.handler i moves') (some si)) :
    ActsFor calls i header si (eventsOf moves') := by
  rcases returns_extractSessionInfo_iff.mp hreturns with ⟨-, -, hnone⟩ | ⟨key, session, hkey, htrace, hsi⟩
  · cases hnone
  · obtain ⟨move, hmove, rfl, hevent⟩ := exists_move_of_mem_trace TokenRegistry.handler i
      (htrace ▸ List.mem_singleton_self _)
    obtain ⟨earlier, later, rfl⟩ := List.append_of_mem hmove
    obtain ⟨j, op, before⟩ := move
    obtain rfl : .sessionsGet key = op := congrArg Event.op hevent
    obtain rfl : session = before.state.sessions key := eq_of_heq (Event.mk.inj hevent).2
    obtain ⟨found, hfound, rfl⟩ := Option.map_eq_some_iff.mp hsi.symm
    have hfewer : handshakes earlier < 2 ^ 64 := by
      rw [handshakes, List.countP_append] at hfew
      rw [handshakes]
      omega
    obtain ⟨h, entry, hopened, hinfo⟩ :=
      exists_opened_of_session (run'.before_of_split rfl) hfewer hfound
    refine ⟨key, h, entry, eventsOf earlier, eventsOf later, hkey, ?_, hopened, hinfo⟩
    rw [eventsOf_append]
    rfl

/-- A call that has returned has done its first stage, by its `lefts`, and then its second one, by
its `rights`. -/
theorem stages_of_returns {call : Rpc} {events : List (Event (TokenSig.sum backend.sig))}
    {response : Except Status Response} (h : (rpc backend call).run.Returns events response) :
    ∃ rest, (first backend call).Returns (lefts events) rest ∧
      rest.run.Returns (rights events) response := by
  rw [LogosService.rpc_eq_stages] at h
  let staged : Staged TokenSig backend.sig (BackendM backend Response) (Except Status Response) :=
    ⟨first backend call, fun rest => rest.run⟩
  exact staged.returns_cases h

/-- Every call may do something: there is a `rest` with `MayDo`. -/
theorem exists_mayDo (backend : Backend) (calls : List Rpc) (i : Nat)
    (events : List (Nat × TokenOp)) (call : Rpc) : ∃ rest, MayDo backend calls i events call rest := by
  cases call with
  | request header request => exact ⟨_, .served header request none (by simp)⟩
  | exec header command => exact ⟨_, .unauthenticated header command⟩
  | handshake token => exact ⟨_, .notConsumed token⟩
  | registerToken token taskId agentConfigId role => exact ⟨_, .other _ (.ok .empty) (by simp)⟩
  | revokeToken token => exact ⟨_, .other _ (.ok .empty) (by simp)⟩
  | cleanup => exact ⟨_, .other _ (.ok .empty) (by simp)⟩

/-- **What the registry leaves to do** is what the call `MayDo`, by the events of the run. -/
theorem mayDo_of_returns (run' : Interleaving TokenRegistry.handler
      ⟨(calls.map tokenCall).map TokenCall.program, .new clock⟩ moves' c')
    (hfew : handshakes moves' < 2 ^ 64) {i : Nat} {call : Rpc} {rest : BackendM backend Response}
    (hreturns : (first backend call).Returns (trace TokenRegistry.handler i moves') rest) :
    MayDo backend calls i (eventsOf moves') call rest := by
  cases call with
  | request header request =>
    obtain ⟨asked, more, info, htrace, hinfo, hrest⟩ := Program.returns_bind_iff.mp hreturns
    obtain ⟨rfl, rfl⟩ := Program.returns_done_iff.mp hrest
    rw [List.append_nil] at htrace
    refine .served header request info fun si hsi => ?_
    exact actsFor_of_returns run' hfew (by rw [htrace, ← hsi]; exact hinfo)
  | exec header command =>
    obtain ⟨asked, more, info, htrace, hinfo, hrest⟩ := Program.returns_bind_iff.mp hreturns
    cases info with
    | none =>
      obtain ⟨rfl, rfl⟩ := Program.returns_done_iff.mp hrest
      exact .unauthenticated header command
    | some si =>
      obtain ⟨rfl, rfl⟩ := Program.returns_done_iff.mp hrest
      rw [List.append_nil] at htrace
      exact .executed header command si (actsFor_of_returns run' hfew (htrace ▸ hinfo))
  | handshake token =>
    obtain ⟨asked, more, taken, htrace, htaken, hrest⟩ := Program.returns_bind_iff.mp hreturns
    rcases returns_consume_iff.mp htaken with ⟨-, rfl⟩ | ⟨entry, number, rfl, rfl⟩
    · obtain ⟨rfl, rfl⟩ := Program.returns_done_iff.mp hrest
      exact .notConsumed token
    · obtain ⟨rfl, rfl⟩ := Program.returns_done_iff.mp hrest
      -- The last thing it has done is to issue its key.
      have hissued : (⟨.sessionsInsert (keyOf number) entry, ()⟩ : Event TokenSig) ∈
          trace TokenRegistry.handler i moves' := by
        rw [htrace]
        simp
      obtain ⟨issue, hissue, rfl, hevent⟩ := exists_move_of_mem_trace TokenRegistry.handler i hissued
      obtain ⟨earlier, later, hmoves⟩ := List.append_of_mem hissue
      exact .welcomed token (keyOf number) entry
        (opened_of_issue run' hfew hmoves (congrArg Event.op hevent).symm)
  | registerToken token taskId agentConfigId role =>
    unfold first at hreturns
    dsimp only at hreturns
    split at hreturns
    · obtain ⟨-, rfl⟩ := Program.returns_done_iff.mp hreturns
      exact .other _ (.error (.invalidArgument "token and task_id required")) (by simp)
    · obtain ⟨asked, more, _, -, -, hrest⟩ := Program.returns_bind_iff.mp hreturns
      obtain ⟨-, rfl⟩ := Program.returns_done_iff.mp hrest
      exact .other _ (.ok .empty) (by simp)
  | revokeToken token =>
    obtain ⟨asked, more, _, -, -, hrest⟩ := Program.returns_bind_iff.mp hreturns
    obtain ⟨-, rfl⟩ := Program.returns_done_iff.mp hrest
    exact .other _ (.ok .empty) (by simp)
  | cleanup =>
    obtain ⟨asked, more, _, -, -, hrest⟩ := Program.returns_bind_iff.mp hreturns
    obtain ⟨-, rfl⟩ := Program.returns_done_iff.mp hrest
    exact .other _ (.ok .empty) (by simp)

end Calls

/-- **Whatever is done for a session is done for a registered token**: in every run of any number of
`calls`, with the background task of the registry and fewer than 2^64 `handshakes`, the other parts
of the kernel see a run of programs of their own, one for each call, each of which the call `MayDo`;
and a call that has returned was answered by its program. -/
theorem bound_of_run (backend : Backend) {τ : Type} (out : Handler backend.sig τ) (calls : List Rpc)
    (clock : Nat → Instant) (t : τ)
    {moves : List (Move (TokenSig.sum backend.sig) (TokenRegistry × τ))}
    {c : Config (TokenSig.sum backend.sig) (TokenRegistry × τ)}
    (run : Interleaving (TokenRegistry.handler.sum out)
      ⟨calls.map (thread backend), (.new clock, t)⟩ moves c)
    (hfew : handshakesOf (registryEvents moves) < 2 ^ 64) :
    ∃ rests : Nat → BackendM backend Response,
      (∀ i call, calls[i]? = some call →
        MayDo backend calls i (registryEvents moves) call (rests i) ∧
        ∀ response, (rpc backend call).run.Returns (trace (TokenRegistry.handler.sum out) i moves)
            response →
          (rests i).run.Returns (rights (trace (TokenRegistry.handler.sum out) i moves)) response) ∧
      ∃ moves' c', Interleaving out
          ⟨calls.mapIdx fun i _ => (rests i).run >>= fun _ => .done (), t⟩ moves' c' ∧
        moves'.map Move.brief = moves.filterMap Move.right? ∧ c'.state = c.state.2 := by
  obtain ⟨moves₁, c₁, run₁, hbriefs, -⟩ := exists_registryRun run
  rw [registryEvents_of_briefs hbriefs] at hfew ⊢
  rw [← handshakes_eq] at hfew
  -- What is left to do for each call: what the registry has left, or anything if it has not answered.
  have hrests : ∀ i, ∃ rest : BackendM backend Response, ∀ call, calls[i]? = some call →
      MayDo backend calls i (eventsOf moves₁) call rest ∧
        ∀ rest', (first backend call).Returns (trace TokenRegistry.handler i moves₁) rest' →
          rest = rest' := by
    intro i
    cases hcall : calls[i]? with
    | none => exact ⟨throw (.internal []), by simp⟩
    | some call =>
      by_cases hreturned :
          ∃ rest, (first backend call).Returns (trace TokenRegistry.handler i moves₁) rest
      · obtain ⟨rest, hreturns⟩ := hreturned
        refine ⟨rest, fun call' heq => ?_⟩
        obtain rfl := Option.some_inj.mp heq
        exact ⟨mayDo_of_returns run₁ hfew hreturns, fun rest' h => hreturns.unique h⟩
      · obtain ⟨rest, hmayDo⟩ := exists_mayDo backend calls i (eventsOf moves₁) call
        refine ⟨rest, fun call' heq => ?_⟩
        obtain rfl := Option.some_inj.mp heq
        exact ⟨hmayDo, fun rest' h => absurd ⟨rest', h⟩ hreturned⟩
  choose rests hrests using hrests
  have hleft : ∀ i, trace TokenRegistry.handler i moves₁
      = lefts (trace (TokenRegistry.handler.sum out) i moves) := trace_of_left hbriefs
  refine ⟨rests, fun i call hcall => ⟨(hrests i call hcall).1, fun response hreturns => ?_⟩, ?_⟩
  · obtain ⟨rest, hfirst, hsecond⟩ := stages_of_returns hreturns
    rw [(hrests i call hcall).2 rest (hleft i ▸ hfirst)]
    exact hsecond
  · rw [map_thread] at run
    obtain ⟨moves', c', run', hbriefs', hstate⟩ := run.seconds rests fun i staged rest hstaged hreturns => by
      obtain ⟨call, hcall, rfl⟩ := Option.map_eq_some_iff.mp (List.getElem?_map ▸ hstaged)
      exact (hrests i call hcall).2 rest (hleft i ▸ hreturns)
    refine ⟨moves', c', ?_, hbriefs', hstate⟩
    have hsame : ((calls.map (stages backend)).mapIdx fun i staged => staged.second (rests i))
        = calls.mapIdx fun i _ => (rests i).run >>= fun _ => .done () := by
      refine List.ext_getElem? fun i => ?_
      rw [List.getElem?_mapIdx, List.getElem?_mapIdx, List.getElem?_map, Option.map_map]
      rfl
    rwa [hsame] at run'

/-- An administrator's task gets its container, and prints a word in it. -/
def firstTask : List Rpc :=
  [.registerToken "tok" "t-1" "a-1" "admin", .handshake "tok", .exec (some headerOfOne) "echo hi"]

/-- The kernel on a host. -/
def onHost : Backend :=
  .kernel JsonText.codec ⟨true, onData, procOfEcho⟩ (HostExecutor.executor (.ofStr "/data")) (.ofStr "/logos")

/-- A host on which directories can be made, and the shell prints a word. -/
def printing : Outside HostSig Unit where
  sockThere _ := false
  createDirAll _ s := (.ok (), s)
  executor
    | .createDirAll _, s => (.ok (), s)
    | .shell .., s => (.ok ⟨"hi", [], 0⟩, s)

/-- What is behind the kernel. -/
abbrev behind : Handler onHost.sig (KernelState Unit × SandboxState Unit) :=
  Handler.sum (kernelHandler echoing) (sandboxHandler printing)

/-- Nothing has happened. -/
def beforeFirst : Config (TokenSig.sum onHost.sig)
    (TokenRegistry × KernelState Unit × SandboxState Unit) where
  threads := firstTask.map (thread onHost)
  state := (.new fun n => n, oneCall.state, ⟨.empty, .empty, ()⟩)

/-- The calls are made one after the other. -/
def oneByOne : List Nat := 0 :: (List.replicate 8 1 ++ List.replicate 5 2)

/-- In the run of `firstTask`, the command of the third call is executed for the task that the first
has registered. -/
theorem bound_of_run_firstTask : ∃ moves c,
    Interleaving (TokenRegistry.handler.sum behind) beforeFirst moves c ∧
    ∃ rests : Nat → BackendM onHost Response, MayDo onHost firstTask 2 (registryEvents moves)
      (.exec (some headerOfOne) "echo hi") (rests 2) := by
  have run := Interleaving.of_play (TokenRegistry.handler.sum behind) beforeFirst oneByOne
  obtain ⟨rests, hrests, -⟩ := bound_of_run onHost behind firstTask _ _ run (by decide +kernel)
  exact ⟨_, _, run, rests, (hrests 2 _ rfl).1⟩

/-! ## What a key is good for -/

/-- A character of visible ASCII is one byte. -/
def IsVisible (c : Char) : Prop :=
  String.utf8EncodeChar c = [UInt8.ofNat c.toNat] ∧ 32 ≤ UInt8.ofNat c.toNat ∧
    UInt8.ofNat c.toNat < 127 ∧ Char.ofNat (UInt8.ofNat c.toNat).toNat = c

instance (c : Char) : Decidable (IsVisible c) := inferInstanceAs (Decidable (_ ∧ _))

/-- The characters of a key `keyOf number` are visible ones, `IsVisible`. -/
theorem isVisible_of_mem_keyOf {number : Nat} {c : Char} (hc : c ∈ keyOf number) : IsVisible c := by
  have hchars : ∀ c ∈ "s-0123456789".toList, IsVisible c := by decide
  refine hchars c ?_
  rcases List.mem_append.mp hc with hc | hc
  · exact List.mem_append_left "0123456789".toList hc
  · have hdigit := Str.isDigit_of_mem_ofNat hc
    rw [Char.isDigit, Bool.and_eq_true, decide_eq_true_iff, decide_eq_true_iff] at hdigit
    have hnat : c.toNat ∈ List.range' 48 10 := by
      rw [List.mem_range'_1]
      exact ⟨hdigit.1, Nat.lt_succ_of_le hdigit.2⟩
    have hdigits : ∀ n ∈ List.range' 48 10, Char.ofNat n ∈ "0123456789".toList := by decide
    rw [← Char.ofNat_toNat c]
    exact List.mem_append_right "s-".toList (hdigits _ hnat)

/-- **A key can be sent in a header**: `parseHeader` takes every `keyOf number`, and `headerToStr`
reads it back. -/
theorem headerToStr_keyOf (number : Nat) : parseHeader (keyOf number) = some (Utf8.encode (keyOf number)) ∧
    headerToStr (Utf8.encode (keyOf number)) = some (keyOf number) := by
  have hbytes : ∀ text : Str, (∀ c ∈ text, IsVisible c) →
      (∀ byte ∈ Utf8.encode text, 32 ≤ byte ∧ byte < 127) ∧
        (Utf8.encode text).map (fun byte => Char.ofNat byte.toNat) = text := by
    intro text
    induction text with
    | nil => exact fun _ => ⟨by simp [Utf8.encode], rfl⟩
    | cons c text ih =>
      intro hall
      obtain ⟨hbyte, hlow, hhigh, hchar⟩ := hall c List.mem_cons_self
      obtain ⟨hvisible, hmap⟩ := ih fun c' hc' => hall c' (List.mem_cons_of_mem c hc')
      rw [Utf8.encode_cons, hbyte]
      constructor
      · intro byte' hbyte'
        rcases List.mem_append.mp hbyte' with hbyte' | hbyte'
        · rw [List.mem_singleton.mp hbyte']
          exact ⟨hlow, hhigh⟩
        · exact hvisible byte' hbyte'
      · rw [List.map_append, hmap, List.map_singleton, hchar]
        rfl
  obtain ⟨hvisible, hmap⟩ := hbytes (keyOf number) fun c hc => isVisible_of_mem_keyOf hc
  constructor
  · rw [parseHeader, if_pos]
    rw [List.all_eq_true]
    intro byte hbyte
    obtain ⟨hlow, hhigh⟩ := hvisible byte hbyte
    exact decide_eq_true (.inl ⟨hlow, fun heq => by rw [heq] at hhigh; exact absurd hhigh (by decide)⟩)
  · rw [headerToStr, if_pos, hmap]
    rw [List.all_eq_true]
    exact fun byte hbyte => decide_eq_true (.inl (hvisible byte hbyte))

/-- The session header of a call. -/
def Rpc.header? : Rpc → Option (List UInt8)
  | .request header _ | .exec header _ => header
  | _ => none

section Keys

variable {backend : Backend} {τ : Type} {out : Handler backend.sig τ} {calls : List Rpc}
  {clock : Nat → Instant} {t : τ}
  {moves : List (Move (TokenSig.sum backend.sig) (TokenRegistry × τ))}
  {c : Config (TokenSig.sum backend.sig) (TokenRegistry × τ)}

/-- A cleanup among the moves finds a session expired that was issued at this time. -/
def FindsExpired (createdAt : Instant)
    (moves : List (Move (TokenSig.sum backend.sig) (TokenRegistry × τ))) : Prop :=
  ∃ move ∈ moves, ∃ now, move.op = .inl (.sessionsRetain now) ∧ sessionTtl ≤ now - createdAt

/-- **What the key of a handshake is good for.** -/
structure KeyServes (backend : Backend) {τ : Type} (out : Handler backend.sig τ) (calls : List Rpc)
    (moves : List (Move (TokenSig.sum backend.sig) (TokenRegistry × τ))) (i : Nat) (key : Str)
    (entry : PendingEntry) (header : List UInt8) : Prop where
  /-- The handshake has opened the session, for an entry that was registered. -/
  opened : Opened calls i key entry (registryEvents moves)
  /-- The header carries the key. -/
  read : headerToStr header = some key
  /-- No other handshake answers with the header. -/
  alone : ∀ j token, calls[j]? = some (.handshake token) →
    (rpc backend (.handshake token)).run.Returns (trace (TokenRegistry.handler.sum out) j moves)
      (.ok (.handshake true [] (some header))) → j = i
  /-- A call with the header that looks the key up later is told the session of the entry, until a
  cleanup finds it expired. -/
  serves : ∀ earlier issue between lookup later,
    moves = earlier ++ issue :: (between ++ lookup :: later) →
    issue.op = .inl (.sessionsInsert key entry) → lookup.op = .inl (.sessionsGet key) →
    ∀ call, calls[lookup.thread]? = some call → call.header? = some header → ∀ info,
      (extractSessionInfo (some header)).Returns
          (lefts (trace (TokenRegistry.handler.sum out) lookup.thread moves)) info ↔
        (info = some ⟨entry.taskId, entry.agentConfigId, entry.role⟩ ∧
            ¬FindsExpired (issue.before.state.1.clock 0) between) ∨
          (info = none ∧ FindsExpired (issue.before.state.1.clock 0) between)

/-- A handshake that has consumed its token answers with its key: `welcome` returns
`.handshake true` with it. -/
theorem response_of_welcome {number : Nat} {taskId agentConfigId : Str}
    {events : List (Event backend.sig)} {response : Except Status Response}
    (h : (welcome backend (keyOf number) taskId agentConfigId).run.Returns events response) :
    response = .ok (.handshake true [] (some (Utf8.encode (keyOf number)))) := by
  unfold welcome at h
  rw [(headerToStr_keyOf number).1] at h
  dsimp only at h
  split at h
  · rcases Program.returns_exceptBind_iff.mp h with ⟨e, hignored, -⟩ | ⟨_, second, _, -, -, hsecond⟩
    · -- What is ignored does not fail.
      obtain ⟨_, more, _, -, -, hmore⟩ := Program.returns_bind_iff.mp hignored
      cases (Program.returns_done_iff.mp hmore).2
    · exact (Program.returns_done_iff.mp hsecond).2
  · exact (Program.returns_done_iff.mp h).2

/-- **What a handshake answers**: a refusal where its token was not pending, and otherwise
`.handshake true` with the key that it has issued. -/
theorem handshake_cases {token : Str} {events : List (Event (TokenSig.sum backend.sig))}
    {response : Except Status Response}
    (h : (rpc backend (.handshake token)).run.Returns events response) :
    (lefts events = [⟨.pendingRemove token, (none : Option PendingEntry)⟩] ∧
        response = .ok (.handshake false "invalid or already consumed token" none)) ∨
      ∃ (entry : PendingEntry) (number : Nat), lefts events = [⟨.pendingRemove token, some entry⟩,
          ⟨.fetchAdd, number⟩, ⟨.sessionsInsert (keyOf number) entry, ()⟩] ∧
        response = .ok (.handshake true [] (some (Utf8.encode (keyOf number)))) := by
  obtain ⟨rest, hfirst, hsecond⟩ := stages_of_returns h
  obtain ⟨asked, more, taken, htrace, htaken, hrest⟩ := Program.returns_bind_iff.mp hfirst
  rcases returns_consume_iff.mp htaken with ⟨rfl, rfl⟩ | ⟨entry, number, rfl, rfl⟩
  · obtain ⟨rfl, rfl⟩ := Program.returns_done_iff.mp hrest
    exact .inl ⟨htrace, (Program.returns_done_iff.mp hsecond).2⟩
  · obtain ⟨rfl, rfl⟩ := Program.returns_done_iff.mp hrest
    exact .inr ⟨entry, number, htrace, response_of_welcome hsecond⟩

/-- A registration in the events of the moves, `RegisteredFor`, is one in the moves, `Registered`.
-/
theorem registered_of_registeredFor {moves' : List (Move TokenSig TokenRegistry)} {token : Str}
    {entry : PendingEntry} (h : RegisteredFor token entry (eventsOf moves')) :
    Registered token entry moves' := since_map.mp h

/-- Moves are split into `earlier'`, one move and `later'` where their briefs are. -/
theorem split_of_briefs {S : Signature} {σ : Type} {moves' : List (Move S σ)} {brief : Nat × S.Op × σ}
    {earlier later : List (Nat × S.Op × σ)} (h : moves'.map Move.brief = earlier ++ brief :: later) :
    ∃ earlier' move later', moves' = earlier' ++ move :: later' ∧
      earlier'.map Move.brief = earlier ∧ move.brief = brief ∧ later'.map Move.brief = later := by
  obtain ⟨earlier', rest, rfl, hearlier, hrest⟩ := List.map_eq_append_iff.mp h
  obtain ⟨move, later', rfl, hmove, hlater⟩ := List.map_eq_cons_iff.mp hrest
  exact ⟨earlier', move, later', rfl, hearlier, hmove, hlater⟩

/-- A call with a header does nothing in the registry but `resolveInfo` of its key. -/
theorem tokenCall_of_header? {call : Rpc} {header : List UInt8} {key : Str}
    (h : call.header? = some header) (hkey : headerToStr header = some key) :
    tokenCall call = .resolveInfo key := by
  cases call with
  | request header' request =>
    obtain rfl : header' = some header := h
    unfold tokenCall
    dsimp only
    rw [Option.bind_some, hkey]
  | exec header' command =>
    obtain rfl : header' = some header := h
    unfold tokenCall
    dsimp only
    rw [Option.bind_some, hkey]
  | handshake token => cases h
  | registerToken token taskId agentConfigId role => cases h
  | revokeToken token => cases h
  | cleanup => cases h

variable {moves' : List (Move TokenSig TokenRegistry)} {c' : Config TokenSig TokenRegistry} {key : Str}
  {entry : PendingEntry} {header : List UInt8}

/-- What a call has looked up by its header: the only event of its trace is the `.sessionsGet` of
the key. -/
theorem trace_of_lookup (run' : Interleaving TokenRegistry.handler
      ⟨(calls.map tokenCall).map TokenCall.program, .new clock⟩ moves' c')
    {lookup : Move TokenSig TokenRegistry} (hmem : lookup ∈ moves')
    (hlookup : lookup.op = .sessionsGet key) {call : Rpc} (hcall : calls[lookup.thread]? = some call)
    (hheader : call.header? = some header) (hkey : headerToStr header = some key) :
    trace TokenRegistry.handler lookup.thread moves'
      = [⟨.sessionsGet key, lookup.before.state.sessions key⟩] := by
  obtain ⟨q, -, hfollows⟩ := run'.follows (i := lookup.thread)
    (p := (TokenCall.resolveInfo key).program) (by
      rw [List.getElem?_map, List.getElem?_map, hcall, Option.map_some, Option.map_some,
        tokenCall_of_header? hheader hkey])
  obtain ⟨i, op, before⟩ := lookup
  obtain rfl : op = .sessionsGet key := hlookup
  have hevent : (⟨.sessionsGet key, before.state.sessions key⟩ : Event TokenSig)
      ∈ trace TokenRegistry.handler i moves' :=
    List.mem_map.mpr ⟨_, List.mem_filter.mpr ⟨hmem, by simp⟩, rfl⟩
  rcases Follows.call_cases hfollows with ⟨hnil, -⟩ | ⟨session, rest, htrace, hrest⟩
  · dsimp only at hnil
    rw [hnil] at hevent
    cases hevent
  · obtain ⟨rfl, -⟩ := Follows.of_done hrest
    dsimp only at htrace
    rw [htrace, List.mem_singleton] at hevent
    rw [htrace, hevent]

/-- **A key that has been issued once** tells `extractSessionInfo` the session of its entry, until a
cleanup finds it expired. -/
theorem returns_extractSessionInfo_of_lookup (run' : Interleaving TokenRegistry.handler
      ⟨(calls.map tokenCall).map TokenCall.program, .new clock⟩ moves' c')
    (hfew : handshakes moves' < 2 ^ 64) {earlier between later : List (Move TokenSig TokenRegistry)}
    {issue lookup : Move TokenSig TokenRegistry}
    (hmoves : moves' = earlier ++ issue :: (between ++ lookup :: later))
    (hissue : issue.op = .sessionsInsert key entry) (hlookup : lookup.op = .sessionsGet key)
    {call : Rpc} (hcall : calls[lookup.thread]? = some call) (hheader : call.header? = some header)
    (hkey : headerToStr header = some key) (info : Option SessionInfo) :
    (extractSessionInfo (some header)).Returns
        (trace TokenRegistry.handler lookup.thread moves') info ↔
      (info = some ⟨entry.taskId, entry.agentConfigId, entry.role⟩ ∧
          ∀ m ∈ between, ¬Expires (entry.issue (issue.before.state.clock 0)) m) ∨
        (info = none ∧ ∃ m ∈ between, Expires (entry.issue (issue.before.state.clock 0)) m) := by
  have hmem : lookup ∈ moves' := by simp [hmoves]
  rw [trace_of_lookup run' hmem hlookup hcall hheader hkey, returns_extractSessionInfo_iff]
  have hsplit : moves' = (earlier ++ issue :: between) ++ lookup :: later := by
    rw [hmoves, List.append_assoc, List.cons_append]
  have hbefore := run'.before_of_split hsplit
  -- The key has been issued once, up to here.
  have hfewer : handshakes (earlier ++ issue :: between) < 2 ^ 64 := by
    rw [hsplit, handshakes, List.countP_append] at hfew
    rw [handshakes]
    omega
  obtain ⟨states, hstates⟩ := exists_issuing hbefore hfewer
  have hsession : ∀ session, lookup.before.state.sessions key = some session ↔
      session = entry.issue (issue.before.state.clock 0) ∧ ∀ m ∈ between, ¬Expires session m :=
    fun session => (sessions_eq_some_iff hbefore).trans
      (live_iff_of_nodup hissue (List.nodup_append.mp hstates.distinct).2.1)
  constructor
  · rintro (⟨hnone, -⟩ | ⟨key', session, hkey', hevent, rfl⟩)
    · rw [Option.bind_some, hkey] at hnone
      cases hnone
    · rw [Option.bind_some, hkey, Option.some_inj] at hkey'
      subst hkey'
      obtain rfl : lookup.before.state.sessions key = session :=
        eq_of_heq (Event.mk.inj (List.singleton_inj.mp hevent)).2
      cases hfound : lookup.before.state.sessions key with
      | some session =>
        obtain ⟨rfl, hexpires⟩ := (hsession session).mp hfound
        exact .inl ⟨rfl, hexpires⟩
      | none =>
        refine .inr ⟨rfl, ?_⟩
        by_contra hnever
        push Not at hnever
        have hlive := (hsession _).mpr ⟨rfl, hnever⟩
        rw [hfound] at hlive
        cases hlive
  · intro hinfo
    refine .inr ⟨key, lookup.before.state.sessions key, hkey, rfl, ?_⟩
    rcases hinfo with ⟨rfl, hnever⟩ | ⟨rfl, m, hm, hexpires⟩
    · rw [(hsession _).mpr ⟨rfl, hnever⟩]
      rfl
    · cases hfound : lookup.before.state.sessions key with
      | none => rfl
      | some session =>
        obtain ⟨rfl, hnever⟩ := (hsession session).mp hfound
        exact absurd hexpires (hnever m hm)

/-- **A handshake that was refused** has asked by `.pendingRemove` for a token that was not
registered by then. -/
theorem exists_take_of_refused (run : Interleaving TokenRegistry.handler
      ⟨(calls.map tokenCall).map TokenCall.program, .new clock⟩ moves' c')
    (hbriefs : moves'.map Move.brief = moves.filterMap Move.left?) {i : Nat} {token : Str}
    (htrace : trace TokenRegistry.handler i moves'
      = [⟨.pendingRemove token, (none : Option PendingEntry)⟩]) :
    ∃ earlier take later, moves = earlier ++ take :: later ∧ take.thread = i ∧
      take.op = .inl (.pendingRemove token) ∧
      ∀ entry, ¬RegisteredFor token entry (registryEvents earlier) := by
  obtain ⟨take, htake, rfl, hevent⟩ := exists_move_of_mem_trace TokenRegistry.handler i
    (htrace ▸ List.mem_singleton_self _)
  obtain ⟨earlier', later', hmoves'⟩ := List.append_of_mem htake
  obtain ⟨j, op, before⟩ := take
  obtain rfl : .pendingRemove token = op := congrArg Event.op hevent
  have hpending : before.state.pending token = none := (eq_of_heq (Event.mk.inj hevent).2).symm
  -- The move of the whole run is the same one.
  rw [hmoves', List.map_append, List.map_cons] at hbriefs
  obtain ⟨earlier, rest, rfl, hearlier, hrest⟩ := List.filterMap_eq_append_iff.mp hbriefs.symm
  obtain ⟨skipped, take, later, rfl, hskipped, htake', hlater⟩ := List.filterMap_eq_cons_iff.mp hrest
  have hbefore := run.before_of_split hmoves'
  have hsame : registryEvents (earlier ++ skipped) = eventsOf earlier' := by
    refine registryEvents_of_briefs ?_
    rw [List.filterMap_append, hearlier, List.filterMap_eq_nil_iff.mpr hskipped, List.append_nil]
  have hop : take.op = .inl (.pendingRemove token) ∧ take.thread = j := by
    unfold Move.left? at htake'
    split at htake'
    · rename_i op hop
      have hbrief := Option.some_inj.mp htake'
      exact ⟨hop.trans (congrArg (fun brief => Sum.inl brief.2.1) hbrief), congrArg Prod.fst hbrief⟩
    · cases htake'
  refine ⟨earlier ++ skipped, take, later, (List.append_assoc _ _ _).symm, hop.2, hop.1,
    fun entry hregistered => ?_⟩
  rw [hsame] at hregistered
  have hsome := (pending_eq_some_iff hbefore).mpr (registered_of_registeredFor hregistered)
  rw [hpending] at hsome
  cases hsome

/-- Cleanups are moves of the registry: one `Expires` the session exactly if the whole run
`FindsExpired`. -/
theorem exists_expires_iff_findsExpired {createdAt : Instant}
    (hbriefs : moves'.map Move.brief = moves.filterMap Move.left?) :
    (∃ m ∈ moves', Expires (entry.issue createdAt) m) ↔ FindsExpired createdAt moves := by
  have hbrief : (∃ m ∈ moves', Expires (entry.issue createdAt) m) ↔
      ∃ brief ∈ moves'.map Move.brief, ∃ now, brief.2.1 = .sessionsRetain now ∧
        sessionTtl ≤ now - createdAt := by
    constructor
    · rintro ⟨m, hm, hexpires⟩
      exact ⟨m.brief, List.mem_map_of_mem hm, hexpires⟩
    · rintro ⟨brief, hmem, hexpires⟩
      obtain ⟨m, hm, rfl⟩ := List.mem_map.mp hmem
      exact ⟨m, hm, hexpires⟩
  rw [hbrief, hbriefs]
  constructor
  · rintro ⟨brief, hmem, now, hop, hexpired⟩
    obtain ⟨move, hmove, hleft⟩ := List.mem_filterMap.mp hmem
    refine ⟨move, hmove, now, ?_, hexpired⟩
    unfold Move.left? at hleft
    split at hleft
    · rename_i op hmoveop
      cases hleft
      rw [hmoveop]
      exact congrArg _ hop
    · cases hleft
  · rintro ⟨move, hmove, now, hop, hexpired⟩
    refine ⟨(move.thread, .sessionsRetain now, move.before.state.1), ?_, now, rfl, hexpired⟩
    exact List.mem_filterMap.mpr ⟨move, hmove, by rw [Move.left?, hop]⟩

end Keys

/-- **A handshake is answered with a key that is good for its session**, in every run of any number
of calls with the background task of the registry and fewer than 2^64 `handshakes`: a handshake is
refused if its token was not registered when it asked; otherwise it is answered with a key, whatever
happens to the container, and `KeyServes` the session for which the token was registered. -/
theorem keyServes_of_run (backend : Backend) {τ : Type} (out : Handler backend.sig τ) (calls : List Rpc)
    (clock : Nat → Instant) (t : τ)
    {moves : List (Move (TokenSig.sum backend.sig) (TokenRegistry × τ))}
    {c : Config (TokenSig.sum backend.sig) (TokenRegistry × τ)}
    (run : Interleaving (TokenRegistry.handler.sum out)
      ⟨calls.map (thread backend), (.new clock, t)⟩ moves c)
    (hfew : handshakesOf (registryEvents moves) < 2 ^ 64) (i : Nat) (token : Str)
    (_hcall : calls[i]? = some (.handshake token)) (response : Except Status Response)
    (hreturns : (rpc backend (.handshake token)).run.Returns
      (trace (TokenRegistry.handler.sum out) i moves) response) :
    (response = .ok (.handshake false "invalid or already consumed token" none) ∧
        ∃ earlier take later, moves = earlier ++ take :: later ∧ take.thread = i ∧
          take.op = .inl (.pendingRemove token) ∧
          ∀ entry, ¬RegisteredFor token entry (registryEvents earlier)) ∨
      ∃ key entry header, response = .ok (.handshake true [] (some header)) ∧
        KeyServes backend out calls moves i key entry header := by
  obtain ⟨moves', c', run', hbriefs, hstate⟩ := exists_registryRun run
  have hlefts : ∀ i, trace TokenRegistry.handler i moves'
      = lefts (trace (TokenRegistry.handler.sum out) i moves) := trace_of_left hbriefs
  have hevents := registryEvents_of_briefs hbriefs
  rw [hevents, ← handshakes_eq] at hfew
  rcases handshake_cases hreturns with ⟨htrace, rfl⟩ | ⟨entry, number, htrace, rfl⟩
  · -- The token was not pending when it was asked for.
    rw [← hlefts] at htrace
    exact .inl ⟨rfl, exists_take_of_refused run' hbriefs htrace⟩
  · -- It has issued a key, for the entry that it has taken.
    refine .inr ⟨keyOf number, entry, _, rfl, ?_⟩
    rw [← hlefts] at htrace
    obtain ⟨issue, hissue, hthread, hop⟩ := exists_issue_of_trace htrace
    obtain ⟨first, last, hmoves'⟩ := List.append_of_mem hissue
    have hread := (headerToStr_keyOf number).2
    refine ⟨?_, hread, fun j token' hcall' hreturns' => ?_, ?_⟩
    · rw [hevents, ← hthread]
      exact opened_of_issue run' hfew hmoves' hop
    · rcases handshake_cases hreturns' with ⟨-, hrefused⟩ | ⟨entry', number', htrace', hanswer⟩
      · cases hrefused
      · -- The key is the same one, and it is issued once.
        have hnumber : keyOf number' = keyOf number := by
          have hheader : Utf8.encode (keyOf number) = Utf8.encode (keyOf number') := by
            simpa using hanswer
          have hread' := (headerToStr_keyOf number').2
          rw [← hheader, hread] at hread'
          exact (Option.some_inj.mp hread').symm
        rw [← hlefts] at htrace'
        obtain ⟨issue', hissue', hthread', hop'⟩ := exists_issue_of_trace htrace'
        rw [← hthread, ← hthread']
        exact thread_eq_of_issues run' hfew hissue' hissue (by rw [hop', hnumber]; rfl)
          (by rw [hop]; rfl)
    · intro earlier issue' between lookup later hmoves hop' hlookup call hcall' hheader info
      -- The moves of the registry are split at the same operations.
      have hissued : Move.left? issue' = some (issue'.thread, .sessionsInsert (keyOf number) entry,
          issue'.before.state.1) := by rw [Move.left?, hop']
      have hlooked : Move.left? lookup = some (lookup.thread, .sessionsGet (keyOf number),
          lookup.before.state.1) := by rw [Move.left?, hlookup]
      rw [hmoves, List.filterMap_append, List.filterMap_cons_some hissued, List.filterMap_append,
        List.filterMap_cons_some hlooked] at hbriefs
      obtain ⟨first', issued, rest, hmoves₁, -, hbrief, hrest⟩ := split_of_briefs hbriefs
      obtain ⟨between', looked, last', rfl, hbetween, hbrief', -⟩ := split_of_briefs hrest
      have hcreated : issued.before.state = issue'.before.state.1 := congrArg (·.2.2) hbrief
      have hthread₁ : looked.thread = lookup.thread := congrArg Prod.fst hbrief'
      have hlookup' := returns_extractSessionInfo_of_lookup run' hfew hmoves₁
        (congrArg (·.2.1) hbrief) (congrArg (·.2.1) hbrief') (hthread₁ ▸ hcall') hheader hread info
      rw [hthread₁, hlefts, hcreated] at hlookup'
      rw [hlookup', ← exists_expires_iff_findsExpired hbetween]
      push Not
      rfl

/-- The handshake of `firstTask` is answered with the first key, and `KeyServes` its session. -/
theorem keyServes_of_run_firstTask : ∃ moves c,
    Interleaving (TokenRegistry.handler.sum behind) beforeFirst moves c ∧
    ∃ key entry header, KeyServes onHost behind firstTask moves 1 key entry header := by
  have run := Interleaving.of_play (TokenRegistry.handler.sum behind) beforeFirst oneByOne
  have hreturns : (rpc onHost (.handshake "tok")).run.Returns
      (trace (TokenRegistry.handler.sum behind) 1
        (beforeFirst.play (TokenRegistry.handler.sum behind) oneByOne).1)
      (.ok (.handshake true [] (some headerOfOne))) :=
    .call (.call (.call (.call (.call (.call (.call (.call (.refl _))))))))
  rcases keyServes_of_run onHost behind firstTask _ _ run (by decide +kernel) 1 "tok" rfl _ hreturns with
    ⟨hrefused, -⟩ | ⟨key, entry, header, -, hserves⟩
  · cases hrefused
  · exact ⟨_, _, run, key, entry, header, hserves⟩

end LogosFs.Kernel
