import Mathlib.Logic.Function.Basic
import LogosFs.Kernel.Access

/-! # The token registry

A one-time token is registered for a task; a handshake consumes it and issues a session key, and a
background task removes sessions a day after they were issued. Every access to one of the maps is a
section under its lock, so the calls are programs over these sections, the counter and the clock. -/

namespace LogosFs.Kernel

/-- A point in time on the monotonic clock, in nanoseconds. -/
abbrev Instant : Type := Nat

/-- The life span of a session: 24 hours. -/
def sessionTtl : Nat := 24 * 3600 * 10 ^ 9

/-- A registered token, not yet consumed. -/
structure PendingEntry where
  /-- The task. -/
  taskId : Str
  /-- The configuration of the agent. -/
  agentConfigId : Str
  /-- The role of the agent. -/
  role : AgentRole
deriving DecidableEq, Repr

/-- A session. -/
structure SessionEntry where
  /-- The task. -/
  taskId : Str
  /-- The configuration of the agent. -/
  agentConfigId : Str
  /-- The role of the agent. -/
  role : AgentRole
  /-- The time the session was issued at. -/
  createdAt : Instant
deriving DecidableEq, Repr

/-- The session that consuming a token issues at a point in time. -/
def PendingEntry.issue (entry : PendingEntry) (now : Instant) : SessionEntry :=
  ⟨entry.taskId, entry.agentConfigId, entry.role, now⟩

/-- What a session resolves to. -/
def SessionEntry.info (entry : SessionEntry) : SessionInfo :=
  ⟨entry.taskId, entry.agentConfigId, entry.role⟩

/-- Whether a session is kept by a cleanup that has read the clock. A clock that has gone backwards
counts as no time. -/
def SessionEntry.isFresh (entry : SessionEntry) (now : Instant) : Bool :=
  now - entry.createdAt < sessionTtl

/-- An atomic operation of the registry. -/
inductive TokenOp where
  /-- Insert a pending token. -/
  | pendingInsert (token : Str) (entry : PendingEntry)
  /-- Remove a pending token and return what was there. -/
  | pendingRemove (token : Str)
  /-- Add one to the counter and return what it was. -/
  | fetchAdd
  /-- Insert a session issued now. -/
  | sessionsInsert (key : Str) (entry : PendingEntry)
  /-- Look a session up. -/
  | sessionsGet (key : Str)
  /-- Read the clock. -/
  | instantNow
  /-- Keep the sessions that are fresh at a point in time. -/
  | sessionsRetain (now : Instant)
deriving DecidableEq, Repr

/-- The operations of the registry. -/
abbrev TokenSig : Signature where
  Op := TokenOp
  Res
    | .pendingRemove _ => Option PendingEntry
    | .fetchAdd => Nat
    | .sessionsGet _ => Option SessionEntry
    | .instantNow => Instant
    | _ => Unit

/-- The state of the registry, and the times the clock will show. -/
structure TokenRegistry where
  /-- The tokens that have not been consumed. -/
  pending : Str → Option PendingEntry
  /-- The sessions. -/
  sessions : Str → Option SessionEntry
  /-- The number of the next session, in 64 bits. -/
  counter : Nat
  /-- The times the clock will show, reading by reading. -/
  clock : Nat → Instant

namespace TokenRegistry

/-- A registry without tokens and sessions. -/
def new (clock : Nat → Instant) : TokenRegistry where
  pending := fun _ => none
  sessions := fun _ => none
  counter := 1
  clock := clock

/-- What an operation of the registry does. -/
def handler : Handler TokenSig TokenRegistry
  | .pendingInsert token entry, r =>
    ((), { r with pending := Function.update r.pending token (some entry) })
  | .pendingRemove token, r =>
    (r.pending token, { r with pending := Function.update r.pending token none })
  | .fetchAdd, r => (r.counter, { r with counter := (r.counter + 1) % 2 ^ 64 })
  | .sessionsInsert key entry, r =>
    ((), { r with
      sessions := Function.update r.sessions key (some (entry.issue (r.clock 0)))
      clock := fun n => r.clock (n + 1) })
  | .sessionsGet key, r => (r.sessions key, r)
  | .instantNow, r => (r.clock 0, { r with clock := fun n => r.clock (n + 1) })
  | .sessionsRetain now, r =>
    ((), { r with sessions := fun key => (r.sessions key).filter fun entry => entry.isFresh now })

/-- Perform one operation. -/
def perform (op : TokenOp) : Program TokenSig (TokenSig.Res op) := Program.perform (S := TokenSig) op

/-- Register a token for a task. -/
def register (token taskId agentConfigId : Str) (role : AgentRole) : Program TokenSig Unit :=
  perform (.pendingInsert token ⟨taskId, agentConfigId, role⟩)

/-- Forget a token that has not been consumed. -/
def revoke (token : Str) : Program TokenSig Unit := do
  let _ ← perform (.pendingRemove token)
  return ()

/-- Consume a one-time token: the session key, the task and the agent configuration. -/
def consume (token : Str) : Program TokenSig (Option (Str × Str × Str)) := do
  match ← perform (.pendingRemove token) with
  | none => return none
  | some entry =>
    let number ← perform .fetchAdd
    let sessionKey : Str := "s-" ++ Str.ofNat number
    perform (.sessionsInsert sessionKey entry)
    return some (sessionKey, entry.taskId, entry.agentConfigId)

/-- What a session key resolves to. -/
def resolveInfo (sessionKey : Str) : Program TokenSig (Option SessionInfo) := do
  let entry ← perform (.sessionsGet sessionKey)
  return entry.map SessionEntry.info

/-- Remove the sessions that are older than their life span. -/
def cleanupExpired : Program TokenSig Unit := do
  let now ← perform .instantNow
  perform (.sessionsRetain now)

end TokenRegistry

/-! ## The session header of a request -/

/-- The text of a header value: visible ASCII only. -/
def headerToStr (value : List UInt8) : Option Str :=
  if value.all fun byte => (32 ≤ byte ∧ byte < 127) ∨ byte = 9 then
    some (value.map fun byte => Char.ofNat byte.toNat)
  else none

/-- The session of a request, from the value of its `x-logos-session` header. A request without the
header, with one that is not text, or with a key of no session has none. -/
def extractSessionInfo (header : Option (List UInt8)) : Program TokenSig (Option SessionInfo) :=
  match header.bind headerToStr with
  | none => return none
  | some sessionKey => TokenRegistry.resolveInfo sessionKey

/-- What the registry answers to a request's header: `extractSessionInfo` looks its key up among
`sessions`, and changes nothing. -/
theorem run_extractSessionInfo (header : Option (List UInt8)) (r : TokenRegistry) :
    (extractSessionInfo header).run TokenRegistry.handler r
      = (((header.bind headerToStr).bind r.sessions).map SessionEntry.info, r) := by
  rw [extractSessionInfo]
  cases header.bind headerToStr with
  | none => rfl
  | some sessionKey => rfl

end LogosFs.Kernel
