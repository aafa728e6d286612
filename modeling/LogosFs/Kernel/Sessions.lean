import LogosFs.Kernel.Token

/-! # What losing a session costs

Over a run of the token registry a key is live from the moment its session is inserted until it is
replaced or a cleanup finds it expired (`Live`); `sessions_eq_some_iff` says that this is what the
registry answers. A request whose header is not live is treated like one without a header, which is
the management interface and may do everything. `refusesDead_iff_and_gains_iff` says so for every
run: such a request is never refused, and what it gains over the live session is whatever the
session itself was refused. -/

namespace LogosFs.Kernel

open LogosFs.System (World)

variable (json : JsonCodec)

/-- A call of the registry. -/
inductive TokenCall where
  /-- Register a token. -/
  | register (token taskId agentConfigId : Str) (role : AgentRole)
  /-- Revoke a token. -/
  | revoke (token : Str)
  /-- Consume a token. -/
  | consume (token : Str)
  /-- Resolve a session key. -/
  | resolveInfo (sessionKey : Str)
  /-- Remove the expired sessions. -/
  | cleanupExpired
deriving DecidableEq, Repr

/-- What a call does, operation by operation. -/
def TokenCall.program : TokenCall → Program TokenSig Unit
  | .register token taskId agentConfigId role =>
    TokenRegistry.register token taskId agentConfigId role
  | .revoke token => TokenRegistry.revoke token
  | .consume token => TokenRegistry.consume token >>= fun _ => .done ()
  | .resolveInfo sessionKey => TokenRegistry.resolveInfo sessionKey >>= fun _ => .done ()
  | .cleanupExpired => TokenRegistry.cleanupExpired

/-- The session that a registry finds for a header. -/
def sessionOf (r : TokenRegistry) (header : List UInt8) : Option SessionInfo :=
  ((extractSessionInfo (some header)).run TokenRegistry.handler r).1

/-- A request with a header is let through. -/
def Allowed (r : TokenRegistry) (header : List UInt8) (op : Operation) (uri : Str) (w : World) :
    Prop :=
  Accepts json (sessionOf r header) (resolveUri uri (sessionOf r header)) op.isWrite w

instance (r : TokenRegistry) (header : List UInt8) (op : Operation) (uri : Str) (w : World) :
    Decidable (Allowed json r header op uri w) := inferInstanceAs (Decidable (Accepts ..))

/-- A request whose header is that of no live session is refused, whatever it asks for. -/
def RefusesDead (r : TokenRegistry) (header : List UInt8) (w : World) : Prop :=
  sessionOf r header = none → ∀ op uri, ¬Allowed json r header op uri w

/-! ## Live sessions -/

section Live

variable (key : Str) (entry : SessionEntry)

/-- The move inserts this very session under the key. -/
def Inserts (move : Move TokenSig TokenRegistry) : Prop :=
  ∃ pending, move.op = .sessionsInsert key pending ∧
    entry = pending.issue (move.before.state.clock 0)

/-- The move inserts some session under the key. -/
def Replaces (move : Move TokenSig TokenRegistry) : Prop :=
  ∃ pending, move.op = .sessionsInsert key pending

/-- The move is a cleanup that finds the session expired. -/
def Expires (move : Move TokenSig TokenRegistry) : Prop :=
  ∃ now, move.op = .sessionsRetain now ∧ sessionTtl ≤ now - entry.createdAt

/-- After these moves the session is live: it was inserted, and since then neither replaced nor
found expired. -/
def Live (moves : List (Move TokenSig TokenRegistry)) : Prop :=
  ∃ earlier move later, moves = earlier ++ move :: later ∧ Inserts key entry move ∧
    ∀ m ∈ later, ¬Replaces key m ∧ ¬Expires entry m

variable {key entry}

/-- One more move: the session is `Live` after it if the move inserts it, or if it was `Live` before
and the move leaves it alone. -/
theorem live_append_singleton {moves : List (Move TokenSig TokenRegistry)}
    {move : Move TokenSig TokenRegistry} : Live key entry (moves ++ [move]) ↔
      Inserts key entry move ∨ Live key entry moves ∧ ¬Replaces key move ∧ ¬Expires entry move :=
  since_append_singleton

/-- What one move does to `sessions`: `Inserts` holds of the entry, or the entry was there and
neither `Replaces` nor `Expires` does. -/
theorem handler_sessions_eq_some_iff (c : Config TokenSig TokenRegistry) (i : Nat) (op : TokenOp) :
    (TokenRegistry.handler op c.state).2.sessions key = some entry ↔
      Inserts key entry ⟨i, op, c⟩ ∨
        c.state.sessions key = some entry ∧ ¬Replaces key ⟨i, op, c⟩ ∧ ¬Expires entry ⟨i, op, c⟩ := by
  cases op with
  | sessionsInsert key' pending =>
    by_cases hkey : key = key'
    · subst hkey
      simp [TokenRegistry.handler, Inserts, Replaces, eq_comm]
    · have hkey' := Ne.symm hkey
      simp [TokenRegistry.handler, Inserts, Replaces, Expires, Function.update_of_ne hkey, hkey']
  | sessionsRetain now =>
    simp [TokenRegistry.handler, Inserts, Replaces, Expires, SessionEntry.isFresh,
      Option.filter_eq_some_iff]
  | _ => simp [TokenRegistry.handler, Inserts, Replaces, Expires]

/-- **The registry knows the live sessions**: after every run `sessions` answers a key with the
session that is `Live` under it. -/
theorem sessions_eq_some_iff {callers : List TokenCall} {clock : Nat → Instant}
    {moves : List (Move TokenSig TokenRegistry)} {c : Config TokenSig TokenRegistry}
    (run : Interleaving TokenRegistry.handler
      ⟨callers.map TokenCall.program, TokenRegistry.new clock⟩ moves c) :
    c.state.sessions key = some entry ↔ Live key entry moves := by
  induction run with
  | start =>
    exact iff_of_false (fun h => nomatch h) not_since_nil
  | @step moves c i op next run ready ih =>
    rw [live_append_singleton, ← ih]
    exact handler_sessions_eq_some_iff c i op

end Live

/-! ## Requests with a header -/

section Requests

variable {r : TokenRegistry} {header : List UInt8}

/-- `sessionOf` looks the key in the header up in the live sessions. -/
theorem sessionOf_eq : sessionOf r header
    = ((headerToStr header).bind r.sessions).map SessionEntry.info := by
  rw [sessionOf, run_extractSessionInfo]
  rfl

/-- The registry finds no session for a `header` exactly when its key is that of none. -/
theorem sessionOf_eq_none_iff : sessionOf r header = none ↔
    ∀ key entry, headerToStr header = some key → r.sessions key ≠ some entry := by
  rw [sessionOf_eq, Option.map_eq_none_iff, Option.bind_eq_none_iff]
  simp only [Option.eq_none_iff_forall_ne_some]
  exact ⟨fun h key entry hkey => h key hkey entry, fun h key hkey entry => h key entry hkey⟩

/-- A `header` with the key of a live session is served for this session, by `sessionOf`. -/
theorem sessionOf_of_session {key : Str} {entry : SessionEntry} (hkey : headerToStr header = some key)
    (hentry : r.sessions key = some entry) : sessionOf r header = some entry.info := by
  rw [sessionOf_eq, hkey, Option.bind_some, hentry, Option.map_some]

/-- Without a session every request is `Allowed`. -/
theorem allowed_of_no_session (h : sessionOf r header = none) (op : Operation) (uri : Str)
    (w : World) : Allowed json r header op uri w := by
  rw [Allowed, h]
  exact accepts_none json _ _ _

end Requests

/-- **Losing a session gains privilege.** After every run of the registry, `RefusesDead` holds of a
header exactly if it is that of a live session; and between a moment at which its session was live
and a later one at which it is not, an operation on a URI gains nothing exactly when the session
itself was `Allowed`. -/
theorem refusesDead_iff_and_gains_iff {callers : List TokenCall} {clock : Nat → Instant}
    {moves later : List (Move TokenSig TokenRegistry)} {c c' : Config TokenSig TokenRegistry}
    (run : Interleaving TokenRegistry.handler
      ⟨callers.map TokenCall.program, TokenRegistry.new clock⟩ moves c)
    (run' : Interleaving TokenRegistry.handler c later c') (header : List UInt8) (w w' : World) :
    (RefusesDead json c'.state header w' ↔
      ∃ key entry, headerToStr header = some key ∧ Live key entry (moves ++ later)) ∧
    ∀ key entry, headerToStr header = some key → Live key entry moves →
      (∀ entry', ¬Live key entry' (moves ++ later)) → ∀ op uri,
        ((Allowed json c'.state header op uri w' → Allowed json c.state header op uri w) ↔
          Accepts json (some entry.info) (resolveUri uri (some entry.info)) op.isWrite w) := by
  -- At both moments the registry knows exactly the sessions that are live.
  have hlive : ∀ key entry, c.state.sessions key = some entry ↔ Live key entry moves :=
    fun _ _ => sessions_eq_some_iff run
  have hlive' : ∀ key entry, c'.state.sessions key = some entry ↔ Live key entry (moves ++ later) :=
    fun _ _ => sessions_eq_some_iff (run.trans run')
  constructor
  · constructor
    · intro hrefuses
      by_contra hdead
      have hnone : sessionOf c'.state header = none := by
        rw [sessionOf_eq_none_iff]
        intro key entry hkey hentry
        exact hdead ⟨key, entry, hkey, (hlive' key entry).mp hentry⟩
      exact hrefuses hnone .read [] (allowed_of_no_session json hnone .read [] w')
    · rintro ⟨key, entry, hkey, hentry⟩ hnone
      rw [sessionOf_of_session hkey ((hlive' key entry).mpr hentry)] at hnone
      cases hnone
  · intro key entry hkey hentry hlost op uri
    have hsome : sessionOf c.state header = some entry.info :=
      sessionOf_of_session hkey ((hlive key entry).mpr hentry)
    have hnone : sessionOf c'.state header = none := by
      rw [sessionOf_eq_none_iff]
      intro key' entry' hkey' hentry'
      rw [hkey, Option.some_inj] at hkey'
      exact hlost entry' ((hlive' key entry').mp (hkey' ▸ hentry'))
    -- Before, the request was allowed if the session's own was; now every request is.
    have hbefore : Allowed json c.state header op uri w ↔
        Accepts json (some entry.info) (resolveUri uri (some entry.info)) op.isWrite w := by
      rw [Allowed, hsome]
    rw [hbefore]
    exact ⟨fun h => h (allowed_of_no_session json hnone op uri w'), fun h _ => h⟩

/-- One token for the user of `t-1`, consumed; a day later the expired sessions are removed. -/
def oneDay : Config TokenSig TokenRegistry where
  threads := [TokenCall.register "tok" "t-1" "a-1" .user, .consume "tok", .cleanupExpired].map
    TokenCall.program
  state := TokenRegistry.new fun n => n * sessionTtl

/-- The header with the key of that session. -/
def headerOfOne : List UInt8 := [115, 45, 49]

/-- The first part of that day, until the session has been issued. -/
def morning : List (Move TokenSig TokenRegistry) × Config TokenSig TokenRegistry :=
  oneDay.play TokenRegistry.handler [0, 1, 1, 1]

/-- The rest of it, with the cleanup. -/
def evening : List (Move TokenSig TokenRegistry) × Config TokenSig TokenRegistry :=
  morning.2.play TokenRegistry.handler [2, 2]

/-- `morning` is an interleaving of the calls of `oneDay`. -/
theorem run_morning : Interleaving TokenRegistry.handler oneDay morning.1 morning.2 :=
  Interleaving.of_play TokenRegistry.handler oneDay [0, 1, 1, 1]

/-- `evening` goes on where `morning` ends. -/
theorem run_evening : Interleaving TokenRegistry.handler morning.2 evening.1 evening.2 :=
  Interleaving.of_play TokenRegistry.handler morning.2 [2, 2]

/-- The session of the morning. -/
def sessionOfOne : SessionEntry := ⟨"t-1", "a-1", .user, 0⟩

/-- After `morning` the session is `Live`. -/
theorem live_morning : Live "s-1" sessionOfOne morning.1 :=
  (sessions_eq_some_iff run_morning).mp rfl

/-- After `evening` the session is not `Live`. -/
theorem not_live_evening (entry : SessionEntry) : ¬Live "s-1" entry (morning.1 ++ evening.1) := by
  rw [← sessions_eq_some_iff (run_morning.trans run_evening)]
  exact fun h => nomatch h

/-- The user of the `morning` may write to the services in the `evening`; this is a gain, as the
session might not. -/
theorem refusesDead_iff_and_gains_iff_one_day :
    (RefusesDead JsonText.codec evening.2.state headerOfOne System.onePending ↔
      ∃ key entry, headerToStr headerOfOne = some key ∧ Live key entry (morning.1 ++ evening.1)) ∧
    ((Allowed JsonText.codec evening.2.state headerOfOne (.write []) "logos://services/tts"
        System.onePending →
      Allowed JsonText.codec morning.2.state headerOfOne (.write []) "logos://services/tts"
        System.onePending) ↔
      Accepts JsonText.codec (some sessionOfOne.info)
        (resolveUri "logos://services/tts" (some sessionOfOne.info)) (Operation.write []).isWrite
        System.onePending) :=
  have h := refusesDead_iff_and_gains_iff JsonText.codec run_morning run_evening headerOfOne
    System.onePending System.onePending
  ⟨h.1, h.2 "s-1" sessionOfOne rfl live_morning not_live_evening (.write []) "logos://services/tts"⟩

/-- The key of the `morning` is let through in the `evening` where it was refused in the morning. -/
theorem evening_gains : sessionOf evening.2.state headerOfOne = none ∧
    ¬RefusesDead JsonText.codec evening.2.state headerOfOne System.onePending ∧
    Allowed JsonText.codec evening.2.state headerOfOne (.write []) "logos://services/tts"
      System.onePending ∧
    ¬Allowed JsonText.codec morning.2.state headerOfOne (.write []) "logos://services/tts"
      System.onePending := by
  have hnone : sessionOf evening.2.state headerOfOne = none := rfl
  have hallowed := fun op uri =>
    allowed_of_no_session JsonText.codec hnone op uri System.onePending
  refine ⟨hnone, fun h => h hnone .read [] (hallowed .read []), hallowed (.write []) _, ?_⟩
  decide

end LogosFs.Kernel
