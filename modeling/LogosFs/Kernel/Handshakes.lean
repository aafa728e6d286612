import Mathlib.Data.List.Perm.Basic
import LogosFs.Kernel.Sessions
import LogosFs.Lib.Trace

/-! # Handshakes

A handshake takes a registered token, draws a number from the counter and inserts a session under
it, each under a lock of its own and with other calls in between. `faithful_of_run` says that tokens
are one-time and sessions are faithful nevertheless: what has been taken was registered and neither
revoked nor taken since, no key is issued twice, and the key, the task and the agent that a
handshake is answered with are those of the registration that it has taken: `Faithful`. -/

namespace LogosFs.Kernel

open TokenRegistry (handler)

/-! ## The history of a token -/

/-- The move registers the token. -/
def registers (token : Str) (move : Move TokenSig TokenRegistry) : Bool :=
  match move.op with
  | .pendingInsert token' _ => token' = token
  | _ => false

/-- The move takes the token away, where it was registered. -/
def takes (token : Str) (move : Move TokenSig TokenRegistry) : Bool :=
  match move.op with
  | .pendingRemove token' => token' = token && (move.before.state.pending token).isSome
  | _ => false

/-- The move is that of a handshake that succeeds in consuming the token. -/
def consumes (callers : List TokenCall) (token : Str) (move : Move TokenSig TokenRegistry) : Bool :=
  callers[move.thread]? = some (.consume token) && takes token move

/-- The move changes what is registered under the token. -/
def Changes (token : Str) (move : Move TokenSig TokenRegistry) : Prop :=
  (∃ entry, move.op = .pendingInsert token entry) ∨ move.op = .pendingRemove token

/-- After these moves the token is registered: it was, and since then it was neither registered
again nor revoked nor consumed. -/
def Registered (token : Str) (entry : PendingEntry) (moves : List (Move TokenSig TokenRegistry)) :
    Prop :=
  Since (fun move => move.op = .pendingInsert token entry) (fun move => ¬Changes token move) moves

variable {callers : List TokenCall} {moves : List (Move TokenSig TokenRegistry)}
  {c : Config TokenSig TokenRegistry} {token : Str} {entry : PendingEntry}

/-- What one move does to the tokens: `entry` is `pending` after it if the move inserts it, or if it
was there and the move is none that `Changes` the token. -/
theorem handler_pending_eq_some_iff (c : Config TokenSig TokenRegistry) (i : Nat) (op : TokenOp) :
    (handler op c.state).2.pending token = some entry ↔
      op = .pendingInsert token entry ∨
        c.state.pending token = some entry ∧ ¬Changes token ⟨i, op, c⟩ := by
  cases op with
  | pendingInsert token' entry' =>
    by_cases htoken : token = token'
    · subst htoken
      simp [handler, Changes, eq_comm]
    · have htoken' := Ne.symm htoken
      simp [handler, Changes, Function.update_of_ne htoken, htoken']
  | pendingRemove token' =>
    by_cases htoken : token = token'
    · subst htoken
      simp [handler, Changes]
    · have htoken' := Ne.symm htoken
      simp [handler, Changes, Function.update_of_ne htoken, htoken']
  | _ => simp [handler, Changes]

/-- **The registry knows the tokens**: after every run a token is `pending` exactly when it is
`Registered`, that is, was neither revoked nor consumed since. -/
theorem pending_eq_some_iff {clock : Nat → Instant}
    (run : Interleaving handler ⟨callers.map TokenCall.program, TokenRegistry.new clock⟩ moves c) :
    c.state.pending token = some entry ↔ Registered token entry moves := by
  induction run with
  | start =>
    exact iff_of_false (fun h => nomatch h) not_since_nil
  | @step moves c i op next run ready ih =>
    rw [Registered, since_append_singleton, ← Registered, ← ih]
    exact handler_pending_eq_some_iff c i op

/-- A token is taken as often as it was registered, at most, not counting where it still is
`pending`. -/
theorem countP_takes_le {clock : Nat → Instant}
    (run : Interleaving handler ⟨callers.map TokenCall.program, TokenRegistry.new clock⟩ moves c) :
    moves.countP (takes token) + (c.state.pending token).toList.length
      ≤ moves.countP (registers token) := by
  -- Along the run: a registration adds one to the right, and a handshake moves one from what is
  -- pending to what was taken.
  induction run with
  | start => exact Nat.le_refl 0
  | @step moves c i op next run ready ih =>
    rw [List.countP_append, List.countP_append, List.countP_singleton, List.countP_singleton]
    show _ + ((handler op c.state).2.pending token).toList.length ≤ _
    cases op with
    | pendingInsert token' entry' =>
      by_cases htoken : token = token'
      · subst htoken
        simp [handler, takes, registers]
        omega
      · have htoken' := Ne.symm htoken
        simp [handler, takes, registers, Function.update_of_ne htoken, htoken']
        exact ih
    | pendingRemove token' =>
      by_cases htoken : token = token'
      · subst htoken
        cases hpending : c.state.pending token with
        | none => simp [handler, takes, registers, hpending] at ih ⊢; exact ih
        | some entry' => simp [handler, takes, registers, hpending] at ih ⊢; exact ih
      · have htoken' := Ne.symm htoken
        simp [handler, takes, registers, Function.update_of_ne htoken, htoken']
        exact ih
    | fetchAdd => simpa [handler, takes, registers] using ih
    | sessionsInsert key entry' => simpa [handler, takes, registers] using ih
    | sessionsGet key => simpa [handler, takes, registers] using ih
    | instantNow => simpa [handler, takes, registers] using ih
    | sessionsRetain now => simpa [handler, takes, registers] using ih

/-! ## The stages of a call -/

/-- The key of the session with a number. -/
def keyOf (number : Nat) : Str := "s-" ++ Str.ofNat number

/-- Distinct numbers make distinct keys by `keyOf`. -/
theorem keyOf_injective : Function.Injective keyOf := by
  intro n n' h
  exact Str.ofNat_injective (List.append_cancel_left h)

/-- Where a call is. -/
inductive CallStage where
  /-- It has not started. -/
  | start
  /-- A handshake that has taken an entry and is about to draw a number. -/
  | taken (entry : PendingEntry)
  /-- A handshake that is about to insert the session with its number. -/
  | numbered (entry : PendingEntry) (number : Nat)
  /-- A cleanup that has read the clock. -/
  | purging (now : Instant)
  /-- It is over. -/
  | over

/-- A call, and where it is. -/
structure Caller where
  /-- The call. -/
  call : TokenCall
  /-- Where it is. -/
  stage : CallStage

namespace Caller

/-- What is left of a call. -/
def program (caller : Caller) : Program TokenSig Unit :=
  match caller.stage with
  | .start => caller.call.program
  | .taken entry => .call .fetchAdd fun number =>
      .call (.sessionsInsert (keyOf number) entry) fun _ => .done ()
  | .numbered entry number => .call (.sessionsInsert (keyOf number) entry) fun _ => .done ()
  | .purging now => .call (.sessionsRetain now) fun _ => .done ()
  | .over => .done ()

/-- The entry that a handshake has taken. -/
def entry? (caller : Caller) : Option PendingEntry :=
  match caller.stage with
  | .taken entry => some entry
  | .numbered entry _ => some entry
  | _ => none

/-- The key that a handshake is about to issue. -/
def key? (caller : Caller) : Option Str :=
  match caller.stage with
  | .numbered _ number => some (keyOf number)
  | _ => none

end Caller

/-- The thread has taken the entry from a token, with the moves so far. -/
def Took (moves : List (Move TokenSig TokenRegistry)) (i : Nat) (token : Str)
    (entry : PendingEntry) : Prop :=
  ∃ move ∈ moves, move.thread = i ∧ move.op = .pendingRemove token ∧
    move.before.state.pending token = some entry

/-- What a handshake `Took` it has taken when more moves are made. -/
theorem Took.append {i : Nat} (h : Took moves i token entry)
    (later : List (Move TokenSig TokenRegistry)) : Took (moves ++ later) i token entry := by
  obtain ⟨move, hmove, hrest⟩ := h
  exact ⟨move, List.mem_append_left _ hmove, hrest⟩

/-- What one move does to the call that makes it. -/
inductive Caller.Moves (r : TokenRegistry) (caller : Caller) : TokenOp → Caller → Prop where
  /-- The move is not one of a handshake that has taken or takes something. -/
  | other (op : TokenOp) (stage : CallStage) (hentry : caller.entry? = none)
      (hentry' : Caller.entry? ⟨caller.call, stage⟩ = none) (hadd : op ≠ .fetchAdd)
      (hinsert : ∀ key entry, op ≠ .sessionsInsert key entry) :
      caller.Moves r op ⟨caller.call, stage⟩
  /-- A handshake takes an entry. -/
  | take (token : Str) (entry : PendingEntry) (hcaller : caller = ⟨.consume token, .start⟩)
      (hpending : r.pending token = some entry) :
      caller.Moves r (.pendingRemove token) ⟨caller.call, .taken entry⟩
  /-- A handshake draws a number. -/
  | draw (entry : PendingEntry) (hstage : caller.stage = .taken entry) :
      caller.Moves r .fetchAdd ⟨caller.call, .numbered entry r.counter⟩
  /-- A handshake issues its session. -/
  | issue (entry : PendingEntry) (number : Nat) (hstage : caller.stage = .numbered entry number) :
      caller.Moves r (.sessionsInsert (keyOf number) entry) ⟨caller.call, .over⟩

/-- **One move of one call**: whatever stage a `caller` is in, its program goes on to another stage
by `Moves`. -/
theorem Caller.exists_moves {caller : Caller} {r : TokenRegistry} {op : TokenOp}
    {next : TokenSig.Res op → Program TokenSig Unit} (h : caller.program = .call op next) :
    ∃ caller', caller.Moves r op caller' ∧ next (handler op r).1 = caller'.program := by
  obtain ⟨call, stage⟩ := caller
  -- One case for each stage of a call; only a handshake goes through more than two.
  cases stage with
  | start =>
    cases call with
    | register token taskId agentConfigId role =>
      cases h
      exact ⟨_, .other _ .over rfl rfl (by simp) (by simp), rfl⟩
    | revoke token =>
      cases h
      exact ⟨_, .other _ .over rfl rfl (by simp) (by simp), rfl⟩
    | consume token =>
      cases h
      cases hpending : r.pending token with
      | none =>
        refine ⟨_, .other _ .over rfl rfl (by simp) (by simp), ?_⟩
        simp only [handler, hpending]
        rfl
      | some entry =>
        refine ⟨_, .take token entry rfl hpending, ?_⟩
        simp only [handler, hpending]
        rfl
    | resolveInfo sessionKey =>
      cases h
      exact ⟨_, .other _ .over rfl rfl (by simp) (by simp), rfl⟩
    | cleanupExpired =>
      cases h
      exact ⟨_, .other _ (.purging (r.clock 0)) rfl rfl (by simp) (by simp), rfl⟩
  | taken entry =>
    cases h
    exact ⟨_, .draw entry rfl, rfl⟩
  | numbered entry number =>
    cases h
    exact ⟨_, .issue entry number rfl, rfl⟩
  | purging now =>
    cases h
    exact ⟨_, .other _ .over rfl rfl (by simp) (by simp), rfl⟩
  | «over» => cases h

/-! ## All calls together -/

/-- How many handshakes have drawn a number. -/
def handshakes (moves : List (Move TokenSig TokenRegistry)) : Nat :=
  moves.countP fun move => move.op = .fetchAdd

/-- The key that an operation issues. -/
def issuedKey : TokenOp → Option Str
  | .sessionsInsert key _ => some key
  | _ => none

/-- The keys that have been issued. -/
def issuedKeys (moves : List (Move TokenSig TokenRegistry)) : List Str :=
  moves.filterMap fun move => issuedKey move.op

/-- What holds at any time of a run: no number is drawn twice, and what handshakes have taken they
have taken from the tokens that they consume. -/
structure Issuing (callers : List TokenCall) (moves : List (Move TokenSig TokenRegistry))
    (c : Config TokenSig TokenRegistry) (states : List Caller) : Prop where
  /-- The threads are the calls. -/
  threads : c.threads = states.map Caller.program
  /-- Each of them goes on with its own call. -/
  calls : states.map Caller.call = callers
  /-- The counter has counted the handshakes, in 64 bits. -/
  counter : c.state.counter = (handshakes moves + 1) % 2 ^ 64
  /-- The keys that have been issued and those about to be are distinct. -/
  distinct : (states.filterMap Caller.key? ++ issuedKeys moves).Nodup
  /-- They are those of the numbers that have been drawn. -/
  drawn : ∀ key ∈ states.filterMap Caller.key? ++ issuedKeys moves,
    ∃ number ≤ handshakes moves, key = keyOf number
  /-- A handshake has taken its entry from its token. -/
  taken : ∀ (i : Nat) caller, states[i]? = some caller → ∀ entry ∈ caller.entry?,
    ∃ token, caller.call = .consume token ∧ Took moves i token entry
  /-- An issued session is of the entry that its handshake had taken. -/
  issued : ∀ earlier move later, moves = earlier ++ move :: later →
    ∀ key entry, move.op = .sessionsInsert key entry →
      ∃ token, callers[move.thread]? = some (.consume token) ∧ Took earlier move.thread token entry

/-- Before any move the callers are `Issuing`. -/
theorem issuing_start (callers : List TokenCall) (clock : Nat → Instant) :
    Issuing callers [] ⟨callers.map TokenCall.program, TokenRegistry.new clock⟩
      (callers.map fun call => ⟨call, .start⟩) where
  threads := by
    rw [List.map_map]
    rfl
  calls := by
    rw [List.map_map]
    exact List.map_id' callers
  counter := rfl
  distinct := by
    have hnone : (callers.map fun call => (⟨call, .start⟩ : Caller)).filterMap Caller.key? = [] := by
      simp [Caller.key?]
    rw [hnone]
    exact List.nodup_nil
  drawn key hkey := by simp [Caller.key?, issuedKeys] at hkey
  taken i caller hcaller entry hentry := by
    obtain ⟨call, -, rfl⟩ := List.mem_map.mp (List.mem_of_getElem? hcaller)
    cases hentry
  issued earlier move later hmoves :=
    absurd hmoves.symm (List.append_ne_nil_of_right_ne_nil earlier (List.cons_ne_nil move later))

namespace Issuing

variable {states others : List Caller} {caller caller' : Caller} {i : Nat} {op : TokenOp}
  {next : TokenSig.Res op → Program TokenSig Unit}

/-- One more move is one more of `handshakes` if it draws a number by `.fetchAdd`. -/
theorem handshakes_append (move : Move TokenSig TokenRegistry) : handshakes (moves ++ [move])
    = handshakes moves + if move.op = .fetchAdd then 1 else 0 := by
  simp [handshakes, List.countP_append, List.countP_singleton]

/-- One more move adds the key that it inserts to `issuedKeys`, if it does. -/
theorem issuedKeys_append (move : Move TokenSig TokenRegistry) :
    issuedKeys (moves ++ [move]) = issuedKeys moves ++ (issuedKey move.op).toList := by
  rw [issuedKeys, List.filterMap_append, ← issuedKeys]
  cases hkey : issuedKey move.op <;> simp [hkey]

/-- The `counter` after a move is the number of `handshakes` and one, modulo 2^64, as it was before.
-/
theorem counter_of_handler (hcounter : c.state.counter = (handshakes moves + 1) % 2 ^ 64) :
    (handler op c.state).2.counter = (handshakes (moves ++ [⟨i, op, c⟩]) + 1) % 2 ^ 64 := by
  rw [handshakes_append]
  cases op with
  | fetchAdd =>
    simp only [handler, if_true, hcounter]
    omega
  | _ => simpa [handler] using hcounter

/-- The keys, after a move: a drawn number is new, and a key of `issuedKeys` was about to be issued,
so all of them stay distinct. -/
theorem keys_of_moves (hmoves : caller.Moves c.state op caller')
    (hcounter : c.state.counter = (handshakes moves + 1) % 2 ^ 64)
    (hfew : handshakes (moves ++ [⟨i, op, c⟩]) < 2 ^ 64)
    (hdistinct : ((caller :: others).filterMap Caller.key? ++ issuedKeys moves).Nodup)
    (hdrawn : ∀ key ∈ (caller :: others).filterMap Caller.key? ++ issuedKeys moves,
      ∃ number ≤ handshakes moves, key = keyOf number) :
    ((caller' :: others).filterMap Caller.key? ++ issuedKeys (moves ++ [⟨i, op, c⟩])).Nodup ∧
      ∀ key ∈ (caller' :: others).filterMap Caller.key? ++ issuedKeys (moves ++ [⟨i, op, c⟩]),
        ∃ number ≤ handshakes (moves ++ [⟨i, op, c⟩]), key = keyOf number := by
  rw [handshakes_append] at hfew
  rw [issuedKeys_append, handshakes_append]
  have hmore : ∀ key, (∃ number ≤ handshakes moves, key = keyOf number) →
      ∃ number ≤ handshakes moves + (if op = .fetchAdd then 1 else 0), key = keyOf number := by
    rintro key ⟨number, hle, rfl⟩
    exact ⟨number, Nat.le_add_right_of_le hle, rfl⟩
  -- The keys are the same, in a different order maybe.
  have hsame : ∀ keys keys' : List Str, keys'.Perm keys → keys.Nodup →
      (∀ key ∈ keys, ∃ number ≤ handshakes moves, key = keyOf number) → keys'.Nodup ∧
        ∀ key ∈ keys', ∃ number ≤ handshakes moves + (if op = .fetchAdd then 1 else 0),
          key = keyOf number := by
    intro keys keys' hperm hnodup hkeys
    exact ⟨hperm.nodup_iff.mpr hnodup, fun key hkey => hmore key (hkeys key (hperm.mem_iff.mp hkey))⟩
  cases hmoves with
  | other op stage hentry hentry' hadd hinsert =>
    have hkey : caller.key? = none := by
      unfold Caller.entry? at hentry
      unfold Caller.key?
      split at hentry <;> simp_all
    have hkey' : (⟨caller.call, stage⟩ : Caller).key? = none := by
      unfold Caller.entry? at hentry'
      unfold Caller.key?
      split at hentry' <;> simp_all
    have hissued : issuedKey op = none := by
      unfold issuedKey
      split
      · exact absurd rfl (hinsert _ _)
      · rfl
    refine hsame _ _ ?_ hdistinct hdrawn
    simp [hkey, hkey', hissued]
  | take token entry hcaller hpending =>
    have hkey : caller.key? = none := by rw [hcaller]; rfl
    have hkey' : (⟨caller.call, .taken entry⟩ : Caller).key? = none := rfl
    refine hsame _ _ ?_ hdistinct hdrawn
    simp [hkey, hkey', issuedKey]
  | draw entry hstage =>
    have hkey : caller.key? = none := by simp [Caller.key?, hstage]
    have hkey' : (⟨caller.call, .numbered entry c.state.counter⟩ : Caller).key?
        = some (keyOf c.state.counter) := rfl
    -- The counter has not come round yet.
    have hexact : c.state.counter = handshakes moves + 1 := by
      rw [hcounter]
      exact Nat.mod_eq_of_lt (by simpa using hfew)
    simp only [List.filterMap_cons, hkey] at hdistinct hdrawn
    simp only [List.filterMap_cons, hkey', issuedKey, Option.toList_none, List.append_nil,
      List.cons_append, List.nodup_cons, if_true]
    refine ⟨⟨fun hmem => ?_, hdistinct⟩, fun key hmem => ?_⟩
    · obtain ⟨number, hle, heq⟩ := hdrawn _ hmem
      have hnumber := keyOf_injective heq
      omega
    · rcases List.mem_cons.mp hmem with rfl | hmem
      · exact ⟨_, hexact.le, rfl⟩
      · obtain ⟨number, hle, heq⟩ := hdrawn key hmem
        exact ⟨number, by omega, heq⟩
  | issue entry number hstage =>
    have hkey : caller.key? = some (keyOf number) := by simp [Caller.key?, hstage]
    have hkey' : (⟨caller.call, .over⟩ : Caller).key? = none := rfl
    refine hsame _ _ ?_ hdistinct hdrawn
    simp only [List.filterMap_cons, hkey, hkey', issuedKey, Option.toList_some]
    rw [← List.append_assoc]
    exact List.perm_append_singleton _ _

/-- **One move** of all calls keeps the invariant `Issuing`, with other `states` of the calls. -/
theorem step (h : Issuing callers moves c states)
    (hready : c.threads[i]? = some (.call op next))
    (hfew : handshakes (moves ++ [⟨i, op, c⟩]) < 2 ^ 64) :
    ∃ states', Issuing callers (moves ++ [⟨i, op, c⟩]) (c.after handler i op next) states' := by
  -- The call that moves, and the others.
  have hthread := hready
  rw [h.threads, List.getElem?_map, Option.map_eq_some_iff] at hthread
  obtain ⟨caller, hcaller, hprogram⟩ := hthread
  obtain ⟨hi, hget⟩ := List.getElem?_eq_some_iff.mp hcaller
  obtain ⟨caller', hmoves, hnext⟩ := Caller.exists_moves (r := c.state) hprogram
  have hperm : states.Perm (caller :: states.eraseIdx i) := by
    rw [← hget]
    exact (List.getElem_cons_eraseIdx_perm hi).symm
  have hperm' := List.set_perm_cons_eraseIdx hi caller'
  have hcall : caller'.call = caller.call := by cases hmoves <;> rfl
  have hkeys := (hperm.filterMap Caller.key?).append_right (issuedKeys moves)
  obtain ⟨hdistinct, hdrawn⟩ := keys_of_moves (i := i) hmoves h.counter hfew
    (hkeys.nodup_iff.mp h.distinct) fun key hkey => h.drawn key (hkeys.mem_iff.mpr hkey)
  have hkeys' := (hperm'.filterMap Caller.key?).append_right (issuedKeys (moves ++ [⟨i, op, c⟩]))
  refine ⟨states.set i caller', ⟨?_, ?_, counter_of_handler h.counter,
    hkeys'.nodup_iff.mpr hdistinct, fun key hkey => hdrawn key (hkeys'.mem_iff.mp hkey), ?_, ?_⟩⟩
  · rw [Config.after, h.threads, hnext, List.map_set]
  · rw [List.map_set, hcall]
    have hcalls : (states.map Caller.call)[i]? = some caller.call := by
      rw [List.getElem?_map, hcaller]
      rfl
    rw [h.calls] at hcalls ⊢
    obtain ⟨hi', hget'⟩ := List.getElem?_eq_some_iff.mp hcalls
    rw [← hget']
    exact List.set_getElem_self hi'
  · intro j caller₁ hcaller₁ entry hentry
    by_cases hji : j = i
    · subst hji
      rw [List.getElem?_set_self hi, Option.some_inj] at hcaller₁
      subst hcaller₁
      cases hmoves with
      | other op stage hnone hnone' hadd hinsert =>
        rw [hnone'] at hentry
        cases hentry
      | take token entry' heq hpending =>
        obtain rfl : entry' = entry := Option.some_inj.mp hentry
        exact ⟨token, by rw [heq], _, List.mem_append_right _ (List.mem_singleton.mpr rfl), rfl,
          rfl, hpending⟩
      | draw entry' hstage =>
        obtain ⟨token, htoken, htook⟩ := h.taken j caller hcaller entry (by
          simpa [ Caller.entry?, hstage] using hentry)
        exact ⟨token, htoken, htook.append _⟩
      | issue entry' number hstage => cases hentry
    · rw [List.getElem?_set_ne (Ne.symm hji)] at hcaller₁
      obtain ⟨token, htoken, htook⟩ := h.taken j caller₁ hcaller₁ entry hentry
      exact ⟨token, htoken, htook.append _⟩
  · intro earlier move later hsplit key entry hop
    rcases List.eq_nil_or_concat later with rfl | ⟨init, last, rfl⟩
    · -- The session is issued by the very last move.
      obtain ⟨rfl, hlast⟩ := List.append_inj' hsplit rfl
      obtain rfl := List.singleton_inj.mp hlast
      cases hmoves with
      | other op stage hnone hnone' hadd hinsert => exact absurd hop (hinsert key entry)
      | take token entry' heq hpending => cases hop
      | draw entry' hstage => cases hop
      | issue entry' number hstage =>
        cases hop
        obtain ⟨token, htoken, htook⟩ := h.taken i caller hcaller entry (by
          simp [ Caller.entry?, hstage])
        refine ⟨token, ?_, htook⟩
        rw [← h.calls, List.getElem?_map, hcaller, ← htoken]
        rfl
    · rw [List.concat_eq_append, ← List.cons_append, ← List.append_assoc] at hsplit
      obtain ⟨hsplit, -⟩ := List.append_inj' hsplit rfl
      exact h.issued earlier move init hsplit key entry hop

end Issuing

/-- **One run**: the invariant `Issuing` holds as long as there are fewer `handshakes` than the
counter can count. -/
theorem exists_issuing {clock : Nat → Instant}
    (run : Interleaving handler ⟨callers.map TokenCall.program, TokenRegistry.new clock⟩ moves c)
    (hfew : handshakes moves < 2 ^ 64) : ∃ states, Issuing callers moves c states := by
  induction run with
  | start => exact ⟨_, issuing_start callers clock⟩
  | @step moves c i op next run ready ih =>
    have hle := @Issuing.handshakes_append moves ⟨i, op, c⟩
    obtain ⟨states, hstates⟩ := ih (by omega)
    exact hstates.step ready hfew

/-! ## Tokens and sessions -/

/-- The thread has taken the entry from the token, which was registered for it at that time. -/
def TookRegistration (moves : List (Move TokenSig TokenRegistry)) (i : Nat) (token : Str)
    (entry : PendingEntry) : Prop :=
  ∃ earlier move later, moves = earlier ++ move :: later ∧ move.thread = i ∧
    move.op = .pendingRemove token ∧ Registered token entry earlier

/-- What a thread `Took` from the registry was registered: `TookRegistration`. -/
theorem Took.tookRegistration {clock : Nat → Instant} {i : Nat}
    (run : Interleaving handler ⟨callers.map TokenCall.program, TokenRegistry.new clock⟩ moves c)
    (h : Took moves i token entry) : TookRegistration moves i token entry := by
  obtain ⟨move, hmove, hthread, hop, hpending⟩ := h
  obtain ⟨earlier, later, hmoves⟩ := List.append_of_mem hmove
  have hbefore := run.before_of_split hmoves
  exact ⟨earlier, move, later, hmoves, hthread, hop, (pending_eq_some_iff hbefore).mp hpending⟩

/-- A key that is issued once is `Live` until a cleanup finds its session expired. -/
theorem live_iff_of_nodup {earlier later : List (Move TokenSig TokenRegistry)}
    {move : Move TokenSig TokenRegistry} {key : Str} {session : SessionEntry}
    (hop : move.op = .sessionsInsert key entry)
    (hnodup : (issuedKeys (earlier ++ move :: later)).Nodup) :
    Live key session (earlier ++ move :: later) ↔
      session = entry.issue (move.before.state.clock 0) ∧ ∀ m ∈ later, ¬Expires session m := by
  have hkey : issuedKey move.op = some key := by rw [hop]; rfl
  have hissued : ∀ m, Replaces key m → issuedKey m.op = some key := by
    rintro m ⟨pending, hm⟩
    rw [hm]
    rfl
  -- No other move issues the key.
  rw [issuedKeys, List.filterMap_append, List.filterMap_cons, hkey] at hnodup
  have honce : ∀ m, m ∈ earlier ∨ m ∈ later → ¬Replaces key m := by
    intro m hm hreplaces
    rw [List.nodup_append, List.nodup_cons] at hnodup
    rcases hm with hm | hm
    · exact hnodup.2.2 key (List.mem_filterMap.mpr ⟨m, hm, hissued m hreplaces⟩) key
        List.mem_cons_self rfl
    · exact hnodup.2.1.1 (List.mem_filterMap.mpr ⟨m, hm, hissued m hreplaces⟩)
  constructor
  · rintro ⟨earlier', move', later', hsplit, ⟨pending, hop', rfl⟩, hlater'⟩
    -- The move that has inserted the session is therefore this one.
    rcases List.append_eq_append_iff.mp hsplit with ⟨between, hearlier', hrest⟩ | ⟨between, hearlier, hrest⟩
    · cases between with
      | nil =>
        obtain ⟨rfl, rfl⟩ := List.cons_eq_cons.mp hrest
        rw [hop, TokenOp.sessionsInsert.injEq] at hop'
        obtain ⟨-, rfl⟩ := hop'
        exact ⟨rfl, fun m hm => (hlater' m hm).2⟩
      | cons first between =>
        obtain ⟨-, rfl⟩ := List.cons_eq_cons.mp hrest
        refine absurd ⟨pending, hop'⟩ (honce move' (.inr ?_))
        exact List.mem_append_right _ List.mem_cons_self
    · cases between with
      | nil =>
        obtain ⟨rfl, rfl⟩ := List.cons_eq_cons.mp hrest
        rw [hop, TokenOp.sessionsInsert.injEq] at hop'
        obtain ⟨-, rfl⟩ := hop'
        exact ⟨rfl, fun m hm => (hlater' m hm).2⟩
      | cons first between =>
        obtain ⟨rfl, -⟩ := List.cons_eq_cons.mp hrest
        refine absurd ⟨pending, hop'⟩ (honce move' (.inl ?_))
        rw [hearlier]
        exact List.mem_append_right _ List.mem_cons_self
  · rintro ⟨rfl, hexpires⟩
    refine ⟨earlier, move, later, rfl, ⟨entry, hop, rfl⟩, fun m hm => ⟨?_, hexpires m hm⟩⟩
    exact honce m (.inr hm)

/-! ## What a handshake is answered -/

/-- The operations of a handshake on the registry: `consume` removes the token, draws a number, and
inserts the session of its key. -/
theorem consume_eq (token : Str) : TokenRegistry.consume token
    = .call (.pendingRemove token) fun found => Option.elim found (.done none) fun entry =>
      .call .fetchAdd fun number => .call (.sessionsInsert (keyOf number) entry) fun _ =>
        .done (some (keyOf number, entry.taskId, entry.agentConfigId)) := by
  refine congrArg (Program.call (S := TokenSig) (.pendingRemove token)) (funext fun found => ?_)
  cases found <;> rfl

/-- What `consume` answers to a token: `none` where it is not pending, and otherwise `keyOf` the
number drawn with the task and the agent of the entry. -/
theorem returns_consume_iff {token : Str} {events : List (Event TokenSig)}
    {taken : Option (Str × Str × Str)} : (TokenRegistry.consume token).Returns events taken ↔
      (events = [⟨.pendingRemove token, (none : Option PendingEntry)⟩] ∧ taken = none) ∨
        ∃ (entry : PendingEntry) (number : Nat), events = [⟨.pendingRemove token, some entry⟩,
          ⟨.fetchAdd, number⟩, ⟨.sessionsInsert (keyOf number) entry, ()⟩] ∧
          taken = some (keyOf number, entry.taskId, entry.agentConfigId) := by
  rw [consume_eq, Program.returns_call_iff]
  constructor
  · rintro ⟨found, rest, rfl, hrest⟩
    cases found with
    | none =>
      obtain ⟨rfl, rfl⟩ := Program.returns_done_iff.mp hrest
      exact .inl ⟨rfl, rfl⟩
    | some entry =>
      obtain ⟨number, second, rfl, hsecond⟩ := Program.returns_call_iff.mp hrest
      obtain ⟨_, third, rfl, hthird⟩ := Program.returns_call_iff.mp hsecond
      obtain ⟨rfl, rfl⟩ := Program.returns_done_iff.mp hthird
      exact .inr ⟨entry, number, rfl, rfl⟩
  · rintro (⟨rfl, rfl⟩ | ⟨entry, number, rfl, rfl⟩)
    · exact ⟨_, _, rfl, .refl _⟩
    · exact ⟨some entry, _, rfl, .call (.call (.refl _))⟩

/-- The call of a thread is a handshake with the token, and it has returned: `answer` is what
`TokenRegistry.consume` makes of the answers that the registry has given to the thread. -/
def Answered (callers : List TokenCall) (moves : List (Move TokenSig TokenRegistry)) (i : Nat)
    (token : Str) (answer : Option (Str × Str × Str)) : Prop :=
  callers[i]? = some (.consume token) ∧
    (TokenRegistry.consume token).Returns (trace handler i moves) answer

/-- A handshake was answered with a session key, a task and an agent configuration; what this is worth
after the moves. -/
structure Faithful (callers : List TokenCall) (moves : List (Move TokenSig TokenRegistry))
    (c : Config TokenSig TokenRegistry) (i : Nat) (token key taskId agentConfigId : Str) : Prop where
  /-- No other handshake is answered with the key. -/
  alone : ∀ j token' taskId' agentConfigId',
    Answered callers moves j token' (some (key, taskId', agentConfigId')) → j = i
  /-- The handshake has taken a registration of its token, of this task and agent configuration; and
  `TokenRegistry.resolveInfo` finds these and the registered role under the key, until a cleanup finds
  the session expired. -/
  resolves : ∃ entry earlier issue later, moves = earlier ++ issue :: later ∧ issue.thread = i ∧
    issue.op = .sessionsInsert key entry ∧ TookRegistration earlier i token entry ∧
    taskId = entry.taskId ∧ agentConfigId = entry.agentConfigId ∧
    ∀ info, ((TokenRegistry.resolveInfo key).run handler c.state).1 = some info ↔
      info = ⟨taskId, agentConfigId, entry.role⟩ ∧
        ∀ m ∈ later, ¬Expires (entry.issue (issue.before.state.clock 0)) m

/-- A handshake whose trace ends with a `.sessionsInsert` has made the move. -/
theorem exists_issue_of_trace {i number : Nat} {token : Str}
    (htrace : trace handler i moves = [⟨.pendingRemove token, some entry⟩,
      ⟨.fetchAdd, number⟩, ⟨.sessionsInsert (keyOf number) entry, ()⟩]) :
    ∃ issue ∈ moves, issue.thread = i ∧ issue.op = .sessionsInsert (keyOf number) entry := by
  have hissued : (⟨.sessionsInsert (keyOf number) entry, ()⟩ : Event TokenSig) ∈
      trace handler i moves := by
    rw [htrace]
    simp
  obtain ⟨issue, hissue, hthread, hevent⟩ := exists_move_of_mem_trace handler i hissued
  exact ⟨issue, hissue, hthread, (congrArg Event.op hevent).symm⟩

/-- A key is issued by one move, if `issuedKeys` are distinct. -/
theorem eq_of_nodup_issuedKeys {key : Str} (hnodup : (issuedKeys moves).Nodup)
    {m m' : Move TokenSig TokenRegistry} (hm : m ∈ moves) (hm' : m' ∈ moves)
    (hkey : issuedKey m.op = some key) (hkey' : issuedKey m'.op = some key) : m = m' := by
  obtain ⟨earlier, later, rfl⟩ := List.append_of_mem hm
  rw [issuedKeys, List.filterMap_append, List.filterMap_cons, hkey, List.nodup_append,
    List.nodup_cons] at hnodup
  rcases List.mem_append.mp hm' with hm' | hm'
  · exact absurd rfl (hnodup.2.2 key (List.mem_filterMap.mpr ⟨m', hm', hkey'⟩) key List.mem_cons_self)
  · rcases List.mem_cons.mp hm' with rfl | hm'
    · rfl
    · exact absurd (List.mem_filterMap.mpr ⟨m', hm', hkey'⟩) hnodup.2.1.1

/-- A key is issued by one handshake: two moves that issue it have the same `thread`. -/
theorem thread_eq_of_issues {clock : Nat → Instant} {key : Str}
    (run : Interleaving handler ⟨callers.map TokenCall.program, TokenRegistry.new clock⟩ moves c)
    (hfew : handshakes moves < 2 ^ 64) {m m' : Move TokenSig TokenRegistry} (hm : m ∈ moves)
    (hm' : m' ∈ moves) (hkey : issuedKey m.op = some key) (hkey' : issuedKey m'.op = some key) :
    m.thread = m'.thread := by
  obtain ⟨states, hstates⟩ := exists_issuing run hfew
  rw [eq_of_nodup_issuedKeys (List.nodup_append.mp hstates.distinct).2.1 hm hm' hkey hkey']

/-- What `resolveInfo` finds under a key that was issued: the session of the entry that it was
issued for, until a cleanup finds it expired. -/
theorem resolveInfo_eq_some_iff {clock : Nat → Instant} {key : Str}
    (run : Interleaving handler ⟨callers.map TokenCall.program, TokenRegistry.new clock⟩ moves c)
    (hfew : handshakes moves < 2 ^ 64) {earlier later : List (Move TokenSig TokenRegistry)}
    {move : Move TokenSig TokenRegistry} (hmoves : moves = earlier ++ move :: later)
    (hop : move.op = .sessionsInsert key entry) (info : SessionInfo) :
    ((TokenRegistry.resolveInfo key).run handler c.state).1 = some info ↔
      info = ⟨entry.taskId, entry.agentConfigId, entry.role⟩ ∧
        ∀ m ∈ later, ¬Expires (entry.issue (move.before.state.clock 0)) m := by
  obtain ⟨states, hstates⟩ := exists_issuing run hfew
  have hnodup : (issuedKeys moves).Nodup := (List.nodup_append.mp hstates.distinct).2.1
  show (c.state.sessions key).map SessionEntry.info = some info ↔ _
  rw [Option.map_eq_some_iff]
  subst hmoves
  constructor
  · rintro ⟨session, hsession, rfl⟩
    obtain ⟨rfl, hexpires⟩ :=
      (live_iff_of_nodup hop hnodup).mp ((sessions_eq_some_iff run).mp hsession)
    exact ⟨rfl, hexpires⟩
  · rintro ⟨rfl, hexpires⟩
    refine ⟨entry.issue (move.before.state.clock 0), ?_, rfl⟩
    exact (sessions_eq_some_iff run).mpr ((live_iff_of_nodup hop hnodup).mpr ⟨rfl, hexpires⟩)

/-- A key is issued by a handshake that has taken a registration of its token: `TookRegistration`.
-/
theorem tookRegistration_of_issue {clock : Nat → Instant} {key : Str}
    (run : Interleaving handler ⟨callers.map TokenCall.program, TokenRegistry.new clock⟩ moves c)
    (hfew : handshakes moves < 2 ^ 64) {earlier later : List (Move TokenSig TokenRegistry)}
    {move : Move TokenSig TokenRegistry} (hmoves : moves = earlier ++ move :: later)
    (hop : move.op = .sessionsInsert key entry) :
    ∃ token, callers[move.thread]? = some (.consume token) ∧
      TookRegistration earlier move.thread token entry := by
  obtain ⟨states, hstates⟩ := exists_issuing run hfew
  obtain ⟨token, htoken, htook⟩ := hstates.issued earlier move later hmoves key entry hop
  exact ⟨token, htoken, htook.tookRegistration (run.before_of_split hmoves)⟩

/-- A handshake that was `Answered` with a key has issued it, for the entry whose task and agent it
tells. -/
theorem Answered.exists_issue {i : Nat} {key taskId agentConfigId : Str}
    (h : Answered callers moves i token (some (key, taskId, agentConfigId))) :
    ∃ entry, taskId = entry.taskId ∧ agentConfigId = entry.agentConfigId ∧
      ∃ issue ∈ moves, issue.thread = i ∧ issue.op = .sessionsInsert key entry := by
  rcases returns_consume_iff.mp h.2 with ⟨-, hnone⟩ | ⟨entry, number, htrace, hsome⟩
  · cases hnone
  · cases hsome
    exact ⟨entry, rfl, rfl, exists_issue_of_trace htrace⟩

/-- **What a handshake is answered is `Faithful`**: its key is its own, and resolves to what was
registered under its token. -/
theorem Answered.faithful {clock : Nat → Instant} {i : Nat} {key taskId agentConfigId : Str}
    (run : Interleaving handler ⟨callers.map TokenCall.program, TokenRegistry.new clock⟩ moves c)
    (hfew : handshakes moves < 2 ^ 64)
    (h : Answered callers moves i token (some (key, taskId, agentConfigId))) :
    Faithful callers moves c i token key taskId agentConfigId := by
  obtain ⟨entry, rfl, rfl, issue, hissue, rfl, hop⟩ := h.exists_issue
  refine ⟨fun j token' taskId' agentConfigId' h' => ?_, ?_⟩
  · obtain ⟨entry', -, -, issue', hissue', rfl, hop'⟩ := h'.exists_issue
    exact thread_eq_of_issues run hfew hissue' hissue (by rw [hop']; rfl) (by rw [hop]; rfl)
  · obtain ⟨earlier, later, hmoves⟩ := List.append_of_mem hissue
    obtain ⟨token', htoken', htook⟩ := tookRegistration_of_issue run hfew hmoves hop
    -- The thread makes one call, so the token is its own.
    obtain rfl : token = token' := TokenCall.consume.inj (Option.some_inj.mp (h.1.symm.trans htoken'))
    exact ⟨entry, earlier, issue, later, hmoves, rfl, hop, htook, rfl, rfl,
      resolveInfo_eq_some_iff run hfew hmoves hop⟩

/-- **Tokens are one-time and sessions are faithful**, in every run of any number of calls: a token
is consumed as often as it was registered, at most, and only while it is registered; and with fewer
than 2^64 handshakes every session key is issued once, and whatever a handshake is answered is
`Faithful`: the key, the task and the agent configuration that `TokenRegistry.consume` returns are
those of the registration that it has taken, and `TokenRegistry.resolveInfo` finds just what was
registered under the key until a cleanup finds the session expired. -/
theorem faithful_of_run {clock : Nat → Instant}
    (run : Interleaving handler ⟨callers.map TokenCall.program, TokenRegistry.new clock⟩ moves c) :
    (∀ token, moves.countP (consumes callers token) ≤ moves.countP (registers token)) ∧
    (∀ earlier move later, moves = earlier ++ move :: later → ∀ token,
      consumes callers token move → ∃ entry, Registered token entry earlier) ∧
    (handshakes moves < 2 ^ 64 → (issuedKeys moves).Nodup ∧
      (∀ earlier move later, moves = earlier ++ move :: later → ∀ key entry,
        move.op = .sessionsInsert key entry →
          (∃ token, callers[move.thread]? = some (.consume token) ∧
            TookRegistration earlier move.thread token entry) ∧
          ∀ info, ((TokenRegistry.resolveInfo key).run handler c.state).1 = some info ↔
            info = ⟨entry.taskId, entry.agentConfigId, entry.role⟩ ∧
              ∀ m ∈ later, ¬Expires (entry.issue (move.before.state.clock 0)) m) ∧
      ∀ i token key taskId agentConfigId,
        Answered callers moves i token (some (key, taskId, agentConfigId)) →
          Faithful callers moves c i token key taskId agentConfigId) := by
  refine ⟨fun token => ?_, fun earlier move later hmoves token hconsumes => ?_, fun hfew => ?_⟩
  · calc moves.countP (consumes callers token)
        ≤ moves.countP (takes token) :=
          List.countP_mono_left fun move _ h => (Bool.and_eq_true _ _ ▸ h).2
      _ ≤ moves.countP (takes token) + (c.state.pending token).toList.length :=
          Nat.le_add_right _ _
      _ ≤ moves.countP (registers token) := countP_takes_le run
  · have htakes : takes token move := (Bool.and_eq_true _ _ ▸ hconsumes).2
    have hpending : (move.before.state.pending token).isSome := by
      unfold takes at htakes
      split at htakes
      · exact (Bool.and_eq_true _ _ ▸ htakes).2
      · cases htakes
    -- A token that is taken is pending at that moment, so it is registered.
    obtain ⟨entry, hentry⟩ := Option.isSome_iff_exists.mp hpending
    exact ⟨entry, (pending_eq_some_iff (run.before_of_split hmoves)).mp hentry⟩
  -- Fewer handshakes than the counter can count: the invariant holds at the end of the run.
  · obtain ⟨states, hstates⟩ := exists_issuing run hfew
    refine ⟨(List.nodup_append.mp hstates.distinct).2.1, fun earlier move later hmoves key entry hop =>
      ⟨tookRegistration_of_issue run hfew hmoves hop, resolveInfo_eq_some_iff run hfew hmoves hop⟩, ?_⟩
    exact fun i token key taskId agentConfigId hanswered => hanswered.faithful run hfew

/-- In the morning of that one day the token is consumed once, and the handshake is answered with the
key `s-1`, which resolves to the task and the agent that were registered. -/
theorem faithful_of_run_morning :
    morning.1.countP (consumes [.register "tok" "t-1" "a-1" .user, .consume "tok", .cleanupExpired]
      "tok") ≤ morning.1.countP (registers "tok") ∧ (issuedKeys morning.1).Nodup ∧
    Faithful [.register "tok" "t-1" "a-1" .user, .consume "tok", .cleanupExpired] morning.1 morning.2
      1 "tok" "s-1" "t-1" "a-1" :=
  have h := @faithful_of_run [.register "tok" "t-1" "a-1" .user, .consume "tok",
    .cleanupExpired] _ _ _ run_morning
  have hanswered : Answered [.register "tok" "t-1" "a-1" .user, .consume "tok", .cleanupExpired]
      morning.1 1 "tok" (some ("s-1", "t-1", "a-1")) := ⟨rfl, Program.returns_of_returned? (by rfl)⟩
  ⟨h.1 "tok", (h.2.2 (by decide)).1, (h.2.2 (by decide)).2.2 1 _ _ _ _ hanswered⟩

end LogosFs.Kernel
