import Mathlib.Data.List.Forall2
import Mathlib.Data.List.Induction
import LogosFs.Lib.Trace

/-! # Two stages over two signatures

A program in two stages performs operations of one signature first, and then operations of another
one, by what the first stage has returned. In an interleaving of such programs each signature has an
interleaving of its own: of the first stages (`Interleaving.firsts`), and of the second stages for
values that the first ones have returned (`Interleaving.seconds`). What is known about each of the two
alone therefore holds of both together. -/

namespace LogosFs

/-- The operations of two signatures. -/
abbrev Signature.sum (S T : Signature) : Signature where
  Op := S.Op ⊕ T.Op
  Res
    | .inl op => S.Res op
    | .inr op => T.Res op

variable {S T : Signature} {σ τ α β : Type}

/-- Each operation acts on its own part of the state. -/
def Handler.sum (h : Handler S σ) (k : Handler T τ) : Handler (S.sum T) (σ × τ)
  | .inl op, s => ((h op s.1).1, (h op s.1).2, s.2)
  | .inr op, s => ((k op s.2).1, s.1, (k op s.2).2)

/-! ## The parts of events and moves -/

/-- The event, if it is one of the first signature. -/
def Event.left? : Event (S.sum T) → Option (Event S)
  | ⟨.inl op, answer⟩ => some ⟨op, answer⟩
  | ⟨.inr _, _⟩ => none

/-- The event, if it is one of the second signature. -/
def Event.right? : Event (S.sum T) → Option (Event T)
  | ⟨.inl _, _⟩ => none
  | ⟨.inr op, answer⟩ => some ⟨op, answer⟩

/-- The events of the first signature. -/
def lefts (events : List (Event (S.sum T))) : List (Event S) := events.filterMap Event.left?

/-- The events of the second signature. -/
def rights (events : List (Event (S.sum T))) : List (Event T) := events.filterMap Event.right?

/-- `lefts` of two sequences of events is that of the one and then that of the other. -/
@[simp] theorem lefts_append (events events' : List (Event (S.sum T))) :
    lefts (events ++ events') = lefts events ++ lefts events' := List.filterMap_append

/-- `rights` of two sequences of events is that of the one and then that of the other. -/
@[simp] theorem rights_append (events events' : List (Event (S.sum T))) :
    rights (events ++ events') = rights events ++ rights events' := List.filterMap_append

/-- Every event of `S.sum T` is in `lefts` or in `rights`. -/
theorem eq_nil_of_parts {events : List (Event (S.sum T))} (hlefts : lefts events = [])
    (hrights : rights events = []) : events = [] := by
  cases events with
  | nil => rfl
  | cons event rest =>
    obtain ⟨op | op, answer⟩ := event
    · cases hlefts
    · cases hrights

/-- An event on the right adds nothing to `lefts`. -/
@[simp] theorem lefts_concat_inr (events : List (Event (S.sum T))) (op : T.Op)
    (answer : (S.sum T).Res (.inr op)) : lefts (events ++ [⟨.inr op, answer⟩]) = lefts events := by
  rw [lefts, List.filterMap_append]
  exact List.append_nil _

/-- Which thread has moved, with which operation, and in which state. -/
def Move.brief (move : Move S σ) : Nat × S.Op × σ := (move.thread, move.op, move.before.state)

/-- The move, if it is one of the first signature. -/
def Move.left? (move : Move (S.sum T) (σ × τ)) : Option (Nat × S.Op × σ) :=
  match move.op with
  | .inl op => some (move.thread, op, move.before.state.1)
  | .inr _ => none

/-- The move, if it is one of the second signature. -/
def Move.right? (move : Move (S.sum T) (σ × τ)) : Option (Nat × T.Op × τ) :=
  match move.op with
  | .inl _ => none
  | .inr op => some (move.thread, op, move.before.state.2)

section Traces

variable {h : Handler S σ} {k : Handler T τ} {moves : List (Move (S.sum T) (σ × τ))}

/-- The `trace` of a thread is read off the briefs of the moves. -/
theorem trace_eq_briefs (h : Handler S σ) (i : Nat) (moves : List (Move S σ)) :
    trace h i moves = ((moves.map Move.brief).filter fun brief => brief.1 = i).map fun brief =>
      ⟨brief.2.1, (h brief.2.1 brief.2.2).1⟩ := by
  rw [trace, List.filter_map, List.map_map]
  rfl

/-- The left events of a thread are those of its left moves, with the answers of `h`. -/
theorem lefts_trace (i : Nat) : lefts (trace (h.sum k) i moves)
    = ((moves.filterMap Move.left?).filter fun brief => brief.1 = i).map fun brief =>
      ⟨brief.2.1, (h brief.2.1 brief.2.2).1⟩ := by
  induction moves using List.reverseRecOn with
  | nil => rfl
  | append_singleton moves move ih =>
    obtain ⟨j, op, c⟩ := move
    rw [trace_append, lefts, List.filterMap_append, ← lefts, ih, List.filterMap_append,
      List.filter_append, List.map_append]
    congr 1
    by_cases hj : j = i
    · subst hj
      cases op with
      | inl op => simp [trace, Event.left?, Move.left?, Handler.sum]
      | inr op => simp [trace]; rfl
    · cases op <;> simp [trace, Move.left?, hj]

/-- The right events of a thread are those of its right moves, with the answers of `k`. -/
theorem rights_trace (i : Nat) : rights (trace (h.sum k) i moves)
    = ((moves.filterMap Move.right?).filter fun brief => brief.1 = i).map fun brief =>
      ⟨brief.2.1, (k brief.2.1 brief.2.2).1⟩ := by
  induction moves using List.reverseRecOn with
  | nil => rfl
  | append_singleton moves move ih =>
    obtain ⟨j, op, c⟩ := move
    rw [trace_append, rights, List.filterMap_append, ← rights, ih, List.filterMap_append,
      List.filter_append, List.map_append]
    congr 1
    by_cases hj : j = i
    · subst hj
      cases op with
      | inl op => simp [trace]; rfl
      | inr op => simp [trace, Event.right?, Move.right?, Handler.sum]
    · cases op <;> simp [trace, Move.right?, hj]

/-- Moves with the briefs of the left moves have the `lefts` of the trace as theirs. -/
theorem trace_of_left {moves' : List (Move S σ)}
    (hbriefs : moves'.map Move.brief = moves.filterMap Move.left?) (i : Nat) :
    trace h i moves' = lefts (trace (h.sum k) i moves) := by
  rw [trace_eq_briefs, hbriefs, lefts_trace]

/-- Moves with the briefs of the right moves have the `rights` of the trace as theirs. -/
theorem trace_of_right {moves' : List (Move T τ)}
    (hbriefs : moves'.map Move.brief = moves.filterMap Move.right?) (i : Nat) :
    trace k i moves' = rights (trace (h.sum k) i moves) := by
  rw [trace_eq_briefs, hbriefs, rights_trace]

end Traces

/-! ## Programs -/

namespace Program

/-- A program over the first signature. -/
def inl (p : Program S α) : Program (S.sum T) α :=
  p.hoist fun op => Program.perform (S := S.sum T) (.inl op)

/-- A program over the second signature. -/
def inr (p : Program T α) : Program (S.sum T) α :=
  p.hoist fun op => Program.perform (S := S.sum T) (.inr op)

/-- `inl` is kept by sequencing. -/
theorem inl_bind (p : Program S α) (f : α → Program S β) :
    (p >>= f).inl (T := T) = p.inl >>= fun value => (f value).inl := hoist_bind ..

/-- `inr` is kept by sequencing. -/
theorem inr_bind (p : Program T α) (f : α → Program T β) :
    (p >>= f).inr (S := S) = p.inr >>= fun value => (f value).inr := hoist_bind ..

/-- `p >>= f` follows the events of `p` while `p` does. -/
theorem Follows.bind_left {p q : Program S α} {events : List (Event S)} (h : p.Follows events q)
    (f : α → Program S β) : (p >>= f).Follows events (q >>= f) := by
  induction h with
  | refl p => exact .refl _
  | call _ ih => exact .call ih

variable {events : List (Event (S.sum T))}

/-- What `p.inl` follows are events on the left, which `p` follows. -/
theorem Follows.of_inl {p : Program S α} {r : Program (S.sum T) α} (h : p.inl.Follows events r) :
    ∃ q, p.Follows (lefts events) q ∧ rights events = [] ∧ r = q.inl := by
  induction p generalizing events with
  | done value =>
    obtain ⟨rfl, rfl⟩ := Follows.of_done h
    exact ⟨.done value, .refl _, rfl, rfl⟩
  | call op next ih =>
    rcases Follows.call_cases h with ⟨rfl, rfl⟩ | ⟨answer, rest, rfl, hrest⟩
    · exact ⟨.call op next, .refl _, rfl, rfl⟩
    · obtain ⟨q, hq, hrights, rfl⟩ := ih answer hrest
      exact ⟨q, .call hq, hrights, rfl⟩

/-- What `p.inr` follows are events on the right, which `p` follows. -/
theorem Follows.of_inr {p : Program T α} {r : Program (S.sum T) α} (h : p.inr.Follows events r) :
    ∃ q, p.Follows (rights events) q ∧ lefts events = [] ∧ r = q.inr := by
  induction p generalizing events with
  | done value =>
    obtain ⟨rfl, rfl⟩ := Follows.of_done h
    exact ⟨.done value, .refl _, rfl, rfl⟩
  | call op next ih =>
    rcases Follows.call_cases h with ⟨rfl, rfl⟩ | ⟨answer, rest, rfl, hrest⟩
    · exact ⟨.call op next, .refl _, rfl, rfl⟩
    · obtain ⟨q, hq, hlefts, rfl⟩ := ih answer hrest
      exact ⟨q, .call hq, hlefts, rfl⟩

/-- `p.inl` returns what `p` does, after events on the left. -/
theorem Returns.of_inl {p : Program S α} {value : α} (h : p.inl.Returns events value) :
    p.Returns (lefts events) value ∧ rights events = [] := by
  obtain ⟨q, hfollows, hrights, hdone⟩ := Follows.of_inl h
  cases q with
  | done value' =>
    cases hdone
    exact ⟨hfollows, hrights⟩
  | call op next => cases hdone

/-- `p.inr` returns what `p` does, after events on the right. -/
theorem Returns.of_inr {p : Program T α} {value : α} (h : p.inr.Returns events value) :
    p.Returns (rights events) value ∧ lefts events = [] := by
  obtain ⟨q, hfollows, hlefts, hdone⟩ := Follows.of_inr h
  cases q with
  | done value' =>
    cases hdone
    exact ⟨hfollows, hlefts⟩
  | call op next => cases hdone

/-- `hoist` of `p.inl` performs the operations of `p` as those of the left signature. -/
theorem hoist_inl {U : Signature} (f : (op : (S.sum T).Op) → Program U ((S.sum T).Res op))
    (p : Program S α) : p.inl.hoist f = p.hoist fun op => f (.inl op) := by
  induction p with
  | done value => rfl
  | call op next ih =>
    show (f (.inl op) >>= fun answer => ((next answer).inl).hoist f) = _
    exact congrArg (f (.inl op) >>= ·) (funext ih)

/-- `hoist` of `p.inr` performs the operations of `p` as those of the right signature. -/
theorem hoist_inr {U : Signature} (f : (op : (S.sum T).Op) → Program U ((S.sum T).Res op))
    (p : Program T α) : p.inr.hoist f = p.hoist fun op => f (.inr op) := by
  induction p with
  | done value => rfl
  | call op next ih =>
    show (f (.inr op) >>= fun answer => ((next answer).inr).hoist f) = _
    exact congrArg (f (.inr op) >>= ·) (funext ih)

end Program

/-- A program in two stages. -/
structure Staged (S T : Signature) (α β : Type) where
  /-- The first stage. -/
  first : Program S α
  /-- The second stage, by what the first one has returned. -/
  second : α → Program T β

namespace Staged

/-- Both stages, one after the other. -/
def program (staged : Staged S T α β) : Program (S.sum T) β :=
  staged.first.inl >>= fun value => (staged.second value).inr

variable {staged : Staged S T α β} {events : List (Event (S.sum T))} {r : Program (S.sum T) β}

/-- **Where a program in two stages is**: in its `first` stage, which follows the `lefts`, or in its
`second`, which follows the `rights`. -/
theorem follows_cases (h : staged.program.Follows events r) :
    (∃ p, staged.first.Follows (lefts events) p ∧ rights events = [] ∧
        r = (p.inl >>= fun value => (staged.second value).inr)) ∨
      ∃ value q, staged.first.Returns (lefts events) value ∧
        (staged.second value).Follows (rights events) q ∧ r = q.inr := by
  rcases h.bind_cases with ⟨p', hp, rfl⟩ | ⟨before, after, value, rfl, hp, hq⟩
  · obtain ⟨p, hfollows, hrights, rfl⟩ := hp.of_inl
    exact .inl ⟨p, hfollows, hrights, rfl⟩
  · obtain ⟨p, hfollows, hrights, hdone⟩ := Program.Follows.of_inl hp
    obtain ⟨q, hsecond, hlefts, rfl⟩ := hq.of_inr
    refine .inr ⟨value, q, ?_, ?_, rfl⟩
    · rw [lefts, List.filterMap_append, ← lefts, ← lefts, hlefts, List.append_nil]
      cases p with
      | done value' => rwa [← Program.done.inj hdone] at hfollows
      | call op next => cases hdone
    · rw [rights, List.filterMap_append, ← rights, ← rights, hrights, List.nil_append]
      exact hsecond

/-- A `Staged` program has returned when both of its stages have. -/
theorem returns_cases {value : β} (h : staged.program.Returns events value) :
    ∃ middle, staged.first.Returns (lefts events) middle ∧
      (staged.second middle).Returns (rights events) value := by
  rcases follows_cases h with ⟨p, hfollows, hrights, heq⟩ | ⟨middle, q, hfirst, hsecond, heq⟩
  · cases p with
    | call op next => cases heq
    | done middle =>
      have hdone : (staged.second middle).inr (S := S) = .done value := heq.symm
      cases hstage : staged.second middle with
      | call op next => rw [hstage] at hdone; cases hdone
      | done value' =>
        rw [hstage] at hdone
        cases hdone
        rw [hrights]
        exact ⟨middle, hfollows, hstage ▸ .refl _⟩
  · cases q with
    | call op next => cases heq
    | done value' =>
      cases heq
      exact ⟨middle, hfirst, hsecond⟩

/-- The next operation of a `Staged` program is one on the left in its `first` stage only. -/
theorem first_of_ready {op : S.Op} {next : S.Res op → Program (S.sum T) β}
    (h : staged.program.Follows events (.call (.inl op) next)) :
    ∃ next', staged.first.Follows (lefts events) (.call op next') := by
  rcases follows_cases h with ⟨p, hfollows, -, heq⟩ | ⟨value, q, -, -, heq⟩
  · cases p with
    | call op' next' =>
      cases heq
      exact ⟨next', hfollows⟩
    | done value =>
      -- The first operation of the second stage is not one of the first signature.
      have hsecond : Program.call (S := S.sum T) (.inl op) next = (staged.second value).inr := heq
      cases hstage : staged.second value <;> rw [hstage] at hsecond <;> cases hsecond
  · cases q <;> cases heq

/-- The next operation of a `Staged` program is one on the right in its `second` stage only. -/
theorem second_of_ready {op : T.Op} {next : T.Res op → Program (S.sum T) β}
    (h : staged.program.Follows events (.call (.inr op) next)) :
    ∃ value next', staged.first.Returns (lefts events) value ∧
      (staged.second value).Follows (rights events) (.call op next') := by
  rcases follows_cases h with ⟨p, hfollows, hrights, heq⟩ | ⟨value, q, hreturns, hfollows, heq⟩
  · cases p with
    | call op' next' => cases heq
    | done value =>
      have hsecond : Program.call (S := S.sum T) (.inr op) next = (staged.second value).inr := heq
      cases hstage : staged.second value with
      | done => rw [hstage] at hsecond; cases hsecond
      | call op' next' =>
        rw [hstage] at hsecond
        cases hsecond
        rw [hrights]
        exact ⟨value, next', hfollows, hstage ▸ .refl _⟩
  · cases q with
    | done => cases heq
    | call op' next' =>
      cases heq
      exact ⟨value, next', hreturns, hfollows⟩

end Staged

/-! ## Interleavings -/

namespace Interleaving

variable {h : Handler S σ} {k : Handler T τ} {threads : List (Staged S T α Unit)} {s : σ} {t : τ}
  {moves : List (Move (S.sum T) (σ × τ))} {c : Config (S.sum T) (σ × τ)}

/-- A thread that is about to move is `Staged`, and has followed its `trace`. -/
theorem staged_of_ready
    (run : Interleaving (h.sum k) ⟨threads.map Staged.program, (s, t)⟩ moves c) {i : Nat}
    {p : Program (S.sum T) Unit} (ready : c.threads[i]? = some p) :
    ∃ staged, threads[i]? = some staged ∧ staged.program.Follows (trace (h.sum k) i moves) p := by
  have hlt : i < threads.length := by
    rw [← List.length_map (f := Staged.program), ← run.length_threads]
    exact (List.getElem?_eq_some_iff.mp ready).1
  have hstaged := List.getElem?_eq_getElem hlt
  obtain ⟨q, hq, hfollows⟩ := run.follows (i := i) (p := threads[i].program)
    (by rw [List.getElem?_map, hstaged, Option.map_some])
  rw [ready, Option.some_inj] at hq
  exact ⟨threads[i], hstaged, hq ▸ hfollows⟩

/-- **The first stages** have an `Interleaving` of their own, whose moves have the briefs of the
left moves. -/
theorem firsts (run : Interleaving (h.sum k) ⟨threads.map Staged.program, (s, t)⟩ moves c) :
    ∃ moves' c', Interleaving h
        ⟨threads.map fun staged => staged.first >>= fun _ => .done (), s⟩ moves' c' ∧
      moves'.map Move.brief = moves.filterMap Move.left? ∧ c'.state = c.state.1 := by
  induction run with
  | start => exact ⟨[], _, .start, rfl, rfl⟩
  | @step moves c i op next run ready ih =>
    obtain ⟨moves', c', run', hbriefs, hstate⟩ := ih
    obtain ⟨staged, hstaged, hfollows⟩ := run.staged_of_ready ready
    cases op with
    | inr op =>
      refine ⟨moves', c', run', ?_, hstate⟩
      rw [List.filterMap_append, hbriefs]
      simp [Move.left?]
    | inl op =>
      obtain ⟨next', hfirst⟩ := Staged.first_of_ready hfollows
      -- The first stage is at the same point in its own interleaving.
      obtain ⟨q, hq, hq'⟩ := run'.follows (i := i) (p := staged.first >>= fun _ => .done ()) (by
        rw [List.getElem?_map, hstaged, Option.map_some])
      rw [trace_of_left (k := k) hbriefs] at hq'
      have hready := hfirst.bind_left fun _ => Program.done (S := S) ()
      rw [hq'.unique hready, Program.call_bind] at hq
      refine ⟨moves' ++ [⟨i, op, c'⟩], _, run'.step hq, ?_, ?_⟩
      · rw [List.map_append, List.filterMap_append, hbriefs]
        simp [Move.left?, Move.brief, hstate]
      · show (h op c'.state).2 = (h op c.state.1).2
        rw [hstate]

/-- **The second stages** have an `Interleaving` of their own, for `values` of which each is the one
that the first stage has returned if it has returned. -/
theorem seconds (run : Interleaving (h.sum k) ⟨threads.map Staged.program, (s, t)⟩ moves c)
    (values : Nat → α) (hvalues : ∀ i staged value, threads[i]? = some staged →
      staged.first.Returns (lefts (trace (h.sum k) i moves)) value → values i = value) :
    ∃ moves' c', Interleaving k
        ⟨threads.mapIdx fun i staged => staged.second (values i), t⟩ moves' c' ∧
      moves'.map Move.brief = moves.filterMap Move.right? ∧ c'.state = c.state.2 := by
  induction run with
  | start => exact ⟨[], _, .start, rfl, rfl⟩
  | @step moves c i op next run ready ih =>
    obtain ⟨staged, hstaged, hfollows⟩ := run.staged_of_ready ready
    -- A first stage that had returned before the last move has not moved since.
    obtain ⟨moves', c', run', hbriefs, hstate⟩ := ih fun j staged' value hstaged' hreturns => by
      refine hvalues j staged' value hstaged' ?_
      by_cases hij : i = j
      · subst hij
        obtain rfl : staged = staged' := Option.some_inj.mp (hstaged ▸ hstaged')
        cases op with
        | inl op =>
          obtain ⟨next', hfirst⟩ := Staged.first_of_ready hfollows
          cases Program.Follows.unique hreturns hfirst
        | inr op => rwa [trace_concat_self, lefts_concat_inr]
      · rwa [trace_concat_ne _ _ hij]
    cases op with
    | inl op =>
      refine ⟨moves', c', run', ?_, hstate⟩
      rw [List.filterMap_append, hbriefs]
      simp [Move.right?]
    | inr op =>
      obtain ⟨value, next', hreturns, hsecond⟩ := Staged.second_of_ready hfollows
      have hvalue : values i = value := by
        refine hvalues i staged value hstaged ?_
        rwa [trace_concat_self, lefts_concat_inr]
      obtain ⟨q, hq, hq'⟩ := run'.follows (i := i) (p := staged.second (values i)) (by
        rw [List.getElem?_mapIdx, hstaged, Option.map_some])
      rw [trace_of_right (h := h) hbriefs, hvalue] at hq'
      rw [hq'.unique hsecond] at hq
      refine ⟨moves' ++ [⟨i, op, c'⟩], _, run'.step hq, ?_, ?_⟩
      · rw [List.map_append, List.filterMap_append, hbriefs]
        simp [Move.right?, Move.brief, hstate]
      · show (k op c'.state).2 = (k op c.state.2).2
        rw [hstate]

/-- A thread that is `done` may as well have something to do: it does not move. -/
theorem of_idle {programs programs' : List (Program S Unit)}
    (hidle : List.Forall₂ (fun p p' => p' = p ∨ p = .done ()) programs programs')
    {moves : List (Move S σ)} {c : Config S σ} (run : Interleaving h ⟨programs, s⟩ moves c) :
    ∃ moves' c', Interleaving h ⟨programs', s⟩ moves' c' ∧
      moves'.map Move.brief = moves.map Move.brief ∧ c'.state = c.state := by
  induction run with
  | start => exact ⟨[], _, .start, rfl, rfl⟩
  | @step moves c i op next run ready ih =>
    obtain ⟨moves', c', run', hbriefs, hstate⟩ := ih
    have hlt : i < programs.length := by
      rw [← run.length_threads]
      exact (List.getElem?_eq_some_iff.mp ready).1
    have hlt' : i < programs'.length := hidle.length_eq ▸ hlt
    obtain ⟨q, hq, hfollows⟩ := run.follows (List.getElem?_eq_getElem hlt)
    rw [ready, Option.some_inj] at hq
    subst hq
    -- The thread that moves had something to do.
    have hsame : programs'[i] = programs[i] := by
      rcases hidle.get hlt hlt' with hsame | hdone
      · exact hsame
      · have hget : programs[i] = .done () := hdone
        rw [hget] at hfollows
        cases (Program.Follows.of_done hfollows).2
    obtain ⟨q', hq', hfollows'⟩ := run'.follows (List.getElem?_eq_getElem hlt')
    rw [hsame, trace_eq_briefs, hbriefs, ← trace_eq_briefs] at hfollows'
    rw [hfollows'.unique hfollows] at hq'
    refine ⟨moves' ++ [⟨i, op, c'⟩], _, run'.step hq', ?_, ?_⟩
    · rw [List.map_append, List.map_append, hbriefs]
      simp [Move.brief, hstate]
    · show (h op c'.state).2 = (h op c.state).2
      rw [hstate]

end Interleaving

end LogosFs
