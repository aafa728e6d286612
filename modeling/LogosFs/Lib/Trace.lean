import LogosFs.Lib.Program

/-! # What a thread has done

An event is an operation with the answer it got. `Program.Follows` says that a program can take some
events and what it still has to do after them; a program has returned a value if that is all that is
left. In an interleaving a thread follows the events of its own moves (`Interleaving.follows`), so what
a thread does and returns in a run is read off its program, whatever the other threads do. -/

namespace LogosFs

/-- An operation and its answer. -/
structure Event (S : Signature) where
  /-- The operation. -/
  op : S.Op
  /-- The answer. -/
  answer : S.Res op

variable {S : Signature} {σ α β ε : Type}

namespace Program

/-- The program takes some events, and then still has to do the other program. -/
inductive Follows : Program S α → List (Event S) → Program S α → Prop
  /-- Nothing has happened. -/
  | refl (p : Program S α) : Follows p [] p
  /-- The program is about to perform the operation of the first event. -/
  | call {op : S.Op} {next : S.Res op → Program S α} {answer : S.Res op} {events : List (Event S)}
    {q : Program S α} (rest : Follows (next answer) events q) :
    Follows (.call op next) (⟨op, answer⟩ :: events) q

/-- The program takes some events and returns a value. -/
def Returns (p : Program S α) (events : List (Event S)) (value : α) : Prop :=
  p.Follows events (.done value)

variable {p q : Program S α} {events : List (Event S)}

/-- `Follows` goes on with one more event: the `op` that is next and any answer to it. -/
theorem Follows.concat {op : S.Op} {next : S.Res op → Program S α}
    (h : p.Follows events (.call op next)) (answer : S.Res op) :
    p.Follows (events ++ [⟨op, answer⟩]) (next answer) := by
  generalize hq : Program.call op next = q at h
  induction h with
  | refl p => subst hq; exact .call (.refl _)
  | call _ ih => exact .call (ih hq)

/-- The events that a program `Follows` decide what is left of it. -/
theorem Follows.unique {q' : Program S α} (h : p.Follows events q) (h' : p.Follows events q') :
    q = q' := by
  induction h with
  | refl p => cases h'; rfl
  | call _ ih =>
    cases h' with
    | call rest => exact ih rest

/-- The events after which a program `Returns` decide what it returns. -/
theorem Returns.unique {value value' : α} (h : p.Returns events value)
    (h' : p.Returns events value') : value = value' :=
  Program.done.inj (Follows.unique h h')

/-- A program that is `done` follows no events. -/
theorem Follows.of_done {value : α} (h : (Program.done value).Follows events q) :
    events = [] ∧ q = .done value := by
  cases h with
  | refl => exact ⟨rfl, rfl⟩

/-- `Follows` is transitive: the later events go on where the first ones lead. -/
theorem Follows.append {r : Program S α} {later : List (Event S)} (h : p.Follows events q)
    (h' : q.Follows later r) : p.Follows (events ++ later) r := by
  induction h with
  | refl p => exact h'
  | call _ ih => exact .call (ih h')

/-- The first of `events ++ later` lead to what the later ones start from. -/
theorem Follows.append_cases {later : List (Event S)} (h : p.Follows (events ++ later) q) :
    ∃ r, p.Follows events r ∧ r.Follows later q := by
  induction events generalizing p with
  | nil => exact ⟨p, .refl p, h⟩
  | cons event events ih =>
    rw [List.cons_append] at h
    cases h with
    | call rest =>
      obtain ⟨r, hfirst, hlater⟩ := ih rest
      exact ⟨r, .call hfirst, hlater⟩

/-- After a program `Returns` it follows no more events. -/
theorem Returns.eq_of_follows {value : α} {later : List (Event S)} (h : p.Returns events value)
    (h' : p.Follows (events ++ later) q) : later = [] ∧ q = .done value := by
  obtain ⟨r, hfirst, hlater⟩ := h'.append_cases
  rw [← Follows.unique h hfirst] at hlater
  exact hlater.of_done

/-- A program `Returns` at one point of a sequence of events only. -/
theorem Returns.eq_of_append {value value' : α} {events' later later' : List (Event S)}
    (h : p.Returns events value) (h' : p.Returns events' value')
    (heq : events ++ later = events' ++ later') : value = value' := by
  rcases List.append_eq_append_iff.mp heq with ⟨more, rfl, -⟩ | ⟨more, rfl, -⟩
  · exact (Program.done.inj (h.eq_of_follows h').2).symm
  · exact Program.done.inj (h'.eq_of_follows h).2

/-- The first event of `call op next`, if there is one, is `op` with some answer. -/
theorem Follows.call_cases {op : S.Op} {next : S.Res op → Program S α}
    (h : (Program.call op next).Follows events q) : events = [] ∧ q = .call op next ∨
      ∃ answer rest, events = ⟨op, answer⟩ :: rest ∧ (next answer).Follows rest q := by
  cases h with
  | refl => exact .inl ⟨rfl, rfl⟩
  | call rest => exact .inr ⟨_, _, rfl, rest⟩

/-- **The events of a sequence** `p >>= f` are those of `p`, followed by those of `f` if `p` has
returned. -/
theorem Follows.bind_cases {f : α → Program S β} {r : Program S β}
    (h : (p >>= f).Follows events r) :
    (∃ p', p.Follows events p' ∧ r = (p' >>= f)) ∨
      ∃ first second value, events = first ++ second ∧ p.Returns first value ∧
        (f value).Follows second r := by
  induction p generalizing events with
  | done value => exact .inr ⟨[], events, value, rfl, .refl _, h⟩
  | call op next ih =>
    rw [call_bind] at h
    cases h with
    | refl => exact .inl ⟨_, .refl _, rfl⟩
    | call rest =>
      rcases ih _ rest with ⟨p', hfollows, hr⟩ | ⟨first, second, value, rfl, hreturns, hrest⟩
      · exact .inl ⟨p', .call hfollows, hr⟩
      · exact .inr ⟨_ :: first, second, value, rfl, .call hreturns, hrest⟩

/-- `p >>= f` goes on with `f` when `p` has returned. -/
theorem Returns.bind {f : α → Program S β} {value : α} {later : List (Event S)} {r : Program S β}
    (h : p.Returns events value) (h' : (f value).Follows later r) :
    (p >>= f).Follows (events ++ later) r := by
  induction p generalizing events with
  | done found =>
    obtain ⟨rfl, hvalue⟩ := Follows.of_done h
    rw [Program.done.inj hvalue] at h'
    exact h'
  | call op next ih =>
    cases h with
    | call rest => exact .call (ih _ rest)

/-- `p >>= f` has returned when `f` of the value that `p` returned has. -/
theorem Returns.bind_cases {f : α → Program S β} {value : β}
    (h : (p >>= f).Returns events value) :
    ∃ first second middle, events = first ++ second ∧ p.Returns first middle ∧
      (f middle).Returns second value := by
  rcases Follows.bind_cases h with ⟨p', hfollows, hdone⟩ | hreturns
  · cases p' with
    | done middle =>
      have hmiddle : f middle = .done value := hdone.symm
      refine ⟨events, [], middle, (List.append_nil _).symm, hfollows, ?_⟩
      rw [hmiddle]
      exact .refl _
    | call op next => cases hdone
  · exact hreturns

/-- A `p >>= f` that may fail has succeeded when both of its parts have. -/
theorem Returns.exceptBind_cases {p : ExceptT ε (Program S) α} {f : α → ExceptT ε (Program S) β}
    {value : β} (h : (p >>= f).run.Returns events (.ok value)) :
    ∃ first second middle, events = first ++ second ∧ p.run.Returns first (.ok middle) ∧
      (f middle).run.Returns second (.ok value) := by
  rw [ExceptT.run_bind] at h
  obtain ⟨first, second, middle, hevents, hfirst, hsecond⟩ := Returns.bind_cases h
  cases middle with
  | ok middle => exact ⟨first, second, middle, hevents, hfirst, hsecond⟩
  | error e => cases hsecond

/-- A program that is `done` returns at once, after no events. -/
theorem returns_done_iff {value value' : α} :
    (Program.done value : Program S α).Returns events value' ↔ events = [] ∧ value' = value := by
  constructor
  · intro h
    obtain ⟨hevents, hvalue⟩ := Follows.of_done h
    exact ⟨hevents, Program.done.inj hvalue⟩
  · rintro ⟨rfl, rfl⟩
    exact .refl _

/-- The first event of a `call op next` that returns is `op`, with the answer that it goes on with.
-/
theorem returns_call_iff {op : S.Op} {next : S.Res op → Program S α} {value : α} :
    (Program.call op next).Returns events value ↔
      ∃ answer rest, events = ⟨op, answer⟩ :: rest ∧ (next answer).Returns rest value := by
  constructor
  · intro h
    rcases Follows.call_cases h with ⟨-, hdone⟩ | hcall
    · cases hdone
    · exact hcall
  · rintro ⟨answer, rest, rfl, h⟩
    exact .call h

/-- `perform op` returns the answer to its one event. -/
theorem returns_perform_iff {op : S.Op} {answer : S.Res op} :
    (Program.perform op).Returns events answer ↔ events = [⟨op, answer⟩] := by
  rw [Program.perform, returns_call_iff]
  constructor
  · rintro ⟨answer', rest, rfl, h⟩
    obtain ⟨rfl, rfl⟩ := returns_done_iff.mp h
    rfl
  · rintro rfl
    exact ⟨answer, [], rfl, .refl _⟩

/-- `p >>= f` returns what `f` does, after the events of `p`. -/
theorem returns_bind_iff {f : α → Program S β} {value : β} :
    (p >>= f).Returns events value ↔ ∃ first second middle, events = first ++ second ∧
      p.Returns first middle ∧ (f middle).Returns second value := by
  constructor
  · exact Returns.bind_cases
  · rintro ⟨first, second, middle, rfl, hfirst, hsecond⟩
    exact hfirst.bind hsecond

/-- A `p >>= f` that may fail ends with the error of `p`, or with what `f` ends with. -/
theorem returns_exceptBind_iff {p : ExceptT ε (Program S) α} {f : α → ExceptT ε (Program S) β}
    {result : Except ε β} : (p >>= f).run.Returns events result ↔
      (∃ e, p.run.Returns events (.error e) ∧ result = .error e) ∨
        ∃ first second middle, events = first ++ second ∧ p.run.Returns first (.ok middle) ∧
          (f middle).run.Returns second result := by
  rw [ExceptT.run_bind, returns_bind_iff]
  constructor
  · rintro ⟨first, second, middle, rfl, hfirst, hsecond⟩
    cases middle with
    | ok middle => exact .inr ⟨first, second, middle, rfl, hfirst, hsecond⟩
    | error e =>
      obtain ⟨rfl, rfl⟩ := returns_done_iff.mp hsecond
      exact .inl ⟨e, by rwa [List.append_nil], rfl⟩
  · rintro (⟨e, hfirst, rfl⟩ | ⟨first, second, middle, rfl, hfirst, hsecond⟩)
    · exact ⟨events, [], .error e, (List.append_nil _).symm, hfirst, .refl _⟩
    · exact ⟨first, second, .ok middle, rfl, hfirst, hsecond⟩

/-- `outcome p` returns, as a value, what `p` returns. -/
theorem returns_outcome_iff {p : ExceptT ε (Program S) α} {result : Except ε (Except ε α)} :
    (Program.outcome p).run.Returns events result ↔
      ∃ outcome, result = .ok outcome ∧ p.run.Returns events outcome := by
  show (p.run >>= fun outcome => Program.done (.ok outcome)).Returns events result ↔ _
  rw [returns_bind_iff]
  constructor
  · rintro ⟨first, second, outcome, rfl, hfirst, hsecond⟩
    obtain ⟨rfl, rfl⟩ := returns_done_iff.mp hsecond
    exact ⟨outcome, rfl, by rwa [List.append_nil]⟩
  · rintro ⟨outcome, rfl, h⟩
    exact ⟨events, [], outcome, (List.append_nil _).symm, h, .refl _⟩

/-- `perform op`, lifted by `liftM` to programs that may fail, never fails. -/
theorem returns_lift_iff {op : S.Op} {result : Except ε (S.Res op)} :
    (liftM (Program.perform op) : ExceptT ε (Program S) (S.Res op)).run.Returns events result ↔
      ∃ answer, result = .ok answer ∧ events = [⟨op, answer⟩] := by
  have hrun : (liftM (Program.perform op) : ExceptT ε (Program S) (S.Res op)).run
      = (Program.perform op >>= fun answer => .done (.ok answer)) := by
    show (ExceptT.lift (Program.perform op)).run = _
    rw [ExceptT.run_lift, map_eq_pure_bind]
    rfl
  rw [hrun, returns_bind_iff]
  constructor
  · rintro ⟨first, second, answer, rfl, hfirst, hsecond⟩
    obtain ⟨rfl, rfl⟩ := returns_done_iff.mp hsecond
    exact ⟨answer, rfl, by rw [List.append_nil, returns_perform_iff.mp hfirst]⟩
  · rintro ⟨answer, rfl, rfl⟩
    exact ⟨_, [], answer, (List.append_nil _).symm, returns_perform_iff.mpr rfl, .refl _⟩

/-- What is left of a program with `AllOps P` has it too. -/
theorem Follows.allOps {P : S.Op → Prop} (h : p.Follows events q) (hp : p.AllOps P) :
    q.AllOps P := by
  induction h with
  | refl => exact hp
  | call _ ih => exact ih (hp.2 _)

/-- What a program returns after some events, if they are its events and it returns. -/
def returned? [DecidableEq S.Op] : Program S α → List (Event S) → Option α
  | .done value, [] => some value
  | .call op next, ⟨op', answer⟩ :: events =>
    if h : op' = op then (next (h ▸ answer)).returned? events else none
  | .done _, _ :: _ => none
  | .call _ _, [] => none

/-- A program does return what `returned?` says it returns. -/
theorem returns_of_returned? [DecidableEq S.Op] {value : α} (h : p.returned? events = some value) :
    p.Returns events value := by
  induction p generalizing events with
  | done value' =>
    cases events with
    | nil =>
      obtain rfl := Option.some_inj.mp h
      exact .refl _
    | cons event events => cases h
  | call op next ih =>
    cases events with
    | nil => cases h
    | cons event events =>
      obtain ⟨op', answer⟩ := event
      unfold returned? at h
      split at h
      · rename_i heq
        subst heq
        exact .call (ih _ h)
      · cases h

end Program

/-! ## In an interleaving -/

variable (h : Handler S σ) (i : Nat)

/-- The events of a thread in some moves. -/
def trace (moves : List (Move S σ)) : List (Event S) :=
  (moves.filter fun move => move.thread = i).map fun move =>
    ⟨move.op, (h move.op move.before.state).1⟩

/-- Before any move the `trace` of a thread is empty. -/
@[simp] theorem trace_nil : trace h i [] = [] := rfl

/-- `trace` of two sequences of moves is that of the one and then that of the other. -/
theorem trace_append (moves moves' : List (Move S σ)) :
    trace h i (moves ++ moves') = trace h i moves ++ trace h i moves' := by
  rw [trace, List.filter_append, List.map_append]
  rfl

/-- A move of the thread adds its operation, with the answer of `h`, to the trace. -/
theorem trace_concat_self (moves : List (Move S σ)) (op : S.Op) (c : Config S σ) :
    trace h i (moves ++ [⟨i, op, c⟩]) = trace h i moves ++ [⟨op, (h op c.state).1⟩] := by
  rw [trace_append]
  simp [trace]

/-- A move of another thread adds nothing to the `trace`. -/
theorem trace_concat_ne {j : Nat} (hne : j ≠ i) (moves : List (Move S σ)) (op : S.Op)
    (c : Config S σ) : trace h i (moves ++ [⟨j, op, c⟩]) = trace h i moves := by
  rw [trace_append]
  simp [trace, hne]

/-- Every event in the `trace` of a thread is the operation of one of its moves, with the answer of
`h`. -/
theorem exists_move_of_mem_trace {moves : List (Move S σ)} {event : Event S}
    (hevent : event ∈ trace h i moves) : ∃ move ∈ moves, move.thread = i ∧
      event = ⟨move.op, (h move.op move.before.state).1⟩ := by
  obtain ⟨move, hmove, rfl⟩ := List.mem_map.mp hevent
  rw [List.mem_filter, decide_eq_true_iff] at hmove
  exact ⟨move, hmove.1, hmove.2, rfl⟩

variable {h i}

/-- **A thread follows its moves**: in every `Interleaving` what is left of it is what it `Follows`
by its `trace`. -/
theorem Interleaving.follows {c₀ c : Config S σ} {moves : List (Move S σ)}
    (run : Interleaving h c₀ moves c) {p : Program S Unit} (hp : c₀.threads[i]? = some p) :
    ∃ q, c.threads[i]? = some q ∧ p.Follows (trace h i moves) q := by
  induction run with
  | start => exact ⟨p, hp, .refl p⟩
  | @step moves c j op next _ ready ih =>
    obtain ⟨q, hq, hfollows⟩ := ih
    rw [Config.after, List.getElem?_set]
    by_cases hji : j = i
    · subst hji
      rw [ready, Option.some_inj] at hq
      subst hq
      have hlt : j < c.threads.length := (List.getElem?_eq_some_iff.mp ready).1
      rw [if_pos rfl, if_pos hlt, trace_concat_self]
      exact ⟨_, rfl, hfollows.concat _⟩
    · rw [if_neg hji, trace_concat_ne h i hji]
      exact ⟨q, hq, hfollows⟩

/-- An `Interleaving` neither starts nor removes a thread. -/
theorem Interleaving.length_threads {c₀ c : Config S σ} {moves : List (Move S σ)}
    (run : Interleaving h c₀ moves c) : c.threads.length = c₀.threads.length := by
  induction run with
  | start => rfl
  | step _ _ ih => rw [Config.after, List.length_set, ih]

/-- Each move of an `Interleaving` is one of a thread that is there. -/
theorem Interleaving.thread_lt {c₀ c : Config S σ} {moves : List (Move S σ)}
    (run : Interleaving h c₀ moves c) : ∀ move ∈ moves, move.thread < c₀.threads.length := by
  induction run with
  | start => exact fun _ hmove => absurd hmove List.not_mem_nil
  | step run ready ih =>
    intro move hmove
    rcases List.mem_append.mp hmove with hmove | hmove
    · exact ih move hmove
    · rw [List.mem_singleton.mp hmove, ← run.length_threads]
      exact (List.getElem?_eq_some_iff.mp ready).1

/-- Up to the order, moves are those of thread 0, of thread 1, and so on to `n`. -/
theorem perm_flatMap_threads (moves : List (Move S σ)) {n : Nat}
    (hlt : ∀ move ∈ moves, move.thread < n) :
    moves.Perm ((List.range n).flatMap fun i => moves.filter fun move => move.thread = i) := by
  have hsplit : ∀ n, (moves.filter fun move => move.thread < n).Perm
      ((List.range n).flatMap fun i => moves.filter fun move => move.thread = i) := by
    intro n
    induction n with
    | zero => simp
    | succ n ih =>
      rw [List.range_succ, List.flatMap_append, List.flatMap_singleton]
      refine .trans ?_ (ih.append_right _)
      have hfilter := List.filter_append_perm (fun move : Move S σ => decide (move.thread < n))
        (moves.filter fun move => move.thread < n + 1)
      -- Of the threads up to `n` the last one is split off.
      have hbelow : (moves.filter fun move => move.thread < n + 1).filter (fun move => move.thread < n)
          = moves.filter fun move => move.thread < n := by
        rw [List.filter_filter]
        exact List.filter_congr fun move _ => by grind
      have hlast : (moves.filter fun move => move.thread < n + 1).filter
          (fun move => !decide (move.thread < n)) = moves.filter fun move => move.thread = n := by
        rw [List.filter_filter]
        exact List.filter_congr fun move _ => by grind
      rw [hbelow, hlast] at hfilter
      exact hfilter.symm
  exact .trans (.of_eq (List.filter_eq_self.mpr fun move hmove => decide_eq_true (hlt move hmove)).symm)
    (hsplit n)

/-- **Each move is what its thread was about to do**: the thread `Follows` its `trace` to the `call`
of the operation. -/
theorem Interleaving.follows_of_split {c₀ c : Config S σ} {moves earlier later : List (Move S σ)}
    {move : Move S σ} (run : Interleaving h c₀ moves c) (hmoves : moves = earlier ++ move :: later) :
    ∃ p next, c₀.threads[move.thread]? = some p ∧
      p.Follows (trace h move.thread earlier) (.call move.op next) := by
  have hready : ∃ next, move.before.threads[move.thread]? = some (.call move.op next) := by
    induction run generalizing later with
    | start =>
      exact absurd hmoves.symm (List.append_ne_nil_of_right_ne_nil earlier (List.cons_ne_nil _ _))
    | step run ready ih =>
      rcases List.eq_nil_or_concat later with rfl | ⟨init, last, rfl⟩
      · obtain ⟨-, hlast⟩ := List.append_inj' hmoves rfl
        rw [← List.singleton_inj.mp hlast]
        exact ⟨_, ready⟩
      · rw [List.concat_eq_append, ← List.cons_append, ← List.append_assoc] at hmoves
        exact ih (List.append_inj' hmoves rfl).1
  obtain ⟨next, hready⟩ := hready
  have hbefore := run.before_of_split hmoves
  have hlt : move.thread < c₀.threads.length := by
    rw [← hbefore.length_threads]
    exact (List.getElem?_eq_some_iff.mp hready).1
  obtain ⟨q, hq, hfollows⟩ := hbefore.follows (List.getElem?_eq_getElem hlt)
  rw [hready, Option.some_inj] at hq
  exact ⟨_, next, List.getElem?_eq_getElem hlt, hq ▸ hfollows⟩

end LogosFs
