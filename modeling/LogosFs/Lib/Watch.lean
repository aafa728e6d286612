import LogosFs.Lib.Program

/-! # Watching a thread

A watcher follows a program operation by operation. Where it stands decides which operations it
allows, and each operation moves it on, together with the answer. `Program.Under` says that a program
keeps to a watcher, whatever expected answers it gets; it has a rule for each way of building
programs. In an interleaving the watcher of one thread stands where the moves of this thread have
brought it, and the thread still keeps to it there. -/

namespace LogosFs

/-- A watcher of programs. -/
structure Watch (S : Signature) (κ : Type) where
  /-- The operations it allows where it stands. -/
  allows : κ → S.Op → Prop
  /-- The answers that are expected. -/
  expects : (op : S.Op) → S.Res op → Prop
  /-- Where an operation with its answer moves it. -/
  next : κ → (op : S.Op) → S.Res op → κ

variable {S : Signature} {κ σ α β ε : Type} (watch : Watch S κ)

namespace Program

/-- The program keeps to the watcher from where it stands, and ends as `Q` says. -/
def Under (Q : α → κ → Prop) : Program S α → κ → Prop
  | .done value, k => Q value k
  | .call op next, k => watch.allows k op ∧
      ∀ answer, watch.expects op answer → (next answer).Under Q (watch.next k op answer)

variable {watch} {Q Q' : α → κ → Prop} {R : β → κ → Prop} {k : κ}

/-- `Under` is monotone in what holds in the end. -/
theorem Under.mono {p : Program S α} (h : p.Under watch Q k) (hQ : ∀ value k, Q value k → Q' value k) :
    p.Under watch Q' k := by
  induction p generalizing k with
  | done value => exact hQ value k h
  | call op next ih => exact ⟨h.1, fun answer hanswer => ih answer (h.2 answer hanswer)⟩

/-- `Under` of `p >>= f`: `f` goes on, watched, where `p` ends. -/
theorem Under.bind {p : Program S α} {f : α → Program S β} (h : p.Under watch Q k)
    (hf : ∀ value k, Q value k → (f value).Under watch R k) : (p >>= f).Under watch R k := by
  induction p generalizing k with
  | done value => exact hf value k h
  | call op next ih => exact ⟨h.1, fun answer hanswer => ih answer (h.2 answer hanswer)⟩

/-- `Under` of a sequence of parts that may fail, which ends where the first failure is. -/
theorem Under.exceptBind {p : ExceptT ε (Program S) α} {f : α → ExceptT ε (Program S) β}
    {Q : Except ε α → κ → Prop} {R : Except ε β → κ → Prop} (h : p.run.Under watch Q k)
    (hok : ∀ value k, Q (.ok value) k → (f value).run.Under watch R k)
    (herror : ∀ e k, Q (.error e) k → R (.error e) k) : (p >>= f).run.Under watch R k := by
  refine Under.bind h fun result k hresult => ?_
  cases result with
  | ok value => exact hok value k hresult
  | error e => exact herror e k hresult

/-- `Under` of `ignoreError p`, by what holds where `p` ends. -/
theorem Under.ignoreError {p : ExceptT ε (Program S) α} {Q : Except ε α → κ → Prop}
    {R : Except ε Unit → κ → Prop} (h : p.run.Under watch Q k)
    (hR : ∀ result k, Q result k → R (.ok ()) k) : (Program.ignoreError p).run.Under watch R k :=
  Under.bind h hR

/-- `Under` of `recover default p`, by what holds where `p` ends. -/
theorem Under.recover {default : α} {p : ExceptT ε (Program S) α} {Q : Except ε α → κ → Prop}
    {R : Except ε α → κ → Prop} (h : p.run.Under watch Q k)
    (hR : ∀ result k, Q result k → R (.ok (result.toOption.getD default)) k) :
    (Program.recover default p).run.Under watch R k :=
  Under.bind h hR

/-- `Under` of a loop, by what holds before each round, `I`, and after a failure, `E`. -/
theorem Under.forM {f : α → ExceptT ε (Program S) Unit} {I : κ → Prop} {E : ε → κ → Prop}
    (hf : ∀ item k, I k → (f item).run.Under watch (fun
      | .ok (), k => I k
      | .error e, k => E e k) k) (items : List α) (hk : I k) :
    (items.forM f).run.Under watch (fun
      | .ok (), k => I k
      | .error e, k => E e k) k := by
  induction items generalizing k with
  | nil => exact hk
  | cons item items ih =>
    exact Under.exceptBind (hf item k hk) (fun _ k hk => ih hk) fun _ _ he => he

end Program

/-! ## In an interleaving -/

variable (h : Handler S σ) (i : Nat)

/-- Where the watcher of a thread stands after some moves. -/
def Watch.after (k : κ) (moves : List (Move S σ)) : κ :=
  moves.foldl (fun k move => if move.thread = i then
    watch.next k move.op (h move.op move.before.state).1 else k) k

/-- `Watch.after` one more move goes on by `next` if the move is one of the thread. -/
theorem Watch.after_append_singleton (k : κ) (moves : List (Move S σ)) (move : Move S σ) :
    watch.after h i k (moves ++ [move]) = if move.thread = i then
      watch.next (watch.after h i k moves) move.op (h move.op move.before.state).1
      else watch.after h i k moves := by
  rw [Watch.after, List.foldl_append]
  rfl

variable {watch h i}

/-- **A thread keeps to its watcher**: in every `Interleaving` it is `Under` the watch, from where
its moves have led. -/
theorem Interleaving.under {c₀ c : Config S σ} {moves : List (Move S σ)}
    (run : Interleaving h c₀ moves c) (hexpects : ∀ op s, watch.expects op (h op s).1)
    {Q : Unit → κ → Prop} {k : κ} (init : ∀ p ∈ c₀.threads[i]?, p.Under watch Q k) :
    ∀ p ∈ c.threads[i]?, p.Under watch Q (watch.after h i k moves) := by
  induction run with
  | start => exact init
  | @step moves c j op next _ ready ih =>
    intro p hp
    rw [Watch.after_append_singleton]
    rw [Config.after, List.getElem?_set] at hp
    split at hp
    · rename_i hji
      subst hji
      rw [if_pos rfl]
      split at hp
      · cases hp
        exact (ih _ ready).2 _ (hexpects op c.state)
      · cases hp
    · rename_i hji
      rw [if_neg hji]
      exact ih p hp

end LogosFs
