import Mathlib.Data.List.Basic

/-! # Programs over atomic operations

A **signature** lists atomic operations and the type each one answers with. A `Program` is a tree
of such operations whose branching is the answer, so one definition of a program serves two
semantics:

* `Program.run` executes it alone, from a state to a result and a final state;
* `Interleaving` executes several programs over one shared state, one atomic operation at a time,
  in any order.

The rules are the usual ones: `run_bind` for sequencing, `AllOps` for "every operation the program
can ever perform satisfies `P`", and `Interleaving.historyInvariant` for what every schedule
preserves. -/

namespace LogosFs

/-- A signature of atomic operations: the operations, and the type each one answers with. -/
structure Signature where
  /-- The operations. -/
  Op : Type
  /-- The type of the answer to an operation. -/
  Res : Op → Type

/-- A program over `S`: it has finished with a value, or performs an operation and continues
according to the answer. -/
inductive Program (S : Signature) (α : Type) : Type
  /-- The program has finished. -/
  | done (value : α) : Program S α
  /-- The program performs `op` and continues with its answer. -/
  | call (op : S.Op) (next : S.Res op → Program S α) : Program S α

/-- How a state answers each operation, and the state after it. -/
abbrev Handler (S : Signature) (σ : Type) : Type := (op : S.Op) → σ → S.Res op × σ

namespace Program

variable {S : Signature} {σ α β γ ε : Type}

/-- Sequencing: continue with `f` where `p` finishes. -/
def bind : Program S α → (α → Program S β) → Program S β
  | .done value, f => f value
  | .call op next, f => .call op fun answer => (next answer).bind f

instance : Monad (Program S) where
  pure := .done
  bind := Program.bind

/-- The program that performs one operation and returns its answer. -/
def perform (op : S.Op) : Program S (S.Res op) := .call op .done

/-- `pure` is the program that is `done`. -/
@[simp] theorem pure_eq_done (value : α) : (pure value : Program S α) = .done value := rfl

/-- Nothing happens before what follows `done`. -/
@[simp] theorem done_bind (value : α) (f : α → Program S β) : (.done value >>= f) = f value := rfl

/-- What follows a `call` follows every answer to it. -/
@[simp] theorem call_bind (op : S.Op) (next : S.Res op → Program S α) (f : α → Program S β) :
    (.call op next >>= f) = .call op fun answer => next answer >>= f := rfl

/-- Sequencing with `done` changes nothing. -/
theorem bind_done (p : Program S α) : (p >>= .done) = p := by
  induction p with
  | done => rfl
  | call op next ih => simp only [call_bind, ih]

/-- `>>=` of programs is associative. -/
theorem bind_assoc (p : Program S α) (f : α → Program S β) (g : β → Program S γ) :
    (p >>= f >>= g) = (p >>= fun value => f value >>= g) := by
  induction p with
  | done => rfl
  | call op next ih => simp only [call_bind, ih]

instance : LawfulMonad (Program S) :=
  LawfulMonad.mk' (Program S) bind_done (fun _ _ => rfl) bind_assoc

/-! ## Running alone -/

/-- Run a program to its end, alone, from a state. -/
def run (h : Handler S σ) : Program S α → σ → α × σ
  | .done value, s => (value, s)
  | .call op next, s => (next (h op s).1).run h (h op s).2

variable (h : Handler S σ)

/-- Running `done` answers the value and leaves the state alone. -/
@[simp] theorem run_done (value : α) (s : σ) : (done value : Program S α).run h s = (value, s) :=
  rfl

/-- Running a `call` goes on with the answer and the state of the handler. -/
@[simp] theorem run_call (op : S.Op) (next : S.Res op → Program S α) (s : σ) :
    (call op next).run h s = (next (h op s).1).run h (h op s).2 := rfl

/-- Running `perform op` is handling `op`. -/
@[simp] theorem run_perform (op : S.Op) (s : σ) : (perform op).run h s = h op s := rfl

/-- `run` of `p >>= f` runs `p`, and then `f` of its value on the state that `p` left. -/
@[simp] theorem run_bind (p : Program S α) (f : α → Program S β) (s : σ) :
    (p >>= f).run h s = (f (p.run h s).1).run h (p.run h s).2 := by
  induction p generalizing s with
  | done => rfl
  | call op next ih => simp only [call_bind, run_call, ih]

/-- Run a program that may fail. -/
def eval (p : ExceptT ε (Program S) α) (s : σ) : Except ε α × σ := Program.run h p.run s

/-- The rest of a program that may fail, after its first part has been run. -/
def evalNext (f : α → ExceptT ε (Program S) β) : Except ε α × σ → Except ε β × σ
  | (.ok value, s) => eval h (f value) s
  | (.error e, s) => (.error e, s)

/-- `evalNext` goes on with a value. -/
@[simp] theorem evalNext_ok (f : α → ExceptT ε (Program S) β) (value : α) (s : σ) :
    evalNext h f (.ok value, s) = eval h (f value) s := rfl

/-- `evalNext` stops at an error. -/
@[simp] theorem evalNext_error (f : α → ExceptT ε (Program S) β) (e : ε) (s : σ) :
    evalNext h f (.error e, s) = (.error e, s) := rfl

/-- `pure` answers the value and leaves the state alone. -/
@[simp] theorem eval_pure (value : α) (s : σ) :
    eval h (pure value : ExceptT ε (Program S) α) s = (.ok value, s) := rfl

/-- `throw` fails with the error and leaves the state alone. -/
@[simp] theorem eval_throw (e : ε) (s : σ) :
    eval h (throw e : ExceptT ε (Program S) α) s = (.error e, s) := rfl

/-- `eval` of `p >>= f` ends where `p` fails; otherwise `evalNext` runs `f` on what `p` left. -/
@[simp] theorem eval_bind (p : ExceptT ε (Program S) α) (f : α → ExceptT ε (Program S) β) (s : σ) :
    eval h (p >>= f) s = evalNext h f (eval h p s) := by
  have hrun : (p >>= f).run = (p.run >>= fun
      | .ok value => (f value).run
      | .error e => .done (.error e)) := by
    simp only [ExceptT.run_bind]
    congr 1
    funext result
    cases result <;> rfl
  rw [eval, hrun, run_bind, eval]
  rcases Program.run h p.run s with ⟨_ | _, s'⟩ <;> rfl

/-- `p >>= f` succeeds only if `p` does, and then `f` of its value. -/
theorem exists_of_eval_bind_ok {p : ExceptT ε (Program S) α} {f : α → ExceptT ε (Program S) β}
    {s s' : σ} {value : β} (hrun : eval h (p >>= f) s = (.ok value, s')) :
    ∃ first s₁, eval h p s = (.ok first, s₁) ∧ eval h (f first) s₁ = (.ok value, s') := by
  rw [eval_bind] at hrun
  rcases hp : eval h p s with ⟨e | first, s₁⟩ <;> rw [hp] at hrun
  · cases hrun
  · exact ⟨first, s₁, rfl, hrun⟩

/-- `eval` commutes with mapping the value. -/
@[simp] theorem eval_map (p : ExceptT ε (Program S) α) (f : α → β) (s : σ) :
    eval h (f <$> p) s = ((eval h p s).1.map f, (eval h p s).2) := by
  rw [← bind_pure_comp, eval_bind]
  rcases eval h p s with ⟨_ | _, s'⟩ <;> rfl

/-- A program that cannot fail evaluates, by `liftM`, to what it runs to. -/
@[simp] theorem eval_lift (p : Program S α) (s : σ) :
    eval h (liftM p : ExceptT ε (Program S) α) s = (.ok (p.run h s).1, (p.run h s).2) := by
  show Program.run h (ExceptT.run (ExceptT.lift p)) s = _
  rw [ExceptT.run_lift, map_eq_pure_bind, run_bind]
  rfl

/-- Perform an operation whose answer may be an error, and fail with that error. -/
def attempt (p : Program S (Except ε α)) : ExceptT ε (Program S) α := ExceptT.mk p

/-- `attempt p` evaluates to what `p` runs to, its error included. -/
@[simp] theorem eval_attempt (p : Program S (Except ε α)) (s : σ) :
    eval h (attempt p) s = p.run h s := rfl

/-- Run a part that may fail and go on whatever its outcome (`let _ = p`). -/
def ignoreError (p : ExceptT ε (Program S) α) : ExceptT ε (Program S) Unit :=
  ExceptT.mk (p.run >>= fun _ => .done (.ok ()))

/-- `ignoreError p` never fails, and ends in the state that `p` ends in. -/
@[simp] theorem eval_ignoreError (p : ExceptT ε (Program S) α) (s : σ) :
    eval h (ignoreError p) s = (.ok (), (eval h p s).2) := by
  simp only [ignoreError, eval, ExceptT.run_mk, run_bind, run_done]

/-- Run a part that may fail and go on with its value, or with a default (`unwrap_or`). -/
def recover (default : α) (p : ExceptT ε (Program S) α) : ExceptT ε (Program S) α :=
  ExceptT.mk (p.run >>= fun result => .done (.ok (result.toOption.getD default)))

/-- `recover default p` never fails: it answers `default` where `p` fails. -/
@[simp] theorem eval_recover (default : α) (p : ExceptT ε (Program S) α) (s : σ) :
    eval h (recover default p) s
      = (.ok ((eval h p s).1.toOption.getD default), (eval h p s).2) := by
  simp only [recover, eval, ExceptT.run_mk, run_bind, run_done]

/-- Run a part that may fail and go on with its outcome. -/
def outcome (p : ExceptT ε (Program S) α) : ExceptT ε (Program S) (Except ε α) :=
  ExceptT.mk (p.run >>= fun result => .done (.ok result))

/-- `outcome p` never fails: it answers the outcome of `p` as a value. -/
@[simp] theorem eval_outcome (p : ExceptT ε (Program S) α) (s : σ) :
    eval h (outcome p) s = (.ok (eval h p s).1, (eval h p s).2) := by
  simp only [outcome, eval, ExceptT.run_mk, run_bind, run_done]

/-- `forM` with a body that never fails folds the `step` of one round over the list. -/
theorem eval_forM {f : α → ExceptT ε (Program S) Unit} (step : σ → α → σ)
    (hf : ∀ item s, eval h (f item) s = (.ok (), step s item)) (items : List α) (s : σ) :
    eval h (items.forM f) s = (.ok (), items.foldl step s) := by
  induction items generalizing s with
  | nil => rfl
  | cons item items ih =>
    show eval h (f item >>= fun _ => items.forM f) s = _
    rw [eval_bind, hf, evalNext_ok, ih, List.foldl_cons]

/-- The operation that a program performs next; a finished one performs none. -/
def nextOp : Program S α → Option S.Op
  | .done _ => none
  | .call op _ => some op

/-- A program that is `done` has no next operation. -/
@[simp] theorem nextOp_done (value : α) : (done value : Program S α).nextOp = none := rfl

/-- The next operation of `call op next` is `op`. -/
@[simp] theorem nextOp_call (op : S.Op) (next : S.Res op → Program S α) :
    (call op next).nextOp = some op := rfl

/-- Only a program that is `done` has no next operation. -/
theorem nextOp_eq_none_iff {p : Program S Unit} : p.nextOp = none ↔ p = .done () := by
  cases p with
  | done value => exact iff_of_true rfl rfl
  | call op next => exact iff_of_false (fun h => nomatch h) (fun h => nomatch h)

/-! ## What a program can ever do -/

/-- Every operation the program can perform, whatever the answers, satisfies `P`. -/
def AllOps (P : S.Op → Prop) : Program S α → Prop
  | .done _ => True
  | .call op next => P op ∧ ∀ answer, (next answer).AllOps P

variable {P Q : S.Op → Prop}

/-- A program that is `done` has no operation left to satisfy `P`. -/
@[simp] theorem allOps_done (value : α) : (done value : Program S α).AllOps P := trivial

/-- `AllOps` of a `call` is `P` of its operation, and `AllOps` after every answer. -/
@[simp] theorem allOps_call (op : S.Op) (next : S.Res op → Program S α) :
    (call op next).AllOps P ↔ P op ∧ ∀ answer, (next answer).AllOps P := Iff.rfl

/-- `AllOps` of `perform op` is `P op`. -/
@[simp] theorem allOps_perform (op : S.Op) : (perform op).AllOps P ↔ P op :=
  ⟨fun h => h.1, fun h => ⟨h, fun _ => trivial⟩⟩

/-- `p >>= f` performs only operations in `P` when both of its parts do. -/
theorem AllOps.bind {p : Program S α} {f : α → Program S β} (hp : p.AllOps P)
    (hf : ∀ value, (f value).AllOps P) : (p >>= f).AllOps P := by
  induction p with
  | done value => exact hf value
  | call op next ih => exact ⟨hp.1, fun answer => ih answer (hp.2 answer)⟩

/-- When what follows satisfies `AllOps P`, `p >>= f` does so exactly when `p` does. -/
theorem allOps_bind_iff {p : Program S α} {f : α → Program S β} (hf : ∀ value, (f value).AllOps P) :
    (p >>= f).AllOps P ↔ p.AllOps P := by
  induction p with
  | done value => exact iff_of_true (hf value) trivial
  | call op next ih => exact and_congr_right fun _ => forall_congr' ih

/-- A program can only perform operations, so `AllOps P` holds where every operation is in `P`. -/
theorem allOps_of_forall (h : ∀ op, P op) (p : Program S α) : p.AllOps P := by
  induction p with
  | done => trivial
  | call op next ih => exact ⟨h op, ih⟩

/-- `AllOps` is monotone in the predicate. -/
theorem AllOps.mono {p : Program S α} (hp : p.AllOps P) (hPQ : ∀ op, P op → Q op) :
    p.AllOps Q := by
  induction p with
  | done => trivial
  | call op next ih => exact ⟨hPQ op hp.1, fun answer => ih answer (hp.2 answer)⟩

/-- `AllOps P` of a sequence that may fail follows from that of its parts. -/
theorem AllOps.exceptBind {p : ExceptT ε (Program S) α} {f : α → ExceptT ε (Program S) β}
    (hp : p.run.AllOps P) (hf : ∀ value, (f value).run.AllOps P) : (p >>= f).run.AllOps P := by
  rw [ExceptT.run_bind]
  refine hp.bind fun result => ?_
  cases result with
  | ok value => exact hf value
  | error e => trivial

/-- `pure` has no operation to satisfy `P`. -/
@[simp] theorem allOps_exceptPure (value : α) :
    (pure value : ExceptT ε (Program S) α).run.AllOps P := trivial

/-- `throw` has no operation to satisfy `P`. -/
@[simp] theorem allOps_throw (e : ε) : (throw e : ExceptT ε (Program S) α).run.AllOps P := trivial

/-- `AllOps` is kept by lifting to programs that may fail. -/
theorem AllOps.lift {p : Program S α} (hp : p.AllOps P) :
    (liftM p : ExceptT ε (Program S) α).run.AllOps P := by
  show (ExceptT.run (ExceptT.lift p)).AllOps P
  rw [ExceptT.run_lift, map_eq_pure_bind]
  exact hp.bind fun _ => trivial

/-- `AllOps` is kept by `ignoreError`. -/
theorem AllOps.ignoreError {p : ExceptT ε (Program S) α} (hp : p.run.AllOps P) :
    (Program.ignoreError p).run.AllOps P := AllOps.bind hp fun _ => trivial

/-- `AllOps P` of `forM` follows from that of its body. -/
theorem AllOps.forM {f : α → ExceptT ε (Program S) Unit} (hf : ∀ item, (f item).run.AllOps P)
    (items : List α) : (items.forM f).run.AllOps P := by
  induction items with
  | nil => trivial
  | cons item items ih => exact AllOps.exceptBind (hf item) fun _ => ih

/-- An invariant `I` that every operation in `P` keeps is kept by the run of a program of such
operations. -/
theorem AllOps.run_keeps {I : σ → Prop} (hkeeps : ∀ op s, P op → I s → I (h op s).2)
    {p : Program S α} (hp : p.AllOps P) {s : σ} (hs : I s) : I (p.run h s).2 := by
  induction p generalizing s with
  | done => exact hs
  | call op next ih => exact ih _ (hp.2 _) (hkeeps op s hp.1 hs)

/-! ## Properties that sequencing keeps -/

/-- A property of programs that may fail which a program built from parts has when its parts do. -/
structure Closed (M : ∀ {α : Type}, ExceptT ε (Program S) α → Prop) : Prop where
  /-- It holds of a value. -/
  of_pure : ∀ {α : Type} (value : α), M (pure value)
  /-- It holds of a failure. -/
  of_throw : ∀ {α : Type} (e : ε), M (throw e : ExceptT ε (Program S) α)
  /-- It holds of a sequence. -/
  of_bind : ∀ {α β : Type} {p : ExceptT ε (Program S) α} {f : α → ExceptT ε (Program S) β},
    M p → (∀ value, M (f value)) → M (p >>= f)
  /-- It holds of a part whose failure is ignored. -/
  of_ignoreError : ∀ {α : Type} {p : ExceptT ε (Program S) α}, M p → M (Program.ignoreError p)

namespace Closed

variable {M : ∀ {α : Type}, ExceptT ε (Program S) α → Prop}

/-- A `Closed` property holds of a part that is run under a condition only. -/
theorem of_when (hM : Closed M) {c : Prop} [Decidable c] {p : ExceptT ε (Program S) Unit}
    (hp : c → M p) : M (if c then p else pure ()) := by
  split
  · exact hp ‹c›
  · exact hM.of_pure ()

/-- A `Closed` property holds of a conditional part before another one that is always run. -/
theorem of_when_bind (hM : Closed M) {c : Prop} [Decidable c] {p : ExceptT ε (Program S) Unit}
    {f : Unit → ExceptT ε (Program S) α} (hp : c → M p) (hf : ∀ value, M (f value)) :
    M (if c then p >>= f else f ()) := by
  split
  · exact hM.of_bind (hp ‹c›) hf
  · exact hf ()

end Closed

/-- `AllOps P` is `Closed`. -/
theorem closed_allOps (P : S.Op → Prop) :
    Closed fun {α} (p : ExceptT ε (Program S) α) => p.run.AllOps P :=
  ⟨fun _ => trivial, fun _ => trivial, AllOps.exceptBind, AllOps.ignoreError⟩

/-- Running the program alone takes every state to a related one. -/
def Leads (R : σ → σ → Prop) (p : ExceptT ε (Program S) α) : Prop := ∀ s, R s (eval h p s).2

/-- `Leads h R` is `Closed` for a reflexive and transitive `R`. -/
theorem closed_leads {R : σ → σ → Prop} (refl : ∀ s, R s s)
    (trans : ∀ {s s' s''}, R s s' → R s' s'' → R s s'') :
    Closed fun {α} (p : ExceptT ε (Program S) α) => Leads h R p where
  of_pure _ := refl
  of_throw _ := refl
  of_bind {_ _ p f} hp hf s := by
    rw [eval_bind]
    rcases hrun : eval h p s with ⟨e | value, s'⟩ <;> have hs := hp s <;> rw [hrun] at hs
    · exact hs
    · exact trans hs (hf value s')
  of_ignoreError hp s := by
    rw [eval_ignoreError]
    exact hp s

/-- A program `Leads h R` if each of its operations, all in `P`, leads to a state related by `R`. -/
theorem Leads.of_allOps {R : σ → σ → Prop} (refl : ∀ s, R s s)
    (trans : ∀ {s s' s''}, R s s' → R s' s'' → R s s'') (hstep : ∀ op s, P op → R s (h op s).2)
    {p : ExceptT ε (Program S) α} (hp : p.run.AllOps P) : Leads h R p := fun s =>
  AllOps.run_keeps h (I := fun s' => R s s') (fun op s' hop hs => trans hs (hstep op s' hop)) hp
    (refl s)

/-! ## What a program does when it runs alone -/

/-- Every operation that the program performs when it runs alone from `s` satisfies `Q` in the state
it is performed in. -/
def Along (Q : S.Op → σ → Prop) : Program S α → σ → Prop
  | .done _, _ => True
  | .call op next, s => Q op s ∧ (next (h op s).1).Along Q (h op s).2

variable {R : S.Op → σ → Prop}

/-- Nothing is left to hold along a program that is `done`. -/
@[simp] theorem along_done (value : α) (s : σ) : (done value : Program S α).Along h R s := trivial

/-- What holds along `p >>= f` holds along `p`, and along `f` from where `p` ends. -/
theorem along_bind (p : Program S α) (f : α → Program S β) (s : σ) :
    (p >>= f).Along h R s ↔ p.Along h R s ∧ (f (p.run h s).1).Along h R (p.run h s).2 := by
  induction p generalizing s with
  | done value => exact (and_iff_right trivial).symm
  | call op next ih => exact (and_congr_right fun _ => ih _ _).trans and_assoc.symm

/-- `AllOps P` gives `Along h R`: what holds of all operations holds of those that are performed. -/
theorem AllOps.along (hPR : ∀ op s, P op → R op s) {p : Program S α} (hp : p.AllOps P) (s : σ) :
    p.Along h R s := by
  induction p generalizing s with
  | done => trivial
  | call op next ih => exact ⟨hPR op s hp.1, ih _ (hp.2 _) _⟩

/-- What every operation keeps that satisfies `R` where it is performed, the whole run keeps. -/
theorem Along.run_keeps {I : σ → Prop} (hkeeps : ∀ op s, R op s → I s → I (h op s).2)
    {p : Program S α} {s : σ} (hp : p.Along h R s) (hs : I s) : I (p.run h s).2 := by
  induction p generalizing s with
  | done => exact hs
  | call op next ih => exact ih _ hp.2 (hkeeps op s hp.1 hs)

instance decidableAlong [∀ op s, Decidable (R op s)] :
    (p : Program S α) → (s : σ) → Decidable (p.Along h R s)
  | .done _, _ => isTrue trivial
  | .call op next, s => @instDecidableAnd _ _ (inferInstance : Decidable (R op s))
    (decidableAlong (next (h op s).1) (h op s).2)

/-- `Along h R` is monotone in `R`. -/
theorem Along.mono {Q : S.Op → σ → Prop} (hRQ : ∀ op s, R op s → Q op s) {p : Program S α} {s : σ}
    (hp : p.Along h R s) : p.Along h Q s := by
  induction p generalizing s with
  | done => trivial
  | call op next ih => exact ⟨hRQ op s hp.1, ih _ hp.2⟩

/-- `Along` for a program that may fail. -/
def EvalAlong (Q : S.Op → σ → Prop) (p : ExceptT ε (Program S) α) (s : σ) : Prop :=
  Program.Along h Q p.run s

/-- Nothing is left to hold along `pure`. -/
@[simp] theorem evalAlong_pure (value : α) (s : σ) :
    EvalAlong h R (pure value : ExceptT ε (Program S) α) s := trivial

/-- Nothing is left to hold along `throw`. -/
@[simp] theorem evalAlong_throw (e : ε) (s : σ) :
    EvalAlong h R (throw e : ExceptT ε (Program S) α) s := trivial

/-- `EvalAlong` of `p >>= f` is that of `p`, and of `f` where `p` succeeds. -/
theorem evalAlong_bind (p : ExceptT ε (Program S) α) (f : α → ExceptT ε (Program S) β) (s : σ) :
    EvalAlong h R (p >>= f) s ↔ EvalAlong h R p s ∧
      ∀ value, (eval h p s).1 = .ok value → EvalAlong h R (f value) (eval h p s).2 := by
  rw [EvalAlong, ExceptT.run_bind, along_bind]
  refine and_congr_right fun _ => ?_
  rw [eval]
  cases (Program.run h p.run s).1 with
  | ok value => simp [EvalAlong]
  | error e => simp

/-- `recover` performs the same operations in the same states. -/
theorem evalAlong_recover (default : α) (p : ExceptT ε (Program S) α) (s : σ) :
    EvalAlong h R (recover default p) s ↔ EvalAlong h R p s := by
  rw [EvalAlong, recover, ExceptT.run_mk, along_bind]
  exact and_iff_left trivial

/-! ## Programs over another signature -/

variable {T : Signature} {τ : Type}

/-- Perform each operation of a program by a program over another signature. -/
def hoist (f : (op : S.Op) → Program T (S.Res op)) : Program S α → Program T α
  | .done value => .done value
  | .call op next => f op >>= fun answer => (next answer).hoist f

/-- `hoist` commutes with `>>=`. -/
theorem hoist_bind (f : (op : S.Op) → Program T (S.Res op)) (p : Program S α) (g : α → Program S β) :
    (p >>= g).hoist f = p.hoist f >>= fun value => (g value).hoist f := by
  induction p with
  | done value => rfl
  | call op next ih => simp only [call_bind, hoist, ih, bind_assoc]

/-- `AllOps Q` of `p.hoist f` follows if each operation of `p` is performed by operations in `Q`. -/
theorem AllOps.hoist {Q : T.Op → Prop} {f : (op : S.Op) → Program T (S.Res op)}
    (hf : ∀ op, P op → (f op).AllOps Q) {p : Program S α} (hp : p.AllOps P) :
    (p.hoist f).AllOps Q := by
  induction p with
  | done => trivial
  | call op next ih => exact (hf op hp.1).bind fun answer => ih answer (hp.2 answer)

/-- `p.hoist f` runs as `p` does on its own `part` of the state, and leaves the other part alone. -/
theorem run_hoist {k : Handler T τ} {f : (op : S.Op) → Program T (S.Res op)} (part : τ → σ)
    (withPart : τ → σ → τ) (hself : ∀ t, withPart t (part t) = t)
    (hpart : ∀ t s, part (withPart t s) = s)
    (htwice : ∀ t s s', withPart (withPart t s) s' = withPart t s')
    (hf : ∀ op t, (f op).run k t = ((h op (part t)).1, withPart t (h op (part t)).2))
    (p : Program S α) (t : τ) :
    (p.hoist f).run k t = ((p.run h (part t)).1, withPart t (p.run h (part t)).2) := by
  induction p generalizing t with
  | done value => rw [hoist, run_done, run_done, hself]
  | call op next ih => rw [hoist, run_bind, hf, ih, hpart, htwice]; rfl

/-- Replace the error of a program that may fail. -/
def mapError {ε' : Type} (f : ε → ε') (p : ExceptT ε (Program S) α) : ExceptT ε' (Program S) α :=
  ExceptT.mk (p.run >>= fun result => .done (result.mapError f))

/-- `mapError f` changes the error by `f`, and neither the value nor the state. -/
@[simp] theorem eval_mapError {ε' : Type} (f : ε → ε') (p : ExceptT ε (Program S) α) (s : σ) :
    eval h (mapError f p) s = ((eval h p s).1.mapError f, (eval h p s).2) := by
  simp only [mapError, eval, ExceptT.run_mk, run_bind, run_done]

/-- `AllOps` is kept by `mapError`. -/
theorem AllOps.mapError {ε' : Type} {f : ε → ε'} {p : ExceptT ε (Program S) α}
    (hp : p.run.AllOps P) : (Program.mapError f p).run.AllOps P := AllOps.bind hp fun _ => trivial

/-- `AllOps` is kept by `outcome`. -/
theorem AllOps.outcome {p : ExceptT ε (Program S) α} (hp : p.run.AllOps P) :
    (Program.outcome p).run.AllOps P := AllOps.bind hp fun _ => trivial

/-- `AllOps` is kept by `recover`. -/
theorem AllOps.recover {default : α} {p : ExceptT ε (Program S) α} (hp : p.run.AllOps P) :
    (Program.recover default p).run.AllOps P := AllOps.bind hp fun _ => trivial

end Program

/-! ## Running interleaved -/

/-- A configuration of concurrent programs: what each one still has to do, and the shared state. -/
structure Config (S : Signature) (σ : Type) where
  /-- The programs, by thread number; a finished one is `done`. -/
  threads : List (Program S Unit)
  /-- The shared state. -/
  state : σ

/-- One atomic step: which thread moved, the operation it performed, and the configuration it
performed it in. -/
structure Move (S : Signature) (σ : Type) where
  /-- The thread that moved. -/
  thread : Nat
  /-- The operation it performed. -/
  op : S.Op
  /-- The configuration before the step. -/
  before : Config S σ

variable {S : Signature} {σ : Type}

/-- The configuration after thread `i` performs `op` and continues with `next`. -/
def Config.after (h : Handler S σ) (c : Config S σ) (i : Nat) (op : S.Op)
    (next : S.Res op → Program S Unit) : Config S σ :=
  ⟨c.threads.set i (next (h op c.state).1), (h op c.state).2⟩

/-- `Interleaving h c₀ moves c`: from `c₀` the programs can reach `c` by `moves`, each of which is
one atomic operation of one thread. Every schedule is an interleaving. -/
inductive Interleaving (h : Handler S σ) (c₀ : Config S σ) : List (Move S σ) → Config S σ → Prop
  /-- Nothing has moved yet. -/
  | start : Interleaving h c₀ [] c₀
  /-- A thread that is about to perform `op` performs it. -/
  | step {moves : List (Move S σ)} {c : Config S σ} {i : Nat} {op : S.Op}
      {next : S.Res op → Program S Unit} (run : Interleaving h c₀ moves c)
      (ready : c.threads[i]? = some (.call op next)) :
      Interleaving h c₀ (moves ++ [⟨i, op, c⟩]) (c.after h i op next)

/-- Let the threads of a schedule move, one after another; a thread that has finished does not. -/
def Config.play (h : Handler S σ) (c : Config S σ) : List Nat → List (Move S σ) × Config S σ
  | [] => ([], c)
  | i :: schedule => match c.threads[i]? with
    | some (.call op next) =>
      let played := (c.after h i op next).play h schedule
      (⟨i, op, c⟩ :: played.1, played.2)
    | _ => c.play h schedule

/-- An `Interleaving` stays one with one more move in front of it. -/
theorem Interleaving.cons {h : Handler S σ} {c c' : Config S σ} {moves : List (Move S σ)} {i : Nat}
    {op : S.Op} {next : S.Res op → Program S Unit} (ready : c.threads[i]? = some (.call op next))
    (run : Interleaving h (c.after h i op next) moves c') :
    Interleaving h c (⟨i, op, c⟩ :: moves) c' := by
  induction run with
  | start => exact Interleaving.start.step ready
  | step _ ready' ih => exact ih.step ready'

/-- An `Interleaving` that starts where another one ends goes on with it. -/
theorem Interleaving.trans {h : Handler S σ} {c c' c'' : Config S σ}
    {moves moves' : List (Move S σ)} (run : Interleaving h c moves c')
    (run' : Interleaving h c' moves' c'') : Interleaving h c (moves ++ moves') c'' := by
  induction run' with
  | start => rwa [List.append_nil]
  | step _ ready ih => rw [← List.append_assoc]; exact ih.step ready

/-- Every `schedule` that is played is an `Interleaving`. -/
theorem Interleaving.of_play (h : Handler S σ) (c : Config S σ) (schedule : List Nat) :
    Interleaving h c (c.play h schedule).1 (c.play h schedule).2 := by
  induction schedule generalizing c with
  | nil => exact .start
  | cons i schedule ih =>
    rw [Config.play]
    split
    · rename_i op next ready
      exact Interleaving.cons ready (ih _)
    · exact ih c

/-- All programs have finished. -/
def Config.Finished (c : Config S σ) : Prop := ∀ p ∈ c.threads, p = .done ()

instance (c : Config S σ) : Decidable c.Finished :=
  decidable_of_iff (∀ p ∈ c.threads, p.nextOp.isNone) <| forall₂_congr fun _ _ =>
    Option.isNone_iff_eq_none.trans Program.nextOp_eq_none_iff

/-- The configuration `before` a move is the one that the moves before it lead to. -/
theorem Interleaving.before_of_split {h : Handler S σ} {c₀ c : Config S σ} {move : Move S σ}
    {moves earlier later : List (Move S σ)} (run : Interleaving h c₀ moves c)
    (hmoves : moves = earlier ++ move :: later) : Interleaving h c₀ earlier move.before := by
  induction run generalizing later with
  | start =>
    exact absurd hmoves.symm (List.append_ne_nil_of_right_ne_nil earlier (List.cons_ne_nil _ _))
  | step run ready ih =>
    rcases List.eq_nil_or_concat later with rfl | ⟨init, last, rfl⟩
    · obtain ⟨rfl, hlast⟩ := List.append_inj' hmoves rfl
      rw [← List.singleton_inj.mp hlast]
      exact run
    · rw [List.concat_eq_append, ← List.cons_append, ← List.append_assoc] at hmoves
      exact ih (List.append_inj' hmoves rfl).1

/-- What holds of every item after those before it can be checked along `zipIdx`. -/
theorem forall_prefix_of_zipIdx {α : Type} {P : List α → α → Prop} {items : List α}
    (h : ∀ entry ∈ items.zipIdx, P (items.take entry.2) entry.1) (before : List α) (item : α)
    (hinitial : before ++ [item] <+: items) : P before item := by
  obtain ⟨later, rfl⟩ := hinitial
  have hentry : (item, before.length) ∈ (before ++ [item] ++ later).zipIdx := by
    rw [List.mem_zipIdx_iff_getElem?]
    simp
  have hitem := h _ hentry
  rwa [List.append_assoc, List.take_left] at hitem

/-- Something has happened in a history, and since then every event has left it alone. -/
def Since {α : Type} (P Leaves : α → Prop) (history : List α) : Prop :=
  ∃ earlier event later, history = earlier ++ event :: later ∧ P event ∧ ∀ e ∈ later, Leaves e

/-- Nothing has happened `Since` anything in an empty run. -/
theorem not_since_nil {α : Type} {P Leaves : α → Prop} : ¬Since P Leaves [] := by
  rintro ⟨earlier, event, later, hhistory, -⟩
  exact List.append_ne_nil_of_right_ne_nil earlier (List.cons_ne_nil event later) hhistory.symm

/-- `Since P Leaves` after one more event: the event is in `P`, or it leaves alone what happened
before. -/
theorem since_append_singleton {α : Type} {P Leaves : α → Prop} {history : List α} {event : α} :
    Since P Leaves (history ++ [event]) ↔ P event ∨ Since P Leaves history ∧ Leaves event := by
  constructor
  · rintro ⟨earlier, first, later, hhistory, hfirst, hlater⟩
    rcases List.eq_nil_or_concat later with rfl | ⟨init, last, rfl⟩
    -- Nothing came after what has happened: it is the last event.
    · obtain ⟨-, hevent⟩ := List.append_inj' hhistory rfl
      rw [List.singleton_inj] at hevent
      exact .inl (hevent ▸ hfirst)
    · rw [List.concat_eq_append] at hhistory hlater
      rw [← List.cons_append, ← List.append_assoc] at hhistory
      obtain ⟨rfl, hevent⟩ := List.append_inj' hhistory rfl
      rw [List.singleton_inj] at hevent
      refine .inr ⟨⟨earlier, first, init, rfl, hfirst, fun e he => ?_⟩, ?_⟩
      · exact hlater e (List.mem_append_left _ he)
      · exact hevent ▸ hlater last (List.mem_append_right _ (List.mem_singleton.mpr rfl))
  · rintro (hevent | ⟨⟨earlier, first, later, rfl, hfirst, hlater⟩, hleaves⟩)
    · exact ⟨history, event, [], rfl, hevent, fun e he => nomatch he⟩
    · refine ⟨earlier, first, later ++ [event], by simp, hfirst, fun e he => ?_⟩
      rcases List.mem_append.mp he with he | he
      · exact hlater e he
      · exact List.mem_singleton.mp he ▸ hleaves

/-- `Since` in a history that is read off another one by `f` is `Since` in that one. -/
theorem since_map {α β : Type} {P Leaves : α → Prop} {f : β → α} {history : List β} :
    Since P Leaves (history.map f) ↔
      Since (fun event => P (f event)) (fun event => Leaves (f event)) history := by
  constructor
  · rintro ⟨earlier, event, later, hsplit, hevent, hlater⟩
    obtain ⟨earlier, rest, rfl, rfl, hrest⟩ := List.map_eq_append_iff.mp hsplit
    obtain ⟨event, later, rfl, rfl, rfl⟩ := List.map_eq_cons_iff.mp hrest
    refine ⟨earlier, event, later, rfl, hevent, fun e he => ?_⟩
    exact hlater (f e) (List.mem_map_of_mem he)
  · rintro ⟨earlier, event, later, rfl, hevent, hlater⟩
    refine ⟨earlier.map f, f event, later.map f, by simp, hevent, fun e he => ?_⟩
    obtain ⟨e', he', rfl⟩ := List.mem_map.mp he
    exact hlater e' he'

/-- **The invariant rule with history**: the invariant `I`, and what makes a move `Clean`, may also
be about the moves that came before. -/
theorem Interleaving.historyInvariant {h : Handler S σ} {c₀ c : Config S σ}
    {moves : List (Move S σ)} (Clean : List (Move S σ) → Move S σ → Prop)
    (I : List (Move S σ) → Config S σ → Prop) (run : Interleaving h c₀ moves c) (init : I [] c₀)
    (preserved : ∀ moves c i op next, I moves c → c.threads[i]? = some (.call op next) →
      Clean moves ⟨i, op, c⟩ → I (moves ++ [⟨i, op, c⟩]) (c.after h i op next))
    (clean : ∀ before move, before ++ [move] <+: moves → Clean before move) : I moves c := by
  induction run with
  | start => exact init
  | step _ ready ih =>
    refine preserved _ _ _ _ _ (ih fun before move hinitial => ?_) ready (clean _ _ List.prefix_rfl)
    exact clean before move (hinitial.trans (List.prefix_append _ _))

/-- What every thread can still do only shrinks: if each program performs only operations in `P`,
so does each program of every configuration reached, and so does every move. -/
theorem Interleaving.allOps {h : Handler S σ} {c₀ c : Config S σ} {moves : List (Move S σ)}
    {P : S.Op → Prop} (run : Interleaving h c₀ moves c) (init : ∀ p ∈ c₀.threads, p.AllOps P) :
    (∀ p ∈ c.threads, p.AllOps P) ∧ ∀ move ∈ moves, P move.op := by
  induction run with
  | start => exact ⟨init, by simp⟩
  | @step moves c i op next _ ready ih =>
    have hthread : (Program.call op next).AllOps P := ih.1 _ (List.mem_of_getElem? ready)
    refine ⟨?_, ?_⟩
    · intro p hp
      rcases List.mem_or_eq_of_mem_set hp with hold | rfl
      · exact ih.1 p hold
      · exact hthread.2 _
    · intro move hmove
      rcases List.mem_append.mp hmove with hold | hnew
      · exact ih.2 move hold
      · rw [List.mem_singleton.mp hnew]; exact hthread.1

end LogosFs
