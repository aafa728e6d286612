import Mathlib.Data.List.Induction
import Mathlib.Logic.Function.Basic

/-! # Appending by copy

Threads append to a shared list without a lock: each takes a copy, and later stores its copy with an
entry at the end. A thread that stores between the two is overwritten. `Isolated` says that no thread
does; then every entry is kept, in the order of the stores (`content_run_of_isolated`), and if none is
lost the threads were isolated (`isolated_of_length`). -/

namespace LogosFs

/-- What a thread does to the list. -/
inductive CopyStep where
  /-- Take a copy. -/
  | take (thread : Nat)
  /-- Store the copy, with an entry at the end. -/
  | store (thread : Nat)
deriving DecidableEq, Repr

/-- The list, and the copy that each thread has taken last. -/
structure SharedList (α : Type) where
  /-- The list. -/
  content : List α
  /-- The copies. -/
  copies : Nat → List α

variable {α : Type} (entry : Nat → α)

namespace SharedList

/-- One step. -/
def after (s : SharedList α) : CopyStep → SharedList α
  | .take i => ⟨s.content, Function.update s.copies i s.content⟩
  | .store i => ⟨s.copies i ++ [entry i], s.copies⟩

/-- Several steps. -/
def run (s : SharedList α) (steps : List CopyStep) : SharedList α := steps.foldl (after entry) s

end SharedList

/-- The thread that stores in a step, if one does. -/
def CopyStep.storing? : CopyStep → Option Nat
  | .take _ => none
  | .store i => some i

/-- The threads that store, in order. -/
def storing (steps : List CopyStep) : List Nat := steps.filterMap CopyStep.storing?

/-- Every thread that stores has taken a copy before. -/
def Prepared (steps : List CopyStep) : Prop :=
  ∀ earlier later i, steps = earlier ++ .store i :: later → .take i ∈ earlier

/-- Nobody stores between a thread's taking its copy and its storing it. -/
def Isolated (steps : List CopyStep) : Prop :=
  ∀ earlier between later i, steps = earlier ++ .take i :: (between ++ .store i :: later) →
    .take i ∉ between → storing between = []

section SharedList

variable {entry} {s : SharedList α} {steps steps' : List CopyStep} {i : Nat}

namespace SharedList

/-- `run` of no steps changes nothing. -/
@[simp] theorem run_nil : s.run entry [] = s := rfl

/-- `run` of steps after others starts from what these lead to. -/
theorem run_append : s.run entry (steps ++ steps') = (s.run entry steps).run entry steps' :=
  List.foldl_append

/-- A `take` leaves the list alone. -/
@[simp] theorem content_run_take :
    (s.run entry (steps ++ [.take i])).content = (s.run entry steps).content := by
  rw [run_append]
  rfl

/-- A `store` replaces the list by the copy of the thread and its entry. -/
@[simp] theorem content_run_store :
    (s.run entry (steps ++ [.store i])).content = (s.run entry steps).copies i ++ [entry i] := by
  rw [run_append]
  rfl

/-- A `take` makes the list the copy of the thread. -/
@[simp] theorem copies_run_take :
    (s.run entry (steps ++ [.take i])).copies
      = Function.update (s.run entry steps).copies i (s.run entry steps).content := by
  rw [run_append]
  rfl

/-- A `store` leaves the copies alone. -/
@[simp] theorem copies_run_store :
    (s.run entry (steps ++ [.store i])).copies = (s.run entry steps).copies := by
  rw [run_append]
  rfl

/-- A thread's copy stays until its next `take`. -/
theorem copies_run_of_not_mem (hnot : .take i ∉ steps) :
    (s.run entry steps).copies i = s.copies i := by
  induction steps using List.reverseRecOn with
  | nil => rfl
  | append_singleton steps step ih =>
    rw [List.mem_append, not_or, List.mem_singleton] at hnot
    cases step with
    | take j =>
      have hne : i ≠ j := fun heq => hnot.2 (congrArg CopyStep.take heq)
      rw [copies_run_take, Function.update_of_ne hne, ih hnot.1]
    | store j => rw [copies_run_store, ih hnot.1]

/-- A thread's copy is the list as it was at its last `take`. -/
theorem copies_run_of_split {earlier between : List CopyStep} (hnot : .take i ∉ between) :
    (s.run entry (earlier ++ .take i :: between)).copies i = (s.run entry earlier).content := by
  rw [List.append_cons, run_append, copies_run_of_not_mem hnot, copies_run_take,
    Function.update_self]

/-- What is in the list or in a copy after a `run` was there at the start, or is an `entry`. -/
theorem forall_mem_run {P : α → Prop} (hcontent : ∀ e ∈ s.content, P e)
    (hcopies : ∀ j, ∀ e ∈ s.copies j, P e) (hentry : ∀ j, .store j ∈ steps → P (entry j)) :
    (∀ e ∈ (s.run entry steps).content, P e) ∧ ∀ j, ∀ e ∈ (s.run entry steps).copies j, P e := by
  induction steps using List.reverseRecOn with
  | nil => exact ⟨hcontent, hcopies⟩
  | append_singleton steps step ih =>
    obtain ⟨ihcontent, ihcopies⟩ := ih fun j hj => hentry j (List.mem_append_left _ hj)
    cases step with
    | take i =>
      rw [content_run_take, copies_run_take]
      refine ⟨ihcontent, fun j => ?_⟩
      by_cases hj : j = i
      · subst hj
        rwa [Function.update_self]
      · rw [Function.update_of_ne hj]
        exact ihcopies j
    | store i =>
      have hlast : P (entry i) := hentry i (List.mem_append_right _ List.mem_cons_self)
      rw [content_run_store, copies_run_store]
      refine ⟨List.forall_mem_append.mpr ⟨ihcopies i, ?_⟩, ihcopies⟩
      exact List.forall_mem_singleton.mpr hlast

end SharedList

/-! ## Steps -/

/-- `storing` of two sequences of steps is that of the one and then that of the other. -/
theorem storing_append : storing (steps ++ steps') = storing steps ++ storing steps' :=
  List.filterMap_append

/-- `storing` of no steps is empty. -/
@[simp] theorem storing_nil : storing [] = [] := rfl

/-- A `take` adds nobody to `storing`. -/
@[simp] theorem storing_take : storing (.take i :: steps) = storing steps := rfl

/-- A `store` puts its thread in front of `storing`. -/
@[simp] theorem storing_store : storing (.store i :: steps) = i :: storing steps := rfl

/-- `storing` lists the threads that have a `store` among the steps. -/
theorem mem_storing_iff : i ∈ storing steps ↔ .store i ∈ steps := by
  rw [storing, List.mem_filterMap]
  constructor
  · rintro ⟨step, hstep, hi⟩
    cases step with
    | take j => cases hi
    | store j => rwa [← Option.some_inj.mp hi]
  · exact fun h => ⟨_, h, rfl⟩

/-- Where a thread has taken copies, one `take` is its last. -/
theorem exists_last_take (h : .take i ∈ steps) :
    ∃ earlier between, steps = earlier ++ .take i :: between ∧ .take i ∉ between := by
  have hreverse : CopyStep.take i ∈ steps.reverse := List.mem_reverse.mpr h
  obtain ⟨between, earlier, hsteps, hnot⟩ := List.eq_append_cons_of_mem hreverse
  refine ⟨earlier.reverse, between.reverse, ?_, fun hmem => hnot (List.mem_reverse.mp hmem)⟩
  rw [← List.reverse_reverse steps, hsteps]
  simp

/-- A beginning of `Prepared` steps is `Prepared`. -/
theorem Prepared.of_append (h : Prepared (steps ++ steps')) : Prepared steps := by
  rintro earlier later i rfl
  exact h earlier (later ++ steps') i (List.append_assoc ..)

/-- A beginning of `Isolated` steps is `Isolated`. -/
theorem Isolated.of_append (h : Isolated (steps ++ steps')) : Isolated steps := by
  rintro earlier between later i rfl
  exact h earlier between (later ++ steps') i (by simp)

/-- Steps stay `Prepared` when a thread takes a copy. -/
theorem prepared_concat_take (h : Prepared steps) : Prepared (steps ++ [.take i]) := by
  intro earlier later j hsteps
  rcases List.eq_nil_or_concat later with rfl | ⟨init, last, rfl⟩
  · cases (List.append_inj' hsteps rfl).2
  · rw [List.concat_eq_append, ← List.cons_append, ← List.append_assoc] at hsteps
    exact h earlier init j (List.append_inj' hsteps rfl).1

/-- Steps stay `Prepared` when a thread stores that has taken a copy. -/
theorem prepared_concat_store (h : Prepared steps) (htaken : .take i ∈ steps) :
    Prepared (steps ++ [.store i]) := by
  intro earlier later j hsteps
  rcases List.eq_nil_or_concat later with rfl | ⟨init, last, rfl⟩
  · obtain ⟨rfl, hlast⟩ := List.append_inj' hsteps rfl
    cases hlast
    exact htaken
  · rw [List.concat_eq_append, ← List.cons_append, ← List.append_assoc] at hsteps
    exact h earlier init j (List.append_inj' hsteps rfl).1

/-- Steps stay `Isolated` while nobody stores. -/
theorem Isolated.append_of_storing_eq_nil (h : Isolated steps) (hnone : storing steps' = []) :
    Isolated (steps ++ steps') := by
  intro earlier between later i hsteps
  have hnot : .store i ∉ steps' := by
    rw [← mem_storing_iff, hnone]
    exact List.not_mem_nil
  -- The store is among the first steps.
  rw [← List.cons_append, ← List.append_assoc] at hsteps
  rcases List.append_eq_append_iff.mp hsteps with ⟨middle, -, hsteps'⟩ | ⟨middle, hfirst, hrest⟩
  · exact absurd (hsteps' ▸ List.mem_append_right middle List.mem_cons_self) hnot
  · cases middle with
    | nil =>
      rw [List.nil_append] at hrest
      exact absurd (hrest ▸ List.mem_cons_self) hnot
    | cons step middle =>
      obtain ⟨rfl, -⟩ := List.cons.inj hrest
      exact h earlier between middle i (by rw [hfirst]; simp)

/-- Steps stay `Isolated` when a thread stores, since whose `take` nobody has. -/
theorem Isolated.concat_store {earlier between : List CopyStep}
    (h : Isolated (earlier ++ .take i :: between)) (hnot : .take i ∉ between)
    (hnone : storing between = []) : Isolated (earlier ++ .take i :: between ++ [.store i]) := by
  intro earlier' between' later' j hsteps hnot'
  rcases List.eq_nil_or_concat later' with rfl | ⟨init, last, rfl⟩
  · -- It is the last store: the copies taken before it are the same.
    rw [← List.cons_append, ← List.append_assoc] at hsteps
    obtain ⟨hfirst, hlast⟩ := List.append_inj' hsteps rfl
    cases hlast
    rcases List.append_eq_append_iff.mp hfirst with ⟨middle, -, hrest⟩ | ⟨middle, -, hrest⟩
    · cases middle with
      | nil =>
        rw [List.nil_append] at hrest
        rwa [← (List.cons.inj hrest).2]
      | cons step middle =>
        obtain ⟨-, rfl⟩ := List.cons.inj hrest
        exact absurd (List.mem_append_right middle List.mem_cons_self) hnot
    · cases middle with
      | nil =>
        rw [List.nil_append] at hrest
        rwa [(List.cons.inj hrest).2]
      | cons step middle =>
        obtain ⟨-, rfl⟩ := List.cons.inj hrest
        exact absurd (List.mem_append_right middle List.mem_cons_self) hnot'
  · rw [List.concat_eq_append] at hsteps
    have hprefix : earlier ++ .take i :: between
        = earlier' ++ .take j :: (between' ++ .store j :: init) := by
      rw [← List.cons_append, ← List.append_assoc, ← List.cons_append, ← List.append_assoc] at hsteps
      rw [(List.append_inj' hsteps rfl).1]
      simp
    exact h earlier' between' init j hprefix hnot'

/-! ## What is in the list -/

/-- **Nothing is lost exactly if the threads are isolated**: there are never more entries than
stores; if there are as many, the steps were `Isolated`; and if they were, the entries are in order.
-/
theorem run_spec (h : Prepared steps) :
    (s.run entry steps).content.length ≤ s.content.length + (storing steps).length ∧
      ((s.run entry steps).content.length = s.content.length + (storing steps).length →
        Isolated steps) ∧
      (Isolated steps → (s.run entry steps).content = s.content ++ (storing steps).map entry) := by
  -- The copy that is stored was taken after fewer steps.
  induction hn : steps.length using Nat.strongRecOn generalizing steps with
  | ind n ih =>
    rcases List.eq_nil_or_concat steps with rfl | ⟨init, last, rfl⟩
    · refine ⟨Nat.le_refl _, fun _ => ?_, fun _ => (List.append_nil _).symm⟩
      exact fun _ _ _ _ hsteps => absurd hsteps.symm (by simp)
    rw [List.concat_eq_append] at h hn ⊢
    rw [List.length_append, List.length_singleton] at hn
    cases last with
    | take i =>
      obtain ⟨hle, hisolated, hcontent⟩ := ih init.length (by omega) h.of_append rfl
      rw [SharedList.content_run_take, storing_append, storing_take, storing_nil, List.append_nil]
      refine ⟨hle, fun heq => ?_, fun hall => hcontent hall.of_append⟩
      exact (hisolated heq).append_of_storing_eq_nil rfl
    | store i =>
      obtain ⟨earlier, between, rfl, hnot⟩ := exists_last_take (h init [] i rfl)
      have hlength : (earlier ++ CopyStep.take i :: between).length
          = earlier.length + between.length + 1 := by
        rw [List.length_append, List.length_cons]
        omega
      obtain ⟨hle, hisolated, hcontent⟩ :=
        ih earlier.length (by omega) h.of_append.of_append rfl
      rw [SharedList.content_run_store, SharedList.copies_run_of_split hnot, storing_append,
        storing_store, storing_append, storing_take, storing_nil]
      simp only [List.length_append, List.length_singleton]
      refine ⟨by omega, fun heq => ?_, fun hall => ?_⟩
      · -- As many entries as stores: nobody stored in between, and nothing was lost before.
        have hnone : storing between = [] := List.length_eq_zero_iff.mp (by omega)
        have hbefore := @Isolated.append_of_storing_eq_nil _ (.take i :: between)
          (hisolated (by omega)) (by rwa [storing_take])
        exact hbefore.concat_store hnot hnone
      · have hnone : storing between = [] := hall earlier between [] i (by simp) hnot
        rw [hcontent hall.of_append.of_append, hnone, List.append_nil, List.map_append,
          List.append_assoc]
        rfl

/-- After `Isolated` steps the list has the entry of every store, in order. -/
theorem content_run_of_isolated (h : Prepared steps) (hisolated : Isolated steps) :
    (s.run entry steps).content = s.content ++ (storing steps).map entry :=
  (run_spec h).2.2 hisolated

/-- Steps after which the list has grown by one entry for each store are `Isolated`. -/
theorem isolated_of_length (h : Prepared steps)
    (hlength : (s.run entry steps).content.length = s.content.length + (storing steps).length) :
    Isolated steps := (run_spec h).2.1 hlength

end SharedList

end LogosFs
