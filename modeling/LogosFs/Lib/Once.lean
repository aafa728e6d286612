import Mathlib.Data.List.Basic

/-! # Making a value once

A cell is checked under its lock, and filled under it, but the value that fills it is made without the
lock. `MadeOnce` is what holds as long as no check misses while another worker is making a value: no
value is made twice, and all workers answer with the same one. The rules say which step of a worker
keeps it; `miss` is the one with a condition on the other workers. -/

namespace LogosFs

variable {ι ν : Type}

/-- Where the workers are. -/
structure Workers (ι ν : Type) where
  /-- The worker's check has missed, and the worker has not returned yet. -/
  underWay : ι → Prop
  /-- The worker has made a value. -/
  made : ι → ν → Prop
  /-- The worker has returned a value. -/
  answered : ι → ν → Prop

namespace Workers

variable {ws ws' : Workers ι ν} {cell : Option ν} {i : ι} {v : ν}

/-- A worker is where it was. -/
structure Stays (ws ws' : Workers ι ν) (j : ι) : Prop where
  /-- It is under way if it was. -/
  underWay : ws'.underWay j ↔ ws.underWay j
  /-- It has made what it had. -/
  made : ∀ v, ws'.made j v ↔ ws.made j v
  /-- It has returned what it had. -/
  answered : ∀ v, ws'.answered j v ↔ ws.answered j v

/-- **A value is made once.** -/
structure MadeOnce (ws : Workers ι ν) (cell : Option ν) : Prop where
  /-- One worker at most is under way. -/
  alone : ∀ i j, ws.underWay i → ws.underWay j → i = j
  /-- As long as the cell is empty no worker has returned a value. -/
  empty : cell = none → ∀ i v, ¬ws.answered i v
  /-- Once the cell is full no worker is under way, and they have returned what is in it. -/
  full : ∀ v, cell = some v → ∀ i, ¬ws.underWay i ∧ ∀ v', ws.answered i v' → v' = v
  /-- Who has made a value is under way, or has returned it. -/
  kept : ∀ i v, ws.made i v → ws.underWay i ∨ ws.answered i v
  /-- One worker at most has made a value. -/
  once : ∀ i j v v', ws.made i v → ws.made j v' → i = j

namespace MadeOnce

/-- `MadeOnce`: all values that have been `answered` are the same. -/
theorem answered_eq (h : MadeOnce ws cell) {i j : ι} {v v' : ν} (hi : ws.answered i v)
    (hj : ws.answered j v') : v = v' := by
  cases cell with
  | none => exact absurd hi (h.empty rfl i v)
  | some found => rw [(h.full found rfl i).2 v hi, (h.full found rfl j).2 v' hj]

/-- Once a value has been `made` no other worker is `underWay`. -/
theorem not_underWay (h : MadeOnce ws cell) {i j : ι} (hmade : ws.made i v) (hne : j ≠ i) :
    ¬ws.underWay j := by
  intro hj
  rcases h.kept i v hmade with hi | hi
  · exact hne (h.alone j i hj hi)
  · cases cell with
    | none => exact h.empty rfl i v hi
    | some found => exact (h.full found rfl j).1 hj

/-- `MadeOnce` is kept where every worker `Stays`. -/
theorem of_stays (h : MadeOnce ws cell) (hstays : ∀ j, Stays ws ws' j) : MadeOnce ws' cell where
  alone i j hi hj := h.alone i j ((hstays i).underWay.mp hi) ((hstays j).underWay.mp hj)
  empty hcell i v hi := h.empty hcell i v (((hstays i).answered v).mp hi)
  full v hcell i := ⟨fun hi => (h.full v hcell i).1 ((hstays i).underWay.mp hi),
    fun v' hi => (h.full v hcell i).2 v' (((hstays i).answered v').mp hi)⟩
  kept i v hi := by
    rw [(hstays i).underWay, (hstays i).answered]
    exact h.kept i v (((hstays i).made v).mp hi)
  once i j v v' hi hj := h.once i j v v' (((hstays i).made v).mp hi) (((hstays j).made v').mp hj)

/-- `MadeOnce` is kept when a worker begins and finds the value in the cell. -/
theorem hit (h : MadeOnce ws (some v)) (hothers : ∀ j ≠ i, Stays ws ws' j)
    (hunderWay : ¬ws'.underWay i) (hmade : ∀ v', ¬ws'.made i v')
    (hanswered : ∀ v', ws'.answered i v' → v' = v) : MadeOnce ws' (some v) := by
  have hmade' : ∀ j v', ws'.made j v' → j ≠ i ∧ ws.made j v' := by
    intro j v' hj
    have hne : j ≠ i := by
      rintro rfl
      exact hmade v' hj
    exact ⟨hne, ((hothers j hne).made v').mp hj⟩
  have hidle : ∀ j, ¬ws'.underWay j := by
    intro j hj
    by_cases hji : j = i
    · exact hunderWay (hji ▸ hj)
    · exact (h.full v rfl j).1 ((hothers j hji).underWay.mp hj)
  refine ⟨fun j _ hj => absurd hj (hidle j), nofun, fun found hfound j => ⟨hidle j, ?_⟩, ?_, ?_⟩
  · intro v' hj
    rw [← Option.some_inj.mp hfound]
    by_cases hji : j = i
    · exact hanswered v' (hji ▸ hj)
    · exact (h.full v rfl j).2 v' (((hothers j hji).answered v').mp hj)
  · intro j v' hj
    obtain ⟨hne, hj⟩ := hmade' j v' hj
    rw [(hothers j hne).underWay, (hothers j hne).answered]
    exact h.kept j v' hj
  · intro j k v' v'' hj hk
    exact h.once j k v' v'' (hmade' j v' hj).2 (hmade' k v'' hk).2

/-- **A worker that begins finds nothing**, while no other one is `underWay`: `MadeOnce` is kept. -/
theorem miss (h : MadeOnce ws none) (hothers : ∀ j ≠ i, Stays ws ws' j)
    (hidle : ∀ j, ¬ws.underWay j) (hmade : ∀ v, ¬ws'.made i v) (hanswered : ∀ v, ¬ws'.answered i v) :
    MadeOnce ws' none := by
  have hnone : ∀ j v, ¬ws'.made j v := by
    intro j v hj
    by_cases hji : j = i
    · exact hmade v (hji ▸ hj)
    · rcases h.kept j v (((hothers j hji).made v).mp hj) with hunder | hans
      · exact hidle j hunder
      · exact h.empty rfl j v hans
  have hmover : ∀ j, ws'.underWay j → j = i := by
    intro j hj
    by_contra hji
    exact hidle j ((hothers j hji).underWay.mp hj)
  refine ⟨fun j k hj hk => (hmover j hj).trans (hmover k hk).symm, fun _ j v hj => ?_, nofun,
    fun j v hj => absurd hj (hnone j v), fun j _ v _ hj => absurd hj (hnone j v)⟩
  by_cases hji : j = i
  · exact hanswered v (hji ▸ hj)
  · exact h.empty rfl j v (((hothers j hji).answered v).mp hj)

/-- Where a worker is `underWay` the cell is empty. -/
theorem cell_eq_none (h : MadeOnce ws cell) (hi : ws.underWay i) : cell = none := by
  cases cell with
  | none => rfl
  | some v => exact absurd hi (h.full v rfl i).1

/-- While a worker is `underWay`, no other one is so after its step. -/
theorem eq_of_underWay (h : MadeOnce ws none) (hothers : ∀ j ≠ i, Stays ws ws' j)
    (hi : ws.underWay i) {j : ι} (hj : ws'.underWay j) : j = i := by
  by_contra hji
  exact hji (h.alone j i ((hothers j hji).underWay.mp hj) hi)

/-- While a worker is `underWay`, no other one has `made` a value after its step. -/
theorem eq_of_made (h : MadeOnce ws none) (hothers : ∀ j ≠ i, Stays ws ws' j)
    (hi : ws.underWay i) {j : ι} (hj : ws'.made j v) : j = i := by
  by_contra hji
  rcases h.kept j v (((hothers j hji).made v).mp hj) with hunder | hans
  · exact hji (h.alone j i hunder hi)
  · exact h.empty rfl j v hans

/-- `MadeOnce` is kept when a worker that is `underWay` goes on, or fails; what it has made it
keeps. -/
theorem work (h : MadeOnce ws cell) (hothers : ∀ j ≠ i, Stays ws ws' j) (hi : ws.underWay i)
    (hmade : ∀ v, ws'.made i v → ws'.underWay i) (hanswered : ∀ v, ¬ws'.answered i v) :
    MadeOnce ws' cell := by
  obtain rfl := h.cell_eq_none hi
  refine ⟨fun j k hj hk => ?_, fun _ j v hj => ?_, nofun, fun j v hj => ?_,
    fun j k v v' hj hk => (h.eq_of_made hothers hi hj).trans (h.eq_of_made hothers hi hk).symm⟩
  · exact (h.eq_of_underWay hothers hi hj).trans (h.eq_of_underWay hothers hi hk).symm
  · by_cases hji : j = i
    · exact hanswered v (hji ▸ hj)
    · exact h.empty rfl j v (((hothers j hji).answered v).mp hj)
  · obtain rfl := h.eq_of_made hothers hi hj
    exact .inl (hmade v hj)

/-- `MadeOnce` is kept when a worker that is `underWay` fills the cell with the value it has made,
and returns it. -/
theorem store (h : MadeOnce ws cell) (hothers : ∀ j ≠ i, Stays ws ws' j) (hi : ws.underWay i)
    (hunderWay : ¬ws'.underWay i) (hmade : ∀ v', ws'.made i v' → ws'.answered i v')
    (hanswered : ∀ v', ws'.answered i v' → v' = v) : MadeOnce ws' (some v) := by
  obtain rfl := h.cell_eq_none hi
  have hidle : ∀ j, ¬ws'.underWay j := by
    intro j hj
    by_cases hji : j = i
    · exact hunderWay (hji ▸ hj)
    · exact hji (h.alone j i ((hothers j hji).underWay.mp hj) hi)
  refine ⟨fun j _ hj => absurd hj (hidle j), nofun, fun found hfound j => ⟨hidle j, fun v' hj => ?_⟩,
    fun j v hj => ?_, fun j k v v' hj hk =>
      (h.eq_of_made hothers hi hj).trans (h.eq_of_made hothers hi hk).symm⟩
  · rw [← Option.some_inj.mp hfound]
    by_cases hji : j = i
    · exact hanswered v' (hji ▸ hj)
    · exact absurd (((hothers j hji).answered v').mp hj) (h.empty rfl j v')
  · obtain rfl := h.eq_of_made hothers hi hj
    exact .inr (hmade v hj)

end MadeOnce

/-- `MadeOnce` holds where nobody has begun. -/
theorem madeOnce_of_idle (hidle : ∀ j, ¬ws.underWay j) (hmade : ∀ j v, ¬ws.made j v)
    (hanswered : ∀ j v, ¬ws.answered j v) : MadeOnce ws cell :=
  ⟨fun j _ hj => absurd hj (hidle j), fun _ => hanswered,
    fun _ _ j => ⟨hidle j, fun v' hj => absurd hj (hanswered j v')⟩,
    fun j v hj => absurd hj (hmade j v), fun j _ v _ hj => absurd hj (hmade j v)⟩

end Workers

end LogosFs
