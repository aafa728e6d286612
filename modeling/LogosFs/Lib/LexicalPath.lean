import Mathlib.Data.List.Basic

/-! # Lexical resolution of paths

A path, read left to right, is a list of components: stay here, go up one directory, or enter a
named one. `walk` resolves such a list against a directory without looking at any file system
(`..` removes the last name, and stays put at the top).

Confinement of a relative path below a directory `root` is a property of the relative path's own
**offset**: how many levels it climbs above its start (`ups`), and the names it then enters.
`walk_eq_take_append` computes a walk from the offset, and `prefix_walk_iff` says exactly when the
walk ends below `root`: the names must spell again whatever part of `root` the climb left. -/

namespace LogosFs

/-- One component of a path. -/
inductive Component (α : Type) where
  /-- `.`, or nothing between two separators. -/
  | here
  /-- `..` -/
  | up
  /-- A directory or file name. -/
  | name (a : α)
deriving DecidableEq, Repr

namespace LexicalPath

variable {α : Type}

/-- Resolve one component against a directory. -/
def enter (dir : List α) : Component α → List α
  | .here => dir
  | .up => dir.dropLast
  | .name a => dir ++ [a]

/-- Resolve a path against a directory. -/
def walk (dir : List α) (path : List (Component α)) : List α := path.foldl enter dir

/-- `walk` of the empty path leads to where it starts. -/
@[simp] theorem walk_nil (dir : List α) : walk dir [] = dir := rfl

/-- `walk` enters the first component, and goes on from there. -/
@[simp] theorem walk_cons (dir : List α) (c : Component α) (path : List (Component α)) :
    walk dir (c :: path) = walk (enter dir c) path := rfl

/-- `walk` of a path after another one starts where this one leads. -/
@[simp] theorem walk_append (dir : List α) (path path' : List (Component α)) :
    walk dir (path ++ path') = walk (walk dir path) path' := List.foldl_append

/-- Where a relative path leads, whatever directory it starts in: up `ups` levels, then down
through `names`. -/
structure Offset (α : Type) where
  /-- The number of `..` that no earlier name of the path pays for. -/
  ups : Nat
  /-- The names entered after the climb. -/
  names : List α
deriving DecidableEq, Repr

/-- The offset after one more component. -/
def Offset.enter (o : Offset α) : Component α → Offset α
  | .here => o
  | .up => if o.names = [] then ⟨o.ups + 1, []⟩ else ⟨o.ups, o.names.dropLast⟩
  | .name a => ⟨o.ups, o.names ++ [a]⟩

/-- The directory an offset leads to from `dir`. -/
def Offset.from (o : Offset α) (dir : List α) : List α :=
  dir.take (dir.length - o.ups) ++ o.names

/-- What the climb of an offset leaves of a directory. -/
def Offset.leaves (o : Offset α) (dir : List α) : List α := dir.take (dir.length - o.ups)

/-- The offset of a relative path. -/
def offset (path : List (Component α)) : Offset α := path.foldl Offset.enter ⟨0, []⟩

/-- `Offset.enter` moves the target of an offset as `LexicalPath.enter` moves a directory. -/
theorem Offset.from_enter (o : Offset α) (c : Component α) (dir : List α) :
    (o.enter c).from dir = LexicalPath.enter (o.from dir) c := by
  cases c with
  | here => rfl
  | name a => simp [Offset.enter, Offset.from, LexicalPath.enter]
  | up =>
    by_cases h : o.names = []
    · simp [Offset.enter, Offset.from, LexicalPath.enter, h, List.dropLast_eq_take, List.take_take]
      omega
    · simp [Offset.enter, Offset.from, LexicalPath.enter, h, List.dropLast_append_of_ne_nil]

/-- **Resolution through the offset**: `walk` keeps what the climb of the `offset` leaves of the
directory and then enters its names. -/
theorem walk_eq_take_append (dir : List α) (path : List (Component α)) :
    walk dir path = (offset path).from dir := by
  have hgeneral : ∀ (path : List (Component α)) (o : Offset α),
      walk (o.from dir) path = (path.foldl Offset.enter o).from dir := by
    intro path
    induction path with
    | nil => intro o; rfl
    | cons c path ih => intro o; rw [walk_cons, ← Offset.from_enter, List.foldl_cons, ih]
  have h := hgeneral path ⟨0, []⟩
  have hstart : (⟨0, []⟩ : Offset α).from dir = dir := by simp [Offset.from]
  rwa [hstart] at h

/-- `walk` by the names of its two parts: what the climb `leaves`, and the `names`. -/
theorem walk_eq_leaves_append (dir : List α) (path : List (Component α)) :
    walk dir path = (offset path).leaves dir ++ (offset path).names :=
  walk_eq_take_append dir path

/-- The offset leads back below `root` from `root` itself: what the climb left of `root` is spelled
again by the names that follow. Without a climb this is no condition at all. -/
def Offset.Reenters (o : Offset α) (root : List α) : Prop :=
  root.drop (root.length - o.ups) <+: o.names

/-- A path that never climbs above its start `Reenters` every root. -/
theorem Offset.reenters_of_ups_eq_zero {o : Offset α} (h : o.ups = 0) (root : List α) :
    o.Reenters root := by
  simp [Offset.Reenters, h]

/-- One more name after at least `ups` of them does not change `Reenters`: what is spelled again is
no longer than the climb. -/
theorem Offset.reenters_name_iff {o : Offset α} (h : o.ups ≤ o.names.length) (a : α)
    (root : List α) : (o.enter (.name a)).Reenters root ↔ o.Reenters root := by
  have hlength : (root.drop (root.length - o.ups)).length ≤ o.names.length := by
    rw [List.length_drop]
    omega
  constructor
  · intro hspelled
    exact List.prefix_of_prefix_length_le hspelled (List.prefix_append _ _) hlength
  · intro hspelled
    exact hspelled.trans (List.prefix_append _ _)

/-- **Confinement**: a walk from `root` ends below `root` exactly when the path's offset re-enters
`root`. -/
theorem prefix_walk_iff (root : List α) (path : List (Component α)) :
    root <+: walk root path ↔ (offset path).Reenters root := by
  rw [walk_eq_take_append, Offset.from, Offset.Reenters]
  conv_lhs => enter [1]; rw [← List.take_append_drop (root.length - (offset path).ups) root]
  exact List.prefix_append_right_inj _

end LexicalPath

end LogosFs
