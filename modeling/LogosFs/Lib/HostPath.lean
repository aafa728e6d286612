import LogosFs.Lib.LexicalPath
import LogosFs.Lib.Text
import Mathlib.Data.List.DropRight

/-! # Paths of a host file system

A path as a program writes it, which is a text; it is absolute or not (`absolute`), and has its
components in order (`components`). `join` appends a relative text and lets an absolute one replace
the path; the `parent` of a path is everything before its last component. `resolve` is the lexical
meaning of a path, from a working directory: the names that are left once every `..` has removed
one. -/

namespace LogosFs

/-- The component that a piece between two separators stands for. -/
def Component.ofPiece (piece : Str) : Component Str :=
  if piece = [] ∨ piece = "." then .here else if piece = ".." then .up else .name piece

/-- A piece that `ofPiece` takes for a name is not empty. -/
theorem Component.ne_nil_of_ofPiece {piece : Str} (h : ofPiece piece = .name piece) :
    piece ≠ [] := by
  rintro rfl
  cases h

/-- A path as it is written. -/
structure HostPath where
  /-- Read a path. -/
  ofStr ::
  /-- The text. -/
  text : Str
deriving DecidableEq, Repr

namespace HostPath

/-- The path starts at the root of the file system. -/
def absolute (p : HostPath) : Bool := p.text.startsWith "/"

/-- The components: what is between the separators, of which some may be repeated or come last. -/
def components (p : HostPath) : List (Component Str) := p.text.segments.map Component.ofPiece

/-- The text of a path to which a text is appended; an absolute one replaces it. -/
def joinText (path text : Str) : Str :=
  if text.startsWith "/" then text
  else if path = [] ∨ path.getLast? = some '/' then path ++ text
  else path ++ '/' :: text

/-- Append a relative path; an absolute one replaces the path. -/
def join (p : HostPath) (text : Str) : HostPath := ofStr (joinText p.text text)

/-- The path without its last component and the separators before it, if it has one. -/
def parent (p : HostPath) : Option HostPath :=
  let trim : List Str → List Str := List.rdropWhile fun piece => piece = [] ∨ piece = "."
  match p.text.splitOn '/' with
  | [] => none
  | first :: rest =>
    match trim rest with
    | [] => if first = [] then none else some (ofStr [])
    | piece :: pieces =>
      let above := trim (piece :: pieces).dropLast
      -- Only the separator of the root is left.
      if first = [] ∧ above = [] then some (ofStr "/") else some (ofStr (Str.join (first :: above)))

/-- How a path is shown. -/
def display (p : HostPath) : Str := p.text

/-- The directory or file that a path leads to, seen from a working directory. -/
def resolve (cwd : List Str) (p : HostPath) : List Str :=
  LexicalPath.walk (if p.absolute then [] else cwd) p.components

/-- The target of a path lies in or below a directory. -/
def Under (cwd : List Str) (dir p : HostPath) : Prop := dir.resolve cwd <+: p.resolve cwd

instance (cwd : List Str) (dir p : HostPath) : Decidable (Under cwd dir p) :=
  inferInstanceAs (Decidable (_ <+: _))

/-- Segments that stay at or below a directory, wherever the directory is: seen from it, they never
climb out of it, or spell again what they have climbed. -/
def Inside (cwd : List Str) (dir : HostPath) (segments : List Str) : Prop :=
  (LexicalPath.offset (segments.map Component.ofPiece)).Reenters (dir.resolve cwd)

instance (cwd : List Str) (dir : HostPath) (segments : List Str) :
    Decidable (Inside cwd dir segments) := inferInstanceAs (Decidable (_ <+: _))

/-! ## Joining -/

/-- The characters of `joinText path text` are those of its parts and the separator. -/
theorem mem_of_mem_joinText {path text : Str} {c : Char} (h : c ∈ joinText path text) :
    c ∈ path ∨ c ∈ text ∨ c = '/' := by
  unfold joinText at h
  split at h
  · exact .inr (.inl h)
  · split at h
    · exact (List.mem_append.mp h).imp_right .inl
    · rcases List.mem_append.mp h with h | h
      · exact .inl h
      · exact .inr ((List.mem_cons.mp h).symm)

/-- `Str.join` of segments does not start with a separator. -/
theorem startsWith_join_eq_false {segments : List Str}
    (h : ∀ segment ∈ segments, segment ≠ [] ∧ '/' ∉ segment) :
    Str.startsWith (Str.join segments) "/" = false := by
  rw [Bool.eq_false_iff, ne_eq, Str.startsWith_iff]
  rcases segments with _ | ⟨first, rest⟩
  · decide
  · -- The text starts with the first character of the first segment.
    obtain ⟨hne, hsep⟩ := h first List.mem_cons_self
    obtain ⟨c, first, rfl⟩ := List.exists_cons_of_ne_nil hne
    have hc : c ≠ '/' := fun hc => hsep (hc ▸ List.mem_cons_self)
    have hjoin : ∃ tail, Str.join ((c :: first) :: rest) = c :: tail := by
      rcases rest with _ | ⟨second, rest⟩
      · exact ⟨first, Str.join_singleton _⟩
      · exact ⟨first ++ '/' :: Str.join (second :: rest), Str.join_cons_cons ..⟩
    obtain ⟨tail, htail⟩ := hjoin
    rw [htail]
    rintro ⟨rest', hrest'⟩
    exact hc (List.cons.inj hrest').1.symm

/-- `join` of a relative text leaves a path `absolute`, or relative. -/
theorem absolute_join (p : HostPath) {text : Str} (h : text.startsWith "/" = false) :
    (p.join text).absolute = p.absolute := by
  have hstart : ∀ s : Str, p.text ≠ [] →
      Str.startsWith (p.text ++ s) "/" = p.text.startsWith "/" := by
    intro s hne
    obtain ⟨c, rest, hp⟩ := List.exists_cons_of_ne_nil hne
    rw [hp]
    rfl
  rw [join, absolute, absolute, joinText, if_neg (by rw [h]; exact Bool.false_ne_true)]
  dsimp only
  by_cases hempty : p.text = []
  · rw [if_pos (.inl hempty), hempty, List.nil_append, h]
    rfl
  · split
    · exact hstart text hempty
    · exact hstart ('/' :: text) hempty

/-- `join` of a relative text adds its `components`. -/
theorem components_join (p : HostPath) {text : Str} (h : text.startsWith "/" = false) :
    (p.join text).components = p.components ++ text.segments.map Component.ofPiece := by
  rw [join, components, components, joinText, if_neg (by rw [h]; exact Bool.false_ne_true)]
  dsimp only
  rw [← List.map_append]
  refine congrArg (List.map Component.ofPiece) ?_
  by_cases hempty : p.text = []
  · rw [if_pos (.inl hempty), hempty, List.nil_append]
    rfl
  by_cases hslash : p.text.getLast? = some '/'
  · -- the separator is there already, and nothing stands after it
    rw [if_pos (.inr hslash)]
    obtain ⟨init, hinit⟩ := List.getLast?_eq_some_iff.mp hslash
    rw [hinit, List.append_assoc, List.singleton_append, Str.segments_append_cons,
      Str.segments_append_cons, Str.segments_nil, List.append_nil]
  · rw [if_neg (by simp only [hempty, hslash, or_self, not_false_eq_true]),
      Str.segments_append_cons]

/-- `join` of segments without separators appends just these segments to the `components`. -/
theorem components_join_segments (p : HostPath) {segments : List Str}
    (h : ∀ segment ∈ segments, segment ≠ [] ∧ '/' ∉ segment) :
    (p.join (Str.join segments)).components
      = p.components ++ segments.map Component.ofPiece := by
  rw [components_join p (startsWith_join_eq_false h), Str.segments_join h]

/-- `joinText` appends every relative text to the same front. -/
theorem exists_joinText_eq (path : Str) :
    ∃ front, ∀ text : Str, text.startsWith "/" = false → joinText path text = front ++ text := by
  refine ⟨if path = [] ∨ path.getLast? = some '/' then path else path ++ ['/'], fun text h => ?_⟩
  rw [joinText, if_neg (by rw [h]; exact Bool.false_ne_true)]
  split
  · rfl
  · rw [List.append_assoc, List.singleton_append]

/-- Joining a directory and then segments in it is one `join` of them all. -/
theorem join_join_segments (p : HostPath) {first : Str} {rest : List Str} (hne : rest ≠ [])
    (h : ∀ segment ∈ first :: rest, segment ≠ [] ∧ '/' ∉ segment) :
    (p.join first).join (Str.join rest) = p.join (Str.join (first :: rest)) := by
  have hfirst := startsWith_join_eq_false (List.forall_mem_singleton.mpr (h first List.mem_cons_self))
  rw [Str.join_singleton] at hfirst
  have hrest := startsWith_join_eq_false fun segment hsegment =>
    h segment (List.mem_cons_of_mem _ hsegment)
  obtain ⟨front, hfront⟩ := exists_joinText_eq p.text
  obtain ⟨second, rest, rfl⟩ := List.exists_cons_of_ne_nil hne
  obtain ⟨hfirstNe, hfirstSep⟩ := h first List.mem_cons_self
  -- The first segment is not empty and does not end in a separator, so one follows it.
  have hends : ¬((front ++ first) = [] ∨ (front ++ first).getLast? = some '/') := by
    rintro (hnil | hlast)
    · exact hfirstNe (List.append_eq_nil_iff.mp hnil).2
    · rw [List.getLast?_append_of_ne_nil _ hfirstNe] at hlast
      exact hfirstSep (List.mem_of_getLast? hlast)
  refine congrArg ofStr ?_
  rw [join, hfront _ (startsWith_join_eq_false h)]
  dsimp only
  rw [hfront _ hfirst, joinText, if_neg (by rw [hrest]; exact Bool.false_ne_true), if_neg hends,
    Str.join_cons_cons, List.append_assoc]

/-- A path of joined segments leads where `walk` leads from the directory. -/
theorem resolve_join (cwd : List Str) (dir : HostPath) {segments : List Str}
    (h : ∀ segment ∈ segments, segment ≠ [] ∧ '/' ∉ segment) :
    (dir.join (Str.join segments)).resolve cwd
      = LexicalPath.walk (dir.resolve cwd) (segments.map Component.ofPiece) := by
  rw [resolve, absolute_join dir (startsWith_join_eq_false h), components_join_segments dir h,
    resolve, LexicalPath.walk_append]

/-- **Confinement of joined segments**: the path they lead to lies `Under` the directory exactly
when the segments stay `Inside`. -/
theorem under_join_iff (cwd : List Str) (dir : HostPath) {segments : List Str}
    (h : ∀ segment ∈ segments, segment ≠ [] ∧ '/' ∉ segment) :
    Under cwd dir (dir.join (Str.join segments)) ↔ Inside cwd dir segments := by
  rw [Under, resolve_join cwd dir h, Inside, LexicalPath.prefix_walk_iff]

end HostPath

end LogosFs
