import LogosFs.Lib.Text

/-! # URIs and errors of the virtual file system

A URI names a namespace and a path in it. `Uri.parse` knows the scheme `logos://` and its legacy
spelling `mem://`, splits the rest at `/` and drops the empty pieces, so the same namespace and
path have many spellings. -/

namespace LogosFs

/-- Why an operation of the virtual file system failed. -/
inductive VfsError where
  /-- The URI has no known scheme, or no namespace. -/
  | invalidUri (text : Str)
  /-- No namespace of this name is mounted. -/
  | namespaceNotMounted (name : Str)
  /-- The boot sequence is not complete. -/
  | notReady
  /-- There is nothing under the name. -/
  | notFound (text : Str)
  /-- The path, or the step asked for, is not one the namespace supports. -/
  | invalidPath (text : Str)
  /-- The content is not the JSON that was expected. -/
  | invalidJson (text : Str)
  /-- The file system or a process failed. -/
  | io (text : Str)
  /-- The database failed. -/
  | sqlite (text : Str)
deriving DecidableEq, Repr

/-- The text of an error. -/
def VfsError.toStr : VfsError → Str
  | .invalidUri text => "invalid URI: " ++ text
  | .namespaceNotMounted name => "namespace not mounted: " ++ name
  | .notReady => "kernel not ready — boot sequence incomplete"
  | .notFound text => "not found: " ++ text
  | .invalidPath text => "invalid path: " ++ text
  | .invalidJson text => "invalid json: " ++ text
  | .io text => "io error: " ++ text
  | .sqlite text => "sqlite error: " ++ text

/-- The text of an error that the database answers with: its extended result code and message. -/
def VfsError.database (code : Nat) (message : Str) : Str :=
  "error returned from database: (code: " ++ Str.ofNat code ++ ") " ++ message

/-- A parsed URI. -/
structure LogosUri where
  /-- The namespace. -/
  ns : Str
  /-- The path segments in the namespace. -/
  path : List Str
deriving DecidableEq, Repr

namespace Uri

/-- The scheme of the virtual file system. -/
def logosScheme : Str := "logos://"

/-- The legacy scheme. -/
def memScheme : Str := "mem://"

/-- What follows the scheme of a URI. -/
def stripScheme (raw : Str) : Option Str :=
  (Str.stripPrefix logosScheme raw).or (Str.stripPrefix memScheme raw)

/-- Parse a `logos://` or legacy `mem://` URI into a namespace and path segments. -/
def parse (raw : Str) : Except VfsError LogosUri :=
  match stripScheme raw with
  | none => .error (.invalidUri raw)
  | some stripped => match stripped.segments with
    | [] => .error (.invalidUri "URI has no namespace")
    | ns :: path => .ok ⟨ns, path⟩

example : parse "mem://users/uid/prefs.json" = .ok ⟨"users", ["uid", "prefs.json"]⟩ := by decide

/-- What a text with the `logos://` scheme parses to is read off the segments after the scheme. -/
theorem parse_logos (rest : Str) :
    parse (logosScheme ++ rest) = match rest.segments with
      | [] => .error (.invalidUri "URI has no namespace")
      | ns :: path => .ok ⟨ns, path⟩ := by
  rw [parse, stripScheme, Str.stripPrefix_append, Option.some_or]

/-- What follows `logos://` parses to its first segment and the others. -/
theorem parse_logos_eq_ok_iff {rest : Str} {uri : LogosUri} :
    parse (logosScheme ++ rest) = .ok uri ↔ rest.segments = uri.ns :: uri.path := by
  rw [parse_logos]
  cases rest.segments with
  | nil => simp
  | cons ns path => cases uri; simp

/-- Every segment of what `parse` yields, the namespace among them, is non-empty and free of
separators. -/
theorem parse_segments {raw : Str} {uri : LogosUri} (h : parse raw = .ok uri) :
    ∀ segment ∈ uri.ns :: uri.path, segment ≠ [] ∧ '/' ∉ segment := by
  rw [parse] at h
  split at h
  · cases h
  · split at h
    · cases h
    · rename_i stripped _ ns path hsegments
      cases h
      intro segment hmem
      exact Str.mem_segments (hsegments ▸ hmem)

end Uri

end LogosFs
