import LogosFs.Kernel.Service

/-! # What the validation of JSON covers

The validator looks at the raw URI: at how the string begins and at how it ends. The routing table
looks at the segments of the same string. So two spellings of one path may be validated differently,
and a change of the system or of the memory may be looked past. `needsJsonValidation_iff` says which
spellings of a parsed URI are validated, and `sameTreatment_and_guards_iff` what follows for the
changes that a table lets through, whatever is mounted in it. -/

namespace LogosFs

/-! ## A routing table -/

/-- A routing table, whatever is mounted in it. -/
structure Vfs.RoutingTable (Ns : Type) where
  /-- The mounted namespaces, by name. -/
  namespaces : Str → Option Ns
  /-- Whether the table accepts requests. -/
  isOpen : Bool

/-- The namespace that a URI leads to, with the parsed URI. -/
def Vfs.RoutingTable.resolve {Ns : Type} (table : Vfs.RoutingTable Ns) (rawUri : Str) :
    Except VfsError (Ns × LogosUri) := do
  if ¬table.isOpen then
    throw .notReady
  let parsed ← Uri.parse rawUri
  match table.namespaces parsed.ns with
  | none => throw (.namespaceNotMounted parsed.ns)
  | some ns => return (ns, parsed)

namespace Kernel

open JsonValidator (needsJsonValidation)

/-- The content of a change. -/
def Operation.content? : Operation → Option Str
  | .read => none
  | .write content => some content
  | .patch partialText => some partialText

variable (json : JsonCodec)

/-- The operation changes something, and its content is neither empty nor JSON. -/
def Operation.NotJson (op : Operation) : Prop :=
  ∃ content, op.content? = some content ∧ content ≠ [] ∧ ∀ value, json.fromStr content ≠ .ok value

variable {json} in
/-- A content is `NotJson` if it is not empty and no value is read from it. -/
theorem notJson_iff {op : Operation} {content : Str} (h : op.content? = some content) :
    op.NotJson json ↔ content ≠ [] ∧ ∀ value, json.fromStr content ≠ .ok value := by
  rw [Operation.NotJson, h]
  constructor
  · rintro ⟨_, ⟨⟩, hbad⟩
    exact hbad
  · intro hbad
    exact ⟨content, rfl, hbad⟩

/-- The validator's `before` stops a change whose content is not JSON, under a URI that
`needsJsonValidation`, and lets everything else through. -/
theorem before_cases (rawUri : Str) (op : Operation) :
    (needsJsonValidation rawUri ∧ op.NotJson json) ∧
        (∃ e, JsonValidator.before json rawUri op = throw e) ∨
      ¬(needsJsonValidation rawUri ∧ op.NotJson json) ∧
        JsonValidator.before json rawUri op = pure () := by
  have hvalidate : ∀ verb content : Str, op.content? = some content →
      JsonValidator.before json rawUri op = JsonValidator.validate json verb rawUri content →
      (needsJsonValidation rawUri ∧ op.NotJson json) ∧
          (∃ e, JsonValidator.before json rawUri op = throw e) ∨
        ¬(needsJsonValidation rawUri ∧ op.NotJson json) ∧
          JsonValidator.before json rawUri op = pure () := by
    intro verb content hcontent hbefore
    rw [hbefore, notJson_iff hcontent]
    unfold JsonValidator.validate
    by_cases h : needsJsonValidation rawUri ∧ content ≠ []
    · rw [if_pos h]
      cases json.fromStr content with
      | ok value => exact .inr ⟨fun hbad => hbad.2.2 value rfl, rfl⟩
      | error e => exact .inl ⟨⟨h.1, h.2, nofun⟩, _, rfl⟩
    · rw [if_neg h]
      exact .inr ⟨fun hbad => h ⟨hbad.1, hbad.2.1⟩, rfl⟩
  cases op with
  | read => exact .inr ⟨fun ⟨_, _, h, _⟩ => (nomatch h), rfl⟩
  | write content => exact hvalidate "write" content rfl rfl
  | patch partialText => exact hvalidate "patch" partialText rfl rfl

/-- The check passes exactly unless the raw URI asks for JSON and the content is `NotJson`. -/
theorem before_eq_pure_iff (rawUri : Str) (op : Operation) :
    JsonValidator.before json rawUri op = pure () ↔
      ¬(needsJsonValidation rawUri ∧ op.NotJson json) := by
  rcases before_cases json rawUri op with ⟨hbad, e, hthrow⟩ | ⟨hgood, hpure⟩
  · rw [hthrow]
    exact iff_of_false (fun h => nomatch h) fun h => h hbad
  · exact iff_of_true hpure hgood

/-! ## What a table lets through -/

section Table

variable {Ns : Type} (table : Vfs.RoutingTable Ns)

/-- The operation on the URI is handed to the handler of a namespace: the validator lets it through,
and the table resolves the URI. -/
def Reaches (rawUri : Str) (op : Operation) (ns : Ns) (uri : LogosUri) : Prop :=
  JsonValidator.before json rawUri op = pure () ∧ table.resolve rawUri = .ok (ns, uri)

/-- The table accepts the operation on the URI. -/
def Passes (rawUri : Str) (op : Operation) : Prop := ∃ ns uri, Reaches json table rawUri op ns uri

/-- The table accepts the operation under one spelling exactly if it does under the other. -/
def SameTreatment (u v : Str) (op : Operation) : Prop :=
  Passes json table u op ↔ Passes json table v op

/-- The namespaces whose contents are JSON. -/
def jsonNamespaces : List Str := ["system", "memory"]

/-- No content that is not JSON reaches the system or the memory, except for a description. -/
def Guards (rawUri : Str) (op : Operation) : Prop :=
  ∀ ns uri, Reaches json table rawUri op ns uri → uri.ns ∈ jsonNamespaces → op.NotJson json →
    uri.path.getLast? = some "description".toList

/-- The spelling of a URI names its namespace right behind the scheme `logos://`, and goes on behind
it. -/
def Plain (uri : LogosUri) (rawUri : Str) : Prop :=
  Uri.logosScheme ++ uri.ns ++ ['/'] <+: rawUri

/-- The spelling of a URI ends in a separator. -/
def Trailing (rawUri : Str) : Prop := ['/'] <:+ rawUri

instance (uri : LogosUri) (rawUri : Str) : Decidable (Plain uri rawUri) :=
  inferInstanceAs (Decidable (_ <+: _))

instance (rawUri : Str) : Decidable (Trailing rawUri) := inferInstanceAs (Decidable (_ <:+ _))

/-- The spelling of a URI is one that is validated. -/
def Checked (uri : LogosUri) (rawUri : Str) : Prop :=
  Plain uri rawUri ∧ (uri.path.getLast? = some "description".toList → Trailing rawUri)

instance (uri : LogosUri) (rawUri : Str) : Decidable (Checked uri rawUri) :=
  inferInstanceAs (Decidable (_ ∧ _))

/-- **What is validated**: the plain spellings of the paths of the system and of the memory, unless
they end in the word `description` itself. -/
theorem needsJsonValidation_iff {rawUri : Str} {uri : LogosUri} (h : Uri.parse rawUri = .ok uri) :
    needsJsonValidation rawUri ↔ uri.ns ∈ jsonNamespaces ∧ Checked uri rawUri := by
  have hsegments : ∀ name rest : Str, name ≠ [] → '/' ∉ name →
      rawUri = Uri.logosScheme ++ name ++ '/' :: rest → uri.ns = name ∧ uri.path = rest.segments := by
    rintro name rest hne hnotMem rfl
    rw [List.append_assoc, Uri.parse_logos_eq_ok_iff, Str.segments_cons_of_notMem hne hnotMem] at h
    exact ⟨(List.cons.inj h).1.symm, (List.cons.inj h).2.symm⟩
  have hdescription : ∀ front rest : Str, "/description".toList <:+ front ++ '/' :: rest ↔
      rest.segments.getLast? = some "description".toList ∧ ¬['/'] <:+ front ++ '/' :: rest :=
    Str.slash_suffix_iff (by decide) (by decide)
  -- Under a prefix that the validator knows, its suffix test is about the last segment.
  have hname : ∀ name : Str, name ≠ [] → '/' ∉ name →
      ((Uri.logosScheme ++ name ++ ['/'] <+: rawUri ∧ ¬"/description".toList <:+ rawUri) ↔
        uri.ns = name ∧ Checked uri rawUri) := by
    intro name hne hnotMem
    rw [Checked, Plain]
    constructor
    · rintro ⟨⟨rest, hrest⟩, hsuffix⟩
      rw [List.append_assoc, List.singleton_append] at hrest
      obtain ⟨hns, hpath⟩ := hsegments name rest hne hnotMem hrest.symm
      refine ⟨hns, ⟨rest, ?_⟩, fun hlast => ?_⟩
      · rw [hns, List.append_assoc, List.singleton_append, hrest]
      · by_contra htrailing
        refine hsuffix ?_
        rw [← hrest]
        exact (hdescription _ rest).mpr ⟨hpath ▸ hlast, hrest ▸ htrailing⟩
    · rintro ⟨rfl, ⟨rest, hrest⟩, htrailing⟩
      refine ⟨⟨rest, hrest⟩, fun hsuffix => ?_⟩
      rw [List.append_assoc, List.singleton_append] at hrest
      obtain ⟨-, hpath⟩ := hsegments uri.ns rest hne hnotMem hrest.symm
      rw [← hrest] at hsuffix
      obtain ⟨hlast, hbare⟩ := (hdescription _ rest).mp hsuffix
      exact hbare (hrest ▸ htrailing (hpath ▸ hlast))
  have hsystem := hname "system" (by decide) (by decide)
  have hmemory := hname "memory" (by decide) (by decide)
  rw [needsJsonValidation, decide_eq_true_iff, List.isSuffixOf_iff_suffix, Str.startsWith_iff,
    Str.startsWith_iff, jsonNamespaces, List.mem_cons, List.mem_singleton, or_and_right, ← hsystem,
    ← hmemory, ← or_and_right, and_comm]
  rfl

/-- A table that is open resolves what `Uri.parse` takes, to a namespace that is mounted. -/
theorem resolve_eq_ok_iff {rawUri : Str} {ns : Ns} {uri : LogosUri} :
    table.resolve rawUri = .ok (ns, uri) ↔
      table.isOpen ∧ Uri.parse rawUri = .ok uri ∧ table.namespaces uri.ns = some ns := by
  unfold Vfs.RoutingTable.resolve
  cases table.isOpen with
  | false => exact iff_of_false (fun h => nomatch h) fun h => nomatch h.1
  | true =>
    cases Uri.parse rawUri with
    | error e => exact iff_of_false (fun h => nomatch h) fun h => nomatch h.2.1
    | ok parsed =>
      change (match table.namespaces parsed.ns with
        | none => .error (VfsError.namespaceNotMounted parsed.ns)
        | some ns => .ok (ns, parsed)) = Except.ok (ns, uri) ↔ _
      constructor
      · intro h
        split at h
        · cases h
        · rename_i mounted hmounted
          cases h
          exact ⟨rfl, rfl, hmounted⟩
      · rintro ⟨-, ⟨⟩, hmounted⟩
        rw [hmounted]

/-- An operation `Reaches` the handler of a namespace exactly if the table resolves the URI and,
where its content is not JSON, the spelling is not one that is `Checked`. -/
theorem reaches_iff {rawUri : Str} {op : Operation} {ns : Ns} {uri : LogosUri} :
    Reaches json table rawUri op ns uri ↔ table.resolve rawUri = .ok (ns, uri) ∧
      (op.NotJson json → uri.ns ∈ jsonNamespaces → ¬Checked uri rawUri) := by
  rw [Reaches, before_eq_pure_iff, and_comm, and_congr_right_iff]
  intro hresolve
  rw [needsJsonValidation_iff ((resolve_eq_ok_iff table).mp hresolve).2.1]
  tauto

/-- An operation `Passes` the table exactly if the URI is resolved and the table does not have to
validate what is not JSON. -/
theorem passes_iff {rawUri : Str} {op : Operation} : Passes json table rawUri op ↔
    ∃ ns uri, table.resolve rawUri = .ok (ns, uri) ∧
      (op.NotJson json → uri.ns ∈ jsonNamespaces → ¬Checked uri rawUri) := by
  simp only [Passes, reaches_iff]

/-- The table hands operations on the URI to the system or to the memory. -/
def LeadsToJson (uri : LogosUri) : Prop :=
  table.isOpen ∧ (table.namespaces uri.ns).isSome ∧ uri.ns ∈ jsonNamespaces

/-- **When the validator treats spellings alike**, and when it guards the system and the memory. Only
changes whose content is not JSON matter, in a table that leads to one of the two. Two spellings are
treated alike exactly if both are ones that are validated or neither is. A spelling is guarded
exactly if it is plain, or its path ends in the segment `description`. -/
theorem sameTreatment_and_guards_iff (u v : Str) (huv : Uri.parse u = Uri.parse v) (op : Operation) :
    (SameTreatment json table u v op ↔ ∀ uri, Uri.parse u = .ok uri → LeadsToJson table uri →
      op.NotJson json → (Checked uri u ↔ Checked uri v)) ∧
    (Guards json table u op ↔ ∀ uri, Uri.parse u = .ok uri → LeadsToJson table uri →
      op.NotJson json → uri.path.getLast? ≠ some "description".toList → Plain uri u) := by
  have hresolve : table.resolve u = table.resolve v := by
    unfold Vfs.RoutingTable.resolve
    rw [huv]
  constructor
  · rw [SameTreatment, passes_iff, passes_iff, ← hresolve]
    constructor
    · rintro hsame uri hparse ⟨hopen, hmounted, hns⟩ hbad
      obtain ⟨ns, hmounted⟩ := Option.isSome_iff_exists.mp hmounted
      have hto : table.resolve u = .ok (ns, uri) :=
        (resolve_eq_ok_iff table).mpr ⟨hopen, hparse, hmounted⟩
      simp only [hto, Except.ok.injEq, Prod.mk.injEq] at hsame
      -- Both sides of `hsame` are about this `ns` and `uri` now.
      have hpasses : ¬Checked uri u ↔ ¬Checked uri v := by
        constructor
        · intro hunchecked
          obtain ⟨_, _, ⟨rfl, rfl⟩, h⟩ := hsame.mp ⟨ns, uri, ⟨rfl, rfl⟩, fun _ _ => hunchecked⟩
          exact h hbad hns
        · intro hunchecked
          obtain ⟨_, _, ⟨rfl, rfl⟩, h⟩ := hsame.mpr ⟨ns, uri, ⟨rfl, rfl⟩, fun _ _ => hunchecked⟩
          exact h hbad hns
      exact not_iff_not.mp hpasses
    · intro h
      have halike : ∀ ns uri, table.resolve u = .ok (ns, uri) →
          ((op.NotJson json → uri.ns ∈ jsonNamespaces → ¬Checked uri u) ↔
            (op.NotJson json → uri.ns ∈ jsonNamespaces → ¬Checked uri v)) := by
        intro ns uri hto
        obtain ⟨hopen, hparse, hmounted⟩ := (resolve_eq_ok_iff table).mp hto
        have hsome : (table.namespaces uri.ns).isSome := Option.isSome_iff_exists.mpr ⟨ns, hmounted⟩
        refine forall_congr' fun hbad => forall_congr' fun hns => not_congr ?_
        exact h uri hparse ⟨hopen, hsome, hns⟩ hbad
      exact exists_congr fun ns => exists_congr fun uri => and_congr_right (halike ns uri)
  · constructor
    · rintro hguards uri hparse ⟨hopen, hmounted, hns⟩ hbad hlast
      obtain ⟨ns, hmounted⟩ := Option.isSome_iff_exists.mp hmounted
      by_contra hplain
      refine hlast (hguards ns uri ((reaches_iff json table).mpr ⟨?_, ?_⟩) hns hbad)
      · exact (resolve_eq_ok_iff table).mpr ⟨hopen, hparse, hmounted⟩
      · exact fun _ _ hchecked => hplain hchecked.1
    · intro h ns uri hreaches hns hbad
      obtain ⟨hto, hunchecked⟩ := (reaches_iff json table).mp hreaches
      obtain ⟨hopen, hparse, hmounted⟩ := (resolve_eq_ok_iff table).mp hto
      have hsome : (table.namespaces uri.ns).isSome := Option.isSome_iff_exists.mpr ⟨ns, hmounted⟩
      by_contra hlast
      exact hunchecked hbad hns ⟨h uri hparse ⟨hopen, hsome, hns⟩ hbad hlast, fun h => absurd h hlast⟩

end Table

/-! ## The table of the kernel -/

/-- The kernel's table, as a table with the namespaces that are mounted at boot. -/
def RoutingTable.toVfs (table : RoutingTable) : Vfs.RoutingTable Mount := ⟨mount?, table.isOpen⟩

/-- What the kernel's table resolves is what the general table `toVfs` does, with the path alone. -/
theorem RoutingTable.resolve_eq (table : RoutingTable) (rawUri : Str) :
    table.resolve rawUri = (table.toVfs.resolve rawUri).map fun target => (target.1, target.2.path) := by
  unfold RoutingTable.resolve Vfs.RoutingTable.resolve RoutingTable.toVfs
  cases table.isOpen with
  | false => rfl
  | true =>
    cases Uri.parse rawUri with
    | error e => rfl
    | ok parsed =>
      simp only [not_true_eq_false, if_false]
      cases hmounted : mount? parsed.ns with
      | none => simp [bind, Except.bind, hmounted]; rfl
      | some ns => simp [bind, Except.bind, hmounted]; rfl

/-- What `Reaches` a namespace of the kernel is served by it, by `serveMount`. -/
theorem RoutingTable.serve_of_reaches (table : RoutingTable) {rawUri : Str} {op : Operation}
    {ns : Mount} {uri : LogosUri} (h : Reaches json table.toVfs rawUri op ns uri) :
    table.serve json rawUri op = table.serveMount json uri.path op ns := by
  unfold RoutingTable.serve
  rw [h.1, RoutingTable.resolve_eq, h.2]
  rfl

/-- An operation of which `Passes` does not hold ends in an error, and no namespace is asked. -/
theorem RoutingTable.serve_of_not_passes (table : RoutingTable) {rawUri : Str} {op : Operation}
    (h : ¬Passes json table.toVfs rawUri op) : ∃ e, table.serve json rawUri op = throw e := by
  unfold RoutingTable.serve
  rcases before_cases json rawUri op with ⟨-, e, hthrow⟩ | ⟨-, hpure⟩
  · rw [hthrow]
    exact ⟨e, rfl⟩
  · rw [hpure, RoutingTable.resolve_eq]
    cases hresolve : table.toVfs.resolve rawUri with
    | error e => exact ⟨e, rfl⟩
    | ok target => exact absurd ⟨target.1, target.2, hpure, hresolve⟩ h

/-! ## Spellings of the list of tasks -/

/-- The table of a kernel that has booted. -/
def bootedTable : Vfs.RoutingTable Mount := ⟨mount?, true⟩

/-- With a separator at the end of `logos://system/tasks` or without, a text that is not JSON is
kept from the tasks. -/
theorem sameTreatment_and_guards_iff_trailing :
    SameTreatment JsonText.codec bootedTable "logos://system/tasks" "logos://system/tasks/"
        (.write "not json") ∧
      Guards JsonText.codec bootedTable "logos://system/tasks" (.write "not json") := by
  have h := sameTreatment_and_guards_iff JsonText.codec bootedTable "logos://system/tasks"
    "logos://system/tasks/" (by decide) (.write "not json")
  have hparse : Uri.parse "logos://system/tasks" = .ok ⟨"system", ["tasks"]⟩ := by decide
  refine ⟨h.1.mpr ?_, h.2.mpr ?_⟩ <;> rw [hparse]
  · rintro _ ⟨⟩ - -
    decide
  · rintro _ ⟨⟩ - - -
    decide

/-- Under `mem://system/tasks`, of the legacy scheme, a text that is not JSON reaches the tasks,
where it is stopped under the other one. -/
theorem not_sameTreatment_not_guards_legacy :
    Uri.parse "logos://system/tasks" = Uri.parse "mem://system/tasks" ∧
      ¬SameTreatment JsonText.codec bootedTable "logos://system/tasks" "mem://system/tasks"
        (.write "not json") ∧
      ¬Guards JsonText.codec bootedTable "mem://system/tasks" (.write "not json") := by
  have hbad : (Operation.write "not json").NotJson JsonText.codec := by
    refine ⟨"not json", rfl, by decide, fun value h => ?_⟩
    have hfails : (JsonText.codec.fromStr "not json").isOk = false := by decide
    rw [h] at hfails
    cases hfails
  have hlegacy : Reaches JsonText.codec bootedTable "mem://system/tasks" (.write "not json") .system
      ⟨"system", ["tasks"]⟩ :=
    (reaches_iff ..).mpr ⟨by decide, fun _ _ => by decide⟩
  refine ⟨by decide, fun hsame => ?_, fun hguards => ?_⟩
  · obtain ⟨ns, uri, hreaches⟩ := hsame.mpr ⟨_, _, hlegacy⟩
    obtain ⟨hresolve, hunchecked⟩ := (reaches_iff ..).mp hreaches
    have hto : bootedTable.resolve "logos://system/tasks" = .ok (.system, ⟨"system", ["tasks"]⟩) := by
      decide
    rw [hto] at hresolve
    cases hresolve
    exact hunchecked hbad (by decide) (by decide)
  · exact absurd (hguards _ _ hlegacy (by decide) hbad) (by decide)

end Kernel

end LogosFs
