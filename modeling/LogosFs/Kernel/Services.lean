import LogosFs.Lib.HashMap
import LogosFs.Lib.JsonText
import LogosFs.Vfs.Grammar

/-! # The registry of services

`logos://services/` is a map in memory, of service entries by name, behind a lock that each operation
holds while it looks and changes. A boot fills it from the store of services; a write enters what it is
given, and a patch merges into what is there. The name of a service comes from a directory, a YAML
file, a segment of a URI, a JSON body or a merged body: `registryKept_of_run` says that entries stay
under their names as long as bodies give the name of the segment that they are sent to. -/

namespace LogosFs.Kernel

/-! ## Entries -/

/-- A service that is registered. -/
structure ServiceEntry where
  /-- The name. -/
  name : Str
  /-- `builtin` or `agent`. -/
  source : Str
  /-- `oneshot` or `daemon`. -/
  svcType : Str
  /-- The network address of a daemon, else empty. -/
  endpoint : Str
  /-- `running` or `stopped`. -/
  status : Str
deriving DecidableEq, Repr

namespace ServiceEntry

/-- An entry as JSON. -/
def toValue (entry : ServiceEntry) : Json := .ofPairs [
  ("name", .string entry.name), ("source", .string entry.source), ("svc_type", .string entry.svcType),
  ("endpoint", .string entry.endpoint), ("status", .string entry.status)]

/-- An entry from JSON: an object with its members, or an array of them. -/
def fromValue : Json → Option ServiceEntry
  | .object fields => do
    let text (key : Str) : Option Str := (Json.lookup key fields).bind Json.asStr
    return ⟨← text "name", ← text "source", ← text "svc_type", ← text "endpoint", ← text "status"⟩
  | .array [.string name, .string source, .string svcType, .string endpoint, .string status] =>
    some ⟨name, source, svcType, endpoint, status⟩
  | _ => none

end ServiceEntry

/-- The libraries that read and print the entries. -/
structure ServiceFormat where
  /-- JSON. -/
  json : JsonCodec
  /-- Read an entry from JSON text, or say why it is none. -/
  entryFromStr : Str → Except Str ServiceEntry
  /-- Why a value is not an entry. -/
  notEntry : Json → Str
  /-- Print an entry. -/
  entryToStr : ServiceEntry → Str
  /-- Print some entries. -/
  entriesToStr : List ServiceEntry → Str
  /-- Read a YAML text, as JSON. -/
  yamlFromStr : Str → Option Json

/-! ## Operations -/

/-- The services by their keys. -/
abbrev ServiceRegistry : Type := HashMap Str ServiceEntry

/-- An entry of the directory of the store. -/
structure StoreEntry where
  /-- Its name. -/
  fileName : Str
  /-- It is a directory. -/
  isDir : Bool
  /-- What reading its `compose.yaml` gives, if there is one. -/
  compose : Option (Except Str Str)

namespace ServicesNs

variable (fmt : ServiceFormat) (it : Iteration Str ServiceEntry)

/-- The service that a directory of the store declares, if it declares one. -/
def declared (entry : StoreEntry) : Option ServiceEntry :=
  if !entry.isDir then none
  else match entry.compose with
    | none | some (.error _) => none
    | some (.ok content) => (fmt.yamlFromStr content).map fun yaml =>
      { name := (yaml.get "name").asStr.getD entry.fileName
        source := "agent"
        svcType := if (yaml.get "command").asStr.isSome then "daemon" else "oneshot"
        endpoint := []
        status := "stopped" }

/-- Register a service under its name. -/
def register (reg : ServiceRegistry) (entry : ServiceEntry) : ServiceRegistry :=
  reg.insert entry.name entry

/-- Register the services of the store: how many there are. -/
def restoreFromStore (dir : Except Str (List StoreEntry)) (reg : ServiceRegistry) :
    Except VfsError Nat × ServiceRegistry :=
  match dir with
  | .error e => (.error (.io ("read svc-store: " ++ e)), reg)
  | .ok entries =>
    let services := entries.filterMap (declared fmt)
    (.ok services.length, services.foldl register reg)

/-- Read the list of the services, or one of them. -/
def read (path : List Str) (reg : ServiceRegistry) : Except VfsError Str :=
  match path with
  | [] => .ok (fmt.entriesToStr (it.values reg))
  | [name] => match reg.get name with
    | some entry => .ok (fmt.entryToStr entry)
    | none => .error (.notFound ("service not registered: " ++ name))
  | path => .error (.invalidPath ("unexpected services path: " ++ Str.join path))

/-- Register or update a service. -/
def write (path : List Str) (content : Str) (reg : ServiceRegistry) :
    Except VfsError Unit × ServiceRegistry :=
  match path with
  | [] => (.error (.invalidPath "expected logos://services/\x7bname\x7d"), reg)
  | name :: _ => match fmt.entryFromStr content with
    | .error e => (.error (.invalidJson ("invalid service entry: " ++ e)), reg)
    | .ok entry => (.ok (), reg.insert name entry)

/-- Merge into a service. -/
def patch (path : List Str) (partialText : Str) (reg : ServiceRegistry) :
    Except VfsError Unit × ServiceRegistry :=
  match path with
  | [] => (.error (.invalidPath "expected logos://services/\x7bname\x7d"), reg)
  | name :: _ => match reg.get name with
    | none => (.error (.notFound ("service not registered: " ++ name)), reg)
    | some existing => match fmt.json.fromStr partialText with
      | .error e => (.error (.invalidJson e), reg)
      | .ok patchVal =>
        let merged := Json.deepMerge existing.toValue patchVal
        match ServiceEntry.fromValue merged with
        | none => (.error (.invalidJson ("merge result invalid: " ++ fmt.notEntry merged)), reg)
        | some updated => (.ok (), reg.insert name updated)

end ServicesNs

/-- An operation that may change the registry. -/
inductive ServiceStep where
  /-- Restore from the directory of the store, or fail to read it. -/
  | restore (dir : Except Str (List StoreEntry))
  /-- Write a text to a path. -/
  | write (path : List Str) (content : Str)
  /-- Patch a path with a text. -/
  | patch (path : List Str) (partialText : Str)

namespace ServiceStep

variable (fmt : ServiceFormat)

/-- What an operation does. -/
def run : ServiceStep → ServiceRegistry → Except VfsError Unit × ServiceRegistry
  | .restore dir, reg =>
    ((ServicesNs.restoreFromStore fmt dir reg).1.map fun _ => (),
      (ServicesNs.restoreFromStore fmt dir reg).2)
  | .write path content, reg => ServicesNs.write fmt path content reg
  | .patch path partialText, reg => ServicesNs.patch fmt path partialText reg

/-- The registry after some operations, from an empty one. -/
def after (steps : List ServiceStep) : ServiceRegistry :=
  steps.foldl (fun reg step => (step.run fmt reg).2) .empty

end ServiceStep

/-! ## What is kept -/

/-- **Entries are under their names.** -/
def KeyedByName (reg : ServiceRegistry) : Prop := ∀ key entry, reg.get key = some entry → entry.name = key

/-- Each service that is listed can be read under its name. -/
def ListedReadable (fmt : ServiceFormat) (it : Iteration Str ServiceEntry) (reg : ServiceRegistry) :
    Prop :=
  ∀ entry ∈ it.values reg, ∃ path,
    Uri.parse ("logos://services/".toList ++ entry.name) = .ok ⟨"services", path⟩ ∧
      ServicesNs.read fmt it path reg = .ok (fmt.entryToStr entry)

/-- **A write or a patch is atomic**: one that fails leaves the registry as it is, and one that succeeds
changes the service that it names only; a write makes it what it is given, and a patch the merge of
what it was with what is given. -/
structure ChangesAtomically (fmt : ServiceFormat) (reg : ServiceRegistry) : Prop where
  /-- A write that fails changes nothing. -/
  write_error : ∀ path content e, (ServicesNs.write fmt path content reg).1 = .error e →
    (ServicesNs.write fmt path content reg).2 = reg
  /-- A patch that fails changes nothing. -/
  patch_error : ∀ path partialText e, (ServicesNs.patch fmt path partialText reg).1 = .error e →
    (ServicesNs.patch fmt path partialText reg).2 = reg
  /-- A write that succeeds. -/
  write_ok : ∀ path content, (ServicesNs.write fmt path content reg).1 = .ok () →
    ∃ name rest entry, path = name :: rest ∧ fmt.entryFromStr content = .ok entry ∧
      (ServicesNs.write fmt path content reg).2.get name = some entry ∧
      ∀ key ≠ name, (ServicesNs.write fmt path content reg).2.get key = reg.get key
  /-- A patch that succeeds. -/
  patch_ok : ∀ path partialText, (ServicesNs.patch fmt path partialText reg).1 = .ok () →
    ∃ name rest old patchVal updated, path = name :: rest ∧ reg.get name = some old ∧
      fmt.json.fromStr partialText = .ok patchVal ∧
      ServiceEntry.fromValue (Json.deepMerge old.toValue patchVal) = some updated ∧
      (ServicesNs.patch fmt path partialText reg).2.get name = some updated ∧
      ∀ key ≠ name, (ServicesNs.patch fmt path partialText reg).2.get key = reg.get key

/-- **The registry is kept by name**, and changes atomically. -/
structure RegistryKept (fmt : ServiceFormat) (it : Iteration Str ServiceEntry) (reg : ServiceRegistry) :
    Prop where
  /-- Entries are under their names. -/
  keyed : KeyedByName reg
  /-- What is listed can be read. -/
  readable : ListedReadable fmt it reg
  /-- Writes and patches are atomic. -/
  atomic : ChangesAtomically fmt reg

/-- A name that can be a segment of a URI. -/
def IsSegment (name : Str) : Prop := name ≠ [] ∧ '/' ∉ name

instance (name : Str) : Decidable (IsSegment name) := inferInstanceAs (Decidable (_ ∧ _))

/-- What a patch says about the name. -/
def givenName : Json → Option Json
  | .object fields => Json.lookup "name" fields
  | .array items => items.head?
  | _ => none

/-- An operation gives services the names that they are under, and these are segments. -/
def ServiceStep.NamesItself (fmt : ServiceFormat) : ServiceStep → Prop
  | .restore dir => ∀ entries, dir = .ok entries →
    ∀ entry ∈ entries, ∀ service ∈ ServicesNs.declared fmt entry, IsSegment service.name
  | .write path content => ∀ name rest entry, path = name :: rest →
    fmt.entryFromStr content = .ok entry → entry.name = name ∧ IsSegment name
  | .patch path partialText => ∀ name rest patchVal, path = name :: rest →
    fmt.json.fromStr partialText = .ok patchVal → ∀ other, givenName patchVal = some (.string other) →
      other = name

section Kept

variable {fmt : ServiceFormat} {reg : ServiceRegistry}

/-- A `write` fails, or enters the `entry` that it is given. -/
theorem write_cases (fmt : ServiceFormat) (path : List Str) (content : Str) (reg : ServiceRegistry) :
    (∃ e, ServicesNs.write fmt path content reg = (.error e, reg)) ∨
      ∃ name rest entry, path = name :: rest ∧ fmt.entryFromStr content = .ok entry ∧
        ServicesNs.write fmt path content reg = (.ok (), reg.insert name entry) := by
  cases path with
  | nil => exact .inl ⟨_, rfl⟩
  | cons name rest =>
    cases hparse : fmt.entryFromStr content with
    | error e =>
      exact .inl ⟨.invalidJson ("invalid service entry: " ++ e), by simp only [ServicesNs.write, hparse]⟩
    | ok entry => exact .inr ⟨name, rest, entry, rfl, rfl, by simp only [ServicesNs.write, hparse]⟩

/-- A `patch` fails, or merges what it is given into the service by `deepMerge`. -/
theorem patch_cases (fmt : ServiceFormat) (path : List Str) (partialText : Str) (reg : ServiceRegistry) :
    (∃ e, ServicesNs.patch fmt path partialText reg = (.error e, reg)) ∨
      ∃ name rest old patchVal updated, path = name :: rest ∧ reg.get name = some old ∧
        fmt.json.fromStr partialText = .ok patchVal ∧
        ServiceEntry.fromValue (Json.deepMerge old.toValue patchVal) = some updated ∧
        ServicesNs.patch fmt path partialText reg = (.ok (), reg.insert name updated) := by
  cases path with
  | nil => exact .inl ⟨_, rfl⟩
  | cons name rest =>
    cases hget : reg.get name with
    | none =>
      exact .inl ⟨.notFound ("service not registered: " ++ name), by simp only [ServicesNs.patch, hget]⟩
    | some old =>
      cases hparse : fmt.json.fromStr partialText with
      | error e => exact .inl ⟨.invalidJson e, by simp only [ServicesNs.patch, hget, hparse]⟩
      | ok patchVal =>
        cases hvalue : ServiceEntry.fromValue (Json.deepMerge old.toValue patchVal) with
        | none =>
          refine .inl ⟨.invalidJson ("merge result invalid: "
            ++ fmt.notEntry (Json.deepMerge old.toValue patchVal)), ?_⟩
          simp only [ServicesNs.patch, hget, hparse, hvalue]
        | some updated =>
          exact .inr ⟨name, rest, old, patchVal, updated, rfl, hget, rfl, hvalue,
            by simp only [ServicesNs.patch, hget, hparse, hvalue]⟩

/-- An `insert` changes one key of the registry only. -/
theorem get_insert_ne (name : Str) (entry : ServiceEntry) :
    ∀ key ≠ name, (reg.insert name entry).get key = reg.get key :=
  fun _ hne => HashMap.get_insert.trans (if_neg hne)

/-- **Every write and every patch is atomic**: `ChangesAtomically` holds of every registry. -/
theorem changesAtomically (fmt : ServiceFormat) (reg : ServiceRegistry) :
    ChangesAtomically fmt reg where
  write_error path content e h := by
    rcases write_cases fmt path content reg with ⟨e', hrun⟩ | ⟨name, rest, entry, -, -, hrun⟩
    · rw [hrun]
    · rw [hrun] at h
      cases h
  patch_error path partialText e h := by
    rcases patch_cases fmt path partialText reg with
      ⟨e', hrun⟩ | ⟨name, rest, old, patchVal, updated, -, -, -, -, hrun⟩
    · rw [hrun]
    · rw [hrun] at h
      cases h
  write_ok path content h := by
    rcases write_cases fmt path content reg with ⟨e', hrun⟩ | ⟨name, rest, entry, hpath, hparse, hrun⟩
    · rw [hrun] at h
      cases h
    · rw [hrun]
      exact ⟨name, rest, entry, hpath, hparse, HashMap.get_insert_self, get_insert_ne name entry⟩
  patch_ok path partialText h := by
    rcases patch_cases fmt path partialText reg with
      ⟨e', hrun⟩ | ⟨name, rest, old, patchVal, updated, hpath, hget, hparse, hvalue, hrun⟩
    · rw [hrun] at h
      cases h
    · rw [hrun]
      exact ⟨name, rest, old, patchVal, updated, hpath, hget, hparse, hvalue, HashMap.get_insert_self,
        get_insert_ne name updated⟩

/-! ## Names in a run -/

/-- Entries are under their names, and these can be segments of a URI. -/
def Named (reg : ServiceRegistry) : Prop :=
  ∀ key entry, reg.get key = some entry → entry.name = key ∧ IsSegment key

/-- A service that is entered under its `name` keeps the registry `Named`. -/
theorem Named.insert (h : Named reg) {name : Str} {entry : ServiceEntry} (hname : entry.name = name)
    (hsegment : IsSegment name) : Named (reg.insert name entry) := by
  intro key found hfound
  rw [HashMap.get_insert] at hfound
  by_cases hkey : key = name
  · rw [if_pos hkey, Option.some_inj] at hfound
    rw [← hfound, hkey]
    exact ⟨hname, hsegment⟩
  · rw [if_neg hkey] at hfound
    exact h key found hfound

/-- The services that `register` takes from the store are under their names. -/
theorem Named.foldl_register (h : Named reg) {services : List ServiceEntry}
    (hsegments : ∀ service ∈ services, IsSegment service.name) :
    Named (services.foldl ServicesNs.register reg) := by
  induction services generalizing reg with
  | nil => exact h
  | cons service services ih =>
    exact ih (h.insert rfl (hsegments service List.mem_cons_self))
      fun other hother => hsegments other (List.mem_cons_of_mem _ hother)

/-- The name of what was merged is the old one, unless `givenName` of the patch is another one. -/
theorem name_of_merge {old updated : ServiceEntry} {patchVal : Json}
    (hsorted : ∀ fields, patchVal = .object fields → Json.Sorted fields)
    (hgiven : ∀ other, givenName patchVal = some (.string other) → other = old.name)
    (h : ServiceEntry.fromValue (Json.deepMerge old.toValue patchVal) = some updated) :
    updated.name = old.name := by
  cases patchVal with
  | object patch =>
    -- The name of the merged object is read off the patch, or else off the old entry.
    obtain ⟨fields, hfields⟩ : ∃ fields, old.toValue = .object fields := ⟨_, rfl⟩
    have hold : (Json.lookup "name" fields).bind Json.asStr = some old.name := by
      have hget : ((old.toValue).get? "name").bind Json.asStr = some old.name := by
        rw [ServiceEntry.toValue, Json.get?_ofPairs]
        rfl
      rw [hfields] at hget
      exact hget
    rw [hfields] at h
    have hname : (Json.lookup "name" (Json.mergeFields fields patch)).bind Json.asStr
        = some updated.name := by
      obtain ⟨name, hname, h⟩ := Option.bind_eq_some_iff.mp h
      obtain ⟨source, -, h⟩ := Option.bind_eq_some_iff.mp h
      obtain ⟨svcType, -, h⟩ := Option.bind_eq_some_iff.mp h
      obtain ⟨endpoint, -, h⟩ := Option.bind_eq_some_iff.mp h
      obtain ⟨status, -, h⟩ := Option.bind_eq_some_iff.mp h
      cases h
      exact hname
    rw [Json.asStr_lookup_mergeFields _ (hsorted patch rfl)] at hname
    cases hlookup : Json.lookup "name" patch with
    | none =>
      rw [hlookup] at hname
      exact (Option.some_inj.mp (hold.symm.trans hname)).symm
    | some given =>
      rw [hlookup] at hname
      cases given with
      | string other =>
        obtain rfl := Option.some_inj.mp hname
        exact hgiven _ hlookup
      | _ => cases hname
  | array items =>
    have hmerged : Json.deepMerge old.toValue (.array items) = .array items := by
      simp only [Json.deepMerge]
    rw [hmerged] at h
    unfold ServiceEntry.fromValue at h
    split at h
    · rename_i heq
      cases heq
    · rename_i heq
      obtain rfl := Json.array.inj heq
      cases h
      exact hgiven _ rfl
    · cases h
  | _ => cases h

/-- **An operation that `NamesItself`**, so that it gives a service the name that it is under, keeps
the registry `Named`. -/
theorem Named.step (h : Named reg) {step : ServiceStep} (hstep : step.NamesItself fmt) :
    Named (step.run fmt reg).2 := by
  cases step with
  | restore dir =>
    cases dir with
    | error e => exact h
    | ok entries =>
      refine h.foldl_register fun service hservice => ?_
      obtain ⟨entry, hentry, hdeclared⟩ := List.mem_filterMap.mp hservice
      exact hstep entries rfl entry hentry service hdeclared
  | write path content =>
    rcases write_cases fmt path content reg with ⟨e, hrun⟩ | ⟨name, rest, entry, hpath, hparse, hrun⟩
    · rw [ServiceStep.run, hrun]
      exact h
    · rw [ServiceStep.run, hrun]
      obtain ⟨hname, hsegment⟩ := hstep name rest entry hpath hparse
      exact h.insert hname hsegment
  | patch path partialText =>
    rcases patch_cases fmt path partialText reg with
      ⟨e, hrun⟩ | ⟨name, rest, old, patchVal, updated, hpath, hget, hparse, hvalue, hrun⟩
    · rw [ServiceStep.run, hrun]
      exact h
    · rw [ServiceStep.run, hrun]
      obtain ⟨hold, hsegment⟩ := h name old hget
      have hgiven := hstep name rest patchVal hpath hparse
      rw [← hold] at hgiven
      have hname := name_of_merge (fun fields heq => fmt.json.fromStr_sorted (heq ▸ hparse)) hgiven hvalue
      exact h.insert (hname.trans hold) hsegment

/-- What is under its name, and can be a segment, can be read under it: a `Named` registry is
`ListedReadable`. -/
theorem Named.listedReadable (h : Named reg) (it : Iteration Str ServiceEntry) :
    ListedReadable fmt it reg := by
  intro entry hentry
  obtain ⟨key, hget⟩ := HashMap.mem_values_iff.mp (it.mem_values.mp hentry)
  obtain ⟨rfl, hsegment⟩ := h key entry hget
  refine ⟨[entry.name], ?_, ?_⟩
  · have hsegments : ∀ segment ∈ ["services".toList, entry.name], segment ≠ [] ∧ '/' ∉ segment :=
      List.forall_mem_cons.mpr ⟨by decide, List.forall_mem_singleton.mpr hsegment⟩
    have hscheme : Uri.logosScheme ∈ Uri.schemes := List.mem_cons_self
    have hparse : Uri.parse (Uri.print Uri.logosScheme ⟨"services", [entry.name]⟩)
        = .ok ⟨"services", [entry.name]⟩ := Uri.parse_print hscheme hsegments
    have hprint : Uri.print Uri.logosScheme ⟨"services", [entry.name]⟩
        = "logos://services/".toList ++ entry.name := by
      rw [Uri.print, Str.join_cons_cons, Str.join_singleton]
      rfl
    rw [← hprint]
    exact hparse
  · simp only [ServicesNs.read, hget]

end Kept

/-- **The registry is kept** in every state of every run whose `steps` give services the names that
they are under, `NamesItself`. -/
theorem registryKept_of_run {fmt : ServiceFormat} (it : Iteration Str ServiceEntry)
    {steps : List ServiceStep} (hsteps : ∀ step ∈ steps, step.NamesItself fmt) :
    ∀ before, before <+: steps → RegistryKept fmt it (ServiceStep.after fmt before) := by
  intro before hbefore
  have hnamed : Named (ServiceStep.after fmt before) := by
    have hown : ∀ step ∈ before, step.NamesItself fmt := fun step hstep =>
      hsteps step (hbefore.subset hstep)
    induction before using List.reverseRecOn with
    | nil => exact fun _ _ h => nomatch h
    | append_singleton earlier step ih =>
      rw [ServiceStep.after, List.foldl_append]
      have hearlier := ih ((List.prefix_append _ _).trans hbefore)
        fun other hother => hown other (List.mem_append_left _ hother)
      exact hearlier.step (hown step (List.mem_append_right _ (List.mem_singleton_self step)))
  exact ⟨fun key entry hget => (hnamed key entry hget).1, hnamed.listedReadable it,
    changesAtomically fmt _⟩

/-! ## A name in a body -/

namespace ServiceEntry

/-- An entry is read back from its JSON: `fromValue` undoes `toValue`. -/
theorem fromValue_toValue (entry : ServiceEntry) : fromValue entry.toValue = some entry := rfl

/-- The value of an entry has no floating point numbers in it, so it is `Exact`. -/
theorem exact_toValue (entry : ServiceEntry) : entry.toValue.Exact := by
  refine Json.exactAt_ofPairs fun pair hpair => ?_
  simp only [List.mem_cons, List.not_mem_nil, or_false] at hpair
  rcases hpair with rfl | rfl | rfl | rfl | rfl <;> exact .string

/-- The members of an entry in the order they are printed in. -/
def printed (entry : ServiceEntry) : Json := .object [
  ("name", .string entry.name), ("source", .string entry.source), ("svc_type", .string entry.svcType),
  ("endpoint", .string entry.endpoint), ("status", .string entry.status)]

end ServiceEntry

/-- Read an entry from a JSON text. -/
def ServiceEntry.ofText (text : Str) : Except Str ServiceEntry :=
  match JsonText.codec.fromStr text with
  | .error e => .error e
  | .ok value => (fromValue value).elim (.error "invalid value") .ok

/-- Entries as JSON texts, and no YAML. -/
def ServiceFormat.jsonText : ServiceFormat where
  json := JsonText.codec
  entryFromStr := ServiceEntry.ofText
  notEntry _ := "invalid value"
  entryToStr entry := JsonText.codec.toStr entry.printed
  entriesToStr entries := JsonText.codec.toStr (.array (entries.map ServiceEntry.printed))
  yamlFromStr _ := none

/-- `entryFromStr` undoes printing the value of an entry, in the format `jsonText`. -/
theorem ServiceFormat.entryFromStr_jsonText (entry : ServiceEntry) :
    ServiceFormat.jsonText.entryFromStr (JsonText.codec.toStr entry.toValue) = .ok entry := by
  show ServiceEntry.ofText _ = _
  rw [ServiceEntry.ofText, JsonText.codec.fromStr_toStr _ entry.exact_toValue]
  rfl

/-- A service that speaks. -/
def ttsEntry (name : Str) : ServiceEntry := ⟨name, "builtin", "daemon", "localhost:8080", "running"⟩

/-- The service is written to a segment, with a name of its own. -/
def writeTts (name : Str) : ServiceStep := .write ["tts"] (JsonText.codec.toStr (ttsEntry name).toValue)

/-- The service is stopped. -/
def stopped : Json := .ofPairs [("status", .string "stopped")]

/-- `stopped` has no floating point numbers in it, so it is `Exact`. -/
theorem exact_stopped : stopped.Exact := by
  refine Json.exactAt_ofPairs fun pair hpair => ?_
  rw [List.mem_singleton.mp hpair]
  exact .string

/-- The registry is kept when `tts` is written under its name, and then stopped. -/
theorem registryKept_tts : RegistryKept .jsonText .inOrder (ServiceStep.after .jsonText
    [writeTts "tts", .patch ["tts"] (JsonText.codec.toStr stopped)]) := by
  refine registryKept_of_run .inOrder (List.forall_mem_cons.mpr ⟨?_, List.forall_mem_singleton.mpr ?_⟩) _
    List.prefix_rfl
  · rintro name rest entry hpath hparse
    rw [ServiceFormat.entryFromStr_jsonText] at hparse
    obtain rfl := Except.ok.inj hparse
    obtain rfl := (List.cons.inj hpath).1
    exact ⟨rfl, by decide⟩
  · rintro name rest patchVal - hparse other hgiven
    replace hparse : JsonText.codec.fromStr (JsonText.codec.toStr stopped) = .ok patchVal := hparse
    rw [JsonText.codec.fromStr_toStr _ exact_stopped] at hparse
    obtain rfl := Except.ok.inj hparse
    cases hgiven

/-- **A service may be written with a name that is not the one it is under**; then it is listed
under a name that cannot be read: not every run is `RegistryKept`. -/
theorem not_registryKept : ¬∀ steps : List ServiceStep,
    RegistryKept .jsonText .inOrder (ServiceStep.after .jsonText steps) := by
  intro h
  have hkept := h [writeTts "other"]
  have hafter : ServiceStep.after .jsonText [writeTts "other"]
      = HashMap.empty.insert "tts".toList (ttsEntry "other") := by
    rcases write_cases .jsonText ["tts"] (JsonText.codec.toStr (ttsEntry "other").toValue) HashMap.empty
      with ⟨e, hrun⟩ | ⟨name, rest, entry, hpath, hparse, hrun⟩
    · have hok := congrArg Prod.fst hrun
      simp only [ServicesNs.write, ServiceFormat.entryFromStr_jsonText] at hok
      cases hok
    · rw [ServiceFormat.entryFromStr_jsonText] at hparse
      obtain rfl := Except.ok.inj hparse
      obtain rfl := (List.cons.inj hpath).1
      exact congrArg Prod.snd hrun
  rw [hafter] at hkept
  exact absurd (hkept.keyed "tts" _ HashMap.get_insert_self) (by decide)

end LogosFs.Kernel
