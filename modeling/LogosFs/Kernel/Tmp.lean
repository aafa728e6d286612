import LogosFs.Kernel.Confinement
import LogosFs.Kernel.Routing
import LogosFs.Kernel.Slots
import LogosFs.Kernel.Validation
import LogosFs.Lib.HashMap
import LogosFs.Lib.Trace
import LogosFs.Lib.Upsert

/-! # The namespace `tmp`

`logos://tmp/` keeps texts in memory, under the joined segments of their paths. `tmpExact_of_run` says
what requests to it are answered while any number of requests of any kind run at the same time, from
any sessions: a path holds what was written to it last, by whatever spelling of its URI, and the root
lists what has been written. -/

namespace LogosFs.Kernel

open Program (AllOps)

variable (json : JsonCodec)

/-! ## The namespace -/

namespace TmpNs

/-- Read a text, or list the keys; a hash map promises no order of these. -/
def read (it : Iteration Str Str) (path : List Str) (store : HashMap Str Str) : Except VfsError Str :=
  let key := Str.join path
  if key = [] then .ok (json.toStr (.strings ((it.order store).map Sigma.fst)))
  else match store.get key with
    | some content => .ok content
    | none => .error (.notFound ("logos://tmp/" ++ key))

/-- Write a text. -/
def write (path : List Str) (content : Str) (store : HashMap Str Str) :
    Except VfsError Unit × HashMap Str Str :=
  let key := Str.join path
  if key = [] then (.error (.invalidPath "empty tmp path"), store)
  else (.ok (), store.insert key content)

/-- A patch is a write. -/
def patch (path : List Str) (partialText : Str) (store : HashMap Str Str) :
    Except VfsError Unit × HashMap Str Str :=
  write path partialText store

/-- What the namespace does with an operation. A change answers with the empty text. -/
def serve (it : Iteration Str Str) (path : List Str) (store : HashMap Str Str) :
    Operation → Except VfsError Str × HashMap Str Str
  | .read => (read json it path store, store)
  | .write content => ((write path content store).1.map fun _ => [], (write path content store).2)
  | .patch partialText =>
    ((patch path partialText store).1.map fun _ => [], (patch path partialText store).2)

end TmpNs

/-- What happens outside of the system database, with the namespace `tmp`. -/
def withTmp {σ : Type} (it : Iteration Str Str) (outside : Handler OutsideSig σ) :
    Handler OutsideSig (HashMap Str Str × σ)
  | .inl op, s => ((outside (.inl op) s.2).1, s.1, (outside (.inl op) s.2).2)
  | .inr (.tool name params), s =>
    ((outside (.inr (.tool name params)) s.2).1, s.1, (outside (.inr (.tool name params)) s.2).2)
  | .inr (.namespace name path op), s =>
    if name = "tmp".toList then
      ((TmpNs.serve json it path s.1 op).1, (TmpNs.serve json it path s.1 op).2, s.2)
    else
      ((outside (.inr (.namespace name path op)) s.2).1, s.1,
        (outside (.inr (.namespace name path op)) s.2).2)

/-! ## Requests to it -/

/-- A request, with the session it comes from. -/
abbrev Asked : Type := Option SessionInfo × Request

/-- The path and the operation of a request to the namespace. -/
def Asked.tmp? : Asked → Option (List Str × Operation)
  | (info, .uri uri op) => match Uri.parse (resolveUri uri info) with
    | .ok parsed => if parsed.ns = "tmp".toList then some (parsed.path, op) else none
    | .error _ => none
  | (_, .call ..) => none

/-- What a request writes to the namespace: a path, which is not the root, and a text. -/
def Asked.tmpWrite? (asked : Asked) : Option (List Str × Str) := do
  let (path, op) ← asked.tmp?
  let content ← op.content?
  if path = [] then none else some (path, content)

/-- A request, served by a table. -/
def Asked.thread (table : RoutingTable) (asked : Asked) : Program KernelSig Unit :=
  (LogosService.serve json table asked.1 asked.2).run >>= fun _ => .done ()

/-- An operation on the namespace. -/
def onTmp (path : List Str) (op : Operation) : KernelOp :=
  .outside (.inr (.namespace "tmp" path op))

section Requests

variable {json} {table : RoutingTable} {info : Option SessionInfo} {uri : Str} {path : List Str}

/-- The path of a request that `tmp?` finds is made of segments. -/
theorem Asked.segments_of_tmp? {asked : Asked} {op : Operation} (h : asked.tmp? = some (path, op)) :
    ∀ segment ∈ path, segment ≠ [] ∧ '/' ∉ segment := by
  obtain ⟨info, request⟩ := asked
  cases request with
  | call => cases h
  | uri uri op' =>
    rw [Asked.tmp?] at h
    split at h
    · rename_i parsed hparse
      split at h
      · cases h
        -- They come from the segments of the text behind the scheme.
        rw [Uri.parse] at hparse
        split at hparse
        · cases hparse
        · rename_i stripped _
          intro segment hsegment
          refine Str.mem_segments (s := stripped) ?_
          split at hparse
          · cases hparse
          · rename_i ns rest hsegments
            cases hparse
            rw [hsegments]
            exact List.mem_cons_of_mem _ hsegment
      · cases h
    · cases h

/-- The namespace of `tmp` is mounted under its name only. -/
theorem name_of_mount? {name : Str} (h : mount? name = some (.elsewhere "tmp")) :
    name = "tmp".toList := by
  have hmounts : ∀ entry ∈ mounts, entry.2 = .elsewhere "tmp" → entry.1 = "tmp".toList := by decide
  obtain ⟨entry, hfind, hmount⟩ := Option.map_eq_some_iff.mp h
  have hentry : entry.1 = name := by simpa using List.find?_some hfind
  rw [← hentry]
  exact hmounts entry (List.mem_of_find?_eq_some hfind) hmount

/-- The `name` that a URI begins with, after `logos://`, is that of its namespace. -/
theorem ns_of_startsWith {name : Str} {parsed : LogosUri} (hne : name ≠ []) (hsep : '/' ∉ name)
    (hstart : Uri.logosScheme ++ (name ++ ['/']) <+: uri) (hparse : Uri.parse uri = .ok parsed) :
    parsed.ns = name := by
  obtain ⟨rest, rfl⟩ := hstart
  rw [List.append_assoc, List.append_assoc, List.singleton_append, Uri.parse_logos_eq_ok_iff,
    Str.segments_cons_of_notMem hne hsep] at hparse
  exact (List.cons.inj hparse).1.symm

/-- The check of access, `checkAccess`, lets every request through that is neither to a sandbox nor
to a namespace whose changes are guarded, and asks for nothing. -/
theorem checkAccess_of_open {parsed : LogosUri} (hparse : Uri.parse uri = .ok parsed)
    (hns : parsed.ns ∉ ["sandbox".toList, "services".toList, "system".toList, "devices".toList])
    (isWrite : Bool) : checkAccess json info uri isWrite = pure () := by
  have hstart : ∀ name : Str, name ≠ [] → '/' ∉ name →
      name ∈ ["sandbox".toList, "services".toList, "system".toList, "devices".toList] →
        ¬Uri.logosScheme ++ (name ++ ['/']) <+: uri := by
    intro name hne hsep hname hstart
    rw [← ns_of_startsWith hne hsep hstart hparse] at hname
    exact hns hname
  cases info with
  | none => rfl
  | some si =>
    have hsandbox : Str.stripPrefix "logos://sandbox/" uri = none := by
      rw [Option.eq_none_iff_forall_ne_some]
      intro rest hrest
      refine hstart "sandbox" (by decide) (by decide) (by decide) ?_
      rw [Str.stripPrefix_eq_some_iff] at hrest
      exact ⟨rest, hrest.symm⟩
    have hprotected : ¬(isWrite ∧ ¬si.role.isAdmin ∧ (uri.startsWith "logos://services/" ∨
        uri.startsWith "logos://system/" ∨ uri.startsWith "logos://devices/")) := by
      rintro ⟨-, -, hname | hname | hname⟩ <;> rw [Str.startsWith_iff] at hname
      · exact hstart "services" (by decide) (by decide) (by decide) hname
      · exact hstart "system" (by decide) (by decide) (by decide) hname
      · exact hstart "devices" (by decide) (by decide) (by decide) hname
    have hfirst : checkSandbox json si uri isWrite = pure () := by
      rw [checkSandbox, hsandbox]
    have hsecond : checkNamespace si uri isWrite = pure () := if_neg hprotected
    show (checkSandbox json si uri isWrite >>= fun _ => checkNamespace si uri isWrite) = _
    rw [hfirst, pure_bind, hsecond]

/-- **A request to the namespace** is one operation on it: `LogosService.serve` does
`.namespace "tmp"` and nothing else. -/
theorem serve_of_tmp (hopen : table.isOpen) {request : Request} {op : Operation}
    (h : Asked.tmp? (info, request) = some (path, op)) :
    LogosService.serve json table info request
      = Program.mapError vfsToStatus (onElsewhere (.namespace "tmp" path op)) := by
  cases request with
  | call => cases h
  | uri raw op' =>
    rw [Asked.tmp?] at h
    split at h
    · rename_i parsed hparse
      split at h
      · rename_i hns
        cases h
        -- Neither the validator nor the check of access looks at this namespace, and it is mounted.
        have hvalid : JsonValidator.before json (resolveUri raw info) op = pure () := by
          rw [before_eq_pure_iff, needsJsonValidation_iff hparse, hns]
          exact fun hbad => absurd hbad.1.1 (by decide)
        have hresolve : table.resolve (resolveUri raw info) = .ok (.elsewhere "tmp", parsed.path) := by
          have hmount : mount? parsed.ns = some (.elsewhere "tmp") := by
            rw [hns]
            decide
          rw [RoutingTable.resolve_eq,
            (resolve_eq_ok_iff table.toVfs).mpr ⟨hopen, hparse, hmount⟩]
          rfl
        show (onSystem (checkAccess json info (resolveUri raw info) op.isWrite) >>= fun _ =>
          Program.mapError vfsToStatus (table.serve json (resolveUri raw info) op)) = _
        have hopenNs : parsed.ns ∉
            ["sandbox".toList, "services".toList, "system".toList, "devices".toList] := by
          rw [hns]
          decide
        rw [checkAccess_of_open hparse hopenNs, RoutingTable.serve, hvalid, hresolve]
        rfl
      · cases h
    · cases h

/-! ## What the other requests do -/

/-- An operation that is not on the namespace. -/
def SparesTmp : KernelOp → Prop
  | .outside (.inr (.namespace name _ _)) => name ≠ "tmp".toList
  | _ => True

section Spares

variable {ε α : Type}

/-- `onSystem` spares `tmp`. -/
theorem sparesTmp_onSystem (p : ExceptT ε (Program System.Sql) α) :
    (onSystem p).run.AllOps SparesTmp :=
  AllOps.hoist (Q := SparesTmp)
    (fun op _ => (Program.allOps_perform (S := KernelSig) (.system op)).mpr trivial)
    (Program.allOps_of_forall (P := fun _ => True) (fun _ => trivial) p.run)

/-- `onFiles` spares `tmp`. -/
theorem sparesTmp_onFiles (p : FsM α) : (onFiles p).run.AllOps SparesTmp :=
  AllOps.hoist (Q := SparesTmp)
    (fun op _ => (Program.allOps_perform (S := KernelSig) (.outside (.inl op))).mpr trivial)
    (Program.allOps_of_forall (P := fun _ => True) (fun _ => trivial) p.run)

/-- `onSlots` spares `tmp`. -/
theorem sparesTmp_onSlots (op : SlotOp) : (onSlots op).run.AllOps SparesTmp :=
  AllOps.lift ((Program.allOps_perform _).mpr trivial)

variable (json)

/-- `parseParams` performs no operation, so it spares `tmp`. -/
theorem sparesTmp_parseParams (params : Str) : (parseParams json params).run.AllOps SparesTmp := by
  rw [parseParams]
  split <;> trivial

/-- A call of any tool spares `tmp`. -/
theorem sparesTmp_toolCall (sandbox : SandboxNs) (tool : Tool) (params : Str) :
    (tool.call json sandbox params).run.AllOps SparesTmp := by
  obtain ⟨name, schema, body⟩ := tool
  cases body with
  | searchTasks =>
    exact AllOps.exceptBind (sparesTmp_parseParams json params) fun val => sparesTmp_onSystem _
  | complete =>
    refine AllOps.exceptBind (sparesTmp_parseParams json params) fun val =>
      AllOps.exceptBind (sparesTmp_onSystem _) fun result => ?_
    dsimp only
    split
    · exact AllOps.exceptBind (AllOps.ignoreError (sparesTmp_onFiles _)) fun _ => trivial
    · trivial
  | elsewhere => exact (Program.allOps_perform _).mpr trivial

/-- A read of `proc` spares `tmp`. -/
theorem sparesTmp_procRead (ns : ProcNs) (path : List Str) :
    (ns.read json path).run.AllOps SparesTmp := by
  have hfound : ∀ key slot, (ProcNs.found key slot).run.AllOps SparesTmp := by
    intro key slot
    cases slot <;> trivial
  have hslot : ∀ key field, (ProcNs.readSlot key field).run.AllOps SparesTmp := by
    intro key field
    rw [ProcNs.readSlot]
    split
    · refine AllOps.exceptBind (sparesTmp_onSlots _) fun _ =>
        AllOps.exceptBind (hfound _ _) fun slot => ?_
      split <;> trivial
    · refine AllOps.exceptBind (sparesTmp_onSlots _) fun _ =>
        AllOps.exceptBind (hfound _ _) fun slot => ?_
      split <;> trivial
  have hschema : ∀ toolName, (ns.schema json toolName).run.AllOps SparesTmp := by
    intro toolName
    rw [ProcNs.schema]
    split <;> trivial
  unfold ProcNs.read
  dsimp only
  split
  · trivial
  · exact hschema _
  · split
    · exact hschema _
    · trivial
  · split
    · exact hslot _ _
    · trivial
  · trivial

/-- A write to `proc` spares `tmp`. -/
theorem sparesTmp_procWrite (ns : ProcNs) (path : List Str) (content : Str) :
    (ns.write json path content).run.AllOps SparesTmp := by
  unfold ProcNs.write
  dsimp only
  split
  · split
    · rw [ProcNs.executeCall]
      split
      · trivial
      · exact AllOps.exceptBind (AllOps.outcome (sparesTmp_toolCall json _ _ _)) fun result =>
          sparesTmp_onSlots _
    · trivial
  · trivial

/-- Every mount other than `tmp` spares `tmp`. -/
theorem sparesTmp_serveMount (table : RoutingTable) (path : List Str) (op : Operation) {ns : Mount}
    (h : ns ≠ .elsewhere "tmp") : (table.serveMount json path op ns).run.AllOps SparesTmp := by
  cases ns with
  | store store => exact sparesTmp_onFiles _
  | system =>
    cases op with
    | read => exact sparesTmp_onSystem _
    | write content => exact AllOps.exceptBind (sparesTmp_onSystem _) fun _ => trivial
    | patch partialText => exact AllOps.exceptBind (sparesTmp_onSystem _) fun _ => trivial
  | proc =>
    cases op with
    | read => exact sparesTmp_procRead json table.proc path
    | write content => exact AllOps.exceptBind (sparesTmp_procWrite json table.proc path content) fun _ => trivial
    | patch partialText => trivial
  | elsewhere name =>
    refine (Program.allOps_perform _).mpr fun hname => h ?_
    rw [hname]

/-- **Every other request** leaves the namespace alone: all its operations are `SparesTmp`. -/
theorem sparesTmp_serve {asked : Asked} (h : asked.tmp? = none) :
    (LogosService.serve json table asked.1 asked.2).run.AllOps SparesTmp := by
  obtain ⟨info, request⟩ := asked
  cases request with
  | call tool paramsJson =>
    cases info with
    | none => trivial
    | some si =>
      refine AllOps.mapError (p := table.proc.call json tool paramsJson) ?_
      rw [ProcNs.call]
      split
      · trivial
      · exact sparesTmp_toolCall json _ _ _
  | uri raw op =>
    refine AllOps.exceptBind (sparesTmp_onSystem _) fun _ => AllOps.mapError ?_
    refine AllOps.exceptBind ?_ fun _ => ?_
    · rcases before_cases json (resolveUri raw info) op with ⟨-, e, hthrow⟩ | ⟨-, hpure⟩
      · rw [hthrow]
        trivial
      · rw [hpure]
        trivial
    · cases hresolve : table.resolve (resolveUri raw info) with
      | error e => trivial
      | ok found =>
        obtain ⟨ns, path⟩ := found
        refine sparesTmp_serveMount json table path op ?_
        rintro rfl
        -- Nothing else is mounted as `tmp`.
        rw [RoutingTable.resolve_eq] at hresolve
        cases hfound : table.toVfs.resolve (resolveUri raw info) with
        | error e =>
          rw [hfound] at hresolve
          cases hresolve
        | ok target =>
          obtain ⟨ns, parsed⟩ := target
          rw [hfound] at hresolve
          cases hresolve
          obtain ⟨-, hparse, hmounted⟩ := (resolve_eq_ok_iff table.toVfs).mp hfound
          have hname := name_of_mount? hmounted
          rw [Asked.tmp?, hparse] at h
          dsimp only at h
          rw [if_pos hname] at h
          cases h

end Spares

end Requests

/-! ## Concurrent requests -/

/-- What some moves have written to the namespace, for some requests. -/
def tmpWrites {τ : Type} (requests : List Asked) (moves : List (Move KernelSig τ)) :
    List (List Str × Str) :=
  moves.filterMap fun move => requests[move.thread]?.bind Asked.tmpWrite?

/-- What a request to the namespace is answered, after some texts have been written. -/
inductive TmpAnswers (written : List (List Str × Str)) :
    List Str → Operation → Except VfsError Str → Prop
  /-- The root lists what has been written, each path once. -/
  | listed (keys : List Str) (hnodup : keys.Nodup)
      (hkeys : ∀ key, key ∈ keys ↔ ∃ entry ∈ written, Str.join entry.1 = key) :
      TmpAnswers written [] .read (.ok (json.toStr (.strings keys)))
  /-- A path holds what was written to it last. -/
  | found (path : List Str) (content : Str) (hpath : path ≠ [])
      (hlast : Upsert.last Prod.fst written path = some (path, content)) :
      TmpAnswers written path .read (.ok content)
  /-- Nothing is found where nothing has been written. -/
  | missing (path : List Str) (hpath : path ≠ []) (hnone : ∀ entry ∈ written, entry.1 ≠ path) :
      TmpAnswers written path .read (.error (.notFound ("logos://tmp/" ++ Str.join path)))
  /-- The root cannot be written. -/
  | refused (op : Operation) (content : Str) (hop : op.content? = some content) :
      TmpAnswers written [] op (.error (.invalidPath "empty tmp path"))
  /-- Everything else can be. -/
  | stored (path : List Str) (op : Operation) (content : Str) (hop : op.content? = some content)
      (hpath : path ≠ []) : TmpAnswers written path op (.ok [])

/-- The store holds what has been written. -/
def Holds (written : List (List Str × Str)) (store : HashMap Str Str) : Prop :=
  ∀ key, store.get key = (Upsert.last (fun entry => Str.join entry.1) written key).map Prod.snd

section Runs

variable {json} {it : Iteration Str Str} {store : HashMap Str Str} {written : List (List Str × Str)}

/-- The segments of a path are joined to its key by `Str.join`, and only those. -/
theorem join_injOn {path path' : List Str} (hpath : ∀ segment ∈ path, segment ≠ [] ∧ '/' ∉ segment)
    (hpath' : ∀ segment ∈ path', segment ≠ [] ∧ '/' ∉ segment) (h : Str.join path = Str.join path') :
    path = path' := by
  rw [← Str.segments_join hpath, h, Str.segments_join hpath']

/-- Segments are joined by `Str.join` to the empty text only if there are none. -/
theorem join_eq_nil_iff {path : List Str} (hpath : ∀ segment ∈ path, segment ≠ [] ∧ '/' ∉ segment) :
    Str.join path = [] ↔ path = [] := by
  constructor
  · intro h
    rw [← Str.segments_join hpath, h]
    rfl
  · rintro rfl
    rfl

/-- Writing adds to what has been `written`: the store `Holds` it. -/
theorem Holds.insert (h : Holds written store) (path : List Str) (content : Str) :
    Holds (written ++ [(path, content)]) (store.insert (Str.join path) content) := by
  intro key
  rw [HashMap.get_insert, Upsert.last_append, Upsert.last_singleton, h]
  by_cases hkey : key = Str.join path
  · simp [hkey]
  · simp [hkey, Ne.symm hkey]

/-- **The namespace answers** from a store that `Holds` what has been written, as `TmpAnswers` says.
-/
theorem tmpAnswers_of_holds (h : Holds written store)
    (hwritten : ∀ entry ∈ written, ∀ segment ∈ entry.1, segment ≠ [] ∧ '/' ∉ segment)
    {path : List Str} (hpath : ∀ segment ∈ path, segment ≠ [] ∧ '/' ∉ segment) (op : Operation) :
    TmpAnswers json written path op (TmpNs.serve json it path store op).1 := by
  have hchange : ∀ content, op.content? = some content →
      TmpAnswers json written path op ((TmpNs.write path content store).1.map fun _ => []) := by
    intro content hop
    rw [TmpNs.write]
    by_cases hnil : path = []
    · subst hnil
      rw [if_pos Str.join_nil]
      exact .refused op content hop
    · rw [if_neg (mt (join_eq_nil_iff hpath).mp hnil)]
      exact .stored path op content hop hnil
  cases op with
  | write content => exact hchange content rfl
  | patch partialText => exact hchange partialText rfl
  | read =>
    show TmpAnswers json written path .read (TmpNs.read json it path store)
    rw [TmpNs.read]
    by_cases hnil : path = []
    · subst hnil
      rw [if_pos Str.join_nil]
      refine .listed _ ?_ fun key => ?_
      · exact ((it.perm store).map Sigma.fst).nodup_iff.mpr store.nodupKeys
      · -- A key is listed exactly if something is stored under it.
        have hmem : key ∈ (it.order store).map Sigma.fst ↔ ∃ content, store.get key = some content := by
          rw [((it.perm store).map Sigma.fst).mem_iff, List.mem_map]
          simp only [HashMap.get_eq_some_iff]
          constructor
          · rintro ⟨⟨key, content⟩, hentry, rfl⟩
            exact ⟨content, hentry⟩
          · rintro ⟨content, hentry⟩
            exact ⟨⟨key, content⟩, hentry, rfl⟩
        rw [hmem]
        constructor
        · rintro ⟨content, hget⟩
          rw [h] at hget
          obtain ⟨entry, hlast, -⟩ := Option.map_eq_some_iff.mp hget
          exact ⟨entry, Upsert.mem_of_last _ hlast⟩
        · rintro ⟨entry, hentry, rfl⟩
          obtain ⟨last, hlast⟩ := Upsert.exists_last (fun entry => Str.join entry.1) hentry
          exact ⟨last.2, by rw [h, hlast, Option.map_some]⟩
    · rw [if_neg (mt (join_eq_nil_iff hpath).mp hnil), h]
      have hsame : Upsert.last (fun entry : List Str × Str => Str.join entry.1) written (Str.join path)
          = Upsert.last Prod.fst written path := by
        -- Only the path itself has this key.
        refine Upsert.last_congr _ fun entry hentry => ?_
        exact ⟨join_injOn (hwritten entry hentry) hpath, fun heq => congrArg Str.join heq⟩
      rw [hsame]
      cases hlast : Upsert.last Prod.fst written path with
      | none =>
        refine .missing path hnil fun entry hentry heq => ?_
        obtain ⟨last, hsome⟩ := Upsert.exists_last Prod.fst hentry
        rw [heq, hlast] at hsome
        cases hsome
      | some entry =>
        obtain ⟨path', content⟩ := entry
        obtain rfl : path' = path := (Upsert.mem_of_last Prod.fst hlast).2
        exact .found path' content hnil hlast

variable {σ : Type} {outside : Handler OutsideSig σ} {table : RoutingTable} {requests : List Asked}
  {k : KernelState (HashMap Str Str × σ)} {moves : List (Move KernelSig (KernelState (HashMap Str Str × σ)))}
  {c : Config KernelSig (KernelState (HashMap Str Str × σ))}

/-- The paths of `tmpWrites` are made of segments. -/
theorem segments_of_tmpWrites : ∀ entry ∈ tmpWrites requests moves, ∀ segment ∈ entry.1,
    segment ≠ [] ∧ '/' ∉ segment := by
  intro entry hentry
  obtain ⟨move, -, hwrite⟩ := List.mem_filterMap.mp hentry
  obtain ⟨asked, -, hwrite⟩ := Option.bind_eq_some_iff.mp hwrite
  obtain ⟨⟨path, op⟩, htmp, hwrite⟩ := Option.bind_eq_some_iff.mp hwrite
  obtain ⟨content, -, hwrite⟩ := Option.bind_eq_some_iff.mp hwrite
  split at hwrite
  · cases hwrite
  · cases hwrite
    exact Asked.segments_of_tmp? htmp

/-- An operation that `SparesTmp` leaves the store as it is. -/
theorem store_of_sparesTmp {op : KernelOp} (h : SparesTmp op) (k : KernelState (HashMap Str Str × σ)) :
    (kernelHandler (withTmp json it outside) op k).2.outside.1 = k.outside.1 := by
  cases op with
  | system op => rfl
  | slots op => rfl
  | outside op =>
    rcases op with op | ⟨name, path, op⟩ | ⟨name, params⟩
    · rfl
    · show (withTmp json it outside (.inr (.namespace name path op)) k.outside).2.1 = _
      rw [withTmp, if_neg h]
    · rfl

/-- What `onTmp` does in the kernel is what `TmpNs.serve` does to the store. -/
theorem kernelHandler_onTmp (path : List Str) (op : Operation)
    (k : KernelState (HashMap Str Str × σ)) :
    (kernelHandler (withTmp json it outside) (onTmp path op) k).1
        = (TmpNs.serve json it path k.outside.1 op).1 ∧
      (kernelHandler (withTmp json it outside) (onTmp path op) k).2.outside.1
        = (TmpNs.serve json it path k.outside.1 op).2 := by
  have hname : (if "tmp".toList = "tmp".toList then
        ((TmpNs.serve json it path k.outside.1 op).1, (TmpNs.serve json it path k.outside.1 op).2,
          k.outside.2)
      else ((outside (.inr (.namespace "tmp" path op)) k.outside.2).1, k.outside.1,
        (outside (.inr (.namespace "tmp" path op)) k.outside.2).2))
      = ((TmpNs.serve json it path k.outside.1 op).1, (TmpNs.serve json it path k.outside.1 op).2,
          k.outside.2) := if_pos rfl
  constructor
  · exact congrArg Prod.fst hname
  · exact congrArg (fun result => result.2.1) hname

/-- A store `Holds` what an operation writes to it, too. -/
theorem Holds.serve (h : Holds written store) {asked : Asked} {path : List Str} {op : Operation}
    (htmp : asked.tmp? = some (path, op)) :
    Holds (written ++ asked.tmpWrite?.toList) (TmpNs.serve json it path store op).2 := by
  have hwrite : asked.tmpWrite? = op.content?.bind fun content =>
      if path = [] then none else some (path, content) := by
    rw [Asked.tmpWrite?, htmp]
    rfl
  have hchange : ∀ content, op.content? = some content →
      Holds (written ++ asked.tmpWrite?.toList) (TmpNs.write path content store).2 := by
    intro content hop
    rw [hwrite, hop, Option.bind_some, TmpNs.write]
    by_cases hnil : path = []
    · rw [if_pos hnil, hnil, if_pos Str.join_nil, Option.toList_none, List.append_nil]
      exact h
    · rw [if_neg hnil, if_neg (mt (join_eq_nil_iff (Asked.segments_of_tmp? htmp)).mp hnil)]
      exact h.insert path content
  cases op with
  | write content => exact hchange content rfl
  | patch partialText => exact hchange partialText rfl
  | read =>
    rw [hwrite, show Operation.content? .read = none from rfl, Option.bind_none, Option.toList_none,
      List.append_nil]
    exact h

/-- A request to the namespace does one thing: its `thread` is the call of `onTmp`. -/
theorem thread_of_tmp (hopen : table.isOpen) {asked : Asked} {path : List Str} {op : Operation}
    (h : asked.tmp? = some (path, op)) :
    asked.thread json table = .call (onTmp path op) fun _ => .done () := by
  rw [Asked.thread, serve_of_tmp hopen h]
  rfl

/-- **The store holds what has been written**: in every run it `Holds` the `tmpWrites` of the moves.
-/
theorem holds_of_run (hopen : table.isOpen) (hempty : k.outside.1 = .empty)
    (run : Interleaving (kernelHandler (withTmp json it outside))
      ⟨requests.map (Asked.thread json table), k⟩ moves c) :
    Holds (tmpWrites requests moves) c.state.outside.1 := by
  -- Along the run: one more move writes what its request writes to the namespace, if anything.
  induction run with
  | start =>
    intro key
    show k.outside.1.get key = _
    rw [hempty]
    rfl
  | @step moves c i op next run ready ih =>
    have hlt : i < requests.length := by
      have hlength := run.length_threads
      rw [List.length_map] at hlength
      rw [← hlength]
      exact (List.getElem?_eq_some_iff.mp ready).1
    have hasked := List.getElem?_eq_getElem hlt
    generalize requests[i] = asked at hasked
    have hthread : (requests.map (Asked.thread json table))[i]? = some (asked.thread json table) := by
      rw [List.getElem?_map, hasked, Option.map_some]
    -- The move is the next operation of the program of its request.
    obtain ⟨q, hq, hfollows⟩ := run.follows hthread
    rw [ready, Option.some_inj] at hq
    subst hq
    have hwrites : tmpWrites requests (moves ++ [⟨i, op, c⟩])
        = tmpWrites requests moves ++ asked.tmpWrite?.toList := by
      rw [tmpWrites, List.filterMap_append, ← tmpWrites]
      congr 1
      rw [List.filterMap_cons, List.filterMap_nil, hasked, Option.bind_some]
      cases asked.tmpWrite? <;> rfl
    rw [hwrites]
    show Holds _ (kernelHandler (withTmp json it outside) op c.state).2.outside.1
    cases htmp : asked.tmp? with
    | none =>
      have hspares : (asked.thread json table).AllOps SparesTmp :=
        AllOps.bind (sparesTmp_serve json htmp) fun _ => trivial
      have hnone : asked.tmpWrite? = none := by rw [Asked.tmpWrite?, htmp]; rfl
      rw [store_of_sparesTmp (hfollows.allOps hspares).1, hnone, Option.toList_none, List.append_nil]
      exact ih
    | some target =>
      obtain ⟨path, op'⟩ := target
      rw [thread_of_tmp hopen htmp] at hfollows
      rcases hfollows.call_cases with ⟨-, hcall⟩ | ⟨answer, rest, -, hrest⟩
      · obtain ⟨rfl, -⟩ := Program.call.inj hcall
        rw [(kernelHandler_onTmp path op' c.state).2]
        exact ih.serve htmp
      · cases (hrest.of_done).2

end Runs

/-- **The namespace `tmp` holds what was written to it last**, while any number of requests of any kind
run at the same time, from any sessions: each request to it is answered at one moment of the run, from
what the requests have written to the same paths before that moment. -/
theorem tmpExact_of_run {σ : Type} (it : Iteration Str Str) (outside : Handler OutsideSig σ)
    (table : RoutingTable) (hopen : table.isOpen) (requests : List Asked)
    (k : KernelState (HashMap Str Str × σ)) (hempty : k.outside.1 = .empty)
    {moves : List (Move KernelSig (KernelState (HashMap Str Str × σ)))}
    {c : Config KernelSig (KernelState (HashMap Str Str × σ))}
    (run : Interleaving (kernelHandler (withTmp json it outside))
      ⟨requests.map (Asked.thread json table), k⟩ moves c) :
    ∀ i asked path op, requests[i]? = some asked → asked.tmp? = some (path, op) →
      c.threads[i]? = some (.done ()) → ∃ earlier move later answer,
        moves = earlier ++ move :: later ∧ move.thread = i ∧
        (LogosService.serve json table asked.1 asked.2).run.Returns
          (trace (kernelHandler (withTmp json it outside)) i moves) (answer.mapError vfsToStatus) ∧
        TmpAnswers json (tmpWrites requests earlier) path op answer := by
  intro i asked path op hasked htmp hdone
  have hthread : (requests.map (Asked.thread json table))[i]? = some (asked.thread json table) := by
    rw [List.getElem?_map, hasked, Option.map_some]
  obtain ⟨q, hq, hfollows⟩ := run.follows hthread
  rw [hdone, Option.some_inj] at hq
  subst hq
  rw [thread_of_tmp hopen htmp] at hfollows
  obtain ⟨answer, rest, hevents, hrest⟩ := Program.returns_call_iff.mp hfollows
  obtain ⟨rfl, -⟩ := Program.returns_done_iff.mp hrest
  -- The only event of the request comes from a move.
  obtain ⟨move, hmove, hi, hevent⟩ := exists_move_of_mem_trace (kernelHandler (withTmp json it outside))
    i (hevents ▸ List.mem_singleton_self _)
  obtain ⟨earlier, later, hmoves⟩ := List.append_of_mem hmove
  obtain ⟨thread, mop, before⟩ := move
  obtain rfl : onTmp path op = mop := congrArg Event.op hevent
  obtain rfl : answer = _ := eq_of_heq (Event.mk.inj hevent).2
  refine ⟨earlier, ⟨thread, onTmp path op, before⟩, later,
    (kernelHandler (withTmp json it outside) (onTmp path op) before.state).1, hmoves, hi, ?_, ?_⟩
  · rw [hevents, serve_of_tmp hopen htmp]
    exact .call (.refl _)
  · rw [(kernelHandler_onTmp path op before.state).1]
    exact tmpAnswers_of_holds (holds_of_run hopen hempty (run.before_of_split hmoves))
      segments_of_tmpWrites (Asked.segments_of_tmp? htmp) op

/-- A client without a session and one with a session write the same path, each by a spelling of its
own, and the path is read. -/
def twoWriters : List Asked :=
  [(none, .uri "logos://tmp/plan/a" (.write "one")),
    (some userOfOne, .uri "logos://tmp//plan/a/" (.patch "two")),
    (some userOfOne, .uri "logos://tmp/plan/a" .read)]

/-- In the run of two writers the client with the session is the first to write. -/
theorem tmpExact_of_run_twoWriters :
    let handler := kernelHandler (withTmp JsonText.codec .inOrder echoing)
    let table : RoutingTable := ⟨true, onData, procOfEcho⟩
    ∃ moves c, Interleaving handler ⟨twoWriters.map (Asked.thread JsonText.codec table),
        ⟨System.onePending, ⟨fun _ => none, fun _ => 0⟩, .empty, ()⟩⟩ moves c ∧
      ∃ earlier move later answer, moves = earlier ++ move :: later ∧ move.thread = 2 ∧
        (LogosService.serve JsonText.codec table (some userOfOne)
            (.uri "logos://tmp/plan/a" .read)).run.Returns
          (trace handler 2 moves) (answer.mapError vfsToStatus) ∧
        TmpAnswers JsonText.codec (tmpWrites twoWriters earlier) ["plan", "a"] .read answer :=
  ⟨_, _, .of_play _ _ [1, 0, 2],
    tmpExact_of_run JsonText.codec .inOrder echoing ⟨true, onData, procOfEcho⟩ rfl twoWriters
      ⟨System.onePending, ⟨fun _ => none, fun _ => 0⟩, .empty, ()⟩ rfl (.of_play ..) 2 _ _ _ rfl
      (by decide +kernel) (by rfl)⟩

end LogosFs.Kernel
