import LogosFs.Kernel.Access

/-! # Whether the access check and the router agree

The check decides on a string and the router on the segments of that string. `Permitted` is what the
check is for, said about the segments; `AccessAgrees` says that whatever the check accepts is
permitted. The check looks past two kinds of requests: a URI in which the piece it reads is empty, so
that the router reads the next one, and a read of a task whose JSON does not show its status.
`accessAgrees_iff` says that everything else agrees. -/

namespace LogosFs.Kernel

open LogosFs.System (World Db TaskRow)

variable (json : JsonCodec)

/-- The namespaces that only administrators may change. -/
def protectedNamespaces : List Str := ["services", "system", "devices"]

/-- What a session is entitled to do at a path, from the namespace and the first segment of it. -/
structure Entitled (si : SessionInfo) (isWrite : Bool) (db : Db) (ns first : Str) : Prop where
  /-- Only administrators change the protected namespaces. -/
  namespaceWrite : isWrite → ¬si.role.isAdmin → ns ∉ protectedNamespaces
  /-- A sandbox is changed by its own task only. -/
  sandboxWrite : ns = "sandbox".toList → isWrite → first = si.taskId ∨ first = "__system__".toList
  /-- A sandbox is read by its own task, and by the others once its task is finished. -/
  sandboxRead : ns = "sandbox".toList → ¬isWrite → first = si.taskId ∨
    first = "__system__".toList ∨ ∃ row, db.tasks.find? first = some row ∧ row.status = .finished

/-- The router leads a request, if anywhere with a path, to something the session is entitled to. -/
def Permitted (si : SessionInfo) (raw : Str) (isWrite : Bool) (db : Db) : Prop :=
  ∀ ns first rest, Uri.parse (resolveUri raw (some si)) = .ok ⟨ns, first :: rest⟩ →
    Entitled si isWrite db ns first

/-- What the check accepts is permitted. -/
def AccessAgrees (si : SessionInfo) (raw : Str) (isWrite : Bool) (w : World) : Prop :=
  Accepts json (some si) (resolveUri raw (some si)) isWrite w → Permitted si raw isWrite w.db

/-- The spellings that the check looks past: the piece it reads is empty. -/
def EmptyPiece (raw : Str) : Prop :=
  raw.startsWith "logos:///" ∨ raw.startsWith "logos://sandbox//"

/-- A read of another task's sandbox, when the JSON of that task does not show that it is
unfinished. -/
def Unreadable (raw : Str) (isWrite : Bool) (db : Db) : Prop :=
  isWrite = false ∧ ∃ rest row, Str.stripPrefix "logos://sandbox/" raw = some rest ∧
    db.tasks.find? rest.firstPiece = some row ∧ row.status ≠ .finished ∧ ShowsFinished json row

/-! ## The tasks of a database show their status -/

/-- The JSON of a task, `taskRowToJson`, is `Exact` if its plan is a `PlanText`, so that it can be
read back. -/
theorem exact_taskRowToJson {row : TaskRow} (h : System.PlanText json row.planTodo) :
    (System.taskRowToJson json row).Exact := by
  obtain ⟨items, hitems⟩ := h
  have hplan : (json.fromStr row.planTodo).toOption = some (.strings items) := by
    rw [hitems, json.fromStr_toStr _ (Json.exact_strings items)]; rfl
  refine Json.exactAt_ofPairs fun pair hpair => ?_
  simp only [hplan, Option.getD_some, List.mem_cons, List.not_mem_nil, or_false] at hpair
  rcases hpair with rfl | rfl | rfl | rfl | rfl | rfl | rfl | rfl | rfl | rfl | rfl
  all_goals first | exact .string | exact Json.exactAt_strings _ items

/-- A row whose plan is a `PlanText` shows that it is finished exactly if it is. -/
theorem showsFinished_iff {row : TaskRow} (h : System.PlanText json row.planTodo) :
    ShowsFinished json row ↔ row.status = .finished := by
  have hstatus : ((System.taskRowToJson json row).get "status").asStr = some row.status.text := by
    rw [Json.get, System.taskRowToJson, Json.get?_ofPairs]
    rfl
  rw [ShowsFinished, json.fromStr_toStr _ (exact_taskRowToJson json h)]
  constructor
  · intro h
    have := h _ rfl
    rw [hstatus, Option.some_inj] at this
    exact System.TaskStatus.text_inj.mp this
  · rintro h val ⟨⟩
    rw [hstatus, h]
    rfl

/-- In a database that the system module has written, `PlansEncoded`, no task is `Unreadable`. -/
theorem not_unreadable {db : Db} (h : db.PlansEncoded json) (raw : Str) (isWrite : Bool) :
    ¬Unreadable json raw isWrite db := by
  rintro ⟨-, rest, row, -, hrow, hstatus, hshows⟩
  exact hstatus ((showsFinished_iff json (h row (Table.mem_of_find? hrow))).mp hshows)

/-! ## Relative paths -/

section

variable {json} {si : SessionInfo} {raw : Str} {isWrite : Bool} {w : World}

/-- Where `resolveUri` routes a relative path: the text left of it is a path in the session's own
sandbox. -/
theorem parse_resolveUri_of_relative (hne : si.taskId ≠ []) (hsep : '/' ∉ si.taskId)
    (hraw : ¬raw.startsWith "logos://") : Uri.parse (resolveUri raw (some si))
      = .ok ⟨"sandbox".toList, si.taskId ::
          Str.segments ((Str.trimStartMatches "./" raw).dropWhile (· = '/'))⟩ := by
  rw [resolveUri, if_neg hraw]
  dsimp only
  generalize (Str.trimStartMatches "./" raw).dropWhile (· = '/') = trimmed
  have hstart : ("logos://sandbox/" : Str) = Uri.logosScheme ++ ("sandbox".toList ++ ['/']) := by
    decide
  have hslash : ("/" : Str) = ['/'] := by decide
  have hscheme : ("logos://sandbox/" ++ si.taskId ++ "/" ++ trimmed : Str)
      = Uri.logosScheme ++ ("sandbox".toList ++ '/' :: (si.taskId ++ '/' :: trimmed)) := by
    rw [hstart, hslash]
    simp only [List.append_assoc, List.cons_append, List.nil_append]
  have hsegments : Str.segments ("sandbox".toList ++ '/' :: (si.taskId ++ '/' :: trimmed))
      = "sandbox".toList :: si.taskId :: Str.segments trimmed := by
    rw [Str.segments_cons_of_notMem (by decide) (by decide),
      Str.segments_cons_of_notMem hne hsep]
  rw [hscheme, Uri.parse_logos_eq_ok_iff, hsegments]

/-- A relative path is `Permitted`: it leads into the session's own sandbox. -/
theorem permitted_of_relative (hne : si.taskId ≠ []) (hsep : '/' ∉ si.taskId)
    (hraw : ¬raw.startsWith "logos://") (db : Db) : Permitted si raw isWrite db := by
  intro ns first rest hparse
  rw [parse_resolveUri_of_relative hne hsep hraw] at hparse
  cases hparse
  exact ⟨fun _ _ => by decide, fun _ _ => .inl rfl, fun _ _ => .inl rfl⟩

/-- The check `Accepts` every relative path: the sandbox that it reads is the session's own. -/
theorem accepts_of_relative (hsep : '/' ∉ si.taskId) (hraw : ¬raw.startsWith "logos://")
    (w : World) : Accepts json (some si) (resolveUri raw (some si)) isWrite w := by
  rw [accepts_some_iff, resolveUri, if_neg hraw]
  dsimp only
  generalize (Str.trimStartMatches "./" raw).dropWhile (· = '/') = trimmed
  have hslash : ("/" : Str) = ['/'] := by decide
  rw [List.append_assoc, List.append_assoc, hslash, List.singleton_append]
  refine ⟨fun rest hrest => ?_, fun _ _ hprotected => ?_⟩
  · rw [Str.stripPrefix_append, Option.some_inj] at hrest
    exact .inr (.inr (.inl (hrest ▸ Str.firstPiece_append_cons hsep trimmed)))
  · simp [Protected] at hprotected

end

/-- The relative path is `path` after its leading repetitions of `./`, and then its leading
slashes. -/
def RelativeTo (raw path : Str) : Prop :=
  ∃ dots slashes rest, raw = (List.replicate dots "./".toList).flatten ++ rest ∧
    ¬"./".toList <+: rest ∧ rest = List.replicate slashes '/' ++ path ∧ ¬['/'] <+: path

/-- A request is routed to a path in the sandbox of the session's task, and the check accepts it
whatever the database holds. -/
structure RoutedHome (si : SessionInfo) (raw path : Str) : Prop where
  /-- The router's namespace is the sandbox, and the path in it begins with the task. -/
  routed : Uri.parse (resolveUri raw (some si)) = .ok ⟨"sandbox", si.taskId :: path.segments⟩
  /-- The check accepts every operation. -/
  accepted : ∀ isWrite w, Accepts json (some si) (resolveUri raw (some si)) isWrite w

/-- **Relative paths stay at home**: a `raw` path without `logos://` is `RoutedHome`, to a path
`RelativeTo` it. -/
theorem routedHome_of_relative (si : SessionInfo) (hne : si.taskId ≠ []) (hsep : '/' ∉ si.taskId)
    (raw : Str) (hraw : ¬raw.startsWith "logos://") :
    ∃ path, RelativeTo raw path ∧ RoutedHome json si raw path := by
  have hdot : ("./" : Str) ≠ [] := by decide
  obtain ⟨dots, hdots, hend⟩ := Str.trimStartMatches_spec hdot raw
  obtain ⟨slashes, hslashes, hpath⟩ := Str.dropWhile_spec '/' (Str.trimStartMatches "./" raw)
  exact ⟨_, ⟨dots, slashes, _, hdots, hend, hslashes, hpath⟩,
    parse_resolveUri_of_relative hne hsep hraw,
    fun _ w => accepts_of_relative hsep hraw w⟩

/-- An agent that works on task `t-1`. -/
def userOfOne : SessionInfo := ⟨"t-1", "a-1", .user⟩

/-- Another scheme inside a relative path, as in `.//mem://system/tasks`, is a part of the path. -/
theorem routedHome_scheme :
    ∃ path, RelativeTo ".//mem://system/tasks" path ∧
      RoutedHome JsonText.codec userOfOne ".//mem://system/tasks" path :=
  routedHome_of_relative JsonText.codec userOfOne (by decide) (by decide) ".//mem://system/tasks"
    (by decide)

section

variable {json} {si : SessionInfo} {raw : Str} {isWrite : Bool} {w : World}

/-! ## Absolute URIs -/

/-- A URI that the check `Accepts`, whose pieces are where it looks for them, is one that the
session is `Entitled` to. -/
theorem entitled_of_accepts {ns first : Str} {rest : List Str}
    (hpiece : ¬EmptyPiece raw) (hread : ¬Unreadable json raw isWrite w.db)
    (hraw : raw.startsWith "logos://") (haccepts : Accepts json (some si) raw isWrite w)
    (hparse : Uri.parse raw = .ok ⟨ns, first :: rest⟩) : Entitled si isWrite w.db ns first := by
  obtain ⟨hsandbox, hnamespace⟩ := (accepts_some_iff ..).mp haccepts
  obtain ⟨stripped, rfl⟩ := Str.startsWith_iff.mp hraw
  have hsegments : Str.segments stripped = ns :: first :: rest :=
    Uri.parse_logos_eq_ok_iff.mp hparse
  obtain ⟨tail, rfl, htail⟩ := Str.exists_tail_of_segments hsegments (by
    rintro t rfl
    exact hpiece (.inl (Str.startsWith_iff.mpr ⟨t, rfl⟩)))
  -- The router's namespace is the piece in front of the first separator, as in the check.
  have hnsWrite : isWrite → ¬si.role.isAdmin → ns ∉ protectedNamespaces := by
    intro hwrite hrole hmem
    refine hnamespace hwrite hrole ?_
    simp only [protectedNamespaces, List.mem_cons, List.not_mem_nil, or_false] at hmem
    simp only [Protected, Str.startsWith_iff]
    rcases hmem with rfl | rfl | rfl
    · exact .inl ⟨tail, rfl⟩
    · exact .inr (.inl ⟨tail, rfl⟩)
    · exact .inr (.inr ⟨tail, rfl⟩)
  -- In the sandbox its first segment is the piece that the check compares.
  have htask : ns = "sandbox".toList → first = si.taskId ∨ first = "__system__".toList ∨
      isWrite = false ∧ ∃ row, w.db.tasks.find? first = some row ∧ row.status = .finished := by
    rintro rfl
    have hstrip : Str.stripPrefix "logos://sandbox/"
        (("logos://" : Str) ++ (("sandbox" : Str) ++ '/' :: tail)) = some tail :=
      Str.stripPrefix_append "logos://sandbox/" tail
    have hfirst : tail.firstPiece = first := Str.firstPiece_of_segments htail (by
      rintro t rfl
      exact hpiece (.inr (Str.startsWith_iff.mpr ⟨t, rfl⟩)))
    have hne : first ≠ [] := (Str.mem_segments (htail ▸ List.mem_cons_self)).1
    rcases hsandbox tail hstrip with hnil | hsystem | hown | ⟨hreadOnly, row, hrow, hshows⟩
    · exact absurd (hfirst ▸ hnil) hne
    · exact .inr (.inl (hfirst ▸ hsystem))
    · exact .inl (hfirst ▸ hown)
    · refine .inr (.inr ⟨hreadOnly, row, hfirst ▸ hrow, ?_⟩)
      by_contra hstatus
      exact hread ⟨hreadOnly, tail, row, hstrip, hrow, hstatus, hshows⟩
  refine ⟨hnsWrite, fun hns hwrite => ?_, fun hns hreadOnly => ?_⟩
  · rcases htask hns with h | h | ⟨h, -⟩
    · exact .inl h
    · exact .inr h
    · rw [h] at hwrite; cases hwrite
  · rcases htask hns with h | h | ⟨-, h⟩
    · exact .inl h
    · exact .inr (.inl h)
    · exact .inr (.inr h)

/-- The check `Accepts` every URI with an `EmptyPiece`, where it reads a name. -/
theorem accepts_of_emptyPiece (h : EmptyPiece raw) : Accepts json (some si) raw isWrite w := by
  rw [accepts_some_iff]
  simp only [EmptyPiece, Str.startsWith_iff] at h
  rcases h with ⟨rest, rfl⟩ | ⟨rest, rfl⟩
  · refine ⟨fun rest' h => ?_, fun _ _ h => ?_⟩
    · rw [Str.stripPrefix_eq_some_iff] at h
      simp at h
    · simp [Protected] at h
  · refine ⟨fun rest' h => ?_, fun _ _ h => ?_⟩
    · rw [Str.stripPrefix_eq_some_iff] at h
      obtain rfl : '/' :: rest = rest' := by simpa using h
      exact .inl rfl
    · simp [Protected] at h

/-- The check `Accepts` every read of an `Unreadable` task, which does not show its status. -/
theorem accepts_of_unreadable (h : Unreadable json raw isWrite w.db) :
    Accepts json (some si) raw isWrite w := by
  obtain ⟨rfl, rest, row, hstrip, hrow, -, hshows⟩ := h
  rw [accepts_some_iff]
  refine ⟨fun rest' h => ?_, fun h => nomatch h⟩
  rw [hstrip, Option.some_inj] at h
  exact .inr (.inr (.inr ⟨rfl, row, h ▸ hrow, hshows⟩))

end

/-- **The check and the router agree**: `AccessAgrees` exactly when a request that the check looks
past, by an `EmptyPiece` or an `Unreadable` task, is `Permitted` anyway. -/
theorem accessAgrees_iff (si : SessionInfo) (hne : si.taskId ≠ []) (hsep : '/' ∉ si.taskId)
    (raw : Str) (isWrite : Bool) (w : World) : AccessAgrees json si raw isWrite w ↔
      (EmptyPiece raw ∨ Unreadable json raw isWrite w.db → Permitted si raw isWrite w.db) := by
  by_cases hraw : raw.startsWith "logos://"
  · have hresolve : resolveUri raw (some si) = raw := if_pos hraw
    rw [AccessAgrees, hresolve]
    constructor
    · rintro h (hpiece | hread)
      · exact h (accepts_of_emptyPiece hpiece)
      · exact h (accepts_of_unreadable hread)
    · intro h haccepts ns first rest hparse
      by_cases hpast : EmptyPiece raw ∨ Unreadable json raw isWrite w.db
      · exact h hpast ns first rest hparse
      · rw [not_or] at hpast
        rw [hresolve] at hparse
        exact entitled_of_accepts hpast.1 hpast.2 hraw haccepts hparse
  · have hpermitted : Permitted si raw isWrite w.db := permitted_of_relative hne hsep hraw w.db
    exact iff_of_true (fun _ => hpermitted) fun _ => hpermitted

/-- The user may not write to the sandbox of `t-2`, so the check and the router agree about it. -/
theorem accessAgrees_iff_other_sandbox :
    AccessAgrees JsonText.codec userOfOne "logos://sandbox/t-2/notes" true System.onePending :=
  (accessAgrees_iff JsonText.codec userOfOne (by decide) (by decide) "logos://sandbox/t-2/notes" true
    System.onePending).mpr (by
      rintro (h | h)
      · exact absurd h (by unfold EmptyPiece; decide)
      · exact absurd h.1 (by decide))

/-- One separator more, `logos:///services/tts`, and the check looks past the namespace: a user
writes to the services. -/
theorem not_accessAgrees_services :
    ¬AccessAgrees JsonText.codec userOfOne "logos:///services/tts" true System.onePending := by
  intro h
  have hentitled := h (by decide) "services" "tts" [] (by decide)
  exact hentitled.namespaceWrite rfl (by decide) (by decide)

end LogosFs.Kernel
