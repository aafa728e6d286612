import LogosFs.Lib.JsonText
import LogosFs.Mcp.Server

/-! # What the adapter answers with

A server answers each request with one response that has its id, and what is not JSON with one error
without an id; it does not answer notifications, nor blank lines. The adapter takes a request without an
id for a mistake and answers it. `answersLikeServer_iff` says on which inputs it answers like a server,
whatever the kernel does: where all lines are texts, none of them is a notification, and the requests
are such that the library can hold what is in them. -/

namespace LogosFs.Mcp

open Kernel (trim)

variable (lib : JsonLibrary)

/-! ## Lines -/

/-- The document of a line, if it is JSON. -/
def docOf (line : List UInt8) : Option JsonDoc := (Utf8.decode? line).bind fun text => lib.read (trim text)

/-- A line without text. -/
def IsBlank (line : List UInt8) : Prop := ∃ text, Utf8.decode? line = some text ∧ trim text = []

/-- The member of a name is a string, and there is only one. -/
def HasString (name : Str) (members : List (Str × JsonDoc)) : Prop :=
  ∃ literal, membersOf name members = [.string literal]

/-- The members of a request: a version and a method, which are strings, and an id. -/
structure IsRequest (members : List (Str × JsonDoc)) (id : JsonDoc) : Prop where
  /-- The version. -/
  jsonrpc : HasString "jsonrpc" members
  /-- The method. -/
  method : HasString "method" members
  /-- The id. -/
  id : membersOf "id" members = [id]

/-- The members of a notification: those of a request, without an id. -/
structure IsNotification (members : List (Str × JsonDoc)) : Prop where
  /-- The version. -/
  jsonrpc : HasString "jsonrpc" members
  /-- The method. -/
  method : HasString "method" members
  /-- There is no id. -/
  id : membersOf "id" members = []

/-- A response has a result or an error, and not both. -/
def JsonRpcResponse.HasOne (response : JsonRpcResponse) : Prop :=
  response.result.isSome ≠ response.error.isSome

/-- **What a server writes for a line.** -/
structure Fits (line : List UInt8) (responses : List JsonRpcResponse) : Prop where
  /-- Nothing for a blank line. -/
  blank : IsBlank line → responses = []
  /-- One error without an id for what is not JSON. -/
  notJson : ¬IsBlank line → docOf lib line = none →
    ∃ response, responses = [response] ∧ response.id = .null ∧ response.result = none ∧
      response.error.isSome = true
  /-- One response with its id for a request. -/
  request : ¬IsBlank line → ∀ members id, docOf lib line = some (.object members) →
    IsRequest members id →
      ∃ response, responses = [response] ∧ lib.value id = some response.id ∧ response.HasOne
  /-- Nothing for a notification. -/
  notification : ¬IsBlank line → ∀ members, docOf lib line = some (.object members) →
    IsNotification members → responses = []

/-- **The adapter answers like a server**: what it writes for each line fits. -/
def AnswersLikeServer (lines : List (List UInt8)) (written : List (List JsonRpcResponse)) : Prop :=
  List.Forall₂ (Fits lib) lines written

/-- What is in a request can be held: its texts, its id and its parameters, of which there are at most
one. -/
structure Held (members : List (Str × JsonDoc)) : Prop where
  /-- The version and the method. -/
  texts : ∀ name ∈ ["jsonrpc".toList, "method".toList], ∀ literal,
    membersOf name members = [.string literal] → (lib.text literal).isSome
  /-- The id. -/
  id : ∀ id, membersOf "id" members = [id] → (lib.value id).isSome
  /-- The parameters. -/
  params : membersOf "params" members = [] ∨
    ∃ params, membersOf "params" members = [params] ∧ (lib.value params).isSome

/-- A line that the adapter answers like a server: a text, which is no notification; and if it is a
request, what is in it can be held, or its id is `null`. -/
structure Manageable (line : List UInt8) : Prop where
  /-- It is a text. -/
  text : (Utf8.decode? line).isSome
  /-- It is not a notification. -/
  notification : ¬IsBlank line → ∀ members, docOf lib line = some (.object members) →
    ¬IsNotification members
  /-- A request can be held. -/
  request : ¬IsBlank line → ∀ members id, docOf lib line = some (.object members) →
    IsRequest members id → Held lib members ∨ lib.value id = some .null

/-! ## Requests -/

section Requests

variable {lib} {members : List (Str × JsonDoc)} {id : JsonDoc}

/-- The fields of a request are read by `ofFields` if each of them can be held. -/
theorem ofFields_eq_some_iff {jsonrpc method : JsonDoc} {params : List JsonDoc}
    {request : JsonRpcRequest} :
    JsonRpcRequest.ofFields lib jsonrpc id method params = some request ↔
      JsonRpcRequest.str lib jsonrpc = some request.jsonrpc ∧ lib.value id = some request.id ∧
      JsonRpcRequest.str lib method = some request.method ∧
      (params = [] ∧ request.params = .null ∨
        ∃ doc, params = [doc] ∧ lib.value doc = some request.params) := by
  constructor
  · intro h
    obtain ⟨version, hversion, h⟩ := Option.bind_eq_some_iff.mp h
    obtain ⟨found, hid, h⟩ := Option.bind_eq_some_iff.mp h
    obtain ⟨name, hname, h⟩ := Option.bind_eq_some_iff.mp h
    obtain ⟨value, hparams, h⟩ := Option.bind_eq_some_iff.mp h
    cases h
    refine ⟨hversion, hid, hname, ?_⟩
    unfold JsonRpcRequest.paramsOf at hparams
    split at hparams
    · exact .inl ⟨rfl, (Option.some_inj.mp hparams).symm⟩
    · exact .inr ⟨_, rfl, hparams⟩
    · cases hparams
  · obtain ⟨version, found, name, value⟩ := request
    rintro ⟨hversion, hid, hname, hparams⟩
    have hvalue : JsonRpcRequest.paramsOf lib params = some value := by
      rcases hparams with ⟨rfl, rfl⟩ | ⟨doc, rfl, hvalue⟩
      · rfl
      · exact hvalue
    simp [JsonRpcRequest.ofFields, hversion, hid, hname, hvalue]

variable (lib) in
/-- A request is read by `ofDoc` from its fields: there is one version and one method. -/
theorem ofDoc_of_isRequest (h : IsRequest members id) : ∃ version method,
    membersOf "jsonrpc" members = [.string version] ∧ membersOf "method" members = [.string method] ∧
      JsonRpcRequest.ofDoc lib (.object members)
        = JsonRpcRequest.ofFields lib (.string version) id (.string method)
            (membersOf "params" members) := by
  obtain ⟨version, hversion⟩ := h.jsonrpc
  obtain ⟨method, hmethod⟩ := h.method
  refine ⟨version, method, hversion, hmethod, ?_⟩
  rw [JsonRpcRequest.ofDoc, hversion, hmethod, h.id]

/-- A request that can be `Held` is read, with its id. -/
theorem ofDoc_of_held (h : IsRequest members id) (hheld : Held lib members) :
    ∃ request, JsonRpcRequest.ofDoc lib (.object members) = some request ∧
      lib.value id = some request.id := by
  obtain ⟨version, method, hversion, hmethod, hread⟩ := ofDoc_of_isRequest lib h
  obtain ⟨jsonrpc, hjsonrpc⟩ := Option.isSome_iff_exists.mp
    (hheld.texts "jsonrpc" List.mem_cons_self version hversion)
  obtain ⟨name, hname⟩ := Option.isSome_iff_exists.mp
    (hheld.texts "method" (List.mem_cons_of_mem _ List.mem_cons_self) method hmethod)
  obtain ⟨value, hvalue⟩ := Option.isSome_iff_exists.mp (hheld.id id h.id)
  rw [hread]
  rcases hheld.params with hparams | ⟨params, hparams, hsome⟩
  · exact ⟨⟨jsonrpc, value, name, .null⟩,
      ofFields_eq_some_iff.mpr ⟨hjsonrpc, hvalue, hname, .inl ⟨hparams, rfl⟩⟩, hvalue⟩
  · obtain ⟨found, hfound⟩ := Option.isSome_iff_exists.mp hsome
    exact ⟨⟨jsonrpc, value, name, found⟩,
      ofFields_eq_some_iff.mpr ⟨hjsonrpc, hvalue, hname, .inr ⟨params, hparams, hfound⟩⟩, hvalue⟩

/-- What `ofDoc` reads of a request can be `Held`, and its id is that of the request. -/
theorem held_of_ofDoc (h : IsRequest members id) {request : JsonRpcRequest}
    (hsome : JsonRpcRequest.ofDoc lib (.object members) = some request) :
    Held lib members ∧ lib.value id = some request.id := by
  obtain ⟨version, method, hversion, hmethod, hread⟩ := ofDoc_of_isRequest lib h
  rw [hread] at hsome
  obtain ⟨hjsonrpc, hvalue, hname, hparams⟩ := ofFields_eq_some_iff.mp hsome
  refine ⟨⟨?_, ?_, ?_⟩, hvalue⟩
  · intro key hkey literal hliteral
    rcases List.mem_cons.mp hkey with rfl | hkey
    · rw [hversion] at hliteral
      cases hliteral
      exact Option.isSome_of_eq_some hjsonrpc
    · rw [List.mem_singleton.mp hkey, hmethod] at hliteral
      cases hliteral
      exact Option.isSome_of_eq_some hname
  · intro id' hid'
    rw [h.id] at hid'
    cases hid'
    exact Option.isSome_of_eq_some hvalue
  · rcases hparams with ⟨hnil, -⟩ | ⟨doc, hdoc, hfound⟩
    · exact .inl hnil
    · exact .inr ⟨doc, hdoc, Option.isSome_of_eq_some hfound⟩

/-- A notification, `IsNotification`, is not read as a request. -/
theorem ofDoc_notification (h : IsNotification members) :
    JsonRpcRequest.ofDoc lib (.object members) = none := by
  rw [JsonRpcRequest.ofDoc, h.id]
  split
  · rename_i hid _
    cases hid
  · rfl

end Requests

/-! ## Responses -/

section Responses

variable {lib} {σ : Type} (kernel : Handler McpSig σ) (sessionKey : Option Str)
  (procTools : List ProcToolDef)

variable (lib) in
/-- **A request is answered with its id**: `handleRequest` gives one of a result and an error, for
the id of the request. -/
theorem handleRequest_spec (request : JsonRpcRequest) (s : σ) :
    ((handleRequest lib sessionKey procTools request).run kernel s).1.id = request.id ∧
      ((handleRequest lib sessionKey procTools request).run kernel s).1.HasOne := by
  have hresult : ∀ result, (JsonRpcResponse.ofResult request.id result).HasOne :=
    fun result => by simp [JsonRpcResponse.HasOne, JsonRpcResponse.ofResult]
  have herror : ∀ code message, (JsonRpcResponse.ofError request.id code message).HasOne :=
    fun code message => by simp [JsonRpcResponse.HasOne, JsonRpcResponse.ofError]
  unfold handleRequest
  split_ifs
  · exact ⟨rfl, hresult _⟩
  · -- Whatever the kernel does, the tool ends with a result or with a message.
    rw [Program.run_bind]
    generalize Program.run kernel (callTool _ _ _ _ _).run s = ended
    obtain ⟨e | result, s'⟩ := ended
    · exact ⟨rfl, herror _ _⟩
    · exact ⟨rfl, hresult _⟩
  · exact ⟨rfl, hresult _⟩
  · exact ⟨rfl, hresult _⟩
  · exact ⟨rfl, herror _ _⟩

/-- **What `handleLine` writes for a line**: nothing, if it is blank; an error without an id, if it
cannot be read as a request; else one response. -/
theorem handleLine_cases (line : Str) (s : σ) :
    (trim line = [] ∧ ((handleLine lib sessionKey procTools line).run kernel s).1 = []) ∨
    trim line ≠ [] ∧
      (((lib.read (trim line)).bind (JsonRpcRequest.ofDoc lib) = none ∧ ∃ message,
        ((handleLine lib sessionKey procTools line).run kernel s).1
          = [.ofError .null (-32700) message]) ∨
      ∃ request response, (lib.read (trim line)).bind (JsonRpcRequest.ofDoc lib) = some request ∧
        ((handleLine lib sessionKey procTools line).run kernel s).1 = [response] ∧
        response.id = request.id ∧ response.HasOne) := by
  unfold handleLine
  by_cases hblank : trim line = []
  · rw [if_pos hblank]
    exact .inl ⟨hblank, rfl⟩
  · rw [if_neg hblank, JsonRpcRequest.fromStr]
    refine .inr ⟨hblank, ?_⟩
    cases hread : (lib.read (trim line)).bind (JsonRpcRequest.ofDoc lib) with
    | none => exact .inl ⟨rfl, _, rfl⟩
    | some request =>
      obtain ⟨hid, hone⟩ := handleRequest_spec lib kernel sessionKey procTools request s
      dsimp only
      rw [Program.run_bind]
      exact .inr ⟨request, _, rfl, rfl, hid, hone⟩

/-- **Which lines are answered like a server does**: the responses `Fits` exactly if the line is
`Manageable`. -/
theorem fits_handleLine_iff {line : List UInt8} {text : Str} (htext : Utf8.decode? line = some text)
    (s : σ) : Fits lib line ((handleLine lib sessionKey procTools text).run kernel s).1 ↔
      Manageable lib line := by
  have hblank_iff : IsBlank line ↔ trim text = [] := by
    constructor
    · rintro ⟨text', htext', hblank⟩
      rw [htext, Option.some_inj] at htext'
      rwa [htext']
    · exact fun hblank => ⟨text, htext, hblank⟩
  have hdoc : docOf lib line = lib.read (trim text) := by rw [docOf, htext, Option.bind_some]
  have hisText : (Utf8.decode? line).isSome := Option.isSome_of_eq_some htext
  -- A blank line, a line that is no request, and a request.
  rcases handleLine_cases kernel sessionKey procTools text s with
    ⟨hblank, hnil⟩ | ⟨hblank, ⟨hnone, message, herror⟩ | ⟨request, response, hsome, hone, hid, hhas⟩⟩
  · rw [hnil]
    refine iff_of_true ⟨fun _ => rfl, ?_, ?_, ?_⟩ ⟨hisText, ?_, ?_⟩ <;>
      exact fun h => absurd (hblank_iff.mpr hblank) h
  · rw [herror]
    have hnotBlank : ¬IsBlank line := fun h => hblank (hblank_iff.mp h)
    rw [← hdoc] at hnone
    constructor
    · intro h
      refine ⟨hisText, fun _ members hmembers hnotification => ?_, fun _ members id hmembers hrequest => ?_⟩
      · cases h.notification hnotBlank members hmembers hnotification
      · obtain ⟨response, hresponse, hvalue, -⟩ := h.request hnotBlank members id hmembers hrequest
        rw [← List.singleton_inj.mp hresponse] at hvalue
        exact .inr hvalue
    · intro h
      refine ⟨fun hb => absurd hb hnotBlank, fun _ _ => ⟨_, rfl, rfl, rfl, rfl⟩, ?_, ?_⟩
      · intro _ members id hmembers hrequest
        rcases h.request hnotBlank members id hmembers hrequest with hheld | hnull
        · -- What can be held would have been read.
          obtain ⟨request, hread, -⟩ := ofDoc_of_held hrequest hheld
          rw [hmembers, Option.bind_some, hread] at hnone
          cases hnone
        · exact ⟨_, rfl, hnull, by simp [JsonRpcResponse.HasOne, JsonRpcResponse.ofError]⟩
      · intro _ members hmembers hnotification
        exact absurd hnotification (h.notification hnotBlank members hmembers)
  · rw [hone]
    have hnotBlank : ¬IsBlank line := fun h => hblank (hblank_iff.mp h)
    rw [← hdoc] at hsome
    have hheld : ∀ members id, docOf lib line = some (.object members) → IsRequest members id →
        Held lib members ∧ lib.value id = some request.id := by
      intro members id hmembers hrequest
      rw [hmembers, Option.bind_some] at hsome
      exact held_of_ofDoc hrequest hsome
    have hnotNotification : ∀ members, docOf lib line = some (.object members) →
        ¬IsNotification members := by
      intro members hmembers hnotification
      rw [hmembers, Option.bind_some, ofDoc_notification hnotification] at hsome
      cases hsome
    refine iff_of_true ⟨fun hb => absurd hb hnotBlank, fun _ hnone => ?_, ?_, ?_⟩ ⟨hisText, ?_, ?_⟩
    · rw [hnone] at hsome
      cases hsome
    · intro _ members id hmembers hrequest
      exact ⟨response, rfl, by rw [hid]; exact (hheld members id hmembers hrequest).2, hhas⟩
    · exact fun _ members hmembers hnotification => absurd hnotification (hnotNotification members hmembers)
    · exact fun _ => hnotNotification
    · exact fun _ members id hmembers hrequest => .inl (hheld members id hmembers hrequest).1

end Responses

/-- **When the adapter answers like a server**, whatever the kernel does: exactly when each line is a
text, is not a notification, and if it is a request can be held (or its id is `null`). -/
theorem answersLikeServer_iff (lib : JsonLibrary) (sessionKey : Option Str)
    (procTools : List ProcToolDef) {σ : Type} (kernel : Handler McpSig σ) (s : σ)
    (lines : List (List UInt8)) :
    AnswersLikeServer lib lines ((serve lib sessionKey procTools lines).run kernel s).1 ↔
      ∀ line ∈ lines, Manageable lib line := by
  induction lines generalizing s with
  | nil => exact iff_of_true .nil fun _ h => nomatch h
  | cons line lines ih =>
    rw [serve, List.forall_mem_cons]
    cases htext : Utf8.decode? line with
    | none =>
      -- The loop ends, and no line is answered any more.
      refine iff_of_false (fun h => nomatch h) fun h => ?_
      have := h.1.text
      rw [htext] at this
      cases this
    | some text =>
      dsimp only
      rw [Program.run_bind, Program.run_bind, ← fits_handleLine_iff kernel sessionKey procTools htext s]
      exact List.forall₂_cons.trans (and_congr_right fun _ => ih _)

/-! ## A notification -/

/-- The document of an object of texts. -/
def docOfTexts (value : Json) : Option JsonDoc := do
  let fields ← value.asObject
  let members ← fields.mapM fun field => field.2.asStr.map fun text => (field.1, JsonDoc.string text)
  return .object members

/-- A library that reads objects of texts without escapes. -/
def textsLibrary : JsonLibrary where
  json := JsonText.codec
  read text := (JsonText.codec.fromStr text).toOption.bind docOfTexts
  text := some
  value
    | .string literal => some (.string literal)
    | _ => none
  error _ := "missing field `id` at line 1 column 54"

/-- A kernel that refuses every call. -/
def refusingKernel : Handler McpSig Unit
  | ⟨_, .read _⟩, s | ⟨_, .call ..⟩, s | ⟨_, .exec _⟩, s | ⟨_, .write ..⟩, s | ⟨_, .patch ..⟩, s =>
    (.error "refused", s)

/-- The notification with which a client starts. -/
def initialized : Str := "\x7b\"jsonrpc\":\"2.0\",\"method\":\"notifications/initialized\"\x7d"

/-- The members of that notification. -/
def initializedFields : List (Str × Json) :=
  [("jsonrpc", .string "2.0"), ("method", .string "notifications/initialized")]

/-- The line `initialized` is read as a notification without an id. -/
theorem docOf_initialized : docOf textsLibrary (Utf8.encode initialized)
    = some (.object [("jsonrpc", .string "2.0"), ("method", .string "notifications/initialized")]) := by
  have hexact : (Json.ofPairs initializedFields).Exact := by
    refine Json.exactAt_ofPairs fun pair hpair => ?_
    simp only [initializedFields, List.mem_cons, List.not_mem_nil, or_false] at hpair
    rcases hpair with rfl | rfl <;> exact .string
  have hprint : trim initialized = JsonText.codec.toStr (.ofPairs initializedFields) := by decide +kernel
  have hread : textsLibrary.read (trim initialized) = docOfTexts (.ofPairs initializedFields) := by
    show (JsonText.codec.fromStr (trim initialized)).toOption.bind docOfTexts = _
    rw [hprint, JsonText.codec.fromStr_toStr _ hexact]
    rfl
  rw [docOf, Utf8.decode?_eq_some_iff.mpr rfl, Option.bind_some, hread]
  rfl

/-- **A notification is answered**, with an error: `initialized` has no id, and is not read as a
request. -/
theorem not_answersLikeServer : ¬AnswersLikeServer textsLibrary [Utf8.encode initialized]
    ((serve textsLibrary none [] [Utf8.encode initialized]).run refusingKernel ()).1 := by
  intro h
  have hblank : ¬IsBlank (Utf8.encode initialized) := by
    rintro ⟨text, htext, hblank⟩
    rw [Utf8.decode?_eq_some_iff.mpr rfl, Option.some_inj] at htext
    subst htext
    exact absurd hblank (by decide +kernel)
  have htext : Utf8.decode? (Utf8.encode initialized) = some initialized :=
    Utf8.decode?_eq_some_iff.mpr rfl
  rw [serve, htext] at h
  dsimp only at h
  rw [Program.run_bind, Program.run_bind] at h
  have hfits := (fits_handleLine_iff refusingKernel none [] htext ()).mp (List.forall₂_cons.mp h).1
  exact hfits.notification hblank _ docOf_initialized ⟨⟨_, rfl⟩, ⟨_, rfl⟩, rfl⟩

end LogosFs.Mcp
