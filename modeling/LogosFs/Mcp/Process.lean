import LogosFs.Kernel.Grpc
import LogosFs.Kernel.Tmp
import LogosFs.Lib.Upsert
import LogosFs.Mcp.Answers

/-! # The adapter in front of the kernel

The adapter connects to the kernel: with a token it opens a session first, then it asks for the tools
that are registered there, and offers them to its own client beside those that it has itself. The calls
that it makes are calls of the service, so the two run as one program over what the kernel works on.

`offers_of_returns` says what the client of the adapter gets of the kernel's tools: each of them is
listed, as it was registered, and a call of one reaches that tool, for the session of the adapter. -/

namespace LogosFs.Mcp

open Kernel (Backend RoutingTable Response Rpc Status Tool trim TokenSig)
open Program (Returns returns_bind_iff returns_done_iff)

variable (lib : JsonLibrary) (sessionKey : Option Str)

/-! ## Discovery -/

/-- The definition of a tool, from its description. -/
def procToolDef (name : Str) (schema : Json) : ProcToolDef :=
  ⟨name, (schema.get "description").asStr.getD [], schema.get "parameters"⟩

/-- Ask for the description of a tool. A tool without a name, or one whose description cannot be read,
is left out. -/
def fetchProcTool (name : Str) : Program McpSig (Option ProcToolDef) :=
  if name = [] then return none
  else do
    match ← (rpcRead sessionKey ("logos://proc/" ++ name ++ "/.schema")).run with
    | .error _ => return none
    | .ok schemaStr => match lib.json.fromStr schemaStr with
      | .error _ => return none
      | .ok schema => return some (procToolDef name schema)

/-- Ask for the descriptions of some tools, one after the other. -/
def fetchEach : List Str → Program McpSig (List ProcToolDef)
  | [] => return []
  | name :: names => do
    let tool ← fetchProcTool lib sessionKey name
    let tools ← fetchEach names
    return tool.toList ++ tools

/-- Ask for the tools of the kernel. -/
def fetchProcTools : McpM (List ProcToolDef) := do
  let listJson ← rpcRead sessionKey "logos://proc/"
  match lib.json.stringsFromStr listJson with
  | none => throw ("parse proc list" : Str)
  | some names => liftM (fetchEach lib sessionKey names)

/-! ## The process -/

/-- The handshake with a token, and what it answers: whether it was good, and the session header. -/
abbrev HandshakeSig : Signature where
  Op := Str
  Res _ := Except Str (Bool × Option (List UInt8))

/-- The operations of the adapter: a handshake, and its calls to the kernel. -/
abbrev AdapterSig : Signature := HandshakeSig.sum McpSig

/-- Open a session with a token, unless it is empty: the key of the session, if there is one. Without
an answer, or when the token is refused, there is no connection. -/
def connect (token : Str) : Program HandshakeSig (Option (Option Str)) :=
  if token = [] then return some none
  else do
    match ← Program.perform (S := HandshakeSig) token with
    | .error _ => return none
    | .ok (ok, header) =>
      if ok then return some (header.bind Kernel.headerToStr) else return none

/-- Discover the tools, and answer the lines of the input. Without the tools of the kernel the adapter
has its own. -/
def offer (lines : List (List UInt8)) : Program McpSig (List (List JsonRpcResponse)) := do
  let procTools ← (fetchProcTools lib sessionKey).run
  serve lib sessionKey (procTools.toOption.getD []) lines

/-- The adapter: what it writes for each line of its input, if it gets a connection. -/
def main (token : Str) (lines : List (List UInt8)) :
    Program AdapterSig (Option (List (List JsonRpcResponse))) := do
  match ← (connect token).inl with
  | none => return none
  | some sessionKey =>
    let written ← (offer lib sessionKey lines).inr
    return some written

/-! ## The service -/

/-- The message of a status. -/
def messageOf : Status → Str
  | .invalidArgument message | .notFound message | .permissionDenied message
  | .unauthenticated message | .unavailable message | .internal message => message

/-- The text of a response. -/
def textOf : Response → Str
  | .content text => text
  | _ => []

/-- The output of a command in a response. -/
def outputOf : Response → Kernel.ExecResult
  | .exec result => result
  | _ => ⟨[], [], 0⟩

/-- What a response says of a handshake. -/
def welcomeOf : Response → Bool × Option (List UInt8)
  | .handshake ok _ header => (ok, header)
  | _ => (false, none)

variable (backend : Backend)

/-- Make a call of the service, and take what is wanted of the response. -/
def ask {α : Type} (call : Rpc) (take : Response → α) :
    Program (TokenSig.sum backend.sig) (Except Str α) := do
  match ← (Kernel.LogosService.rpc backend call).run with
  | .ok response => return .ok (take response)
  | .error status => return .error (messageOf status)

/-- The call of the service that a call of the adapter is. -/
def onService : (op : AdapterSig.Op) → Program (TokenSig.sum backend.sig) (AdapterSig.Res op)
  | .inl token => ask backend (.handshake token) welcomeOf
  | .inr ⟨session, .read uri⟩ =>
    ask backend (.request (session.map Utf8.encode) (.uri uri .read)) textOf
  | .inr ⟨session, .write uri content⟩ =>
    ask backend (.request (session.map Utf8.encode) (.uri uri (.write content))) fun _ => ()
  | .inr ⟨session, .patch uri partialText⟩ =>
    ask backend (.request (session.map Utf8.encode) (.uri uri (.patch partialText))) fun _ => ()
  | .inr ⟨session, .exec command⟩ =>
    ask backend (.exec (session.map Utf8.encode) command) outputOf
  | .inr ⟨session, .call tool paramsJson⟩ =>
    ask backend (.request (session.map Utf8.encode) (.call tool paramsJson)) textOf

/-- The kernel that the adapter is connected to. -/
abbrev kernelOf (table : RoutingTable) (executor : Kernel.SandboxExecutor) (hostRoot : HostPath) :
    Backend := .kernel lib.json table executor hostRoot

/-! ## What the kernel answers -/

section Answers

variable {lib sessionKey backend} {α : Type}

/-- The message of the status `vfsToStatus e` is the text of the error, `e.toStr`. -/
@[simp] theorem messageOf_vfsToStatus (e : VfsError) : messageOf (Kernel.vfsToStatus e) = e.toStr := by
  cases e <;> rfl

/-- A call that `ask` makes of the service is answered when `rpc` has returned, with `take` of its
response or the message of its status. -/
theorem returns_ask_iff {call : Rpc} {take : Response → α}
    {events : List (Event (TokenSig.sum backend.sig))} {answer : Except Str α} :
    (ask backend call take).Returns events answer ↔
      ∃ response, (Kernel.LogosService.rpc backend call).run.Returns events response ∧
        answer = (response.map take).mapError messageOf := by
  rw [ask, returns_bind_iff]
  constructor
  · rintro ⟨first, second, response, rfl, hfirst, hsecond⟩
    refine ⟨response, ?_, ?_⟩
    · cases response <;> rw [(returns_done_iff.mp hsecond).1, List.append_nil] <;> exact hfirst
    · cases response <;> exact (returns_done_iff.mp hsecond).2
  · rintro ⟨response, hresponse, rfl⟩
    refine ⟨events, [], response, (List.append_nil _).symm, hresponse, ?_⟩
    cases response <;> exact returns_done_iff.mpr ⟨rfl, rfl⟩

/-- A request of the adapter is served for the session that `extractSessionInfo` finds for its
header. -/
theorem exists_info_of_request {header : Option (List UInt8)} {request : Kernel.Request}
    {events : List (Event (TokenSig.sum backend.sig))} {answer : Except Str Str}
    (h : (ask backend (.request header request) textOf).Returns events answer) :
    ∃ info result, (Kernel.extractSessionInfo header).Returns (lefts events) info ∧
      (backend.serve info request).run.Returns (rights events) result ∧
      answer = result.mapError messageOf := by
  obtain ⟨response, hresponse, rfl⟩ := returns_ask_iff.mp h
  obtain ⟨rest, hfirst, hrest⟩ := Kernel.stages_of_returns hresponse
  obtain ⟨first, second, info, hevents, hinfo, hsecond⟩ := returns_bind_iff.mp hfirst
  obtain ⟨rfl, rfl⟩ := returns_done_iff.mp hsecond
  rw [List.append_nil] at hevents
  subst hevents
  rw [ExceptT.run_map, map_eq_pure_bind] at hrest
  obtain ⟨served, done, result, hsplit, hserved, hdone⟩ := returns_bind_iff.mp hrest
  obtain ⟨rfl, rfl⟩ := returns_done_iff.mp hdone
  rw [List.append_nil] at hsplit
  subst hsplit
  refine ⟨info, result, hinfo, hserved, ?_⟩
  cases result <;> rfl

end Answers

section Kernel

variable {lib sessionKey} {table : RoutingTable} {executor : Kernel.SandboxExecutor} {hostRoot : HostPath}

/-- A read under `logos://proc/` goes to the tools, `table.proc`, for whomever it is made. -/
theorem serve_proc (json : JsonCodec) (hopen : table.isOpen) (info : Option Kernel.SessionInfo)
    (rest : Str) : Kernel.LogosService.serve json table info (.uri ("logos://proc/" ++ rest) .read)
      = Program.mapError Kernel.vfsToStatus (table.proc.read json rest.segments) := by
  have hraw : ("logos://proc/" ++ rest : Str) = Uri.logosScheme ++ ("proc" ++ '/' :: rest) := rfl
  have hparse : Uri.parse ("logos://proc/" ++ rest) = .ok ⟨"proc", rest.segments⟩ := by
    rw [hraw, Uri.parse_logos_eq_ok_iff]
    exact Str.segments_cons_of_notMem (by decide) (by decide) rest
  have huri : Kernel.resolveUri ("logos://proc/" ++ rest) info = "logos://proc/" ++ rest := by
    refine if_pos ?_
    rw [Str.startsWith_iff]
    exact ⟨"proc" ++ '/' :: rest, rfl⟩
  have hresolve : table.resolve ("logos://proc/" ++ rest) = .ok (.proc, rest.segments) := by
    have hmount : Kernel.mount? "proc" = some .proc := by decide
    rw [Kernel.RoutingTable.resolve_eq,
      (Kernel.resolve_eq_ok_iff table.toVfs).mpr ⟨hopen, hparse, hmount⟩]
    rfl
  show (Kernel.onSystem (Kernel.checkAccess json info (Kernel.resolveUri _ info) false) >>= fun _ =>
    Program.mapError Kernel.vfsToStatus (table.serve json (Kernel.resolveUri _ info) .read)) = _
  have hopenNs : ("proc".toList : Str) ∉
      ["sandbox".toList, "services".toList, "system".toList, "devices".toList] := by decide
  rw [huri, Kernel.checkAccess_of_open hparse hopenNs, Kernel.RoutingTable.serve, hresolve]
  rfl

/-- The program of the adapter, as calls of the service. -/
def served (backend : Backend) {α : Type} (p : Program McpSig α) :
    Program (TokenSig.sum backend.sig) α := p.hoist fun op => onService backend (.inr op)

variable {events : List (Event (TokenSig.sum (kernelOf lib table executor hostRoot).sig))}

/-- What the tools answer at once is what `rpcRead` gets, and nothing but the registry has been
asked. -/
theorem returns_read_proc (hopen : table.isOpen) {rest : Str} {result : Except VfsError Str}
    (hread : (table.proc.read lib.json rest.segments).run = .done result) {answer : Except Str Str}
    (h : (served (kernelOf lib table executor hostRoot)
      (rpcRead sessionKey ("logos://proc/" ++ rest)).run).Returns events answer) :
    answer = result.mapError VfsError.toStr ∧ rights events = [] := by
  have hcall : served (kernelOf lib table executor hostRoot)
      (rpcRead sessionKey ("logos://proc/" ++ rest)).run = ask (kernelOf lib table executor hostRoot)
        (.request ((sessionKey.filter isHeader).map Utf8.encode)
          (.uri ("logos://proc/" ++ rest) .read)) textOf := Program.bind_done _
  rw [hcall] at h
  obtain ⟨info, status, -, hserved, rfl⟩ := exists_info_of_request h
  have hdone : (Kernel.LogosService.serve lib.json table info (.uri ("logos://proc/" ++ rest) .read)).run
      = .done (result.mapError Kernel.vfsToStatus) := by
    rw [serve_proc lib.json hopen]
    show ((table.proc.read lib.json rest.segments).run >>= _) = _
    rw [hread]
    rfl
  obtain ⟨hreturns, hrights⟩ := Program.Returns.of_inl hserved
  rw [hdone] at hreturns
  obtain ⟨hlefts, rfl⟩ := returns_done_iff.mp hreturns
  constructor
  · cases result with
    | ok text => rfl
    | error e => exact congrArg Except.error (messageOf_vfsToStatus e)
  · -- Neither the tables nor the containers have been asked.
    exact eq_nil_of_parts hlefts hrights

/-! ## Discovery -/

/-- `served backend` is kept by sequencing. -/
theorem served_bind (backend : Backend) {α β : Type} (p : Program McpSig α)
    (f : α → Program McpSig β) :
    served backend (p >>= f) = served backend p >>= fun value => served backend (f value) :=
  Program.hoist_bind ..

variable (lib) in
/-- A tool as the adapter offers it, if its description can be read back. -/
def offered? (tool : Tool) : Option ProcToolDef :=
  match lib.json.fromStr (lib.json.toStr tool.schema) with
  | .error _ => none
  | .ok schema => some (procToolDef tool.name schema)

/-- A description that is `Exact`, so that it is read back as it was printed, is offered as it is.
-/
theorem offered?_of_exact {tool : Tool} (h : tool.schema.Exact) :
    offered? lib tool = some (procToolDef tool.name tool.schema) := by
  rw [offered?, lib.json.fromStr_toStr _ h]

/-- The path `name/.schema` of a tool's description has two segments. -/
theorem segments_schema {name : Str} (hne : name ≠ []) (hsep : '/' ∉ name) :
    (name ++ "/.schema" : Str).segments = [name, ".schema"] := by
  show (name ++ '/' :: ".schema".toList).segments = _
  rw [Str.segments_cons_of_notMem hne hsep]
  rfl

/-- Each tool has its name to itself: `tool?` finds it by its name. -/
theorem tool?_of_mem (hnodup : (table.proc.tools.map Tool.name).Nodup) {tool : Tool}
    (h : tool ∈ table.proc.tools) : table.proc.tool? tool.name = some tool := by
  rw [Kernel.ProcNs.tool?, Upsert.find?_eq_last Tool.name hnodup, Upsert.last_eq_some_iff Tool.name hnodup]
  exact ⟨h, rfl⟩

/-- **A tool is discovered** as it was registered: `fetchProcTool` returns what is `offered?` of it.
-/
theorem returns_fetchProcTool (hopen : table.isOpen) {tool : Tool} (hne : tool.name ≠ [])
    (hsep : '/' ∉ tool.name) (htool : table.proc.tool? tool.name = some tool)
    {found : Option ProcToolDef} (h : (served (kernelOf lib table executor hostRoot)
      (fetchProcTool lib sessionKey tool.name)).Returns events found) :
    found = offered? lib tool ∧ rights events = [] := by
  rw [fetchProcTool, if_neg hne, served_bind] at h
  obtain ⟨first, second, answer, rfl, hfirst, hsecond⟩ := returns_bind_iff.mp h
  have hread : (table.proc.read lib.json (tool.name ++ "/.schema" : Str).segments).run
      = .done (.ok (lib.json.toStr tool.schema)) := by
    have hschema : table.proc.read lib.json [tool.name, ".schema"]
        = table.proc.schema lib.json tool.name := by
      rw [Kernel.ProcNs.read]
      exact if_pos rfl
    rw [segments_schema hne hsep, hschema, Kernel.ProcNs.schema, htool]
    rfl
  rw [List.append_assoc] at hfirst
  obtain ⟨rfl, hrights⟩ := returns_read_proc hopen hread hfirst
  rw [rights_append, hrights, List.nil_append, offered?]
  dsimp only [Except.mapError] at hsecond
  cases hparse : lib.json.fromStr (lib.json.toStr tool.schema) with
  | error e =>
    rw [hparse] at hsecond
    obtain ⟨rfl, rfl⟩ := returns_done_iff.mp hsecond
    exact ⟨rfl, rfl⟩
  | ok schema =>
    rw [hparse] at hsecond
    obtain ⟨rfl, rfl⟩ := returns_done_iff.mp hsecond
    exact ⟨rfl, rfl⟩

/-- **The tools are discovered** in their order, each as `offered?`. -/
theorem returns_fetchEach (hopen : table.isOpen) {tools : List Tool}
    (htools : ∀ tool ∈ tools, tool.name ≠ [] ∧ '/' ∉ tool.name ∧
      table.proc.tool? tool.name = some tool)
    {found : List ProcToolDef} (h : (served (kernelOf lib table executor hostRoot)
      (fetchEach lib sessionKey (tools.map Tool.name))).Returns events found) :
    found = tools.filterMap (offered? lib) ∧ rights events = [] := by
  induction tools generalizing events found with
  | nil =>
    obtain ⟨rfl, rfl⟩ := returns_done_iff.mp h
    exact ⟨rfl, rfl⟩
  | cons tool tools ih =>
    rw [List.map_cons, fetchEach, served_bind] at h
    obtain ⟨first, rest, one, rfl, hfirst, hrest⟩ := returns_bind_iff.mp h
    rw [served_bind] at hrest
    obtain ⟨second, last, others, rfl, hsecond, hlast⟩ := returns_bind_iff.mp hrest
    obtain ⟨rfl, rfl⟩ := returns_done_iff.mp hlast
    obtain ⟨hne, hsep, htool⟩ := htools tool List.mem_cons_self
    obtain ⟨rfl, hrights⟩ := returns_fetchProcTool hopen hne hsep htool hfirst
    obtain ⟨rfl, hrights'⟩ := ih (fun tool htool => htools tool (List.mem_cons_of_mem _ htool)) hsecond
    refine ⟨?_, by simp [hrights, hrights']⟩
    rw [List.filterMap_cons]
    cases offered? lib tool <;> rfl

/-- **All tools of the kernel are discovered** by `fetchProcTools`, and nothing but the registry is
asked for that. -/
theorem returns_fetchProcTools (hopen : table.isOpen)
    (hnames : ∀ tool ∈ table.proc.tools, tool.name ≠ [] ∧ '/' ∉ tool.name)
    (hnodup : (table.proc.tools.map Tool.name).Nodup) {found : Except Str (List ProcToolDef)}
    (h : (served (kernelOf lib table executor hostRoot)
      (fetchProcTools lib sessionKey).run).Returns events found) :
    found = .ok (table.proc.tools.filterMap (offered? lib)) ∧ rights events = [] := by
  rw [fetchProcTools, ExceptT.run_bind, served_bind] at h
  obtain ⟨first, second, answer, rfl, hfirst, hsecond⟩ := returns_bind_iff.mp h
  have hread : (table.proc.read lib.json (Str.segments [])).run
      = .done (.ok (lib.json.toStr (.strings (table.proc.tools.map Tool.name)))) := rfl
  obtain ⟨rfl, hrights⟩ := returns_read_proc hopen hread hfirst
  have hstrings := lib.json.stringsFromStr_strings (table.proc.tools.map Tool.name)
  dsimp only [Except.mapError] at hsecond
  rw [hstrings] at hsecond
  replace hsecond : (served (kernelOf lib table executor hostRoot)
      (Except.ok <$> fetchEach lib sessionKey (table.proc.tools.map Tool.name))).Returns
        second found := hsecond
  rw [map_eq_pure_bind, served_bind] at hsecond
  obtain ⟨third, last, tools, rfl, hthird, hlast⟩ := returns_bind_iff.mp hsecond
  obtain ⟨rfl, rfl⟩ := returns_done_iff.mp hlast
  have htools : ∀ tool ∈ table.proc.tools, tool.name ≠ [] ∧ '/' ∉ tool.name ∧
      table.proc.tool? tool.name = some tool := by
    intro tool htool
    exact ⟨(hnames tool htool).1, (hnames tool htool).2, tool?_of_mem hnodup htool⟩
  obtain ⟨rfl, hrights'⟩ := returns_fetchEach hopen htools hthird
  exact ⟨rfl, by simp [hrights, hrights']⟩

end Kernel

/-! ## What the client gets -/

/-- The names of the tools that the adapter has itself. -/
def baseNames : List Str := ["logos_read", "logos_write", "logos_patch", "logos_exec", "logos_call"]

/-- The response to the call of a tool. -/
def toolResponse (id : Json) : Except Str Str → JsonRpcResponse
  | .ok result => .ofResult id (textContent result)
  | .error e => .ofError id (-32000) e

/-- A line that is a request. -/
def IsRequestLine (line : List UInt8) (request : JsonRpcRequest) : Prop :=
  ∃ text, Utf8.decode? line = some text ∧ trim text ≠ [] ∧
    JsonRpcRequest.fromStr lib (trim text) = .ok request

/-- What happens in the kernel, and what is written, for a line. -/
abbrev Part (backend : Backend) : Type :=
  List (Event (TokenSig.sum backend.sig)) × List JsonRpcResponse

section Offers

variable (table : RoutingTable) (executor : Kernel.SandboxExecutor) (hostRoot : HostPath)

/-- The tools that the client can call in the kernel. -/
def offered : List ProcToolDef := table.proc.tools.filterMap (offered? lib)

/-- A call of a tool of the kernel, with what it is answered: it is refused if the header is that of no
session, and it is a call of the tool otherwise. -/
inductive Called (header : Option (List UInt8)) (name params : Str)
    (events : List (Event (TokenSig.sum (kernelOf lib table executor hostRoot).sig))) :
    Except Str Str → Prop
  /-- There is no session, and nothing has been done. -/
  | nobody (hinfo : (Kernel.extractSessionInfo header).Returns (lefts events) none)
      (hnothing : rights events = []) :
      Called header name params events (.error "call requires a valid session")
  /-- The tool has been called, and nothing else has been done. -/
  | served (info : Kernel.SessionInfo) (result : Except VfsError Str)
      (hinfo : (Kernel.extractSessionInfo header).Returns (lefts events) (some info))
      (hcall : (table.proc.call lib.json name params).run.Returns (lefts (rights events)) result)
      (hcontainers : rights (rights events) = []) :
      Called header name params events (result.mapError VfsError.toStr)

/-- **What the client gets for a line**, of the tools of the kernel. -/
structure Offers (header : Option (List UInt8)) (line : List UInt8)
    (part : Part (kernelOf lib table executor hostRoot)) : Prop where
  /-- All of them are listed. -/
  listed : ∀ request, IsRequestLine lib line request → request.method = "tools/list".toList →
    part = ([], [.ofResult request.id (toolDefinitions (offered lib table))])
  /-- One that is listed can be called, unless the adapter has one of this name itself. -/
  called : ∀ request, IsRequestLine lib line request → request.method = "tools/call".toList →
    ∀ tool ∈ offered lib table, argText request.params "name" = tool.name → tool.name ∉ baseNames →
      ∃ answer, Called lib table executor hostRoot header tool.name
          (lib.json.toStr (request.params.get "arguments")) part.1 answer ∧
        part.2 = [toolResponse request.id answer]
  /-- Nothing else can be called. -/
  unknown : ∀ request, IsRequestLine lib line request → request.method = "tools/call".toList →
    argText request.params "name" ∉ baseNames →
    (∀ tool ∈ offered lib table, tool.name ≠ argText request.params "name") →
      part = ([], [toolResponse request.id
        (.error ("unknown tool: " ++ argText request.params "name"))])

end Offers

/-- The session of the adapter is opened, with a header if there is a token. -/
inductive Opened (token : Str) : List (Event (TokenSig.sum backend.sig)) → Option (List UInt8) → Prop
  /-- Without a token nothing is done. -/
  | anonymous (htoken : token = []) : Opened token [] none
  /-- The token is accepted. -/
  | welcomed (events : List (Event (TokenSig.sum backend.sig))) (error : Str)
      (header : Option (List UInt8)) (htoken : token ≠ [])
      (h : (Kernel.LogosService.rpc backend (.handshake token)).run.Returns events
        (.ok (.handshake true error header))) : Opened token events header

section Serve

variable {lib sessionKey backend} {table : RoutingTable} {executor : Kernel.SandboxExecutor}
  {hostRoot : HostPath} {header : Option (List UInt8)} {procTools : List ProcToolDef}

/-- What `headerToStr` reads of a header can be sent as a header, and is the same bytes then. -/
theorem sent_of_headerToStr {bytes : List UInt8} {key : Str}
    (h : Kernel.headerToStr bytes = some key) : isHeader key ∧ Utf8.encode key = bytes := by
  have hbyte : ∀ n < 127, (32 ≤ n ∨ n = 9) →
      (Char.ofNat n = '\t' ∨ (' ' ≤ Char.ofNat n ∧ Char.ofNat n ≤ '~')) ∧
        String.utf8EncodeChar (Char.ofNat n) = [UInt8.ofNat n] := by decide +kernel
  rw [Kernel.headerToStr] at h
  split at h
  · rename_i hall
    cases h
    rw [List.all_eq_true] at hall
    induction bytes with
    | nil => exact ⟨rfl, rfl⟩
    | cons byte bytes ih =>
      obtain ⟨hsend, hencode⟩ := ih fun byte hmem => hall byte (List.mem_cons_of_mem _ hmem)
      have hvisible := of_decide_eq_true (hall byte List.mem_cons_self)
      have hlt : byte.toNat < 127 ∧ (32 ≤ byte.toNat ∨ byte.toNat = 9) := by
        rcases hvisible with ⟨hlow, hhigh⟩ | rfl
        · exact ⟨UInt8.lt_iff_toNat_lt.mp hhigh, .inl (UInt8.le_iff_toNat_le.mp hlow)⟩
        · decide
      obtain ⟨hchar, hsame⟩ := hbyte byte.toNat hlt.1 hlt.2
      constructor
      · rw [List.map_cons, isHeader, List.all_cons, Bool.and_eq_true]
        exact ⟨by simpa using hchar, hsend⟩
      · rw [List.map_cons, Utf8.encode_cons, hsame, hencode, UInt8.ofNat_toNat]
        rfl
  · cases h

/-- The header that the adapter sends is read by `headerToStr` as the one that it was given, if this
is a text. -/
theorem bind_sent (header : Option (List UInt8)) :
    (((header.bind Kernel.headerToStr).filter isHeader).map Utf8.encode).bind Kernel.headerToStr
      = header.bind Kernel.headerToStr := by
  cases hkey : header.bind Kernel.headerToStr with
  | none => rfl
  | some key =>
    obtain ⟨bytes, rfl, htext⟩ := Option.bind_eq_some_iff.mp hkey
    obtain ⟨hsend, hencode⟩ := sent_of_headerToStr htext
    rw [Option.filter_some, if_pos hsend, Option.map_some, Option.bind_some, hencode, htext]

/-- The header that the client sends finds the session of the one that it was given:
`extractSessionInfo` is the same of both. -/
theorem extractSessionInfo_sent (header : Option (List UInt8)) :
    Kernel.extractSessionInfo (((header.bind Kernel.headerToStr).filter isHeader).map Utf8.encode)
      = Kernel.extractSessionInfo header := by
  rw [Kernel.extractSessionInfo, bind_sent, Kernel.extractSessionInfo]

/-- Any other tool than those of `baseNames` is called by `rpcCall` if it is among `procTools`, and
unknown if not. -/
theorem callTool_of_notMem {name : Str} (h : name ∉ baseNames) (args : Json) :
    callTool lib sessionKey procTools name args =
      if procTools.any fun tool => tool.name = name then
        rpcCall sessionKey name (lib.json.toStr args)
      else throw ("unknown tool: " ++ name) := by
  have hne : ∀ base ∈ baseNames, name ≠ base := fun base hbase heq => h (heq ▸ hbase)
  unfold callTool
  rw [if_neg (hne _ (by decide)), if_neg (hne _ (by decide)), if_neg (hne _ (by decide)),
    if_neg (hne _ (by decide)), if_neg (hne _ (by decide))]

variable {events : List (Event (TokenSig.sum (kernelOf lib table executor hostRoot).sig))}

/-- **A tool of the kernel is called** for the session of the header: what `rpcCall` returns is
`Called`. -/
theorem called_of_returns {name params : Str} {answer : Except Str Str}
    (h : (served (kernelOf lib table executor hostRoot)
      (rpcCall (header.bind Kernel.headerToStr) name params).run).Returns events answer) :
    Called lib table executor hostRoot header name params events answer := by
  have hcall : served (kernelOf lib table executor hostRoot)
      (rpcCall (header.bind Kernel.headerToStr) name params).run
        = ask (kernelOf lib table executor hostRoot)
            (.request (((header.bind Kernel.headerToStr).filter isHeader).map Utf8.encode)
              (.call name params)) textOf := Program.bind_done _
  rw [hcall] at h
  obtain ⟨info, status, hinfo, hserved, rfl⟩ := exists_info_of_request h
  rw [extractSessionInfo_sent] at hinfo
  obtain ⟨hreturns, hrights⟩ := Program.Returns.of_inl hserved
  cases info with
  | none =>
    obtain ⟨hlefts, rfl⟩ := returns_done_iff.mp hreturns
    exact .nobody hinfo (eq_nil_of_parts hlefts hrights)
  | some info =>
    obtain ⟨first, second, result, hsplit, hcalled, hdone⟩ := returns_bind_iff.mp hreturns
    obtain ⟨rfl, rfl⟩ := returns_done_iff.mp hdone
    rw [List.append_nil] at hsplit
    have hsame : (result.mapError Kernel.vfsToStatus).mapError messageOf
        = result.mapError VfsError.toStr := by
      cases result with
      | ok text => rfl
      | error e => exact congrArg Except.error (messageOf_vfsToStatus e)
    rw [hsame]
    exact .served info result hinfo (hsplit ▸ hcalled) hrights

/-- A request `tools/list` is answered at once, with `toolDefinitions procTools`. -/
theorem handleRequest_list {request : JsonRpcRequest} (hmethod : request.method = "tools/list".toList) :
    handleRequest lib sessionKey procTools request
      = .done (.ofResult request.id (toolDefinitions procTools)) := by
  rw [handleRequest, hmethod, if_pos rfl]
  rfl

/-- A request `tools/call` is answered with what `callTool` answers for its arguments. -/
theorem returns_toolsCall {request : JsonRpcRequest} (hmethod : request.method = "tools/call".toList)
    {response : JsonRpcResponse} (h : (served (kernelOf lib table executor hostRoot)
      (handleRequest lib sessionKey procTools request)).Returns events response) :
    ∃ answer, (served (kernelOf lib table executor hostRoot) (callTool lib sessionKey procTools
        (argText request.params "name") (request.params.get "arguments")).run).Returns events answer ∧
      response = toolResponse request.id answer := by
  rw [handleRequest, hmethod, if_neg (by decide), if_pos rfl, served_bind] at h
  obtain ⟨first, second, answer, rfl, hfirst, hsecond⟩ := returns_bind_iff.mp h
  cases answer with
  | error e =>
    obtain ⟨rfl, rfl⟩ := returns_done_iff.mp hsecond
    exact ⟨.error e, by rwa [List.append_nil], rfl⟩
  | ok result =>
    obtain ⟨rfl, rfl⟩ := returns_done_iff.mp hsecond
    exact ⟨.ok result, by rwa [List.append_nil], rfl⟩

/-- **What the client gets for a line** that is a text: what `handleLine` returns is as `Offers`
says. -/
theorem offers_of_handleLine {line : List UInt8} {text : Str} (htext : Utf8.decode? line = some text)
    {responses : List JsonRpcResponse} (h : (served (kernelOf lib table executor hostRoot)
      (handleLine lib (header.bind Kernel.headerToStr) (offered lib table) text)).Returns
        events responses) : Offers lib table executor hostRoot header line (events, responses) := by
  -- A line that is a request is answered with one response.
  have hrequest : ∀ request, IsRequestLine lib line request → ∃ response, responses = [response] ∧
      (served (kernelOf lib table executor hostRoot) (handleRequest lib (header.bind Kernel.headerToStr)
        (offered lib table) request)).Returns events response := by
    rintro request ⟨text', htext', hblank, hparse⟩
    obtain rfl : text = text' := Option.some_inj.mp (htext.symm.trans htext')
    rw [handleLine, if_neg hblank, hparse] at h
    dsimp only at h
    rw [served_bind] at h
    obtain ⟨first, second, response, rfl, hfirst, hsecond⟩ := returns_bind_iff.mp h
    obtain ⟨rfl, rfl⟩ := returns_done_iff.mp hsecond
    exact ⟨response, rfl, by rwa [List.append_nil]⟩
  constructor
  · intro request hline hmethod
    obtain ⟨response, rfl, hresponse⟩ := hrequest request hline
    rw [handleRequest_list hmethod] at hresponse
    obtain ⟨rfl, rfl⟩ := returns_done_iff.mp hresponse
    rfl
  · intro request hline hmethod tool htool hname hbase
    obtain ⟨response, rfl, hresponse⟩ := hrequest request hline
    obtain ⟨answer, hanswer, rfl⟩ := returns_toolsCall hmethod hresponse
    have hany : ((offered lib table).any fun other => other.name = tool.name) = true :=
      List.any_eq_true.mpr ⟨tool, htool, decide_eq_true rfl⟩
    rw [hname, callTool_of_notMem hbase, if_pos hany] at hanswer
    exact ⟨answer, called_of_returns hanswer, rfl⟩
  · intro request hline hmethod hbase hnone
    obtain ⟨response, rfl, hresponse⟩ := hrequest request hline
    obtain ⟨answer, hanswer, rfl⟩ := returns_toolsCall hmethod hresponse
    have hany : ¬((offered lib table).any fun other =>
        other.name = argText request.params "name") = true := by
      rw [List.any_eq_true]
      rintro ⟨other, hother, hname⟩
      exact hnone other hother (of_decide_eq_true hname)
    rw [callTool_of_notMem hbase, if_neg hany] at hanswer
    obtain ⟨rfl, rfl⟩ := returns_done_iff.mp hanswer
    rfl

/-- **What the client gets for its input**: `serve` answers each line in turn, up to one that is no
text, and each part is as `Offers` says. -/
theorem exists_parts_of_serve {lines : List (List UInt8)} {written : List (List JsonRpcResponse)}
    (h : (served (kernelOf lib table executor hostRoot) (serve lib (header.bind Kernel.headerToStr)
      (offered lib table) lines)).Returns events written) :
    ∃ parts : List (Part (kernelOf lib table executor hostRoot)),
      events = parts.flatMap Prod.fst ∧ parts.map Prod.snd = written ∧
      List.Forall₂ (Offers lib table executor hostRoot header) (lines.take parts.length) parts ∧
      ∀ line, lines[parts.length]? = some line → Utf8.decode? line = none := by
  induction lines generalizing events written with
  | nil =>
    obtain ⟨rfl, rfl⟩ := returns_done_iff.mp h
    exact ⟨[], rfl, rfl, .nil, by simp⟩
  | cons line lines ih =>
    rw [serve] at h
    cases htext : Utf8.decode? line with
    | none =>
      rw [htext] at h
      obtain ⟨rfl, rfl⟩ := returns_done_iff.mp h
      exact ⟨[], rfl, rfl, .nil, by simpa using htext⟩
    | some text =>
      rw [htext] at h
      dsimp only at h
      rw [served_bind] at h
      obtain ⟨first, rest, responses, rfl, hfirst, hrest⟩ := returns_bind_iff.mp h
      rw [served_bind] at hrest
      obtain ⟨second, last, later, rfl, hsecond, hlast⟩ := returns_bind_iff.mp hrest
      obtain ⟨rfl, rfl⟩ := returns_done_iff.mp hlast
      obtain ⟨parts, rfl, rfl, hoffers, hstop⟩ := ih hsecond
      refine ⟨(first, responses) :: parts, by simp, rfl, ?_, hstop⟩
      exact .cons (offers_of_handleLine htext hfirst) hoffers

/-- The adapter goes on with a `key` when its session is `Opened`, by the header that the handshake
gave. -/
theorem opened_of_connect {token : Str} {key : Option Str}
    {events : List (Event (TokenSig.sum backend.sig))}
    (h : ((connect token).hoist fun op => onService backend (.inl op)).Returns events (some key)) :
    ∃ header, Opened backend token events header ∧ key = header.bind Kernel.headerToStr := by
  rw [connect] at h
  by_cases htoken : token = []
  · rw [if_pos htoken] at h
    obtain ⟨rfl, hkey⟩ := returns_done_iff.mp h
    cases hkey
    exact ⟨none, .anonymous htoken, rfl⟩
  · rw [if_neg htoken, Program.hoist_bind] at h
    obtain ⟨first, second, answer, rfl, hfirst, hsecond⟩ := returns_bind_iff.mp h
    have hask : (ask backend (.handshake token) welcomeOf).Returns first answer := by
      have hperform : ((Program.perform (S := HandshakeSig) token).hoist fun op =>
          onService backend (.inl op)) = ask backend (.handshake token) welcomeOf := Program.bind_done _
      rwa [hperform] at hfirst
    -- The adapter goes on only if the handshake has consumed the token.
    obtain ⟨response, hresponse, rfl⟩ := returns_ask_iff.mp hask
    cases response with
    | error status => cases (returns_done_iff.mp hsecond).2
    | ok response =>
      cases response with
      | handshake ok error header =>
        cases ok with
        | false => cases (returns_done_iff.mp hsecond).2
        | true =>
          obtain ⟨rfl, hkey⟩ := returns_done_iff.mp hsecond
          cases hkey
          rw [List.append_nil]
          exact ⟨header, .welcomed first error header htoken hresponse, rfl⟩
      | content text => cases (returns_done_iff.mp hsecond).2
      | exec result => cases (returns_done_iff.mp hsecond).2
      | empty => cases (returns_done_iff.mp hsecond).2

end Serve

/-- **The client of the adapter gets the tools of the kernel**, whatever else the kernel does at the
same time: all of them are discovered, and nothing but the registry is asked for that; then each
line gets what it has to, as `Offers` says, up to one that is no text. -/
theorem offers_of_returns (lib : JsonLibrary) (table : RoutingTable) (hopen : table.isOpen)
    (hnames : ∀ tool ∈ table.proc.tools, tool.name ≠ [] ∧ '/' ∉ tool.name)
    (hnodup : (table.proc.tools.map Tool.name).Nodup) (executor : Kernel.SandboxExecutor)
    (hostRoot : HostPath) (token : Str) (lines : List (List UInt8))
    {events : List (Event (TokenSig.sum (kernelOf lib table executor hostRoot).sig))}
    {written : List (List JsonRpcResponse)}
    (h : ((main lib token lines).hoist (onService (kernelOf lib table executor hostRoot))).Returns
      events (some written)) :
    ∃ (opening discovery : List (Event (TokenSig.sum (kernelOf lib table executor hostRoot).sig)))
      (header : Option (List UInt8)) (parts : List (Part (kernelOf lib table executor hostRoot))),
      Opened (kernelOf lib table executor hostRoot) token opening header ∧ rights discovery = [] ∧
      events = opening ++ discovery ++ parts.flatMap Prod.fst ∧ parts.map Prod.snd = written ∧
      List.Forall₂ (Offers lib table executor hostRoot header) (lines.take parts.length) parts ∧
      ∀ line, lines[parts.length]? = some line → Utf8.decode? line = none := by
  rw [main, Program.hoist_bind, Program.hoist_inl] at h
  -- The run has three parts: the session is opened, the tools are discovered, the lines are served.
  obtain ⟨opening, rest, connected, rfl, hopening, hrest⟩ := returns_bind_iff.mp h
  cases connected with
  | none => cases (returns_done_iff.mp hrest).2
  | some key =>
    obtain ⟨header, hopened, rfl⟩ := opened_of_connect hopening
    dsimp only at hrest
    rw [Program.hoist_bind, Program.hoist_inr] at hrest
    obtain ⟨offering, last, found, rfl, hoffering, hlast⟩ := returns_bind_iff.mp hrest
    obtain ⟨rfl, hwritten⟩ := returns_done_iff.mp hlast
    cases hwritten
    replace hoffering : (served (kernelOf lib table executor hostRoot)
        (offer lib (header.bind Kernel.headerToStr) lines)).Returns offering written := hoffering
    rw [offer, served_bind] at hoffering
    obtain ⟨discovery, serving, tools, rfl, hdiscovery, hserving⟩ := returns_bind_iff.mp hoffering
    obtain ⟨rfl, hnothing⟩ := returns_fetchProcTools hopen hnames hnodup hdiscovery
    obtain ⟨parts, rfl, rfl, hoffers, hstop⟩ := exists_parts_of_serve hserving
    exact ⟨opening, discovery, header, parts, hopened, hnothing, by simp, rfl, hoffers, hstop⟩

section List

/-- A kernel with a tool that answers with its parameters. -/
def echoTable : RoutingTable := ⟨true, Kernel.onData, Kernel.procOfEcho⟩

/-- The kernel on a host. -/
abbrev onHost : Backend :=
  kernelOf textsLibrary echoTable (Kernel.HostExecutor.executor (.ofStr "/data")) (.ofStr "/logos")

/-- A request for the list of the tools. -/
def listFields : List (Str × Json) :=
  [("id", .string "1"), ("jsonrpc", .string "2.0"), ("method", .string "tools/list")]

/-- The line of that request. -/
def listLine : Str := textsLibrary.json.toStr (.ofPairs listFields)

/-- What `serve none` answers at once is answered without a question to the registry. -/
theorem ask_anonymous {backend : Backend} {request : Kernel.Request} {result : Except Status Str}
    (h : (backend.serve none request).run = .done result) :
    ask backend (.request none request) textOf = .done (result.mapError messageOf) := by
  have hrest : (Response.content <$> backend.serve none request).run
      = .done (result.map Response.content) := by
    rw [ExceptT.run_map, h]
    rfl
  rw [ask, Kernel.LogosService.rpc_eq_stages]
  show ((Response.content <$> backend.serve none request).run.inr >>= _) = _
  rw [hrest]
  cases result <;> rfl

/-- A path under `logos://proc/` is read without a session, too. -/
theorem served_read_proc {rest : Str} {text : Str}
    (hread : (echoTable.proc.read textsLibrary.json rest.segments).run = .done (.ok text)) :
    served onHost (rpcRead none ("logos://proc/" ++ rest)).run = .done (.ok text) := by
  have hserve : (onHost.serve none (.uri ("logos://proc/" ++ rest) .read)).run = .done (.ok text) := by
    show ((Kernel.LogosService.serve textsLibrary.json echoTable none
      (.uri ("logos://proc/" ++ rest) .read)).run).inl = _
    have hopen : echoTable.isOpen := rfl
    rw [serve_proc textsLibrary.json hopen]
    show ((echoTable.proc.read textsLibrary.json rest.segments).run >>= _).inl = _
    rw [hread]
    rfl
  show (ask onHost (.request none (.uri ("logos://proc/" ++ rest) .read)) textOf >>= _) = _
  rw [ask_anonymous hserve]
  rfl

/-- `listLine` is the line of a request for the tools. -/
theorem isRequestLine_listLine :
    IsRequestLine textsLibrary (Utf8.encode listLine) ⟨"2.0", .string "1", "tools/list", .null⟩ := by
  have hexact : (Json.ofPairs listFields).Exact := by
    refine Json.exactAt_ofPairs fun pair hpair => ?_
    simp only [listFields, List.mem_cons, List.not_mem_nil, or_false] at hpair
    rcases hpair with rfl | rfl | rfl <;> exact .string
  have htrim : trim listLine = listLine := by decide +kernel
  have hread : textsLibrary.read listLine = docOfTexts (.ofPairs listFields) := by
    show (JsonText.codec.fromStr listLine).toOption.bind docOfTexts = _
    rw [listLine]
    show (JsonText.codec.fromStr (JsonText.codec.toStr _)).toOption.bind docOfTexts = _
    rw [JsonText.codec.fromStr_toStr _ hexact]
    rfl
  refine ⟨listLine, Utf8.decode?_eq_some_iff.mpr rfl, ?_, ?_⟩
  · rw [htrim]
    decide +kernel
  · rw [htrim, JsonRpcRequest.fromStr, hread]
    rfl

/-- The only tool of `echoTable` is discovered by `fetchProcTools` without a session. -/
theorem served_fetchProcTools : served onHost (fetchProcTools textsLibrary none).run
    = .done (.ok (offered textsLibrary echoTable)) := by
  have hnull : textsLibrary.json.fromStr (textsLibrary.json.toStr .null) = .ok .null :=
    textsLibrary.json.fromStr_toStr _ .null
  have hnames : served onHost (rpcRead none "logos://proc/").run
      = .done (.ok (textsLibrary.json.toStr (.strings ["test.echo"]))) :=
    @served_read_proc [] _ rfl
  have hschema : served onHost (rpcRead none ("logos://proc/" ++ "test.echo" ++ "/.schema")).run
      = .done (.ok (textsLibrary.json.toStr .null)) := by
    refine @served_read_proc "test.echo/.schema" _ ?_
    have hsegments : Str.segments "test.echo/.schema" = ["test.echo", ".schema"] := by decide
    rw [hsegments]
    rfl
  have hone : served onHost (fetchProcTool textsLibrary none "test.echo")
      = .done (some (procToolDef "test.echo" .null)) := by
    rw [fetchProcTool, if_neg (by decide), served_bind, hschema, Program.done_bind]
    dsimp only
    rw [hnull]
    rfl
  have hoffered : offered textsLibrary echoTable = [procToolDef "test.echo" .null] := by
    have hecho : offered? textsLibrary Kernel.echo = some (procToolDef "test.echo" .null) :=
      offered?_of_exact .null
    show [Kernel.echo].filterMap (offered? textsLibrary) = _
    rw [List.filterMap_cons, hecho]
    rfl
  have hstrings := textsLibrary.json.stringsFromStr_strings ["test.echo"]
  rw [fetchProcTools, ExceptT.run_bind, served_bind, hnames, Program.done_bind]
  dsimp only
  rw [hstrings]
  show served onHost (Except.ok <$> fetchEach textsLibrary none ["test.echo"]) = _
  rw [map_eq_pure_bind, served_bind, fetchEach, served_bind, hone, hoffered]
  rfl

/-- Given `listLine` alone, `main` writes the tools that are offered, and returns. -/
theorem returns_list : ((main textsLibrary [] [Utf8.encode listLine]).hoist (onService onHost)).Returns
    [] (some [[.ofResult (.string "1") (toolDefinitions (offered textsLibrary echoTable))]]) := by
  obtain ⟨text, htext, hblank, hparse⟩ := isRequestLine_listLine
  have hserve : serve textsLibrary none (offered textsLibrary echoTable) [Utf8.encode listLine]
      = .done [[.ofResult (.string "1") (toolDefinitions (offered textsLibrary echoTable))]] := by
    rw [serve, htext]
    dsimp only
    rw [handleLine, if_neg hblank, hparse]
    dsimp only
    rw [handleRequest_list rfl]
    rfl
  have hoffer : served onHost (offer textsLibrary none [Utf8.encode listLine])
      = .done [[.ofResult (.string "1") (toolDefinitions (offered textsLibrary echoTable))]] := by
    rw [offer, served_bind, served_fetchProcTools]
    show served onHost (serve textsLibrary none (offered textsLibrary echoTable) _) = _
    rw [hserve]
    rfl
  rw [main, Program.hoist_bind]
  show (((offer textsLibrary none [Utf8.encode listLine]).inr >>= fun written =>
    Program.done (some written)).hoist (onService onHost)).Returns [] _
  rw [Program.hoist_bind, Program.hoist_inr]
  show (served onHost (offer textsLibrary none [Utf8.encode listLine]) >>= _).Returns [] _
  rw [hoffer]
  exact returns_done_iff.mpr ⟨rfl, rfl⟩

/-- A client of `echoTable` without a session lists the tools that are `offered`. -/
theorem offers_of_returns_list :
    ∃ (opening discovery : List (Event (TokenSig.sum onHost.sig))) (header : Option (List UInt8))
      (parts : List (Part onHost)),
      Opened onHost [] opening header ∧ rights discovery = [] ∧
      [] = opening ++ discovery ++ parts.flatMap Prod.fst ∧
      parts.map Prod.snd
        = [[.ofResult (.string "1") (toolDefinitions (offered textsLibrary echoTable))]] ∧
      List.Forall₂ (Offers textsLibrary echoTable (Kernel.HostExecutor.executor (.ofStr "/data"))
        (.ofStr "/logos") header) ([Utf8.encode listLine].take parts.length) parts ∧
      ∀ line, [Utf8.encode listLine][parts.length]? = some line → Utf8.decode? line = none :=
  offers_of_returns textsLibrary echoTable rfl (by decide) (by decide) _ _ [] [Utf8.encode listLine]
    returns_list

end List

end LogosFs.Mcp
