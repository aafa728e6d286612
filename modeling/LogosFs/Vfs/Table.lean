import LogosFs.Kernel.Validation
import LogosFs.Lib.Trace
import LogosFs.Lib.Upsert

/-! # The routing table

Namespaces are mounted and middlewares are added while the system boots; then the table is opened. A
request asks each middleware first, and a middleware may refuse it; it goes to the namespace that its
URI names; and what reached a namespace is told to each middleware, in order. `bracketed_of_run` says
so for any number of concurrent requests: whatever the middlewares and the namespaces answer, what a
middleware is told of are exactly the operations that reached a namespace, with their outcomes. -/

namespace LogosFs.Vfs

open Kernel (Operation)

/-- The name of an operation. -/
def verb : Operation → Str
  | .read => "read"
  | .write _ => "write"
  | .patch _ => "patch"

/-! ## The table -/

/-- What a request does at once, with namespaces and middlewares of some types. -/
inductive TableOp (ν μ : Type) where
  /-- Ask a middleware before an operation. -/
  | before (mw : μ) (uri : Str) (op : Operation)
  /-- Perform an operation on a path of a namespace. -/
  | perform (ns : ν) (path : List Str) (op : Operation)
  /-- Tell a middleware after an operation. -/
  | after (mw : μ) (verb uri : Str) (success : Bool)
  /-- Reply to the request. -/
  | reply (answer : Except VfsError Str)

/-- The operations of requests, and what they answer. -/
abbrev TableSig (ν μ : Type) : Signature where
  Op := TableOp ν μ
  Res
    | .before .. => Except VfsError Unit
    | .perform .. => Except VfsError Str
    | _ => Unit

/-- A part of a request that may fail. -/
abbrev TableM (ν μ α : Type) : Type := ExceptT VfsError (Program (TableSig ν μ)) α

/-- A routing table with the chain of its middlewares. -/
structure HookedTable (ν μ : Type) extends RoutingTable ν where
  /-- The middlewares, in the order they were added. -/
  middlewares : List μ

variable {ν μ : Type}

/-- Ask a middleware before an operation. -/
def beforeOp (uri : Str) (op : Operation) (mw : μ) : TableM ν μ Unit :=
  Program.attempt (Program.perform (S := TableSig ν μ) (.before mw uri op))

/-- Perform an operation on a path of a namespace. -/
def performOp (ns : ν) (path : List Str) (op : Operation) : TableM ν μ Str :=
  Program.attempt (Program.perform (S := TableSig ν μ) (.perform ns path op))

/-- Tell a middleware after an operation. -/
def afterOp (verb uri : Str) (success : Bool) (mw : μ) : TableM ν μ Unit :=
  liftM (Program.perform (S := TableSig ν μ) (.after mw verb uri success))

namespace HookedTable

/-- A table without namespaces and middlewares, not open. -/
def new : HookedTable ν μ where
  namespaces := fun _ => none
  isOpen := false
  middlewares := []

variable (name : ν → Str) (table : HookedTable ν μ)

/-- Mount a namespace under its name. -/
def mount (ns : ν) : HookedTable ν μ :=
  { table with namespaces := Function.update table.namespaces (name ns) (some ns) }

/-- Add a middleware to the chain. -/
def addMiddleware (mw : μ) : HookedTable ν μ :=
  { table with middlewares := table.middlewares ++ [mw] }

/-- Accept requests from now on. -/
def «open» : HookedTable ν μ := { table with isOpen := true }

/-- Perform an operation on a URI, between the hooks of the middlewares. A change answers with the
empty text. -/
def serve (rawUri : Str) (op : Operation) : TableM ν μ Str := do
  table.middlewares.forM (beforeOp rawUri op)
  match table.resolve rawUri with
  | .error e => throw e
  | .ok (ns, uri) =>
    let result ← Program.outcome (performOp ns uri.path op)
    table.middlewares.forM (afterOp (verb op) rawUri result.isOk)
    match result with
    | .ok text => return text
    | .error e => throw e

/-- Read a URI. -/
def read (rawUri : Str) : TableM ν μ Str := table.serve rawUri .read

/-- Write a content to a URI. -/
def write (rawUri content : Str) : TableM ν μ Str := table.serve rawUri (.write content)

/-- Patch a URI. -/
def patch (rawUri partialText : Str) : TableM ν μ Str := table.serve rawUri (.patch partialText)

/-- A request, up to its reply. -/
def request (asked : Str × Operation) : Program (TableSig ν μ) Unit :=
  (table.serve asked.1 asked.2).run >>= fun answer =>
    Program.perform (S := TableSig ν μ) (.reply answer)

end HookedTable

/-! ## Booting -/

/-- A step of the boot sequence. -/
inductive BootStep (ν μ : Type) where
  /-- A namespace is mounted. -/
  | mount (ns : ν)
  /-- A middleware is added. -/
  | addMiddleware (mw : μ)
  /-- The table is opened. -/
  | «open»

section Boot

variable (name : ν → Str)

/-- A table after a step. -/
def BootStep.after (table : HookedTable ν μ) : BootStep ν μ → HookedTable ν μ
  | .mount ns => table.mount name ns
  | .addMiddleware mw => table.addMiddleware mw
  | .open => table.open

/-- The table after some steps. -/
def boot (steps : List (BootStep ν μ)) : HookedTable ν μ := steps.foldl (BootStep.after name) .new

/-- The namespace that a step mounts. -/
def BootStep.mounted? : BootStep ν μ → Option ν
  | .mount ns => some ns
  | _ => none

/-- The middleware that a step adds. -/
def BootStep.added? : BootStep ν μ → Option μ
  | .addMiddleware mw => some mw
  | _ => none

/-- Whether a step opens the table. -/
def BootStep.isOpen : BootStep ν μ → Bool
  | .open => true
  | _ => false

/-- Where a URI leads after some steps: to the namespace that was mounted last under its name, once
the table is open. -/
def route (steps : List (BootStep ν μ)) (uri : Str) : Except VfsError (ν × LogosUri) :=
  if steps.any BootStep.isOpen then
    match Uri.parse uri with
    | .error e => .error e
    | .ok parsed =>
      match Upsert.last name (steps.filterMap BootStep.mounted?) parsed.ns with
      | none => .error (.namespaceNotMounted parsed.ns)
      | some ns => .ok (ns, parsed)
  else .error .notReady

/-- What `BootStep.after` makes of a table, step by step: it is open, has the middlewares and leads
to the namespaces of the steps, over its own. -/
theorem foldl_after (steps : List (BootStep ν μ)) (table : HookedTable ν μ) :
    (steps.foldl (BootStep.after name) table).isOpen = (table.isOpen || steps.any BootStep.isOpen) ∧
      (steps.foldl (BootStep.after name) table).middlewares
        = table.middlewares ++ steps.filterMap BootStep.added? ∧
      ∀ n, (steps.foldl (BootStep.after name) table).namespaces n
        = (Upsert.last name (steps.filterMap BootStep.mounted?) n).or (table.namespaces n) := by
  induction steps generalizing table with
  | nil => simp
  | cons step steps ih =>
    obtain ⟨hopen, hmws, hns⟩ := ih (step.after name table)
    rw [List.foldl_cons]
    refine ⟨?_, ?_, fun n => ?_⟩
    · rw [hopen]
      cases step <;> simp [BootStep.after, BootStep.isOpen, HookedTable.mount,
        HookedTable.addMiddleware, HookedTable.open]
    · rw [hmws]
      cases step with
      | mount ns => rfl
      | addMiddleware mw => exact List.append_assoc ..
      | «open» => rfl
    · rw [hns]
      cases step with
      | mount ns =>
        -- Later mounts come before this one, and this one before what was there.
        have hmounted : (BootStep.mount ns :: steps : List (BootStep ν μ)).filterMap BootStep.mounted?
            = [ns] ++ steps.filterMap BootStep.mounted? := rfl
        rw [hmounted, Upsert.last_append, Option.or_assoc, Upsert.last_singleton]
        congr 1
        show Function.update table.namespaces (name ns) (some ns) n = _
        by_cases hn : n = name ns
        · simp [hn]
        · simp [hn, Ne.symm hn]
      | addMiddleware mw => rfl
      | «open» => rfl

/-- The table that `boot` makes has the middlewares that its steps added, in order. -/
theorem middlewares_boot (steps : List (BootStep ν μ)) :
    (boot name steps).middlewares = steps.filterMap BootStep.added? :=
  (foldl_after name steps .new).2.1

/-- **After some steps** a URI leads where `route` says, to the namespace that was mounted last
under its name. -/
theorem resolve_boot (steps : List (BootStep ν μ)) (uri : Str) :
    (boot name steps).resolve uri = route name steps uri := by
  obtain ⟨hopen, -, hns⟩ := foldl_after name steps (.new : HookedTable ν μ)
  rw [RoutingTable.resolve, route, boot, hopen]
  cases hany : steps.any BootStep.isOpen with
  | false => rfl
  | true =>
    cases hparse : Uri.parse uri with
    | error e => rfl
    | ok parsed =>
      have hget := hns parsed.ns
      rw [show (HookedTable.new : HookedTable ν μ).namespaces parsed.ns = none from rfl,
        Option.or_none] at hget
      show (match (steps.foldl (BootStep.after name) HookedTable.new).namespaces parsed.ns with
        | none => _
        | some ns => _) = _
      rw [hget, if_pos rfl]
      dsimp only
      cases Upsert.last name (steps.filterMap BootStep.mounted?) parsed.ns <;> rfl

end Boot

/-! ## The hooks of a request -/

section Hooks

variable (mws : List μ) (uri : Str) (op : Operation)

/-- The middlewares have let an operation pass. -/
def passes : List (Event (TableSig ν μ)) := mws.map fun mw => ⟨.before mw uri op, .ok ()⟩

/-- The middlewares have been told of an operation. -/
def audits (success : Bool) : List (Event (TableSig ν μ)) :=
  mws.map fun mw => ⟨.after mw (verb op) uri success, ()⟩

/-- What happens in a request that is answered, with the middlewares and where its URI leads. -/
inductive Bracketed (led : Except VfsError (ν × LogosUri)) :
    List (Event (TableSig ν μ)) → Except VfsError Str → Prop
  /-- A middleware refuses the operation, after those before it have let it pass. -/
  | refused (earlier : List μ) (mw : μ) (later : List μ) (e : VfsError)
      (hmws : mws = earlier ++ mw :: later) :
      Bracketed led (passes earlier uri op ++ [⟨.before mw uri op, .error e⟩]) (.error e)
  /-- The URI does not lead anywhere. -/
  | lost (e : VfsError) (hled : led = .error e) : Bracketed led (passes mws uri op) (.error e)
  /-- A namespace performs the operation, and all middlewares are told of it. -/
  | served (ns : ν) (parsed : LogosUri) (answer : Except VfsError Str)
      (hled : led = .ok (ns, parsed)) :
      Bracketed led (passes mws uri op ++
        ⟨.perform ns parsed.path op, answer⟩ :: audits mws uri op answer.isOk) answer

variable {mws uri op} {events : List (Event (TableSig ν μ))}

/-- The hooks `beforeOp` of the middlewares let the operation pass, with the events `passes`, or
stop at the first refusal. -/
theorem returns_before_iff {result : Except VfsError Unit} :
    (mws.forM (beforeOp uri op) : TableM ν μ Unit).run.Returns events result ↔
      (events = passes mws uri op ∧ result = .ok ()) ∨
        ∃ earlier mw later e, mws = earlier ++ mw :: later ∧
          events = passes earlier uri op ++ [⟨.before mw uri op, .error e⟩] ∧ result = .error e := by
  induction mws generalizing events with
  | nil =>
    show (Program.done (Except.ok ())).Returns events result ↔ _
    constructor
    · intro h
      obtain ⟨rfl, rfl⟩ := Program.returns_done_iff.mp h
      exact .inl ⟨rfl, rfl⟩
    · rintro (⟨rfl, rfl⟩ | ⟨earlier, mw, later, e, hnil, -⟩)
      · exact .refl _
      · exact absurd hnil.symm (List.append_ne_nil_of_right_ne_nil _ (List.cons_ne_nil _ _))
  | cons mw mws ih =>
    show (beforeOp uri op mw >>= fun _ => mws.forM (beforeOp uri op)).run.Returns events result ↔ _
    rw [Program.returns_exceptBind_iff]
    -- The first middleware refuses, and nothing follows; or it lets pass, and the others decide.
    have hfirst : ∀ {first : List (Event (TableSig ν μ))} {answer : Except VfsError Unit},
        (beforeOp uri op mw : TableM ν μ Unit).run.Returns first answer ↔
          first = [⟨.before mw uri op, answer⟩] := Program.returns_perform_iff
    constructor
    · rintro (⟨e, hrefused, rfl⟩ | ⟨first, second, ⟨⟩, rfl, hpassed, hrest⟩)
      · exact .inr ⟨[], mw, mws, e, rfl, hfirst.mp hrefused, rfl⟩
      · rw [hfirst.mp hpassed]
        rcases ih.mp hrest with ⟨rfl, rfl⟩ | ⟨earlier, mw', later, e, rfl, rfl, rfl⟩
        · exact .inl ⟨rfl, rfl⟩
        · exact .inr ⟨mw :: earlier, mw', later, e, rfl, rfl, rfl⟩
    · rintro (⟨rfl, rfl⟩ | ⟨earlier, mw', later, e, hmws, rfl, rfl⟩)
      · exact .inr ⟨[_], passes mws uri op, (), rfl, hfirst.mpr rfl, ih.mpr (.inl ⟨rfl, rfl⟩)⟩
      · cases earlier with
        | nil =>
          obtain ⟨rfl, rfl⟩ := List.cons.inj hmws
          exact .inl ⟨e, hfirst.mpr rfl, rfl⟩
        | cons first earlier =>
          obtain ⟨rfl, rfl⟩ := List.cons.inj hmws
          exact .inr ⟨[_], _, (), rfl, hfirst.mpr rfl,
            ih.mpr (.inr ⟨earlier, mw', later, e, rfl, rfl, rfl⟩)⟩

/-- The hooks `afterOp` of the middlewares are all run, with the events `audits`. -/
theorem returns_after_iff {success : Bool} {result : Except VfsError Unit} :
    (mws.forM (afterOp (verb op) uri success) : TableM ν μ Unit).run.Returns events result ↔
      events = audits mws uri op success ∧ result = .ok () := by
  induction mws generalizing events with
  | nil =>
    show (Program.done (Except.ok ())).Returns events result ↔ _
    exact Program.returns_done_iff
  | cons mw mws ih =>
    show (afterOp (verb op) uri success mw >>= fun _ =>
      mws.forM (afterOp (verb op) uri success)).run.Returns events result ↔ _
    rw [Program.returns_exceptBind_iff]
    constructor
    · rintro (⟨e, hfirst, -⟩ | ⟨first, second, ⟨⟩, rfl, hfirst, hrest⟩)
      · obtain ⟨answer, herror, -⟩ := Program.returns_lift_iff.mp hfirst
        cases herror
      · obtain ⟨answer, -, rfl⟩ := Program.returns_lift_iff.mp hfirst
        obtain ⟨rfl, rfl⟩ := ih.mp hrest
        exact ⟨rfl, rfl⟩
    · rintro ⟨rfl, rfl⟩
      exact .inr ⟨[_], audits mws uri op success, (), rfl,
        Program.returns_lift_iff.mpr ⟨(), rfl, rfl⟩, ih.mpr ⟨rfl, rfl⟩⟩

/-- **A request is bracketed by the hooks**: `serve` returns `answer` exactly with events that are
`Bracketed` by the middlewares. -/
theorem returns_serve_iff {table : HookedTable ν μ} {answer : Except VfsError Str} :
    (table.serve uri op).run.Returns events answer ↔
      Bracketed table.middlewares uri op (table.resolve uri) events answer := by
  rw [HookedTable.serve, Program.returns_exceptBind_iff]
  constructor
  · rintro (⟨e, hrefused, rfl⟩ | ⟨first, second, ⟨⟩, rfl, hpassed, hrest⟩)
    · rcases returns_before_iff.mp hrefused with ⟨-, herror⟩ | ⟨earlier, mw, later, e', hmws, rfl, he⟩
      · cases herror
      · cases he
        exact .refused earlier mw later e hmws
    · rcases returns_before_iff.mp hpassed with ⟨rfl, -⟩ | ⟨-, -, -, e, -, -, herror⟩
      · cases hled : table.resolve uri with
        | error e =>
          rw [hled] at hrest
          obtain ⟨rfl, rfl⟩ := Program.returns_done_iff.mp hrest
          rw [List.append_nil]
          exact .lost e rfl
        | ok found =>
          obtain ⟨ns, parsed⟩ := found
          rw [hled] at hrest
          rcases Program.returns_exceptBind_iff.mp hrest with
            ⟨e, houtcome, rfl⟩ | ⟨performed, told, result, rfl, houtcome, htold⟩
          · obtain ⟨outcome, herror, -⟩ := Program.returns_outcome_iff.mp houtcome
            cases herror
          · obtain ⟨outcome, hok, hperform⟩ := Program.returns_outcome_iff.mp houtcome
            cases hok
            obtain rfl := Program.returns_perform_iff.mp hperform
            -- The hooks after the operation come last, and the answer is that of the namespace.
            rcases Program.returns_exceptBind_iff.mp htold with
              ⟨e, hafter, rfl⟩ | ⟨audited, rest, ⟨⟩, rfl, hafter, hlast⟩
            · cases (returns_after_iff.mp hafter).2
            · obtain ⟨rfl, -⟩ := returns_after_iff.mp hafter
              have hanswer : rest = [] ∧ answer = result := by
                cases result with
                | ok text => exact Program.returns_done_iff.mp hlast
                | error e => exact Program.returns_done_iff.mp hlast
              obtain ⟨rfl, rfl⟩ := hanswer
              rw [List.append_nil]
              exact .served ns parsed answer rfl
      · cases herror
  · intro h
    cases h with
    | refused earlier mw later e hmws =>
      exact .inl ⟨e, returns_before_iff.mpr (.inr ⟨earlier, mw, later, e, hmws, rfl, rfl⟩), rfl⟩
    | lost e hled =>
      refine .inr ⟨_, [], (), (List.append_nil _).symm, returns_before_iff.mpr (.inl ⟨rfl, rfl⟩), ?_⟩
      rw [hled]
      exact .refl _
    | served ns parsed answer hled =>
      refine .inr ⟨_, _, (), rfl, returns_before_iff.mpr (.inl ⟨rfl, rfl⟩), ?_⟩
      rw [hled]
      refine Program.returns_exceptBind_iff.mpr (.inr ⟨[_], _, answer, rfl, ?_, ?_⟩)
      · exact Program.returns_outcome_iff.mpr ⟨answer, rfl, Program.returns_perform_iff.mpr rfl⟩
      · refine Program.returns_exceptBind_iff.mpr (.inr ⟨_, [], (), (List.append_nil _).symm,
          returns_after_iff.mpr ⟨rfl, rfl⟩, ?_⟩)
        cases answer <;> exact .refl _

end Hooks

/-! ## Concurrent requests -/

section Audit

variable [DecidableEq μ]

/-- What an event tells a middleware: an operation, its URI, and whether it succeeded. -/
def told? (mw : μ) (event : Event (TableSig ν μ)) : Option (Str × Str × Bool) :=
  match event.op with
  | .after mw' verb uri success => if mw' = mw then some (verb, uri, success) else none
  | _ => none

/-- The operation on a URI that an event performs, and whether it succeeds. -/
def served? (uri : Str) (event : Event (TableSig ν μ)) : Option (Str × Str × Bool) :=
  match event with
  | ⟨.perform _ _ op, answer⟩ => some (verb op, uri, answer.isOk)
  | _ => none

variable (mws : List μ) (uri : Str) (op : Operation)

/-- In `passes` a middleware is told nothing about how the operation went. -/
theorem filterMap_told?_passes (mw : μ) :
    (passes mws uri op : List (Event (TableSig ν μ))).filterMap (told? mw) = [] := by
  simp [passes, told?]

omit [DecidableEq μ] in
/-- In `passes` nothing is served. -/
theorem filterMap_served?_passes (uri' : Str) :
    (passes mws uri op : List (Event (TableSig ν μ))).filterMap (served? uri') = [] := by
  simp [passes, served?]

omit [DecidableEq μ] in
/-- In `audits` nothing is served. -/
theorem filterMap_served?_audits (uri' : Str) (success : Bool) :
    (audits mws uri op success : List (Event (TableSig ν μ))).filterMap (served? uri') = [] := by
  simp [audits, served?]

/-- In `audits` a middleware is told of the operation as often as it was added. -/
theorem filterMap_told?_audits (mw : μ) (success : Bool) :
    (audits mws uri op success : List (Event (TableSig ν μ))).filterMap (told? mw)
      = List.replicate (mws.count mw) (verb op, uri, success) := by
  induction mws with
  | nil => rfl
  | cons mw' mws ih =>
    rw [audits, List.map_cons, List.filterMap_cons, ← audits, ih, List.count_cons]
    by_cases hmw : mw' = mw
    · simp [told?, hmw, List.replicate_succ]
    · simp [told?, hmw]

variable {mws uri op}

/-- In a request that is `Bracketed` a middleware is told of what a namespace performed, as often as
it was added. -/
theorem Bracketed.told_eq {led : Except VfsError (ν × LogosUri)} {events : List (Event (TableSig ν μ))}
    {answer : Except VfsError Str} (h : Bracketed mws uri op led events answer) (mw : μ) :
    events.filterMap (told? mw)
      = (events.filterMap (served? uri)).flatMap (List.replicate (mws.count mw)) := by
  cases h with
  | refused earlier mw' later e hmws =>
    rw [List.filterMap_append, List.filterMap_append, filterMap_told?_passes, filterMap_served?_passes]
    rfl
  | lost e hled =>
    rw [filterMap_told?_passes, filterMap_served?_passes]
    rfl
  | served ns parsed answer hled =>
    have htold : told? mw (⟨.perform ns parsed.path op, answer⟩ : Event (TableSig ν μ)) = none := rfl
    have hserved : served? uri (⟨.perform ns parsed.path op, answer⟩ : Event (TableSig ν μ))
        = some (verb op, uri, answer.isOk) := rfl
    rw [List.filterMap_append, List.filterMap_append, filterMap_told?_passes, filterMap_served?_passes,
      List.filterMap_cons, List.filterMap_cons, htold, hserved]
    dsimp only
    rw [filterMap_told?_audits, filterMap_served?_audits, List.nil_append, List.nil_append,
      List.flatMap_singleton]

variable {σ : Type} (h : Handler (TableSig ν μ) σ) (requests : List (Str × Operation))

/-- A move, with the answer that it got. -/
def eventOf (move : Move (TableSig ν μ) σ) : Event (TableSig ν μ) :=
  ⟨move.op, (h move.op move.before.state).1⟩

/-- What a middleware has been told of. -/
def toldIn (mw : μ) (moves : List (Move (TableSig ν μ) σ)) : List (Str × Str × Bool) :=
  moves.filterMap fun move => told? mw (eventOf h move)

/-- The operations that have been performed for some requests. -/
def servedIn (moves : List (Move (TableSig ν μ) σ)) : List (Str × Str × Bool) :=
  moves.filterMap fun move => requests[move.thread]?.bind fun asked =>
    served? asked.1 (eventOf h move)

/-- A request has been replied to, and was bracketed by the hooks. -/
def Replied (mws : List μ) (led : Except VfsError (ν × LogosUri)) (asked : Str × Operation)
    (events : List (Event (TableSig ν μ))) : Prop :=
  ∃ before answer, events = before ++ [⟨.reply answer, ()⟩] ∧
    Bracketed mws asked.1 asked.2 led before answer

variable {h requests} {table : HookedTable ν μ} {s : σ} {moves : List (Move (TableSig ν μ) σ)}
  {c : Config (TableSig ν μ) σ}

omit [DecidableEq μ] in
/-- A request whose thread is `.done` has been `Replied` to. -/
theorem replied_of_done (run : Interleaving h ⟨requests.map table.request, s⟩ moves c) {i : Nat}
    {asked : Str × Operation} (hasked : requests[i]? = some asked)
    (hdone : c.threads[i]? = some (.done ())) :
    Replied table.middlewares (table.resolve asked.1) asked (trace h i moves) := by
  have hthread : (requests.map table.request)[i]? = some (table.request asked) := by
    rw [List.getElem?_map, hasked, Option.map_some]
  obtain ⟨q, hq, hfollows⟩ := run.follows hthread
  rw [hdone, Option.some_inj] at hq
  subst hq
  obtain ⟨before, last, answer, hevents, hserve, hreply⟩ := Program.Returns.bind_cases hfollows
  refine ⟨before, answer, ?_, returns_serve_iff.mp hserve⟩
  rw [hevents, Program.returns_perform_iff.mp hreply]

/-- A middleware has been told of what was performed for a request that was `Replied` to, as often
as it was added. -/
theorem Replied.told_eq {mws : List μ} {led : Except VfsError (ν × LogosUri)} {asked : Str × Operation}
    {events : List (Event (TableSig ν μ))} (hreplied : Replied mws led asked events) (mw : μ) :
    events.filterMap (told? mw)
      = (events.filterMap (served? asked.1)).flatMap (List.replicate (mws.count mw)) := by
  obtain ⟨before, answer, rfl, hbracketed⟩ := hreplied
  rw [List.filterMap_append, List.filterMap_append, hbracketed.told_eq mw, List.flatMap_append]
  rfl

/-- When all requests are over, `toldIn` of a middleware is, up to the order, `servedIn` as often as
it was added. -/
theorem perm_told_served (run : Interleaving h ⟨requests.map table.request, s⟩ moves c)
    (hfinished : c.Finished) (mw : μ) : (toldIn h mw moves).Perm
      ((servedIn h requests moves).flatMap (List.replicate (table.middlewares.count mw))) := by
  have hthreads := perm_flatMap_threads moves run.thread_lt
  rw [List.length_map] at hthreads
  refine (hthreads.filterMap _).trans ?_
  refine .trans ?_ ((hthreads.filterMap _).flatMap_right _).symm
  rw [List.filterMap_flatMap, List.filterMap_flatMap, List.flatMap_assoc]
  refine .of_eq (List.flatMap_congr fun i hi => ?_)
  -- The moves of one thread are those of its request.
  have hlt := List.mem_range.mp hi
  have hasked := List.getElem?_eq_getElem hlt
  have hdone : c.threads[i]? = some (.done ()) := by
    have hlength : i < c.threads.length := by
      rw [run.length_threads, List.length_map]
      exact hlt
    rw [List.getElem?_eq_getElem hlength, hfinished _ (List.getElem_mem hlength)]
  have htold := (replied_of_done run hasked hdone).told_eq mw
  rw [trace, List.filterMap_map, List.filterMap_map] at htold
  refine htold.trans (congrArg (List.flatMap _) (List.filterMap_congr fun move hmove => ?_))
  rw [of_decide_eq_true (List.mem_filter.mp hmove).2, hasked]
  rfl

end Audit

/-- **The table brackets its requests**, after every boot sequence and however many `requests` run
at the same time: a request that is over was `Replied` to, that is, let pass by the middlewares in
the order they were added, up to the first refusal, and served by the namespace that was mounted
last under its name, once the table was open; and when all requests are over, each middleware has
been told of exactly what the namespaces performed. -/
theorem bracketed_of_run {σ : Type} [DecidableEq μ] (name : ν → Str) (steps : List (BootStep ν μ))
    (requests : List (Str × Operation)) {h : Handler (TableSig ν μ) σ} {s : σ}
    {moves : List (Move (TableSig ν μ) σ)} {c : Config (TableSig ν μ) σ}
    (run : Interleaving h ⟨requests.map (boot name steps).request, s⟩ moves c) :
    (∀ i asked, requests[i]? = some asked → c.threads[i]? = some (.done ()) →
      Replied (steps.filterMap BootStep.added?) (route name steps asked.1) asked (trace h i moves)) ∧
    (c.Finished → ∀ mw, (toldIn h mw moves).Perm ((servedIn h requests moves).flatMap
      (List.replicate ((steps.filterMap BootStep.added?).count mw)))) := by
  constructor
  · intro i asked hasked hdone
    rw [← middlewares_boot name, ← resolve_boot]
    exact replied_of_done run hasked hdone
  · intro hfinished mw
    rw [← middlewares_boot name]
    exact perm_told_served run hfinished mw

namespace Trial

/-- Two namespaces and two middlewares. -/
def steps : List (BootStep Str Nat) :=
  [.addMiddleware 1, .mount "users", .addMiddleware 2, .mount "tmp", .open]

/-- A read of what is mounted, a change, and a read of what is not mounted. -/
def requests : List (Str × Operation) :=
  [("logos://tmp/a", .read), ("logos://tmp/a", .write "x"), ("logos://memory/a", .read)]

/-- The second middleware refuses changes, and a namespace answers with its name. -/
def handler : Handler (TableSig Str Nat) Unit
  | .before mw _ op, s => (if mw = 2 ∧ op ≠ .read then .error (.invalidPath "read-only") else .ok (), s)
  | .perform ns _ _, s => (.ok ns, s)
  | .after .., s => ((), s)
  | .reply _, s => ((), s)

/-- The requests, one after another and then at the same time. -/
def played : List (Move (TableSig Str Nat) Unit) × Config (TableSig Str Nat) Unit :=
  Config.play handler ⟨requests.map (boot id steps).request, ()⟩ [0, 1, 2, 0, 2, 1, 0, 0, 0, 0, 1, 2]

end Trial

/-- The three requests of `Trial` run at the same time, one of which is refused and one of which
leads nowhere. -/
theorem bracketed_of_run_trial :
    (∀ i asked, Trial.requests[i]? = some asked → Trial.played.2.threads[i]? = some (.done ()) →
      Replied [1, 2] (route id Trial.steps asked.1) asked (trace Trial.handler i Trial.played.1)) ∧
    (Trial.played.2.Finished → ∀ mw, (toldIn Trial.handler mw Trial.played.1).Perm
      ((servedIn Trial.handler Trial.requests Trial.played.1).flatMap
        (List.replicate ([1, 2].count mw)))) :=
  bracketed_of_run id Trial.steps Trial.requests (Interleaving.of_play Trial.handler _ _)

end LogosFs.Vfs
