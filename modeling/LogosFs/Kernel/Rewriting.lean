import LogosFs.Kernel.Commands

/-! # Which URIs of a command are rewritten

A command is to have the URIs of its own task replaced by paths, and nothing else but the prefixes of
the services. The code replaces texts instead, three times in a row, whatever comes after them and
whatever the replacements before have put together. `Clean` says of a command, read from left to right,
that this makes no difference, and `execution_command_iff_clean` that it makes one everywhere else. -/

namespace LogosFs.Kernel

/-! ## What is to be rewritten -/

/-- A character of the ids of tasks. -/
def isTaskIdChar (c : Char) : Bool := c.isAlphanum || c = '-' || c = '_' || c = '.'

/-- What follows the URI of a task's own sandbox, if the text starts with one: the id is the longest
run of its characters after the prefix. -/
def afterOwnUri? (taskId s : Str) : Option Str :=
  (Str.stripPrefix "logos://sandbox/" s).bind fun rest =>
    if rest.takeWhile isTaskIdChar = taskId then some (rest.dropWhile isTaskIdChar) else none

/-- What `afterOwnUri?` leaves of a text is shorter than the text. -/
theorem length_of_afterOwnUri? {taskId s rest : Str} (h : afterOwnUri? taskId s = some rest) :
    rest.length < s.length := by
  obtain ⟨tail, htail, hrest⟩ := Option.bind_eq_some_iff.mp h
  rw [Str.stripPrefix_eq_some_iff] at htail
  split at hrest
  · rw [← Option.some_inj.mp hrest, htail, List.length_append]
    have hle := (List.dropWhile_suffix isTaskIdChar (l := tail)).length_le
    have hpos : 0 < "logos://sandbox/".toList.length := by decide
    omega
  · cases hrest

/-- What `Str.stripPrefix pre` leaves is shorter than the text, as `pre` is not empty. -/
theorem length_of_stripPrefix {pre s rest : Str} (hpre : pre ≠ [])
    (h : Str.stripPrefix pre s = some rest) : rest.length < s.length := by
  rw [Str.stripPrefix_eq_some_iff] at h
  have hpos := List.length_pos_iff.mpr hpre
  rw [h, List.length_append]
  omega

/-- **The command as it is to be**: the URIs of the task's own sandbox become paths below
`/workspace`, the prefixes of the services become `services`, and everything else stays. -/
def rewriteOwn (taskId services : Str) : Str → Str
  | [] => []
  | c :: s =>
    match _hown : afterOwnUri? taskId (c :: s) with
    | some rest => containerWorkdir ++ "/" ++ taskId ++ rewriteOwn taskId services rest
    | none =>
      match _hservices : Str.stripPrefix "logos://services/" (c :: s) with
      | some rest => services ++ rewriteOwn taskId services rest
      | none => c :: rewriteOwn taskId services s
termination_by s => s.length
decreasing_by
  · exact length_of_afterOwnUri? _hown
  · exact length_of_stripPrefix (by decide) _hservices
  · exact Nat.lt_succ_self _

/-! ## What is rewritten -/

section Rewritten

variable (taskId : Str)

/-- The text that the code takes for the URI of the task's own sandbox. -/
def ownUri : Str := "logos://sandbox/" ++ taskId

/-- The directory of the task. -/
def taskWorkspace : Str := containerWorkdir ++ "/" ++ taskId

/-- After such a text, something comes that together with an end of the id makes one with a separator
after it, which is replaced first. -/
def Torn (rest : Str) : Prop :=
  ∃ ending, ending ≠ [] ∧ ending <:+ taskId ∧ ownUri taskId ++ ['/'] <+: ending ++ rest

/-- The text starts with something that the code replaces: an own URI, whatever comes after it, or one
that only comes about when what follows `logos://sandbox` has been replaced. -/
def Rewritten (s : Str) : Prop :=
  (∃ rest, s = ownUri taskId ++ rest ∧ ¬Torn taskId rest) ∨
    taskId <+: "workspace" ∧ "logos://sandbox".toList ++ (ownUri taskId ++ ['/']) <+: s

/-- After `logos`, the text makes a prefix of the services, or will when what follows has been
replaced. -/
def OpensServices (s : Str) : Prop :=
  ∃ rest, s = "://services" ++ rest ∧ (['/'] <+: rest ∨ Rewritten taskId rest)

/-- **The command is rewritten as it is to be**, read from left to right. -/
inductive Clean : Str → Prop
  /-- Nothing is left. -/
  | nil : Clean []
  /-- An own URI. It is not torn, and its end does not become a part of a prefix of the services. -/
  | own {s rest : Str} (own : afterOwnUri? taskId s = some rest) (whole : ¬Torn taskId rest)
    (apart : "logos".toList <:+ taskId → ¬OpensServices taskId rest) (clean : Clean rest) : Clean s
  /-- A prefix of the services. -/
  | services {rest : Str} (clean : Clean rest) : Clean ("logos://services/" ++ rest)
  /-- Anything else. Nothing is replaced there, and it does not become a prefix of the services. -/
  | other {c : Char} {s : Str} (other : afterOwnUri? taskId (c :: s) = none)
    (kept : ¬Rewritten taskId (c :: s))
    (apart : ∀ rest, c :: s = "logos" ++ rest → ¬OpensServices taskId rest) (clean : Clean s) :
    Clean (c :: s)

/-- What the code makes of the URIs of the task's own sandbox. -/
def rewriteSandbox (s : Str) : Str :=
  Str.replace (ownUri taskId) (taskWorkspace taskId)
    (Str.replace (ownUri taskId ++ "/") (taskWorkspace taskId ++ "/") s)

end Rewritten

/-! ## Where a prefix can start -/

section Starts

/-- What comes before the first colon of a URI is the end of `logos`. -/
theorem exists_scheme_rest {front s : Str} (hfront : ':' ∉ front) (h : "logos:".toList <+: front ++ s) :
    ∃ rest, "logos".toList = front ++ rest ∧ rest ++ [':'] <+: s := by
  obtain ⟨tail, htail⟩ := h
  have hcolon : "logos:".toList = "logos".toList ++ [':'] := by decide
  rcases List.append_eq_append_iff.mp htail with ⟨later, rfl, -⟩ | ⟨rest, hscheme, rfl⟩
  · exact absurd (List.mem_append_left later (by decide)) hfront
  · rcases List.eq_nil_or_concat rest with rfl | ⟨init, last, rfl⟩
    · rw [List.append_nil] at hscheme
      exact absurd (hscheme ▸ (by decide : ':' ∈ "logos:".toList)) hfront
    · rw [hcolon, List.concat_eq_append, ← List.append_assoc] at hscheme
      obtain ⟨hlogos, hlast⟩ := List.append_inj' hscheme rfl
      rw [← List.singleton_inj.mp hlast]
      refine ⟨init, hlogos, ?_⟩
      rw [List.concat_eq_append]
      exact List.prefix_append _ _

/-- No URI starts before a separator: `logos:` is no prefix of `front ++ '/' :: s` if `front` has no
colon. -/
theorem not_scheme_prefix_slash {front : Str} (hfront : ':' ∉ front) (s : Str) :
    ¬"logos:".toList <+: front ++ '/' :: s := by
  intro h
  obtain ⟨rest, hrest, hprefix⟩ := exists_scheme_rest hfront h
  rcases rest with _ | ⟨c, rest⟩
  · exact absurd (List.cons_prefix_cons.mp hprefix).1 (by decide)
  · have hc : c ∈ "logos".toList := hrest ▸ List.mem_append_right front List.mem_cons_self
    rw [(List.cons_prefix_cons.mp hprefix).1] at hc
    exact absurd hc (by decide)

/-- No URI starts right before a URI: `logos:` is no prefix of `front ++ "logos:" ++ s` if `front`
is not empty and has no colon. -/
theorem not_scheme_prefix_scheme {front : Str} (hne : front ≠ []) (hfront : ':' ∉ front) (s : Str) :
    ¬"logos:".toList <+: front ++ ("logos:".toList ++ s) := by
  intro h
  obtain ⟨rest, hrest, hprefix⟩ := exists_scheme_rest hfront h
  obtain ⟨d, front, rfl⟩ := List.exists_cons_of_ne_nil hne
  -- What is left of `logos` has no `l` in it.
  have hlogos : "ogos".toList = front ++ rest := (List.cons.inj hrest).2
  rcases rest with _ | ⟨c, rest⟩
  · exact absurd (List.cons_prefix_cons.mp hprefix).1 (by decide)
  · have hc : c ∈ "ogos".toList := hlogos ▸ List.mem_append_right front List.mem_cons_self
    rw [(List.cons_prefix_cons.mp hprefix).1] at hc
    exact absurd hc (by decide)

/-- No URI starts in a text without an `l`. -/
theorem not_scheme_prefix_of_notMem {front : Str} (hne : front ≠ []) (hfront : 'l' ∉ front) (s : Str) :
    ¬"logos:".toList <+: front ++ s := by
  intro h
  obtain ⟨c, front, rfl⟩ := List.exists_cons_of_ne_nil hne
  have hc := (List.cons_prefix_cons.mp h).1
  exact hfront (hc ▸ List.mem_cons_self)

/-- If `front ++ s` is `first ++ back`, then `back` is a suffix of `s`, or all of `s` with a
non-empty suffix of `front` before it. -/
theorem back_cases {front s first back : Str} (h : front ++ s = first ++ back) :
    back <:+ s ∨ ∃ middle, middle ≠ [] ∧ middle <:+ front ∧ back = middle ++ s := by
  rcases List.append_eq_append_iff.mp h with ⟨later, -, hs⟩ | ⟨middle, hfront, hback⟩
  · exact .inl ⟨later, hs.symm⟩
  · rcases eq_or_ne middle [] with rfl | hne
    · exact .inl (hback ▸ List.suffix_refl _)
    · exact .inr ⟨middle, hne, ⟨first, hfront.symm⟩, hback⟩

/-- An own URI starts with the scheme `logos:`. -/
theorem scheme_prefix_ownUri (taskId : Str) : "logos:".toList <+: ownUri taskId := by
  have hscheme : "logos:".toList <+: "logos://sandbox/".toList := by decide
  unfold ownUri
  exact hscheme.trans (List.prefix_append _ _)

/-- A text that is `Rewritten` starts with the scheme `logos:`. -/
theorem scheme_prefix_of_rewritten {taskId s : Str} (h : Rewritten taskId s) :
    "logos:".toList <+: s := by
  rcases h with ⟨rest, rfl, -⟩ | ⟨-, h⟩
  · exact (scheme_prefix_ownUri taskId).trans (List.prefix_append _ _)
  · have hscheme : "logos:".toList <+: "logos://sandbox".toList := by decide
    exact (hscheme.trans (List.prefix_append _ _)).trans h

/-- Nothing is rewritten where no `l` is. -/
theorem not_rewritten_cons {taskId : Str} {c : Char} (hc : c ≠ 'l') (s : Str) :
    ¬Rewritten taskId (c :: s) :=
  fun h => hc (List.cons_prefix_cons.mp (scheme_prefix_of_rewritten h)).1.symm

/-- The prefix of the services starts with the scheme `logos:`. -/
theorem scheme_prefix_services : "logos:".toList <+: "logos://services/".toList := by decide

/-- No id of a task has a colon in it: a colon is no `isTaskIdChar`. -/
theorem colon_notMem {taskId : Str} (hid : ∀ c ∈ taskId, isTaskIdChar c = true) : ':' ∉ taskId :=
  fun h => absurd (hid ':' h) (by decide)

/-- No id of a task has a separator in it: a separator is no `isTaskIdChar`. -/
theorem slash_notMem {taskId : Str} (hid : ∀ c ∈ taskId, isTaskIdChar c = true) : '/' ∉ taskId :=
  fun h => absurd (hid '/' h) (by decide)

/-- `ownUri taskId` starts with an `l`. -/
theorem ownUri_eq_cons (taskId : Str) :
    ownUri taskId = 'l' :: ("ogos://sandbox/".toList ++ taskId) := by
  have hscheme : "logos://sandbox/".toList = 'l' :: "ogos://sandbox/".toList := by decide
  unfold ownUri
  rw [hscheme, List.cons_append]

/-- `logos://sandbox` starts with an `l`. -/
theorem scheme_eq_cons : "logos://sandbox".toList = 'l' :: "ogos://sandbox".toList := by decide

/-- `ownUri taskId` is `logos://sandbox`, a separator and the id. -/
theorem ownUri_eq_scheme (taskId : Str) :
    ownUri taskId = "logos://sandbox".toList ++ '/' :: taskId := by
  have hscheme : "logos://sandbox/".toList = "logos://sandbox".toList ++ ['/'] := by decide
  unfold ownUri
  rw [hscheme, List.append_assoc, List.singleton_append]

/-- An own URI is not the beginning of the text that has one after `logos://sandbox`. -/
theorem not_ownUri_prefix_ownUri (taskId rest : Str) : ¬ownUri taskId ++ ['/'] <+:
    'l' :: ("ogos://sandbox".toList ++ ((ownUri taskId ++ ['/']) ++ rest)) := by
  intro hstart
  rw [← List.cons_append, ← scheme_eq_cons] at hstart
  have hsep : ownUri taskId ++ ['/'] = "logos://sandbox".toList ++ '/' :: (taskId ++ ['/']) := by
    rw [ownUri_eq_scheme, List.append_assoc, List.cons_append]
  rw [hsep, List.prefix_append_right_inj, scheme_eq_cons] at hstart
  exact absurd (List.cons_prefix_cons.mp hstart).1 (by decide)

/-- `taskWorkspace taskId` is `/workspace/` and the id. -/
theorem taskWorkspace_eq (taskId : Str) :
    taskWorkspace taskId = "/workspace/".toList ++ taskId := by
  have hdir : containerWorkdir ++ "/".toList = "/workspace/".toList := by decide
  rw [taskWorkspace, hdir]

/-- `ownUri taskId` is not empty. -/
theorem ownUri_ne_nil (taskId : Str) : ownUri taskId ≠ [] := by
  rw [ownUri_eq_cons]
  exact List.cons_ne_nil _ _

end Starts

/-! ## What the code makes of the own URIs -/

section Sandbox

variable {taskId : Str} (hid : ∀ c ∈ taskId, isTaskIdChar c = true)

include hid in
/-- Nothing is replaced within `taskWorkspace taskId ++ "/"`, which has been put in: it has no
`ownUri` in it. -/
theorem replace_workspace_append (s : Str) :
    Str.replace (ownUri taskId) (taskWorkspace taskId) (taskWorkspace taskId ++ '/' :: s)
      = taskWorkspace taskId ++ '/' :: Str.replace (ownUri taskId) (taskWorkspace taskId) s := by
  have hcolon : ':' ∉ taskWorkspace taskId := by
    rw [taskWorkspace_eq, List.mem_append, not_or]
    exact ⟨by decide, colon_notMem hid⟩
  have hkeep : Str.replace (ownUri taskId) (taskWorkspace taskId) ((taskWorkspace taskId ++ ['/']) ++ s)
      = (taskWorkspace taskId ++ ['/']) ++ Str.replace (ownUri taskId) (taskWorkspace taskId) s := by
    refine Str.replace_append_of_no_start fun first back hsplit hback hstart => ?_
    -- The rest of the path ends with the separator.
    obtain ⟨init, last, rfl⟩ := (List.eq_nil_or_concat back).resolve_left hback
    rw [List.concat_eq_append, ← List.append_assoc] at hsplit
    obtain ⟨hinit, hlast⟩ := List.append_inj' hsplit rfl
    rw [List.concat_eq_append, ← hlast, List.append_assoc, List.singleton_append] at hstart
    refine not_scheme_prefix_slash (fun hmem => hcolon ?_) s
      ((scheme_prefix_ownUri taskId).trans hstart)
    rw [hinit]
    exact List.mem_append_right first hmem
  rwa [List.append_assoc, List.append_assoc, List.singleton_append, List.singleton_append] at hkeep

include hid in
/-- An own URI with a separator after it is not `Torn`. -/
theorem not_torn_slash (s : Str) : ¬Torn taskId ('/' :: s) := by
  rintro ⟨ending, -, hending, hstart⟩
  exact not_scheme_prefix_slash (fun hmem => colon_notMem hid (hending.subset hmem)) s
    ((scheme_prefix_ownUri taskId).trans ((List.prefix_append _ _).trans hstart))

/-- What comes before an own URI stays in `Str.replace`, if no other one starts in it. -/
theorem replace_append_ownUri {front id : Str} (hl : 'l' ∉ front) (hid : ':' ∉ id) (s : Str) :
    Str.replace (ownUri taskId ++ ['/']) (taskWorkspace taskId ++ ['/'])
        ((front ++ id) ++ ((ownUri taskId ++ ['/']) ++ s)) = (front ++ id) ++
      ((taskWorkspace taskId ++ ['/']) ++
        Str.replace (ownUri taskId ++ ['/']) (taskWorkspace taskId ++ ['/']) s) := by
  have hscheme := (scheme_prefix_ownUri taskId).trans (List.prefix_append _ ['/'])
  rw [Str.replace_append_of_no_start, Str.replace_append
    (List.append_ne_nil_of_left_ne_nil (ownUri_ne_nil taskId) _)]
  intro first back hsplit hback hstart
  replace hstart := hscheme.trans hstart
  rcases back_cases hsplit with hsuffix | ⟨middle, hmiddle, hfront, rfl⟩
  · obtain ⟨tail, htail⟩ := hscheme
    rw [← htail, List.append_assoc] at hstart
    exact not_scheme_prefix_scheme hback (fun hmem => hid (hsuffix.subset hmem)) _ hstart
  · rw [List.append_assoc] at hstart
    exact not_scheme_prefix_of_notMem hmiddle (fun hmem => hl (hfront.subset hmem)) _ hstart

/-- In `ogos://sandbox/`, what follows a separator does not go on with a `w`. -/
theorem eq_nil_of_scheme_split {first rest : Str}
    (h : "ogos://sandbox/".toList = first ++ '/' :: rest) (hw : rest = [] ∨ rest.head? = some 'w') :
    rest = [] ∧ first = "ogos://sandbox".toList := by
  have hall : ∀ n < 15, ("ogos://sandbox/".toList.drop n).head? = some '/' →
      ("ogos://sandbox/".toList.drop (n + 1) = [] ∨
        ("ogos://sandbox/".toList.drop (n + 1)).head? = some 'w') → n = 14 := by decide
  have hlength := congrArg List.length h
  rw [List.length_append, List.length_cons] at hlength
  have hlong : "ogos://sandbox/".toList.length = 15 := by decide
  have hdrop : "ogos://sandbox/".toList.drop first.length = '/' :: rest := by
    rw [h, List.drop_left]
  have hnext : "ogos://sandbox/".toList.drop (first.length + 1) = rest := by
    rw [← List.drop_drop, hdrop]
    rfl
  have hlast := hall first.length (by omega) (by rw [hdrop]; rfl) (hnext ▸ hw)
  refine ⟨List.eq_nil_of_length_eq_zero (by omega), ?_⟩
  have htake : "ogos://sandbox/".toList.take first.length = first := by
    rw [h, List.take_left]
  rw [← htake, hlast]
  decide

include hid in
/-- **Where nothing is `Rewritten` the character stays**, and `rewriteSandbox` goes on with the
rest. -/
theorem rewriteSandbox_cons {c : Char} {s : Str} (hkept : ¬Rewritten taskId (c :: s)) :
    rewriteSandbox taskId (c :: s) = c :: rewriteSandbox taskId s := by
  have hslash : "/".toList = ['/'] := by decide
  rw [rewriteSandbox, rewriteSandbox, hslash]
  have hfirst : ¬ownUri taskId ++ ['/'] <+: c :: s := by
    rintro ⟨rest, hrest⟩
    rw [List.append_assoc, List.singleton_append] at hrest
    exact hkept (.inl ⟨_, hrest.symm, not_torn_slash hid rest⟩)
  rw [Str.replace_cons hfirst]
  refine Str.replace_cons fun hsecond => ?_
  rw [ownUri_eq_cons, List.cons_prefix_cons] at hsecond
  obtain ⟨rfl, hsecond⟩ := hsecond
  have hne := List.append_ne_nil_of_left_ne_nil (ownUri_ne_nil taskId) ['/']
  rcases Str.prefix_replace_cases hne hsecond with ⟨rest, hrest⟩ | ⟨first, back, rest, rfl, hback, hne, hnew⟩
  · -- The text of an own URI. It is torn, and then it is none any more.
    have hown : 'l' :: s = ownUri taskId ++ rest := by
      rw [ownUri_eq_cons, List.cons_append, hrest]
    by_cases htorn : Torn taskId rest
    · obtain ⟨ending, hending, ⟨start, rfl⟩, tail, htail⟩ := htorn
      have hs : s = ("ogos://sandbox/".toList ++ start) ++
          ((ownUri (start ++ ending) ++ ['/']) ++ tail) := by
        rw [← hrest, htail]
        simp only [List.append_assoc]
      have hcolon : ':' ∉ start := fun hmem => colon_notMem hid (List.mem_append_left _ hmem)
      rw [hs, ← ownUri_eq_cons, replace_append_ownUri (by decide) hcolon, ← List.append_assoc,
        List.prefix_append_right_inj] at hsecond
      obtain ⟨d, ending, rfl⟩ := List.exists_cons_of_ne_nil hending
      rw [taskWorkspace_eq, List.append_assoc, List.append_assoc] at hsecond
      have hd := (List.cons_prefix_cons.mp hsecond).1
      exact slash_notMem hid (hd ▸ List.mem_append_right start List.mem_cons_self)
    · exact hkept (.inl ⟨rest, hown, htorn⟩)
  · -- The path that has been put in would complete one.
    obtain ⟨d, back, rfl⟩ := List.exists_cons_of_ne_nil hne
    have hworkspace : (taskWorkspace taskId ++ ['/']) ++
        Str.replace (ownUri taskId ++ ['/']) (taskWorkspace taskId ++ ['/']) rest
        = '/' :: ("workspace".toList ++ '/' :: (taskId ++ '/' ::
          Str.replace (ownUri taskId ++ ['/']) (taskWorkspace taskId ++ ['/']) rest)) := by
      have hdir : "/workspace/".toList = '/' :: ("workspace".toList ++ ['/']) := by decide
      rw [taskWorkspace_eq, hdir]
      simp only [List.cons_append, List.append_assoc, List.nil_append]
    rw [hworkspace, List.cons_prefix_cons] at hnew
    obtain ⟨rfl, hnew⟩ := hnew
    have hnotMem := slash_notMem hid
    rcases List.append_eq_append_iff.mp hback with ⟨later, -, htaskId⟩ | ⟨middle, hscheme, hmiddle⟩
    · exact absurd (htaskId ▸ List.mem_append_right later List.mem_cons_self) hnotMem
    · cases middle with
      | nil =>
        rw [List.nil_append] at hmiddle
        exact absurd (hmiddle ▸ List.mem_cons_self) hnotMem
      | cons e middle =>
        obtain ⟨rfl, rfl⟩ := List.cons.inj hmiddle
        have hw : middle = [] ∨ middle.head? = some 'w' := by
          cases middle with
          | nil => exact .inl rfl
          | cons m middle => exact .inr (congrArg some (List.cons_prefix_cons.mp hnew).1)
        obtain ⟨rfl, rfl⟩ := eq_nil_of_scheme_split hscheme hw
        replace hnew := (Str.prefix_append_cons_iff hnotMem _ _).mp hnew
        refine hkept (.inr ⟨hnew, rest, ?_⟩)
        rw [List.append_assoc]
        rfl

include hid in
/-- **An own URI is replaced** by `taskWorkspace taskId`, unless the text after it makes it `Torn`.
-/
theorem rewriteSandbox_ownUri_append {rest : Str} (hwhole : ¬Torn taskId rest) :
    rewriteSandbox taskId (ownUri taskId ++ rest)
      = taskWorkspace taskId ++ rewriteSandbox taskId rest := by
  have hne := ownUri_ne_nil taskId
  have hslash : "/".toList = ['/'] := by decide
  rw [rewriteSandbox, hslash]
  by_cases hsep : ∃ s, rest = '/' :: s
  · -- The URI goes with the separator after it.
    obtain ⟨s, rfl⟩ := hsep
    have hfront : ownUri taskId ++ '/' :: s = (ownUri taskId ++ ['/']) ++ s := by
      rw [List.append_assoc, List.singleton_append]
    rw [rewriteSandbox_cons hid (not_rewritten_cons (by decide) s), hfront,
      Str.replace_append (List.append_ne_nil_of_left_ne_nil hne _), List.append_assoc,
      List.singleton_append, replace_workspace_append hid, rewriteSandbox, hslash]
  · have hfirst : Str.replace (ownUri taskId ++ ['/']) (taskWorkspace taskId ++ ['/'])
        (ownUri taskId ++ rest) = ownUri taskId ++
          Str.replace (ownUri taskId ++ ['/']) (taskWorkspace taskId ++ ['/']) rest := by
      refine Str.replace_append_of_no_start fun first back hsplit hback hstart => ?_
      cases first with
      | nil =>
        -- The separator would have to come next.
        rw [List.nil_append] at hsplit
        rw [← hsplit, List.prefix_append_right_inj] at hstart
        obtain ⟨s, hs⟩ := hstart
        exact hsep ⟨s, hs.symm⟩
      | cons c first =>
        rw [ownUri_eq_cons, List.cons_append] at hsplit
        have htail := (List.cons.inj hsplit).2
        rcases List.append_eq_append_iff.mp htail with ⟨front, -, hback'⟩ | ⟨front, hscheme, rfl⟩
        · -- It would start in the id.
          refine hwhole ⟨back, hback, ⟨front, hback'.symm⟩, hstart⟩
        · rcases eq_or_ne front [] with rfl | hfront
          · exact hwhole ⟨_, hback, List.suffix_refl _, hstart⟩
          · -- It would start before the id, where there is no other `l`.
            have hl : 'l' ∉ front := fun hmem =>
              absurd (hscheme ▸ List.mem_append_right first hmem) (by decide : 'l' ∉ "ogos://sandbox/".toList)
            rw [List.append_assoc] at hstart
            exact not_scheme_prefix_of_notMem hfront hl _
              ((scheme_prefix_ownUri taskId).trans ((List.prefix_append _ _).trans hstart))
    rw [hfirst, Str.replace_append hne, rewriteSandbox, hslash]

include hid in
/-- A text `front` at no suffix of which something is `Rewritten` stays before the result of the
rest. -/
theorem rewriteSandbox_append {front s : Str}
    (h : ∀ first back, front = first ++ back → back ≠ [] → ¬Rewritten taskId (back ++ s)) :
    rewriteSandbox taskId (front ++ s) = front ++ rewriteSandbox taskId s := by
  induction front with
  | nil => rfl
  | cons c front ih =>
    have hstart : ¬Rewritten taskId (c :: (front ++ s)) := h [] (c :: front) rfl (List.cons_ne_nil _ _)
    rw [List.cons_append, rewriteSandbox_cons hid hstart, ih, List.cons_append]
    rintro first back rfl hback
    exact h (c :: first) back rfl hback

include hid in
/-- **What is replaced becomes a path below `/workspace`.** -/
theorem rewriteSandbox_of_rewritten {s : Str} (h : Rewritten taskId s) :
    ∃ tail, rewriteSandbox taskId s = "/workspace".toList ++ tail := by
  have hdir : "/workspace/".toList = "/workspace".toList ++ ['/'] := by decide
  rcases h with ⟨rest, rfl, hwhole⟩ | ⟨⟨back, hback⟩, rest, rfl⟩
  · refine ⟨'/' :: (taskId ++ rewriteSandbox taskId rest), ?_⟩
    rw [rewriteSandbox_ownUri_append hid hwhole, taskWorkspace_eq, hdir]
    simp only [List.append_assoc, List.cons_append, List.nil_append]
  · -- The separator and the id come from the path that the first replacement puts in.
    have hslash : "/".toList = ['/'] := by decide
    have hreplaced := @replace_append_ownUri taskId "ogos://sandbox".toList [] (by decide)
      List.not_mem_nil rest
    rw [List.append_nil] at hreplaced
    rw [rewriteSandbox, hslash, scheme_eq_cons, List.append_assoc, List.cons_append,
      Str.replace_cons (not_ownUri_prefix_ownUri taskId rest), hreplaced]
    generalize Str.replace (ownUri taskId ++ ['/']) (taskWorkspace taskId ++ ['/']) rest = replaced
    have hroot : "/workspace".toList = '/' :: "workspace".toList := by decide
    have hown : 'l' :: ("ogos://sandbox".toList ++ ((taskWorkspace taskId ++ ['/']) ++ replaced))
        = ownUri taskId ++ (back ++ '/' :: (taskId ++ '/' :: replaced)) := by
      rw [← List.cons_append, ← scheme_eq_cons, taskWorkspace_eq, hdir, ownUri_eq_scheme,
        hroot, ← hback]
      simp only [List.append_assoc, List.cons_append, List.nil_append]
    rw [hown, Str.replace_append (ownUri_ne_nil taskId)]
    generalize Str.replace (ownUri taskId) (taskWorkspace taskId) _ = replaced'
    refine ⟨'/' :: (taskId ++ replaced'), ?_⟩
    rw [taskWorkspace_eq, hdir]
    simp only [List.append_assoc, List.cons_append, List.nil_append]

end Sandbox

/-! ## Where the code then finds a prefix of the services -/

section Services

variable {taskId : Str} (hid : ∀ c ∈ taskId, isTaskIdChar c = true)

include hid in
/-- A text that the result of `rewriteSandbox` starts with was there before, if no `/w` is in it. -/
theorem of_prefix_rewriteSandbox {front s : Str} {c : Char} (hplain : ¬['/', 'w'] <:+: front ++ [c])
    (h : front ++ [c] <+: rewriteSandbox taskId s) :
    ∃ rest, s = front ++ rest ∧ [c] <+: rewriteSandbox taskId rest := by
  induction front generalizing s with
  | nil => exact ⟨s, rfl, h⟩
  | cons d front ih =>
    rw [List.cons_append] at hplain h
    have hrest : ¬['/', 'w'] <:+: front ++ [c] := fun hinfix => hplain (List.infix_cons hinfix)
    by_cases hrewritten : Rewritten taskId s
    · -- The result has a path here.
      obtain ⟨tail, htail⟩ := rewriteSandbox_of_rewritten hid hrewritten
      have hroot : "/workspace".toList = '/' :: 'w' :: "orkspace".toList := by decide
      rw [htail, hroot] at h
      obtain ⟨rfl, hback⟩ := List.cons_prefix_cons.mp h
      refine absurd ?_ hplain
      obtain ⟨e, rest, hnext⟩ := List.exists_cons_of_ne_nil
        (List.append_ne_nil_of_right_ne_nil front (List.cons_ne_nil c []))
      rw [hnext] at hback ⊢
      obtain ⟨rfl, -⟩ := List.cons_prefix_cons.mp hback
      exact ⟨[], rest, rfl⟩
    · cases s with
      | nil => exact absurd (List.prefix_nil.mp h) (List.cons_ne_nil _ _)
      | cons e s =>
        rw [rewriteSandbox_cons hid hrewritten, List.cons_prefix_cons] at h
        obtain ⟨rfl, h⟩ := h
        obtain ⟨rest, rfl, hrest⟩ := ih hrest h
        exact ⟨rest, rfl, hrest⟩

include hid in
/-- The result of `rewriteSandbox` starts with a separator if and only if the text does, or is
`Rewritten` at its front. -/
theorem slash_prefix_rewriteSandbox_iff (s : Str) :
    ['/'] <+: rewriteSandbox taskId s ↔ ['/'] <+: s ∨ Rewritten taskId s := by
  by_cases hrewritten : Rewritten taskId s
  · obtain ⟨tail, htail⟩ := rewriteSandbox_of_rewritten hid hrewritten
    have hroot : ['/'] <+: "/workspace".toList := by decide
    have hpath : ['/'] <+: rewriteSandbox taskId s := by
      rw [htail]
      exact hroot.trans (List.prefix_append _ _)
    exact iff_of_true hpath (.inr hrewritten)
  · rw [or_iff_left hrewritten]
    cases s with
    | nil => exact Iff.rfl
    | cons c s =>
      rw [rewriteSandbox_cons hid hrewritten, List.cons_prefix_cons, List.cons_prefix_cons]
      exact and_congr_right fun _ => iff_of_true List.nil_prefix List.nil_prefix

include hid in
/-- The result starts with `front ++ "/"` if and only if the text is `front` and a rest that starts
with a separator, or is `Rewritten` there. -/
theorem prefix_rewriteSandbox_iff {front : Str} (hplain : ¬['/', 'w'] <:+: front ++ ['/'])
    (hkept : ∀ first back rest, front = first ++ back → back ≠ [] → ¬Rewritten taskId (back ++ rest))
    (s : Str) : front ++ ['/'] <+: rewriteSandbox taskId s ↔
      ∃ rest, s = front ++ rest ∧ (['/'] <+: rest ∨ Rewritten taskId rest) := by
  constructor
  · intro h
    obtain ⟨rest, rfl, hrest⟩ := of_prefix_rewriteSandbox hid hplain h
    exact ⟨rest, rfl, (slash_prefix_rewriteSandbox_iff hid rest).mp hrest⟩
  · rintro ⟨rest, rfl, hrest⟩
    rw [rewriteSandbox_append hid fun first back => hkept first back rest,
      List.prefix_append_right_inj]
    exact (slash_prefix_rewriteSandbox_iff hid rest).mpr hrest

/-- Nothing is rewritten in a text without an `l`. -/
theorem not_rewritten_append {front : Str} (hne : front ≠ []) (hl : 'l' ∉ front) (s : Str) :
    ¬Rewritten taskId (front ++ s) :=
  fun h => not_scheme_prefix_of_notMem hne hl s (scheme_prefix_of_rewritten h)

/-- Nothing is `Rewritten` at `logos://services`. -/
theorem not_rewritten_services (s : Str) : ¬Rewritten taskId ("logos://services".toList ++ s) := by
  intro h
  have hsandbox : "logos://sandbox".toList <+: "logos://services".toList ++ s := by
    rcases h with ⟨rest, hrest, -⟩ | ⟨-, h⟩
    · rw [hrest, ownUri_eq_scheme, List.append_assoc]
      exact List.prefix_append _ _
    · exact (List.prefix_append _ _).trans h
  have hboth := List.prefix_of_prefix_length_le hsandbox (List.prefix_append _ s) (by decide)
  exact absurd hboth (by decide)

/-- Nothing is `Rewritten` at any suffix `back` of `logos://services`. -/
theorem not_rewritten_services_back {first back : Str}
    (h : "logos://services".toList = first ++ back) (hne : back ≠ []) (s : Str) :
    ¬Rewritten taskId (back ++ s) := by
  cases first with
  | nil =>
    rw [List.nil_append] at h
    exact h ▸ not_rewritten_services s
  | cons c first =>
    have hscheme : "logos://services".toList = 'l' :: "ogos://services".toList := by decide
    rw [hscheme] at h
    have hl : 'l' ∉ "ogos://services".toList := by decide
    refine not_rewritten_append hne (fun hmem => hl ?_) s
    rw [(List.cons.inj h).2]
    exact List.mem_append_right first hmem

include hid in
/-- What follows `logos` becomes the rest of a prefix of the services. -/
theorem opensServices_iff (s : Str) :
    "://services/".toList <+: rewriteSandbox taskId s ↔ OpensServices taskId s := by
  have hscheme : "://services/".toList = "://services".toList ++ ['/'] := by decide
  rw [hscheme]
  refine prefix_rewriteSandbox_iff hid (by decide) (fun first back rest hsplit hne => ?_) s
  have hl : 'l' ∉ "://services".toList := by decide
  refine not_rewritten_append hne (fun hmem => hl ?_) rest
  rw [hsplit]
  exact List.mem_append_right first hmem

include hid in
/-- **Where the code finds a prefix of the services**, once the sandbox is rewritten: exactly where
the text is `logos` and a rest that `OpensServices`. -/
theorem services_prefix_iff (s : Str) : "logos://services/".toList <+: rewriteSandbox taskId s ↔
    ∃ rest, s = "logos" ++ rest ∧ OpensServices taskId rest := by
  have hscheme : "logos://services/".toList = "logos://services".toList ++ ['/'] := by decide
  have hword : "logos://services".toList = "logos".toList ++ "://services".toList := by decide
  rw [hscheme, prefix_rewriteSandbox_iff hid (by decide)
    (fun first back rest hsplit hne => not_rewritten_services_back hsplit hne rest)]
  constructor
  · rintro ⟨rest, rfl, hrest⟩
    rw [hword, List.append_assoc]
    exact ⟨_, rfl, rest, rfl, hrest⟩
  · rintro ⟨-, rfl, rest, rfl, hrest⟩
    refine ⟨rest, ?_, hrest⟩
    rw [hword, List.append_assoc]

end Services

/-! ## One command, read twice -/

section Reading

variable {taskId services : Str} (hid : ∀ c ∈ taskId, isTaskIdChar c = true)

/-- What the code makes of a command: the services after the sandbox. -/
def rewriteCommand (taskId services s : Str) : Str :=
  Str.replace "logos://services/" services (rewriteSandbox taskId s)

/-- The text is `ownUri taskId ++ rest`, where `rest` does not go on with an `isTaskIdChar`, if
`afterOwnUri?` leaves `rest`. -/
theorem eq_of_afterOwnUri? {s rest : Str} (h : afterOwnUri? taskId s = some rest) :
    s = ownUri taskId ++ rest ∧ ∀ c tail, rest = c :: tail → isTaskIdChar c = false := by
  obtain ⟨tail, htail, hrest⟩ := Option.bind_eq_some_iff.mp h
  rw [Str.stripPrefix_eq_some_iff] at htail
  split at hrest
  · rename_i hrun
    have hsplit := @List.takeWhile_append_dropWhile _ isTaskIdChar tail
    rw [hrun, Option.some_inj.mp hrest] at hsplit
    refine ⟨?_, fun c back hback => ?_⟩
    · unfold ownUri
      rw [htail, ← hsplit, List.append_assoc]
    · have hhead := List.head?_dropWhile_not isTaskIdChar tail
      rw [Option.some_inj.mp hrest, hback, List.head?_cons] at hhead
      exact Bool.eq_false_iff.mpr fun hc => by simp [hc] at hhead
  · cases hrest

/-- After an own URI, which becomes `taskWorkspace taskId`, `rewriteOwn` starts over, -/
theorem rewriteOwn_own {s rest : Str} (h : afterOwnUri? taskId s = some rest) :
    rewriteOwn taskId services s = taskWorkspace taskId ++ rewriteOwn taskId services rest := by
  obtain ⟨c, s, rfl⟩ := List.exists_cons_of_length_pos
    (Nat.zero_lt_of_lt (length_of_afterOwnUri? h))
  rw [rewriteOwn]
  split
  · rename_i hown
    rw [Option.some_inj.mp (h.symm.trans hown)]
    rfl
  · rename_i hown
    cases h.symm.trans hown

/-- after `logos://services/`, which becomes `services`, as well, -/
theorem rewriteOwn_services (rest : Str) :
    rewriteOwn taskId services ("logos://services/" ++ rest)
      = services ++ rewriteOwn taskId services rest := by
  have hown : afterOwnUri? taskId ("logos://services/" ++ rest) = none := by
    rw [afterOwnUri?, Option.bind_eq_none_iff]
    intro tail htail
    rw [Str.stripPrefix_eq_some_iff] at htail
    have hboth := List.prefix_of_prefix_length_le ⟨tail, htail.symm⟩
      (List.prefix_append "logos://services/".toList rest) (by decide)
    exact absurd hboth (by decide)
  have hcons : "logos://services/".toList = 'l' :: "ogos://services/".toList := by decide
  have hstrip := Str.stripPrefix_append "logos://services/" rest
  rw [hcons, List.cons_append] at hown hstrip ⊢
  rw [rewriteOwn]
  split
  · rename_i hsome
    cases hown.symm.trans hsome
  · split
    · rename_i hservices
      rw [Option.some_inj.mp (hstrip.symm.trans hservices)]
    · rename_i hservices
      cases hstrip.symm.trans hservices

/-- and any other character `c` stays. -/
theorem rewriteOwn_cons {c : Char} {s : Str} (hown : afterOwnUri? taskId (c :: s) = none)
    (hservices : ¬"logos://services/".toList <+: c :: s) :
    rewriteOwn taskId services (c :: s) = c :: rewriteOwn taskId services s := by
  have hstrip := Str.stripPrefix_eq_none_iff.mpr hservices
  rw [rewriteOwn]
  split
  · rename_i hsome
    cases hown.symm.trans hsome
  · split
    · rename_i hsome
      cases hstrip.symm.trans hsome
    · rfl

/-- No own URI starts with a character other than `l`. -/
theorem afterOwnUri?_cons {c : Char} (hc : c ≠ 'l') (s : Str) :
    afterOwnUri? taskId (c :: s) = none := by
  refine Option.eq_none_iff_forall_ne_some.mpr fun rest hrest => hc ?_
  have hstart : "logos:".toList <+: c :: s := by
    rw [(eq_of_afterOwnUri? hrest).1]
    exact (scheme_prefix_ownUri taskId).trans (List.prefix_append _ _)
  exact (List.cons_prefix_cons.mp hstart).1.symm

/-- A text without an `l` stays, -/
theorem rewriteOwn_append {front : Str} (hl : 'l' ∉ front) (s : Str) :
    rewriteOwn taskId services (front ++ s) = front ++ rewriteOwn taskId services s := by
  induction front with
  | nil => rfl
  | cons c front ih =>
    rw [List.mem_cons, not_or] at hl
    have hservices : ¬"logos://services/".toList <+: c :: (front ++ s) := fun h =>
      hl.1 (List.cons_prefix_cons.mp (scheme_prefix_services.trans h)).1
    rw [List.cons_append, rewriteOwn_cons (afterOwnUri?_cons (Ne.symm hl.1) _) hservices, ih hl.2,
      List.cons_append]

/-- A text `front` without an `l` before a `Clean` one keeps it `Clean`. -/
theorem Clean.append {front s : Str} (hl : 'l' ∉ front) (h : Clean taskId s) :
    Clean taskId (front ++ s) := by
  induction front with
  | nil => exact h
  | cons c front ih =>
    rw [List.mem_cons, not_or] at hl
    have hc : c ≠ 'l' := Ne.symm hl.1
    refine .other (afterOwnUri?_cons hc _) (not_rewritten_cons hc _) (fun rest hrest => absurd ?_ hc)
      (ih hl.2)
    have hlogos : "logos".toList = 'l' :: "ogos".toList := by decide
    rw [hlogos, List.cons_append] at hrest
    exact (List.cons.inj hrest).1

/-- What comes before `logos://services/` stays in `Str.replace`, if it has no colon. -/
theorem replace_services_append {front : Str} (hcolon : ':' ∉ front) (s : Str) :
    Str.replace "logos://services/" services (front ++ ("logos://services/".toList ++ s))
      = front ++ (services ++ Str.replace "logos://services/" services s) := by
  have hne : "logos://services/".toList ≠ [] := by decide
  rw [Str.replace_append_of_no_start, Str.replace_append hne]
  intro first back hsplit hback hstart
  obtain ⟨tail, htail⟩ := scheme_prefix_services
  replace hstart := scheme_prefix_services.trans hstart
  rw [← htail, List.append_assoc] at hstart
  refine not_scheme_prefix_scheme hback (fun hmem => hcolon ?_) _ hstart
  rw [hsplit]
  exact List.mem_append_right first hmem

include hid in
/-- No prefix of the services starts in the directory of the task, unless its end is `logos` and what
follows it is the rest of one. -/
theorem replace_services_workspace {rest : Str}
    (hrun : ∀ c tail, rest = c :: tail → isTaskIdChar c = false)
    (hapart : "logos".toList <:+ taskId → ¬OpensServices taskId rest) :
    Str.replace "logos://services/" services (taskWorkspace taskId ++ rewriteSandbox taskId rest)
      = taskWorkspace taskId ++
        Str.replace "logos://services/" services (rewriteSandbox taskId rest) := by
  refine Str.replace_append_of_no_start fun first back hsplit hback hstart => ?_
  rw [taskWorkspace_eq] at hsplit
  have hcolon : ':' ∉ back := fun hmem => by
    have hall := hsplit ▸ List.mem_append_right first hmem
    rcases List.mem_append.mp hall with hdir | hid'
    · exact absurd hdir (by decide)
    · exact colon_notMem hid hid'
  obtain ⟨later, hlogos, hlater⟩ := exists_scheme_rest hcolon (scheme_prefix_services.trans hstart)
  have hchars : ∀ c ∈ "logos".toList, c ≠ '/' ∧ isTaskIdChar c = true := by decide
  rcases later with _ | ⟨d, later⟩
  · -- All of `logos` is the end of the id.
    rw [List.append_nil] at hlogos
    subst hlogos
    rcases back_cases hsplit with hsuffix | ⟨middle, hmiddle, ⟨start, hdir⟩, hback'⟩
    · have hopens : "://services/".toList <+: rewriteSandbox taskId rest := by
        have hscheme : "logos://services/".toList = "logos".toList ++ "://services/".toList := by decide
        rwa [hscheme, List.prefix_append_right_inj] at hstart
      exact hapart hsuffix ((opensServices_iff hid rest).mp hopens)
    · -- A part of the directory has a separator at its end.
      obtain ⟨init, last, rfl⟩ := (List.eq_nil_or_concat middle).resolve_left hmiddle
      have hworkspace : "/workspace/".toList = "/workspace".toList ++ ['/'] := by decide
      rw [hworkspace, List.concat_eq_append, ← List.append_assoc] at hdir
      have hlast := List.singleton_inj.mp (List.append_inj' hdir rfl).2
      have hmem : '/' ∈ "logos".toList := by
        rw [hback', List.concat_eq_append, hlast]
        exact List.mem_append_left _ (List.mem_append_right _ List.mem_cons_self)
      exact (hchars '/' hmem).1 rfl
  · -- The rest of `logos` would have to go on with the id.
    have hsub : ∀ c ∈ d :: later, c ∈ "logos".toList := fun c hc =>
      hlogos ▸ List.mem_append_right back hc
    have hplain : ¬['/', 'w'] <:+: (d :: later) ++ [':'] := by
      intro hinfix
      have hmem : '/' ∈ (d :: later) ++ [':'] := hinfix.subset List.mem_cons_self
      rcases List.mem_append.mp hmem with hmem | hmem
      · exact (hchars '/' (hsub '/' hmem)).1 rfl
      · exact absurd hmem (by decide)
    obtain ⟨tail, htail, -⟩ := of_prefix_rewriteSandbox hid hplain hlater
    have hd := (hchars d (hsub d List.mem_cons_self)).2
    rw [hrun d (later ++ tail) htail] at hd
    cases hd

include hid in
/-- The prefix `logos://services/` is always replaced by `services`. -/
theorem rewriteCommand_services (rest : Str) :
    rewriteCommand taskId services ("logos://services/" ++ rest)
      = services ++ rewriteCommand taskId services rest := by
  have hscheme : "logos://services/".toList = "logos://services".toList ++ ['/'] := by decide
  have hkept : rewriteSandbox taskId ("logos://services/" ++ rest)
      = "logos://services/".toList ++ rewriteSandbox taskId rest := by
    rw [hscheme, List.append_assoc, List.append_assoc, rewriteSandbox_append hid
      (fun first back hsplit hne => not_rewritten_services_back hsplit hne _),
      List.singleton_append, List.singleton_append,
      rewriteSandbox_cons hid (not_rewritten_cons (by decide) rest)]
  rw [rewriteCommand, hkept, Str.replace_append (by decide), rewriteCommand]

include hid in
/-- The character stays in `rewriteCommand` where nothing is `Rewritten` and no rest
`OpensServices`. -/
theorem rewriteCommand_cons {c : Char} {s : Str} (hkept : ¬Rewritten taskId (c :: s))
    (hapart : ∀ rest, c :: s = "logos" ++ rest → ¬OpensServices taskId rest) :
    rewriteCommand taskId services (c :: s) = c :: rewriteCommand taskId services s := by
  have hstart : ¬"logos://services/".toList <+: rewriteSandbox taskId (c :: s) := fun h => by
    obtain ⟨rest, hrest, hopens⟩ := (services_prefix_iff hid _).mp h
    exact hapart rest hrest hopens
  rw [rewriteSandbox_cons hid hkept] at hstart
  rw [rewriteCommand, rewriteSandbox_cons hid hkept, Str.replace_cons hstart, rewriteCommand]

/-- What comes after `logos` in a prefix of the services. -/
theorem opensServices_of_services_prefix {s : Str} (h : "logos://services/".toList <+: s) :
    ∃ rest, s = "logos" ++ rest ∧ OpensServices taskId rest := by
  obtain ⟨rest, rfl⟩ := h
  have hscheme : "logos://services/".toList
      = "logos".toList ++ ("://services".toList ++ ['/']) := by decide
  rw [hscheme, List.append_assoc, List.append_assoc]
  exact ⟨_, rfl, _, rfl, .inl (List.prefix_append _ _)⟩

include hid in
/-- **A command that is `Clean` is rewritten as it is to be**: `rewriteCommand` and `rewriteOwn`
agree on it. -/
theorem rewriteCommand_of_clean {s : Str} (h : Clean taskId s) :
    rewriteCommand taskId services s = rewriteOwn taskId services s := by
  induction h with
  | nil =>
    rw [rewriteOwn]
    rfl
  | @own s rest hown hwhole hapart _ ih =>
    obtain ⟨hs, hrun⟩ := eq_of_afterOwnUri? hown
    rw [rewriteOwn_own hown, ← ih, rewriteCommand, hs, rewriteSandbox_ownUri_append hid hwhole,
      replace_services_workspace hid hrun hapart, rewriteCommand]
  | @services rest _ ih => rw [rewriteOwn_services, ← ih, rewriteCommand_services hid]
  | @other c s hown hkept hapart _ ih =>
    have hservices : ¬"logos://services/".toList <+: c :: s := fun h => by
      obtain ⟨rest, hrest, hopens⟩ := opensServices_of_services_prefix h
      exact hapart rest hrest hopens
    rw [rewriteOwn_cons hown hservices, ← ih, rewriteCommand_cons hid hkept hapart]

include hid in
/-- A prefix of the services that has only come about, as a rest `OpensServices`, is replaced where
`rewriteOwn` leaves it. -/
theorem ne_of_opensServices {front rest : Str} (hcolon : ':' ∉ front)
    (happears : ∀ s t : Str, services ++ s ≠ "logos://services" ++ t)
    (hopens : OpensServices taskId rest) :
    Str.replace "logos://services/" services (front ++ ("logos".toList ++ rewriteSandbox taskId rest))
      ≠ front ++ ("logos" ++ rewriteOwn taskId services rest) := by
  obtain ⟨tail, htail⟩ := (opensServices_iff hid rest).mpr hopens
  obtain ⟨rest, rfl, -⟩ := hopens
  have hscheme : "logos".toList ++ "://services/".toList = "logos://services/".toList := by decide
  have hword : "logos".toList ++ "://services".toList = "logos://services".toList := by decide
  rw [← htail, ← List.append_assoc "logos".toList, hscheme, replace_services_append hcolon,
    rewriteOwn_append (by decide), ← List.append_assoc "logos".toList, hword]
  exact fun h => happears _ _ (List.append_cancel_left h)

include hid in
/-- The result of `rewriteCommand` starts with a separator where something is `Rewritten`. -/
theorem rewriteCommand_of_rewritten {s : Str} (h : Rewritten taskId s) :
    ∃ tail, rewriteCommand taskId services s = '/' :: tail := by
  obtain ⟨tail, htail⟩ := rewriteSandbox_of_rewritten hid h
  have hroot : "/workspace".toList = '/' :: "workspace".toList := by decide
  rw [rewriteCommand, htail, hroot, List.cons_append, Str.replace_cons]
  · exact ⟨_, rfl⟩
  · exact fun hstart => absurd (List.cons_prefix_cons.mp hstart).1 (by decide)

/-- An own URI is no prefix of the services: `ownUri taskId ++ rest` does not start with
`logos://services`. -/
theorem ownUri_append_ne (rest tail : Str) :
    ownUri taskId ++ rest ≠ "logos://services".toList ++ tail := by
  intro h
  have hsandbox : "logos://sandbox".toList <+: "logos://services".toList ++ tail := by
    rw [← h, ownUri_eq_scheme, List.append_assoc]
    exact List.prefix_append _ _
  have hboth := List.prefix_of_prefix_length_le hsandbox (List.prefix_append _ _) (by decide)
  exact absurd hboth (by decide)

/-- A `Torn` own URI is not `Rewritten`. -/
theorem not_rewritten_of_torn {rest : Str} (htorn : Torn taskId rest) :
    ¬Rewritten taskId (ownUri taskId ++ rest) := by
  rintro (⟨rest', hrest', hwhole⟩ | ⟨-, hstart⟩)
  · rw [List.append_cancel_left hrest'] at htorn
    exact hwhole htorn
  · have hsep : ownUri taskId ++ rest = "logos://sandbox".toList ++ '/' :: (taskId ++ rest) := by
      rw [ownUri_eq_scheme, List.append_assoc, List.cons_append]
    rw [hsep, List.prefix_append_right_inj, ownUri_eq_cons] at hstart
    exact absurd (List.cons_prefix_cons.mp hstart).1 (by decide)

/-! ### What a command that is rewritten as it is to be has not -/

variable {c : Char} {s rest : Str}

include hid in
/-- If `rewriteCommand` and `rewriteOwn` agree, the own URI at the front is not `Torn`, -/
theorem not_torn_of_eq (hown : afterOwnUri? taskId (c :: s) = some rest)
    (h : rewriteCommand taskId services (c :: s) = rewriteOwn taskId services (c :: s)) :
    ¬Torn taskId rest := by
  intro htorn
  obtain ⟨hs, -⟩ := eq_of_afterOwnUri? hown
  have hkept := not_rewritten_of_torn htorn
  rw [← hs] at hkept
  have hword : "logos".toList ++ "://services".toList = "logos://services".toList := by decide
  have hapart : ∀ rest, c :: s = "logos" ++ rest → ¬OpensServices taskId rest := by
    rintro tail htail ⟨tail, rfl, -⟩
    rw [← List.append_assoc, hword, hs] at htail
    exact ownUri_append_ne _ _ htail
  -- The URI stays, and should be a path.
  rw [rewriteCommand_cons hid hkept hapart, rewriteOwn_own hown, taskWorkspace_eq] at h
  rw [ownUri_eq_cons] at hs
  have hl := (List.cons.inj hs).1
  have hslash := (List.cons.inj h).1
  rw [hl] at hslash
  exact absurd hslash (by decide)

include hid in
/-- nothing that is no own URI is `Rewritten` there, -/
theorem not_rewritten_of_eq
    (h : rewriteCommand taskId services (c :: s) = c :: rewriteOwn taskId services s) :
    ¬Rewritten taskId (c :: s) := by
  intro hrewritten
  obtain ⟨tail, htail⟩ := @rewriteCommand_of_rewritten _ services hid _ hrewritten
  have hl := (List.cons_prefix_cons.mp (scheme_prefix_of_rewritten hrewritten)).1
  rw [htail, ← hl] at h
  exact absurd (List.cons.inj h).1 (by decide)

include hid in
/-- and no rest of it `OpensServices`. -/
theorem not_opensServices_of_eq (happears : ∀ s t : Str, services ++ s ≠ "logos://services" ++ t)
    (h : rewriteCommand taskId services (c :: s) = c :: rewriteOwn taskId services s) :
    ∀ rest, c :: s = "logos" ++ rest → ¬OpensServices taskId rest := by
  intro rest hrest hopens
  have hword : "logos".toList ++ "://services".toList = "logos://services".toList := by decide
  have hlogos : "logos".toList = 'l' :: "ogos".toList := by decide
  have hsandbox : rewriteSandbox taskId ("logos" ++ rest)
      = "logos".toList ++ rewriteSandbox taskId rest := by
    refine rewriteSandbox_append hid fun first back hsplit hne => ?_
    obtain ⟨tail, rfl, -⟩ := hopens
    have hback : "logos://services".toList = first ++ (back ++ "://services".toList) := by
      rw [← hword, hsplit, List.append_assoc]
    rw [← List.append_assoc]
    exact not_rewritten_services_back hback (List.append_ne_nil_of_left_ne_nil hne _) tail
  have hne := @ne_of_opensServices _ services hid [] rest List.not_mem_nil happears hopens
  rw [List.nil_append, List.nil_append, ← hsandbox, ← hrest] at hne
  refine hne (h.trans ?_)
  rw [hlogos, List.cons_append] at hrest
  obtain ⟨rfl, rfl⟩ := List.cons.inj hrest
  rw [rewriteOwn_append (by decide), hlogos, List.cons_append]

include hid in
/-- **Only a `Clean` command is rewritten as it is to be**, where the services are recognizable:
their directory `services` does not begin like `logos://services`. -/
theorem clean_of_rewriteCommand_eq (happears : ∀ s t : Str, services ++ s ≠ "logos://services" ++ t)
    (h : rewriteCommand taskId services s = rewriteOwn taskId services s) : Clean taskId s := by
  -- Along the text, as `rewriteOwn` reads it; what both leave at the front is cancelled.
  induction hlength : s.length using Nat.strong_induction_on generalizing s with
  | _ n ih =>
    subst hlength
    rcases s with _ | ⟨c, s⟩
    · exact .nil
    rcases hown : afterOwnUri? taskId (c :: s) with _ | rest
    · by_cases hservices : "logos://services/".toList <+: c :: s
      · obtain ⟨rest, hrest⟩ := hservices
        have hshorter : rest.length < (c :: s).length := by
          have hpos : 0 < "logos://services/".toList.length := by decide
          rw [← hrest, List.length_append]
          omega
        rw [← hrest, rewriteCommand_services hid, rewriteOwn_services] at h
        rw [← hrest]
        exact .services (ih _ hshorter (List.append_cancel_left h) rfl)
      · rw [rewriteOwn_cons hown hservices] at h
        have hkept := not_rewritten_of_eq hid h
        have hapart := not_opensServices_of_eq hid happears h
        rw [rewriteCommand_cons hid hkept hapart] at h
        exact .other hown hkept hapart (ih _ (Nat.lt_succ_self _) (List.cons.inj h).2 rfl)
    · obtain ⟨hs, hrun⟩ := eq_of_afterOwnUri? hown
      have hwhole := not_torn_of_eq hid hown h
      have hcommand : rewriteCommand taskId services (c :: s) = Str.replace "logos://services/" services
          (taskWorkspace taskId ++ rewriteSandbox taskId rest) := by
        rw [rewriteCommand, hs, rewriteSandbox_ownUri_append hid hwhole]
      rw [hcommand, rewriteOwn_own hown] at h
      -- The end of the id and the rest must not make up a prefix of the services.
      have hapart : "logos".toList <:+ taskId → ¬OpensServices taskId rest := by
        rintro ⟨start, hstart⟩ hopens
        have hcolon : ':' ∉ "/workspace/".toList ++ start := by
          rw [List.mem_append, not_or]
          refine ⟨by decide, fun hmem => colon_notMem hid ?_⟩
          exact hstart ▸ List.mem_append_left _ hmem
        have hdir : taskWorkspace taskId = ("/workspace/".toList ++ start) ++ "logos".toList := by
          rw [taskWorkspace_eq, List.append_assoc, hstart]
        generalize "/workspace/".toList ++ start = front at hcolon hdir
        rw [hdir, List.append_assoc, List.append_assoc] at h
        exact ne_of_opensServices hid hcolon happears hopens h
      rw [replace_services_workspace hid hrun hapart] at h
      exact .own hown hwhole hapart
        (ih _ (length_of_afterOwnUri? hown) (List.append_cancel_left h) rfl)

end Reading

/-! ## What the executor is given -/

/-- The directory of the services on the host, with a separator after it. -/
def SandboxNs.servicesDir (ns : SandboxNs) : Str := ns.hostRoot.display ++ "/__system__/svc/"

/-- The command that a task executes is rewritten by `rewriteCommand`. -/
theorem SandboxNs.execution_command (ns : SandboxNs) (executor : Executor)
    (command agentConfigId taskId : Str) :
    (ns.execution executor command agentConfigId taskId).command
      = rewriteCommand taskId ns.servicesDir command := by
  unfold SandboxNs.execution SandboxNs.translate SandboxNs.translateServiceUris rewriteCommand
    rewriteSandbox ownUri taskWorkspace SandboxNs.servicesDir
  rfl

/-- The directory `servicesDir` of the services does not begin like `logos://services`, if
`hostRoot` does not. -/
theorem SandboxNs.servicesDir_append_ne {ns : SandboxNs}
    (hroot : ¬"logos://services".toList <+: ns.hostRoot.display) (s t : Str) :
    ns.servicesDir ++ s ≠ "logos://services" ++ t := by
  intro h
  rw [SandboxNs.servicesDir, List.append_assoc] at h
  rcases List.append_eq_append_iff.mp h with ⟨later, hlater, hrest⟩ | ⟨rest, hprefix, -⟩
  · -- The root is a part of the prefix, and its own name goes on differently.
    have hall : ∀ n < 16, ("logos://services".toList.drop n).head? = some '/' →
        ("logos://services".toList.drop (n + 1)).head? ≠ none ∧
          ("logos://services".toList.drop (n + 1)).head? ≠ some '_' := by decide
    have hdir : "/__system__/svc/".toList = '/' :: '_' :: "_system__/svc/".toList := by decide
    have hlength := congrArg List.length hlater
    rw [List.length_append] at hlength
    have hlong : "logos://services".toList.length = 16 := by decide
    have hdrop : "logos://services".toList.drop ns.hostRoot.display.length = later := by
      rw [hlater, List.drop_left]
    rw [hdir] at hrest
    rcases later with _ | ⟨c, later⟩
    · rw [List.append_nil] at hlater
      exact hroot (hlater ▸ List.prefix_refl _)
    · rw [List.length_cons] at hlength
      have hnext : "logos://services".toList.drop (ns.hostRoot.display.length + 1) = later := by
        rw [← List.drop_drop, hdrop]
        rfl
      obtain ⟨rfl, hback⟩ := List.cons.inj hrest
      have hc := hall ns.hostRoot.display.length (by omega) (by rw [hdrop]; rfl)
      rw [hnext] at hc
      rcases later with _ | ⟨d, later⟩
      · exact hc.1 rfl
      · exact hc.2 (congrArg some (List.cons.inj hback).1.symm)
  · exact hroot ⟨rest, hprefix.symm⟩

/-- **When a command is rewritten as it is to be.** For every command and every id of a task: if the
command can be read without trouble, then the executor is given it with the URIs of the task's own
sandbox and the prefixes of the services replaced, and nothing else; and if it cannot, then it is
given something else. (The second part needs the services to be recognizable: a root that itself
begins with `logos://services` could make up for it.) -/
theorem execution_command_iff_clean (executor : Executor) (command agentConfigId : Str) {taskId : Str}
    (hid : ∀ c ∈ taskId, isTaskIdChar c = true) :
    (Clean taskId command → ∀ ns : SandboxNs,
      (ns.execution executor command agentConfigId taskId).command
        = rewriteOwn taskId ns.servicesDir command) ∧
    ∀ ns : SandboxNs, ¬"logos://services".toList <+: ns.hostRoot.display →
      (ns.execution executor command agentConfigId taskId).command
        = rewriteOwn taskId ns.servicesDir command → Clean taskId command := by
  refine ⟨fun hclean ns => ?_, fun ns hroot h => ?_⟩
  · rw [ns.execution_command]
    exact rewriteCommand_of_clean hid hclean
  · rw [ns.execution_command] at h
    exact clean_of_rewriteCommand_eq hid (ns.servicesDir_append_ne hroot) h

/-- The command `cat logos://sandbox/test-uri/data.txt` of the test reads the file in the directory
of the task, as `rewriteOwn` says. -/
theorem execution_command_cat :
    (onData.sandbox.execution (.host onData.sandbox.hostRoot) "cat logos://sandbox/test-uri/data.txt"
      "test-uri" "test-uri").command = rewriteOwn "test-uri" onData.sandbox.servicesDir
        "cat logos://sandbox/test-uri/data.txt" := by
  have hid : ∀ c ∈ "test-uri".toList, isTaskIdChar c = true := by decide
  have hcommand : "cat logos://sandbox/test-uri/data.txt".toList
      = "cat ".toList ++ "logos://sandbox/test-uri/data.txt".toList := by decide
  have hown : afterOwnUri? "test-uri" "logos://sandbox/test-uri/data.txt" = some "/data.txt".toList := by
    decide +kernel
  have hslash : "/data.txt".toList = '/' :: "data.txt".toList := by decide
  have hwhole : ¬Torn "test-uri" "/data.txt" := hslash ▸ not_torn_slash hid _
  have hrest : Clean "test-uri" "/data.txt" := by
    have hend : "/data.txt".toList = "/data.txt".toList ++ [] := by decide
    rw [hend]
    exact .append (by decide) .nil
  have hclean : Clean "test-uri" "cat logos://sandbox/test-uri/data.txt" := by
    rw [hcommand]
    exact .append (by decide) (.own hown hwhole (fun h => absurd h (by decide)) hrest)
  exact (execution_command_iff_clean (.host onData.sandbox.hostRoot)
    "cat logos://sandbox/test-uri/data.txt" "test-uri" hid).1 hclean onData.sandbox

/-- The URI of the sandbox of `t-12` becomes a path in a command of `t-1`. -/
theorem not_execution_command_eq : ¬∀ (ns : SandboxNs) (executor : Executor)
    (command agentConfigId taskId : Str), (∀ c ∈ taskId, isTaskIdChar c = true) →
      (ns.execution executor command agentConfigId taskId).command
        = rewriteOwn taskId ns.servicesDir command := by
  intro hall
  have hid : ∀ c ∈ "t-1".toList, isTaskIdChar c = true := by decide
  let ns : SandboxNs := ⟨.ofStr "/", fun _ => none, fun _ => none⟩
  have heq := hall ns (.host ns.hostRoot) "logos://sandbox/t-12" "agent" "t-1" hid
  have hcode : (ns.execution (.host ns.hostRoot) "logos://sandbox/t-12" "agent" "t-1").command
      = "/workspace/t-12".toList := by decide +kernel
  -- The id in the command is longer, so nothing is to be replaced.
  have hkept : rewriteOwn "t-1" ns.servicesDir "logos://sandbox/t-12" = "logos://sandbox/t-12".toList := by
    have hcons : "logos://sandbox/t-12".toList = 'l' :: ("ogos://sandbox/t-12".toList ++ []) := by decide
    rw [hcons, rewriteOwn_cons (by decide +kernel) (by decide), rewriteOwn_append (by decide),
      rewriteOwn]
  rw [hcode, hkept] at heq
  exact absurd heq (by decide)

end LogosFs.Kernel
