import Mathlib.Algebra.Order.Group.Int
import Mathlib.Order.Bounds.Defs
import LogosFs.Lib.HashMap
import LogosFs.Lib.Sampling
import LogosFs.Kernel.Cron

/-! # Cron jobs

At a tick the scheduler fires every enabled job whose next occurrence is less than a minute away. It
keeps no record of what it has fired: whether an occurrence fires once is a matter of how many ticks
come less than a minute before it. `eval_tick` says that a tick fires the jobs of `jobNames`, and
`existsUnique_fires_iff` when exactly one does for an occurrence. -/

namespace LogosFs.Kernel

open Program (eval)
open LogosFs.System (SystemM DateTime strField utcNow)

/-! ## Time -/

/-- A point in time (UTC), in nanoseconds. -/
abbrev UtcTime : Type := Int

/-- The whole seconds of a duration, rounded towards zero. -/
def numSeconds (duration : Int) : Int := duration.tdiv (10 ^ 9)

/-- The period of the ticks: sixty seconds. -/
def tickPeriod : Int := 60 * 10 ^ 9

/-- A difference to a later point has less than sixty whole seconds, by `numSeconds`, if it is below
`tickPeriod`, a minute. -/
theorem natAbs_numSeconds_lt_iff {duration : Int} (h : 0 < duration) :
    (numSeconds duration).natAbs < 60 ↔ duration < tickPeriod := by
  rw [numSeconds, Int.tdiv_eq_ediv_of_nonneg h.le, tickPeriod]
  omega

/-! ## Jobs -/

/-- A library for cron expressions. -/
structure CronCrate where
  /-- What an expression is parsed to. -/
  Schedule : Type
  /-- Parse an expression. -/
  fromStr : Str → Option Schedule
  /-- The points in time that a schedule stands for. -/
  occurrences : Schedule → Set UtcTime
  /-- The first upcoming occurrence. -/
  next : Schedule → UtcTime → Option UtcTime
  /-- It is the least one that is later than the given time. -/
  next_eq_some_iff : ∀ {schedule : Schedule} {now point : UtcTime},
    next schedule now = some point ↔
      IsLeast {occurrence | occurrence ∈ occurrences schedule ∧ now < occurrence} point

/-- A job. -/
structure CronJob where
  /-- The name it is registered under. -/
  name : Str
  /-- When it is due. -/
  cronExpr : Str
  /-- The task that it creates. -/
  taskTemplate : Json
  /-- Whether it is fired at all. -/
  enabled : Bool

/-- The registered jobs, each under its name. -/
structure Jobs where
  /-- The jobs. -/
  map : HashMap Str CronJob
  /-- A job stands under its name. -/
  named : ∀ {name job}, map.get name = some job → job.name = name

namespace Jobs

/-- No jobs. -/
def empty : Jobs := ⟨.empty, nofun⟩

/-- Register a job. -/
def register (jobs : Jobs) (job : CronJob) : Jobs where
  map := jobs.map.insert job.name job
  named := by
    intro name job' h
    rw [HashMap.get_insert] at h
    split_ifs at h with hname
    · cases h
      exact hname.symm
    · exact jobs.named h

/-- Remove a job. -/
def remove (jobs : Jobs) (name : Str) : Jobs where
  map := jobs.map.remove name
  named := fun h => jobs.named (HashMap.get_of_get_remove h).2

/-- The registered jobs. -/
def list (jobs : Jobs) : List CronJob := jobs.map.values

/-- Every job of `jobs.list` is listed under another name. -/
theorem nodup_names (jobs : Jobs) : (jobs.list.map CronJob.name).Nodup := by
  have hnames : jobs.list.map CronJob.name = jobs.map.keys := by
    rw [list, HashMap.values, List.map_map, AList.keys, List.keys]
    refine List.map_congr_left fun entry hentry => ?_
    exact jobs.named (HashMap.get_eq_some_iff.mpr hentry)
  rw [hnames]
  exact jobs.map.keys_nodup

end Jobs

/-! ## Ticks -/

namespace CronScheduler

variable (crate : CronCrate) (json : JsonCodec) (jobs : Jobs)

/-- The next occurrence of a job. -/
def nextOccurrence (job : CronJob) (now : UtcTime) : Option UtcTime :=
  (crate.fromStr job.cronExpr).bind fun schedule => crate.next schedule now

/-- Whether a job is due. -/
def isDue (job : CronJob) (now : UtcTime) : Bool :=
  ((nextOccurrence crate job now).map fun next => decide ((numSeconds (next - now)).natAbs < 60)).getD false

/-- The names of the jobs to be fired. -/
def jobNames (now : UtcTime) : List Str :=
  ((jobs.list.filter fun job => job.enabled).filter fun job => isDue crate job now).map CronJob.name

/-- The task of a job: the template, with the trigger and an id. Only an object takes these. -/
def fillTemplate (job : CronJob) : SystemM Json :=
  match job.taskTemplate with
  | .object fields =>
    let fields := Json.insert "trigger" (.string "cron") fields
    if strField (.object fields) "task_id" = [] then do
      let ts ← utcNow
      return .object (Json.insert "task_id" (.string ("cron-" ++ job.name ++ "-" ++ ts.compact)) fields)
    else return .object fields
  | template => return template

/-- Create the task of a job. -/
def fire (jobName : Str) : SystemM Unit :=
  match jobs.map.get jobName with
  | none => throw (.notFound ("cron job not found: " ++ jobName))
  | some job =>
    if ¬job.enabled then return
    else do
      let task ← fillTemplate job
      System.SystemModule.createTask json (json.toStr task)

/-- A tick at a time: fire the jobs that are due, then the tick of the plans. Errors are reported and
do not end it. -/
def tick (now : UtcTime) : SystemM Unit := do
  (jobNames crate jobs now).forM fun name => Program.ignoreError (fire json jobs name)
  Program.ignoreError (tickPlans json)

/-- **The task of a job** has the trigger `cron` and an id, if the template is an object. Making it
leaves the database alone. -/
theorem eval_fillTemplate (job : CronJob) (w : System.World) :
    ∃ task w', eval System.handler (fillTemplate job) w = (.ok task, w') ∧ w'.db = w.db ∧
      ∀ fields, job.taskTemplate = .object fields →
        strField task "trigger" = "cron".toList ∧ strField task "task_id" ≠ [] := by
  unfold fillTemplate
  cases job.taskTemplate with
  | object fields =>
    have htrigger : strField (.object (Json.insert "trigger" (.string "cron") fields)) "trigger"
        = "cron".toList := by
      rw [strField, Json.get, Json.get?, Json.lookup_insert_self]
      rfl
    dsimp only
    by_cases hid : strField (.object (Json.insert "trigger" (.string "cron") fields)) "task_id" = []
    · rw [if_pos hid, Program.eval_bind, System.eval_utcNow, Program.evalNext_ok]
      refine ⟨_, _, rfl, rfl, fun _ _ => ⟨(?_ : _ = _).trans htrigger, ?_⟩⟩
      · simp only [strField, Json.get, Json.get?]
        rw [Json.lookup_insert_ne (by decide)]
      · rw [strField, Json.get, Json.get?, Json.lookup_insert_self]
        exact List.cons_ne_nil _ _
    · rw [if_neg hid]
      exact ⟨_, _, rfl, rfl, fun _ _ => ⟨htrigger, hid⟩⟩
  | _ => exact ⟨_, _, rfl, rfl, fun _ h => by cases h⟩

end CronScheduler

/-! ## What a tick fires -/

open CronScheduler (nextOccurrence isDue jobNames)

section Fires

variable (crate : CronCrate) {jobs : Jobs} {job : CronJob} {now occurrence : UtcTime}

/-- A tick fires a job for an occurrence: the job is fired, and the occurrence is the next one. -/
def Fires (jobs : Jobs) (job : CronJob) (now occurrence : UtcTime) : Prop :=
  job.name ∈ jobNames crate jobs now ∧ nextOccurrence crate job now = some occurrence

/-- A tick fires each job once at most: `jobNames` are distinct. -/
theorem nodup_jobNames (jobs : Jobs) (now : UtcTime) : (jobNames crate jobs now).Nodup :=
  jobs.nodup_names.sublist ((List.filter_sublist.trans List.filter_sublist).map _)

/-- A registered job is among `jobNames` if it is `enabled` and due. -/
theorem name_mem_jobNames (hjob : jobs.map.get job.name = some job) :
    job.name ∈ jobNames crate jobs now ↔ job.enabled ∧ isDue crate job now := by
  simp only [jobNames, List.mem_map, List.mem_filter]
  constructor
  · rintro ⟨job', ⟨⟨hmem, henabled⟩, hdue⟩, hname⟩
    obtain ⟨name, hget⟩ := HashMap.mem_values_iff.mp hmem
    obtain rfl : job'.name = name := jobs.named hget
    rw [hname, hjob] at hget
    cases hget
    exact ⟨henabled, hdue⟩
  · rintro ⟨henabled, hdue⟩
    exact ⟨job, ⟨⟨HashMap.mem_values_of_get hjob, henabled⟩, hdue⟩, rfl⟩

/-- Firing a job of `jobNames` creates the task of an enabled job. -/
theorem fire_of_mem_jobNames (json : JsonCodec) {name : Str} (h : name ∈ jobNames crate jobs now) :
    ∃ job, jobs.map.get name = some job ∧ job.enabled ∧ isDue crate job now ∧
      CronScheduler.fire json jobs name = (do
        let task ← CronScheduler.fillTemplate job
        System.SystemModule.createTask json (json.toStr task)) := by
  simp only [jobNames, List.mem_map, List.mem_filter] at h
  obtain ⟨job, ⟨⟨hmem, henabled⟩, hdue⟩, rfl⟩ := h
  obtain ⟨name, hget⟩ := HashMap.mem_values_iff.mp hmem
  obtain rfl : job.name = name := jobs.named hget
  refine ⟨job, hget, henabled, hdue, ?_⟩
  rw [CronScheduler.fire, hget]
  dsimp only
  rw [if_neg (not_not.mpr henabled)]

/-- **What a tick does**: it fires the jobs of `jobNames` one after the other, whatever comes of each,
and then it serves the plans. It never fails. -/
theorem eval_tick (json : JsonCodec) (jobs : Jobs) (now : UtcTime) (w : System.World) :
    eval System.handler (CronScheduler.tick crate json jobs now) w
      = (.ok (), (eval System.handler (CronScheduler.tickPlans json)
        ((jobNames crate jobs now).foldl
          (fun w name => (eval System.handler (CronScheduler.fire json jobs name) w).2) w)).2) := by
  rw [CronScheduler.tick, Program.eval_bind,
    Program.eval_forM System.handler
      (fun w name => (eval System.handler (CronScheduler.fire json jobs name) w).2)
      fun name w => Program.eval_ignoreError System.handler _ w,
    Program.evalNext_ok, Program.eval_ignoreError]

/-- The job is registered and enabled, and its schedule has occurrences a minute apart. -/
structure Scheduled (jobs : Jobs) (job : CronJob) (schedule : crate.Schedule) : Prop where
  /-- It is registered. -/
  registered : jobs.map.get job.name = some job
  /-- It is enabled. -/
  enabled : job.enabled
  /-- It has this schedule. -/
  parsed : crate.fromStr job.cronExpr = some schedule
  /-- The occurrences are a minute apart. -/
  spaced : ∀ first ∈ crate.occurrences schedule, ∀ second ∈ crate.occurrences schedule,
    first < second → tickPeriod ≤ second - first

variable {crate} {schedule : crate.Schedule}

/-- **What fires an occurrence**: the job `Fires` at a tick that `Hits` it, before it by less than a
minute. -/
theorem fires_iff (h : Scheduled crate jobs job schedule)
    (hoccurrence : occurrence ∈ crate.occurrences schedule) :
    Fires crate jobs job now occurrence ↔ Hits tickPeriod now occurrence := by
  have hnext : nextOccurrence crate job now = crate.next schedule now := by
    rw [nextOccurrence, h.parsed, Option.bind_some]
  rw [Fires, name_mem_jobNames crate h.registered, and_iff_right h.enabled, isDue, hnext, Hits]
  constructor
  · rintro ⟨hdue, hsome⟩
    obtain ⟨⟨-, hlater⟩, -⟩ := crate.next_eq_some_iff.mp hsome
    rw [hsome, Option.map_some, Option.getD_some, decide_eq_true_iff,
      natAbs_numSeconds_lt_iff (sub_pos.mpr hlater)] at hdue
    exact ⟨by omega, hlater⟩
  · rintro ⟨hnear, hlater⟩
    -- An occurrence in between would be too close to this one.
    have hsome : crate.next schedule now = some occurrence := by
      refine crate.next_eq_some_iff.mpr ⟨⟨hoccurrence, hlater⟩, fun other hother => ?_⟩
      by_contra hlt
      have hgap := h.spaced other hother.1 occurrence hoccurrence (not_le.mp hlt)
      have hafter : now < other := hother.2
      exact absurd hafter ((le_sub_comm.mp hgap).trans_lt hnear).not_gt
    refine ⟨?_, hsome⟩
    rw [hsome, Option.map_some, Option.getD_some, decide_eq_true_iff,
      natAbs_numSeconds_lt_iff (sub_pos.mpr hlater)]
    omega

end Fires

/-! ## Runs -/

/-- **When an occurrence fires exactly once**, by one tick that `Fires` it: no two ticks in a row
come less than a minute before it, and it is not on a tick that comes a whole minute after the one
before. A tick fires a job once at most. -/
theorem existsUnique_fires_iff {crate : CronCrate} {job : CronJob} {schedule : crate.Schedule}
    {jobs : ℕ → Jobs} (hjobs : ∀ i, Scheduled crate (jobs i) job schedule) {ticks : ℕ → UtcTime}
    (hticks : Sampling tickPeriod ticks) {occurrence : UtcTime}
    (hoccurrence : occurrence ∈ crate.occurrences schedule)
    (hlater : ticks 0 + tickPeriod < occurrence) :
    (∀ i, (jobNames crate (jobs i) (ticks i)).Nodup) ∧
      ((∃! i, Fires crate (jobs i) job (ticks i) occurrence) ↔
        (∀ i, ¬(Hits tickPeriod (ticks i) occurrence ∧ Hits tickPeriod (ticks (i + 1)) occurrence)) ∧
          ∀ i, ¬(ticks i = occurrence - tickPeriod ∧ ticks (i + 1) = occurrence)) := by
  refine ⟨fun i => nodup_jobNames crate (jobs i) (ticks i), ?_⟩
  have hfirst : ticks 0 < occurrence :=
    (le_add_of_nonneg_right (by decide : 0 ≤ tickPeriod)).trans_lt hlater
  rw [← hticks.existsUnique_hits_iff hfirst]
  exact existsUnique_congr fun i => fires_iff (hjobs i) hoccurrence

/-! ## On the hour -/

/-- The full hour after `now` is the least multiple of `60 * tickPeriod` after it. -/
theorem isLeast_nextHour (now : Int) :
    IsLeast {point : Int | 60 * tickPeriod ∣ point ∧ now < point}
      ((now / (60 * tickPeriod) + 1) * (60 * tickPeriod)) := by
  rw [tickPeriod]
  refine ⟨⟨dvd_mul_left .., by omega⟩, ?_⟩
  rintro _ ⟨⟨hour, rfl⟩, hlater⟩
  omega

/-- A library that knows the expression for every full hour. -/
def hours : CronCrate where
  Schedule := Unit
  fromStr text := if text = "0 0 * * * *".toList then some () else none
  occurrences _ := {point | 60 * tickPeriod ∣ point}
  next _ now := some ((now / (60 * tickPeriod) + 1) * (60 * tickPeriod))
  next_eq_some_iff := by
    intro _ now point
    rw [Option.some_inj]
    constructor
    · rintro rfl
      exact isLeast_nextHour now
    · intro h
      exact ((isLeast_nextHour now).2 h.1).antisymm (h.2 (isLeast_nextHour now).1)

/-- A job for every full hour. -/
def hourly : CronJob := ⟨"summary", "0 0 * * * *", .object [], true⟩

/-- Full hours, multiples of `60 * tickPeriod`, are at least a `tickPeriod` apart. -/
theorem tickPeriod_le_sub {first second : Int} (hfirst : 60 * tickPeriod ∣ first)
    (hsecond : 60 * tickPeriod ∣ second) (hlt : first < second) : tickPeriod ≤ second - first := by
  obtain ⟨hour, rfl⟩ := hfirst
  obtain ⟨hour', rfl⟩ := hsecond
  rw [tickPeriod] at hlt ⊢
  omega

/-- A job that was registered is `Scheduled`. -/
theorem scheduled_hourly : Scheduled hours (Jobs.empty.register hourly) hourly () :=
  ⟨HashMap.get_insert_self, rfl, rfl, fun _ hfirst _ hsecond hlt =>
    tickPeriod_le_sub hfirst hsecond hlt⟩

/-- Ticks once a minute, from some time on. -/
def everyMinute (start : Int) (i : ℕ) : Int := start + i * tickPeriod

/-- `everyMinute` is a `Sampling` with the period of the ticks. -/
theorem sampling_everyMinute (start : Int) : Sampling tickPeriod (everyMinute start) := by
  refine ⟨fun i j hij => ?_, fun point => ⟨(point - start).toNat, ?_⟩, fun i => ?_⟩
  · simp only [everyMinute, tickPeriod]
    omega
  · simp only [everyMinute, tickPeriod]
    omega
  · simp only [everyMinute, tickPeriod]
    omega

/-- With ticks at half past each minute, as `everyMinute` has them, the full hour fires once. -/
theorem existsUnique_fires_iff_half_past :
    ∃! i, Fires hours (Jobs.empty.register hourly) hourly (everyMinute (30 * 10 ^ 9) i)
      (60 * tickPeriod) := by
  refine (existsUnique_fires_iff (fun _ => scheduled_hourly) (sampling_everyMinute (30 * 10 ^ 9))
    (dvd_refl (60 * tickPeriod)) (by decide)).2.mpr ⟨fun i => ?_, fun i => ?_⟩
  · simp only [Hits, everyMinute, tickPeriod]
    omega
  · rintro ⟨hbefore, -⟩
    have hsum : (30 * 10 ^ 9 : Int) + i * tickPeriod = 60 * tickPeriod - tickPeriod := hbefore
    rw [tickPeriod] at hsum
    omega

/-- **On the minute no tick fires the full hour**: of `everyMinute 0` one comes sixty seconds before
it, and the next one on it. -/
theorem not_existsUnique_fires_on_the_minute :
    ¬∃! i, Fires hours (Jobs.empty.register hourly) hourly (everyMinute 0 i) (60 * tickPeriod) := by
  rintro ⟨i, hfires, -⟩
  have hhits := (fires_iff scheduled_hourly (dvd_refl (60 * tickPeriod))).mp hfires
  simp only [Hits, everyMinute, tickPeriod] at hhits
  omega

end LogosFs.Kernel
