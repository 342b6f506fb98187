import BuildReuse.Proofs.Build.Outcome
import BuildReuse.Proofs.BuildLog.Newest
import BuildReuse.Proofs.Cache.Stands

/-! Where the result of a build comes from. Behind a call of the tool the newest log is
read, which need not be one that the call has left. -/
namespace BuildReuse.Build

open BuildReuse.Cache (Alike newestIn outlook resultsIn)
open BuildReuse.Task (Ends)

variable {t : Target} {tool : BuildTool} {config : Config} {fs fs' : FileSystem} {log : Path} {r : BuildResult}

def Logs (t : Target) (config : Config) (fs : FileSystem) (log : Path) : Prop :=
  ∃ logs, t.directory.filesWithExtension config.logExtension fs = .ok logs ∧ log ∈ logs

structure Kept (t : Target) (config : Config) (fs fs' : FileSystem) (log : Path) : Prop where
  before : Logs t config fs log
  after : Logs t config fs' log
  file : ∃ n, (fs.find t.here log).toOption.map Trail.node = some n ∧
    (fs'.find t.here log).toOption.map Trail.node = some n ∧ fs'.nodes[n]? = fs.nodes[n]?

def Selects (t : Target) (config : Config) (fs : FileSystem) (log : Path) (r : BuildResult) : Prop :=
  newestIn t config fs = .ok (some log) ∧ ∃ results, resultsIn t log fs = .ok results ∧
    BuildResult.select fs t.here t.projectFile results = some r

theorem Kept.artifact (kept : Kept t config fs fs' log) :
    BuildLog.artifact? fs' t.here log = BuildLog.artifact? fs t.here log := by
  obtain ⟨n, found, found', same⟩ := kept.file
  rw [BuildLog.artifactForm, BuildLog.artifactForm, found, found', Option.bind_some, Option.bind_some, same]

theorem newestOfLogs (newest : newestIn t config fs = .ok (some log)) :
    ∃ a, BuildLog.artifact? fs t.here log = some a ∧ a.path = log ∧
      ∀ other b, Logs t config fs other → BuildLog.artifact? fs t.here other = some b → b.newer a = true := by
  unfold newestIn BuildLog.latest at newest
  cases listed : t.directory.filesWithExtension config.logExtension fs with
  | error e => simp [listed, Except.mapError, Except.map] at newest
  | ok logs =>
    simp only [listed, Except.mapError, Except.map, Except.ok.injEq, Option.map_eq_some_iff] at newest
    obtain ⟨a, isNewest, rfl⟩ := newest
    obtain ⟨path, -, made⟩ := List.mem_filterMap.mp (BuildLog.newestMember isNewest)
    have named : path = a.path := by
      rw [BuildLog.artifactForm] at made
      simp only [Option.bind_eq_some_iff, Option.map_eq_some_iff] at made
      obtain ⟨-, -, node, -, rfl⟩ := made
      rfl
    refine ⟨a, named ▸ made, rfl, fun other b isLog made' => ?_⟩
    obtain ⟨logs', listed', member⟩ := isLog
    cases listed.symm.trans listed'
    exact BuildLog.newestGreatest isNewest b (List.mem_filterMap.mpr ⟨other, member, made'⟩)

theorem Kept.newest {newest : Path} (was : newestIn t config fs = .ok (some newest))
    (keeps : Kept t config fs fs' newest) (is : newestIn t config fs' = .ok (some log))
    (kept : Kept t config fs fs' log) : newest = log := by
  obtain ⟨a, made, rfl, greatest⟩ := newestOfLogs was
  obtain ⟨b, made', rfl, greatest'⟩ := newestOfLogs is
  have older := greatest b.path b kept.before (kept.artifact ▸ made')
  have newer := greatest' a.path a keeps.after (keeps.artifact.symm ▸ made)
  exact congrArg BuildLog.Artifact.path (BuildLog.newerAntisymm newer older)

theorem Selects.alike (alike : Alike t config fs fs') : Selects t config fs' log r ↔ Selects t config fs log r := by
  rw [Selects, Selects, alike.newest]
  refine and_congr_right fun newest => exists_congr fun results => ?_
  rw [alike.results newest]
  exact and_congr_right fun read => by rw [alike.selects newest read]

theorem Kept.results (kept : Kept t config fs fs' log) : resultsIn t log fs' = resultsIn t log fs := by
  obtain ⟨n, found, found', same⟩ := kept.file
  have reads : fs'.readBytes t.here log = fs.readBytes t.here log := by
    cases walk : fs.find t.here log with
    | error e => simp [walk, Except.toOption] at found
    | ok trail =>
      cases walk' : fs'.find t.here log with
      | error e => simp [walk', Except.toOption] at found'
      | ok trail' =>
        simp only [walk, walk', Except.toOption, Option.map_some, Option.some.injEq] at found found'
        simp only [FileSystem.readBytes, walk, walk', found, found', bind, Except.bind, FileSystem.readNode,
          FileSystem.content?, same]
  simp only [resultsIn, BuildLog.readFile, FileSystem.readText, reads]

theorem Selects.missed {seen : Option Path × Verdict} (saw : outlook t config fs = .ok seen)
    (miss : seen.2.isReusable = false) (selects : Selects t config fs log r) (succeeded : r.succeeded = true) :
    r.compiled = false := by
  obtain ⟨newest, results, read, selected⟩ := selects
  have verdict : outlook t config fs = .ok (some log, .ofSelected (some r)) := by
    rw [outlook, newest]
    simp only [Cache.verdictIn, read, Except.map, Verdict.ofResults, selected]
  cases saw.symm.trans verdict
  rw [Bool.eq_false_iff]
  intro compiled
  -- a compile would have made the verdict before the call a reusable one
  have reusable : r.reusable = true := by rw [BuildResult.reusable, succeeded, compiled]; rfl
  rw [Cache.ofSelectedReusable.mpr ⟨rfl, reusable⟩] at miss
  cases miss

theorem Kept.wasNewest (kept : Kept t config fs fs' log) (newest : newestIn t config fs' = .ok (some log)) :
    ∃ newest, newestIn t config fs = .ok (some newest) := by
  obtain ⟨a, made, -, -⟩ := newestOfLogs newest
  obtain ⟨logs, listed, isLog⟩ := kept.before
  have one : a ∈ logs.filterMap (BuildLog.artifact? fs t.here) :=
    List.mem_filterMap.mpr ⟨log, isLog, kept.artifact ▸ made⟩
  cases was : BuildLog.newest (logs.filterMap (BuildLog.artifact? fs t.here)) with
  | none =>
    rw [BuildLog.newestNone.mp was] at one
    cases one
  | some b =>
    refine ⟨b.path, ?_⟩
    rw [newestIn, BuildLog.latest, listed]
    simp only [Except.mapError, Except.map, show t.directory.caller.here = t.here from rfl, was, Option.map_some]

def Fresh (t : Target) (config : Config) (fs fs' : FileSystem) (r : BuildResult) : Prop :=
  ∃ log, Selects t config fs' log r ∧ ¬ Kept t config fs fs' log

/-- The result comes from a log that is as it was. Either this log was the newest before as
well, and what it tells of compiled nothing unless other paths lead to the project file
now; or the one that was the newest has been removed or rewritten. -/
inductive Stale (t : Target) (config : Config) (fs fs' : FileSystem) (r : BuildResult) : Prop where
  | still {log : Path} (selects : Selects t config fs' log r) (kept : Kept t config fs fs' log)
      (was : newestIn t config fs = .ok (some log))
      (empty : BuildResult.select fs' t.here t.projectFile = BuildResult.select fs t.here t.projectFile →
        r.compiled = false) : Stale t config fs fs' r
  | uncovered {log newest : Path} (selects : Selects t config fs' log r) (kept : Kept t config fs fs' log)
      (was : newestIn t config fs = .ok (some newest)) (lost : ¬ Kept t config fs fs' newest) :
      Stale t config fs fs' r

theorem Selects.once {log' : Path} {r' : BuildResult} (selects : Selects t config fs log r)
    (selects' : Selects t config fs log' r') : log = log' := by
  cases selects.1.symm.trans selects'.1
  rfl

theorem Stale.notFresh (stale : Stale t config fs fs' r) : ¬ Fresh t config fs fs' r := by
  rintro ⟨log, selects, rewritten⟩
  cases stale with
  | still selects' kept => exact rewritten (selects'.once selects ▸ kept)
  | uncovered selects' kept => exact rewritten (selects'.once selects ▸ kept)

theorem Kept.stale {seen : Option Path × Verdict} (saw : outlook t config fs = .ok seen)
    (miss : seen.2.isReusable = false) (selects : Selects t config fs' log r) (succeeded : r.succeeded = true)
    (kept : Kept t config fs fs' log) : Stale t config fs fs' r := by
  obtain ⟨newest, was⟩ := kept.wasNewest selects.1
  by_cases keeps : Kept t config fs fs' newest
  · obtain rfl := Kept.newest was keeps selects.1 kept
    refine .still selects kept was fun same => ?_
    obtain ⟨-, results, read, selected⟩ := selects
    exact Selects.missed saw miss ⟨was, results, kept.results ▸ read, same ▸ selected⟩ succeeded
  · exact .uncovered selects kept was keeps

theorem freshIff {seen : Option Path × Verdict} (saw : outlook t config fs = .ok seen)
    (miss : seen.2.isReusable = false) (selects : ∃ log, Selects t config fs' log r)
    (succeeded : r.succeeded = true) : Fresh t config fs fs' r ↔ ¬ Stale t config fs fs' r := by
  refine ⟨fun fresh stale => stale.notFresh fresh, fun notStale => ?_⟩
  obtain ⟨log, selects⟩ := selects
  exact ⟨log, selects, fun kept => notStale (kept.stale saw miss selects succeeded)⟩

theorem deliversIff {call : Call} : Delivers t config call r ↔ ∃ output fs,
    call.outcome = some (.ok output) ∧ Settles t call.after.files output (.ok ()) fs ∧
    (∃ log, Selects t config fs log r) ∧ r.succeeded = true := by
  constructor
  · rintro ⟨output, fs, log, document, ended, zero, cleared, newest, loaded, current, selected, succeeded⟩
    exact ⟨output, fs, ended, settledIff.mpr ⟨zero, cleared⟩, ⟨log, newest, document.results,
      Cache.resultsInLoads.mpr ⟨document, loaded, current, rfl⟩, selected⟩, succeeded⟩
  · rintro ⟨output, fs, ended, settles, ⟨log, newest, results, read, selected⟩, succeeded⟩
    obtain ⟨zero, cleared⟩ := settledIff.mp settles
    obtain ⟨document, loaded, current, rfl⟩ := Cache.resultsInLoads.mp read
    exact ⟨output, fs, log, document, ended, zero, cleared, newest, loaded, current, selected, succeeded⟩

theorem concludesSettled {call : Call} {outcome : Except BuildError ToolOutput} {o : Except PackageError BuildResult}
    {m : Machine} {output : ToolOutput} (concludes : Concludes t config call.after.files outcome o m)
    (ended : outcome = .ok output) (settles : Settles t call.after.files output (.ok ()) fs) : m.files = fs := by
  cases concludes with
  | unstarted => cases ended
  | unsettled settles' =>
    cases ended
    cases (settlesOnce settles' settles).1
  | settled settles' =>
    cases ended
    exact (settlesOnce settles' settles).2

theorem concludesSelects {call : Call} {outcome : Except BuildError ToolOutput} {o : Except PackageError BuildResult}
    {m : Machine} (ended : call.outcome = some outcome) (concludes : Concludes t config call.after.files outcome o m)
    (x : BuildResult) : o = .ok x ↔
      (∃ output, call.outcome = some (.ok output) ∧ Settles t call.after.files output (.ok ()) m.files) ∧
      (∃ log, Selects t config m.files log x) ∧ x.succeeded = true ∧ o ≠ .error (.buildLog .noDeadline) := by
  rw [concludesIff ended concludes, deliversIff]
  constructor
  · rintro ⟨⟨output, fs, same, settles, selects, succeeded⟩, timely⟩
    obtain rfl := concludesSettled concludes (Option.some.inj (ended.symm.trans same)) settles
    exact ⟨⟨output, same, settles⟩, selects, succeeded, timely⟩
  · rintro ⟨⟨output, same, settles⟩, selects, succeeded, timely⟩
    exact ⟨⟨output, m.files, same, settles, selects, succeeded⟩, timely⟩

theorem concludesAlike {call : Call} {seen : Option Path × Verdict} {outcome : Except BuildError ToolOutput}
    {o : Except PackageError BuildResult} {m : Machine} (saw : outlook t config call.before.files = .ok seen)
    (miss : seen.2.isReusable = false) (ended : call.outcome = some outcome)
    (concludes : Concludes t config call.after.files outcome o m)
    (alike : Alike t config call.before.files m.files) (x : BuildResult) :
    o = .ok x ↔ (∃ output, call.outcome = some (.ok output) ∧ Settles t call.after.files output (.ok ()) m.files) ∧
      (∃ log, Selects t config call.before.files log x) ∧ x.succeeded = true ∧ x.compiled = false ∧
      o ≠ .error (.buildLog .noDeadline) := by
  rw [concludesSelects ended concludes]
  refine and_congr_right fun _ => ?_
  simp only [Selects.alike alike]
  constructor
  · rintro ⟨⟨log, selects⟩, succeeded, timely⟩
    exact ⟨⟨log, selects⟩, succeeded, selects.missed saw miss succeeded, timely⟩
  · rintro ⟨selects, succeeded, -, timely⟩
    exact ⟨selects, succeeded, timely⟩

/-- A success behind a call of the tool comes from a log that the call has made or rewritten,
except exactly where it is stale. In particular a tool that leaves things as they were for
the target makes the build fail, except exactly where the newest log already told of a
success without a compile. -/
theorem freshUnlessStale {m m' : Machine} {o : Except PackageError BuildResult}
    (built : Ends Alone m (build t tool config none).run (some o) m') :
    (∃ e, o = .error (.lock e)) ∨ ∃ locked ended calls, t.directory.Locks Alone "build" m locked ∧
      Outcome t tool config locked calls o ended ∧ m'.files = ended.files ∧
      (∀ number, tool.Notes number → number < m.rehearsals.length →
        m'.asked number = m.asked number ++ calls.map Call.request) ∧
      ∀ call ∈ calls,
        (∀ x, o = .ok x → (∃ log, Selects t config m'.files log x) ∧ x.succeeded = true ∧
          (Fresh t config call.before.files m'.files x ↔ ¬ Stale t config call.before.files m'.files x)) ∧
        (Alike t config call.before.files m'.files → ∀ x, o = .ok x ↔
          (∃ output, call.outcome = some (.ok output) ∧ Settles t call.after.files output (.ok ()) m'.files) ∧
          (∃ log, Selects t config call.before.files log x) ∧ x.succeeded = true ∧ x.compiled = false ∧
          o ≠ .error (.buildLog .noDeadline)) := by
  rcases buildEnds built with ⟨e, failed, -⟩ | ⟨locked, ended, calls, locks, course, files, rehearsals⟩
  · exact .inl ⟨e, failed⟩
  · have outcome := courseOutcome course
    refine .inr ⟨locked, ended, calls, locks, outcome, files,
      fun number notes room => buildNoted notes room locks course rehearsals, fun call called => ?_⟩
    cases outcome with
    | called saw miss asked found runs ended' concludes =>
      cases List.mem_singleton.mp called
      rw [← found] at saw
      rw [files]
      refine ⟨fun x success => ?_, fun alike => concludesAlike saw miss ended' concludes alike⟩
      obtain ⟨-, selects, succeeded, -⟩ := (concludesSelects ended' concludes x).mp success
      exact ⟨selects, succeeded, freshIff saw miss selects succeeded⟩
    | _ => cases called

theorem thirdLogSelected : ∃ m', ∃ call : Call,
    Ends Alone (twoLogs emptyLog) (build app appTool .default none).run
      (some (.ok (resultNaming "/app.kproj"))) m' ∧
    m'.asked 0 = [call.request] ∧ Selects app .default m'.files ⟨"/c.buildlog"⟩ (resultNaming "/app.kproj") ∧
    (Fresh app .default call.before.files m'.files (resultNaming "/app.kproj") ↔
      ¬ Stale app .default call.before.files m'.files (resultNaming "/app.kproj")) := by
  have ends : Ends Alone (twoLogs emptyLog) (build app appTool .default none).run
      (some (.ok (resultNaming "/app.kproj"))) (staleTurn.2.poll staleTurn.1).1 :=
    .ofPoll Alone.refl (.ofValue Alone.refl (by decide +kernel))
  have newest : newestIn app .default (staleTurn.2.poll staleTurn.1).1.files = .ok (some ⟨"/c.buildlog"⟩) := by
    decide +kernel
  have once : ((staleTurn.2.poll staleTurn.1).1.asked 0).length = 1 := by decide +kernel
  rcases freshUnlessStale ends with ⟨e, no⟩ | ⟨locked, ended, calls, -, -, -, asked, decided⟩
  · cases no
  · have noted := asked 0 (BuildTool.rehearsedNotes _ 0) (by decide)
    have before : (twoLogs emptyLog).asked 0 = [] := rfl
    rw [before, List.nil_append] at noted
    rw [noted, List.length_map] at once
    obtain ⟨call, rfl⟩ := List.length_eq_one_iff.mp once
    obtain ⟨⟨log, selects⟩, -, freshIff⟩ := (decided call (List.mem_singleton_self _)).1 _ rfl
    cases newest.symm.trans selects.1
    exact ⟨_, call, ends, noted, selects, freshIff⟩

def idle : Machine where
  files := ⟨#[⟨.directory [("app.kproj", 1), ("old.buildlog", 2)], 0o755, 0⟩, ⟨.file [], 0o644, 0⟩,
    ⟨.file (bytesOf "[1,[[\"/app.kproj\",true,[\"a\"],[]]]]"), 0o644, 1⟩]⟩
  locks := .empty
  clock := 0
  epoch := 0
  rehearsals := [.ofActs [{ output := ⟨some 0, "", ""⟩ }]]
  agenda := []

def idleTurn := (build app appTool .default none).run.poll idle

def oldResult : BuildResult := ⟨⟨"/app.kproj"⟩, true, [⟨"a"⟩], [], []⟩

theorem oldLogTaken : ∃ m', Ends Alone idle (build app appTool .default none).run (some (.ok oldResult)) m' ∧
    (m'.asked 0).length = 1 ∧ Selects app .default m'.files ⟨"/old.buildlog"⟩ oldResult ∧
    Kept app .default idle.files m'.files ⟨"/old.buildlog"⟩ := by
  refine ⟨(idleTurn.2.poll idleTurn.1).1, .ofPoll Alone.refl (.ofValue Alone.refl (by decide +kernel)),
    by decide +kernel, ⟨by decide +kernel, [oldResult], by decide +kernel, by decide +kernel⟩, ?_⟩
  exact ⟨⟨[⟨"/old.buildlog"⟩], by decide +kernel, List.mem_singleton_self _⟩,
    ⟨[⟨"/old.buildlog"⟩], by decide +kernel, List.mem_singleton_self _⟩,
    ⟨2, by decide +kernel, by decide +kernel, by decide +kernel⟩⟩

end BuildReuse.Build
