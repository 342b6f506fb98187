import BuildReuse.Proofs.Build.Finishes
import BuildReuse.Proofs.Build.Rebuild
import BuildReuse.Proofs.Cache.Decided

/-! What a build comes to, as it is decided by the files that it finds, by the output of
the tool and by the files that the tool leaves. The tests are made in a fixed order, and
the first that fails gives the error. -/
namespace BuildReuse

open BuildReuse.Task (Ends Ensures Finishes)

namespace Build

inductive Settles (t : Target) (fs : FileSystem) (output : ToolOutput) :
    Except BuildError Unit → FileSystem → Prop where
  | noted {now fs'} (failed : output.exitCode ≠ some 0)
      (written : fs.writeFile t.here t.sentinel (bytesOf output.diagnostics) now = .ok fs') :
      Settles t fs output (.error (.toolFailed t.name output.exitCode t.sentinel output.diagnostics)) fs'
  | unnoted {now e} (failed : output.exitCode ≠ some 0)
      (unwritten : fs.writeFile t.here t.sentinel (bytesOf output.diagnostics) now = .error e) :
      Settles t fs output (.error (.sentinel t.sentinel e)) fs
  | cleared {fs'} (ended : output.exitCode = some 0)
      (removed : fs.removeFile t.here t.sentinel = .ok fs') : Settles t fs output (.ok ()) fs'
  | absent {e} (ended : output.exitCode = some 0) (unremoved : fs.removeFile t.here t.sentinel = .error e)
      (gone : e.kind = .notFound) : Settles t fs output (.ok ()) fs
  | uncleared {e} (ended : output.exitCode = some 0)
      (unremoved : fs.removeFile t.here t.sentinel = .error e) (there : e.kind ≠ .notFound) :
      Settles t fs output (.error (.sentinel t.sentinel e)) fs

inductive Collects (t : Target) (config : Config) (m : Machine) : Except PackageError BuildResult → Prop where
  | unscanned {e} (newest : Cache.newestIn t config m.files = .error e) : Collects t config m (.error e)
  | noLog (newest : Cache.newestIn t config m.files = .ok none) :
      Collects t config m (.error (.buildFailed (.noBuildLog t.name)))
  | noDeadline {log} (newest : Cache.newestIn t config m.files = .ok (some log))
      (endless : m.deadline? config.logReadyTimeout = none) :
      Collects t config m (.error (.buildLog .noDeadline))
  | unread {log e} (newest : Cache.newestIn t config m.files = .ok (some log))
      (read : Cache.resultsIn t log m.files = .error e) : Collects t config m (.error e)
  | empty {log} (newest : Cache.newestIn t config m.files = .ok (some log))
      (read : Cache.resultsIn t log m.files = .ok []) :
      Collects t config m (.error (.buildFailed (.emptyBuildLog log)))
  | unmatched {log results} (newest : Cache.newestIn t config m.files = .ok (some log))
      (read : Cache.resultsIn t log m.files = .ok results) (some : results ≠ [])
      (selected : BuildResult.select m.files t.here t.projectFile results = none) :
      Collects t config m (.error (.buildFailed (.noMatchingResult t.name)))
  | unsuccessful {log results r} (newest : Cache.newestIn t config m.files = .ok (some log))
      (read : Cache.resultsIn t log m.files = .ok results)
      (selected : BuildResult.select m.files t.here t.projectFile results = some r)
      (failed : r.succeeded = false) :
      Collects t config m (.error (.buildFailed (.unsuccessful t.name)))
  | found {log results r} (newest : Cache.newestIn t config m.files = .ok (some log))
      (read : Cache.resultsIn t log m.files = .ok results)
      (selected : BuildResult.select m.files t.here t.projectFile results = some r)
      (succeeded : r.succeeded = true) : Collects t config m (.ok r)

inductive Concludes (t : Target) (config : Config) (fs : FileSystem) : Except BuildError ToolOutput →
    Except PackageError BuildResult → Machine → Prop where
  | unstarted {e m} (files : m.files = fs) : Concludes t config fs (.error e) (.error (.buildFailed e)) m
  | unsettled {output e m} (settles : Settles t fs output (.error e) m.files) :
      Concludes t config fs (.ok output) (.error (.buildFailed e)) m
  | settled {output r m} (settles : Settles t fs output (.ok ()) m.files) (collects : Collects t config m r) :
      Concludes t config fs (.ok output) r m

variable {t : Target} {tool : BuildTool} {config : Config} {fs : FileSystem}

theorem filesStable {fs : FileSystem} (m m' : Machine) (files : m.files = fs) (others : Alone m m') :
    m'.files = fs := others.files.trans files

theorem successIff (output : ToolOutput) : output.success = true ↔ output.exitCode = some 0 := by
  rw [ToolOutput.success, beq_iff_eq]

theorem changeDecides (f : FileSystem → Int → Except IoError FileSystem) :
    Ensures Alone (fun m => m.files = fs) (changeFiles f).run (fun r m => match r with
      | .ok () => ∃ now, f fs now = .ok m.files
      | .error e => m.files = fs ∧ ∃ now, f fs now = .error e) fun _ => True :=
  Task.changeFilesEnsures (fun m m₁ _ files others changed => ⟨m₁.now, filesStable m m₁ files others ▸ changed⟩)
    fun m m₁ _ files others failed =>
      ⟨filesStable m m₁ files others, m₁.now, filesStable m m₁ files others ▸ failed⟩

theorem settlesStable {output : ToolOutput} {r : Except BuildError Unit} (m m' : Machine)
    (settles : Settles t fs output r m.files) (others : Alone m m') : Settles t fs output r m'.files :=
  others.files ▸ settles

theorem clearDecides {output : ToolOutput} (ended : output.exitCode = some 0) :
    Ensures Alone (fun m => m.files = fs) (clearSentinel t).run
      (fun r m => Settles t fs output r m.files) fun _ => True := by
  have clears : Ensures Alone (fun m => m.files = fs) (Job.mapError (.sentinel t.sentinel) <| tryCatch
      (changeFiles fun fs _ => fs.removeFile t.here t.sentinel)
      fun e => if e.kind = .notFound then pure () else throw e).run
      (fun r m => Settles t fs output r m.files) fun _ => True := by
    refine .mapError ((changeDecides _).tryCatch (fun _ m cleared => ?_) fun e => ?_)
    · obtain ⟨-, removed⟩ := cleared
      exact .cleared ended removed
    · by_cases gone : e.kind = .notFound
      · rw [if_pos gone]
        refine .done fun m failed => ?_
        obtain ⟨files, -, unremoved⟩ := failed
        exact files.symm ▸ .absent ended unremoved gone
      · rw [if_neg gone]
        refine .done fun m failed => ?_
        obtain ⟨files, -, unremoved⟩ := failed
        exact files.symm ▸ .uncleared ended unremoved gone
  exact clears.jobBind (fun _ => .lift (.wait settlesStable fun _ _ _ _ => trivial)) fun _ _ => id

theorem settleDecides (output : ToolOutput) :
    Ensures Alone (fun m => m.files = fs) (settle t output).run (fun r m => Settles t fs output r m.files)
      fun _ => True := by
  unfold settle
  split
  case isTrue success => exact clearDecides ((successIff output).mp success)
  case isFalse failed =>
    rw [successIff] at failed
    have writes : Ensures Alone (fun m => m.files = fs) (writeSentinel t output.diagnostics).run
        (fun r m => match r with
          | .ok () => Settles t fs output
              (.error (.toolFailed t.name output.exitCode t.sentinel output.diagnostics)) m.files
          | .error e => Settles t fs output (.error e) m.files) fun _ => True := by
      have written : Ensures Alone (fun m => m.files = fs) (Job.mapError (BuildError.sentinel t.sentinel)
          (changeFiles fun fs now => fs.writeFile t.here t.sentinel (bytesOf output.diagnostics) now)).run
          (fun r m => match r with
            | .ok () => Settles t fs output
                (.error (.toolFailed t.name output.exitCode t.sentinel output.diagnostics)) m.files
            | .error e => Settles t fs output (.error e) m.files) fun _ => True := by
        refine .mapError ((changeDecides _).weaken (fun r m after => ?_) fun _ => id)
        cases r with
        | ok done =>
          obtain ⟨now, written⟩ := after
          exact .noted failed written
        | error e =>
          obtain ⟨files, now, unwritten⟩ := after
          exact files.symm ▸ .unnoted failed unwritten
      exact written.jobBind (fun _ => .lift (.wait settlesStable fun _ _ _ _ => trivial)) fun _ _ => id
    exact writes.jobBind (fun _ => .done fun _ => id) fun _ _ => id

theorem resultsDecide {log : Path} {results : List BuildResult}
    (newest : Cache.newestIn t config fs = .ok (some log)) (read : Cache.resultsIn t log fs = .ok results) :
    Ensures Alone (fun m => m.files = fs) (decideOn t log results).run
      (fun r m => m.files = fs ∧ Collects t config m r) fun _ => True := by
  unfold decideOn
  by_cases empty : results.isEmpty = true
  · rw [if_pos empty]
    rw [List.isEmpty_iff.mp empty] at read
    refine .done fun m files => ⟨files, ?_⟩
    subst files
    exact .empty newest read
  · rw [if_neg empty]
    have selects : Ensures Alone (fun m => m.files = fs)
        (Job.get fun m => BuildResult.select m.files t.here t.projectFile results :
          MachineJob PackageError (Option BuildResult)).run
        (fun r m => m.files = fs ∧ r = .ok (BuildResult.select fs t.here t.projectFile results)) fun _ => True :=
      .lift (.get fun m m' files others =>
        ⟨filesStable m m' files others, filesStable m m' files others ▸ rfl⟩)
    refine selects.jobBind (fun selected => ?_) fun e m holds => by cases holds.2
    cases selected with
    | none =>
      refine .done fun m holds => ?_
      obtain ⟨rfl, same⟩ := holds
      exact ⟨rfl, .unmatched newest read (fun none => empty (none ▸ rfl)) (Except.ok.inj same).symm⟩
    | some r =>
      by_cases succeeded : r.succeeded = true
      · simp only [succeeded, if_true]
        refine .done fun m holds => ?_
        obtain ⟨rfl, same⟩ := holds
        exact ⟨rfl, .found newest read (Except.ok.inj same).symm succeeded⟩
      · simp only [succeeded]
        refine .done fun m holds => ?_
        obtain ⟨rfl, same⟩ := holds
        exact ⟨rfl, .unsuccessful newest read (Except.ok.inj same).symm (Bool.eq_false_iff.mpr succeeded)⟩

theorem collectDecides :
    Ensures Alone (fun m => m.files = fs) (collect t config).run
      (fun r m => m.files = fs ∧ Collects t config m r) fun _ => True := by
  have alike (m : Machine) (files : m.files = fs) : Cache.Alike t config fs m.files :=
    files ▸ .refl t config m.files
  refine .jobBind ((Cache.latestEnsures filesStable alike).weaken (fun _ _ => id) fun _ _ => trivial)
    (fun log => ?_) fun e m holds => ?_
  · cases log with
    | none =>
      refine .done fun m holds => ⟨holds.1, .noLog ?_⟩
      rw [holds.1, ← holds.2]
      rfl
    | some log =>
      intro m o m' holds
      have found : Cache.newestIn t config fs = .ok (some log.path) := holds.2.symm
      have loads := Cache.loadEnsures config.logReadyTimeout filesStable
        fun m files => (alike m files).reads found
      have decides : Ensures Alone (fun m => m.files = fs) (do
          let results ← Job.mapError PackageError.buildLog (BuildLog.load t.here log.path config.logReadyTimeout)
          decideOn t log.path results).run (fun r m => m.files = fs ∧ Collects t config m r) fun _ => True := by
        refine (loads.weaken (fun _ _ => id) fun _ _ => trivial).jobBind (fun results => ?_) fun e m holds => ?_
        · intro m o m' holds
          obtain ⟨files, loaded | ⟨no, -⟩⟩ := holds
          · exact resultsDecide found loaded.symm files
          · cases no
        · obtain ⟨rfl, loaded | ⟨failed, late⟩⟩ := holds
          · exact ⟨rfl, .unread found loaded.symm⟩
          · cases failed
            exact ⟨rfl, .noDeadline found late⟩
      exact decides holds.1
  · refine ⟨holds.1, .unscanned ?_⟩
    rw [holds.1, ← holds.2]
    rfl

theorem finishDecides (outcome : Except BuildError ToolOutput) :
    Ensures Alone (fun m => m.files = fs) (finish t config outcome).run
      (fun r m => Concludes t config fs outcome r m) fun _ => True := by
  cases outcome with
  | error e => exact .done fun m files => .unstarted files
  | ok output =>
    have settles : Ensures Alone (fun m => m.files = fs)
        (Job.mapError PackageError.buildFailed (settle t output)).run
        (fun r m => match r with
          | .ok () => Settles t fs output (.ok ()) m.files
          | .error e => Concludes t config fs (.ok output) (.error e) m) fun _ => True := by
      refine .mapError ((settleDecides output).weaken (fun r m after => ?_) fun _ => id)
      cases r with
      | ok done => exact after
      | error e => exact .unsettled after
    refine settles.jobBind (fun _ m o m' settled ends => ?_) fun _ _ => id
    have collects := collectDecides (show m.files = m.files from rfl) ends
    cases o with
    | none => trivial
    | some r => exact .settled (collects.1.symm ▸ settled) collects.2

def Delivers (t : Target) (config : Config) (call : Call) (r : BuildResult) : Prop :=
  ∃ output fs log document, call.outcome = some (.ok output) ∧ output.exitCode = some 0 ∧
    (call.after.files.removeFile t.here t.sentinel = .ok fs ∨
      ∃ e, call.after.files.removeFile t.here t.sentinel = .error e ∧ e.kind = .notFound ∧
        fs = call.after.files) ∧
    Cache.newestIn t config fs = .ok (some log) ∧ BuildLog.readFile fs t.here log = .ok document ∧
    document.version = BuildLog.currentVersion ∧
    BuildResult.select fs t.here t.projectFile document.results = some r ∧ r.succeeded = true

theorem settledIff {output : ToolOutput} {fs' : FileSystem} : Settles t fs output (.ok ()) fs' ↔
    output.exitCode = some 0 ∧ (fs.removeFile t.here t.sentinel = .ok fs' ∨
      ∃ e, fs.removeFile t.here t.sentinel = .error e ∧ e.kind = .notFound ∧ fs' = fs) := by
  constructor
  · intro settles
    cases settles with
    | cleared ended removed => exact ⟨ended, .inl removed⟩
    | absent ended unremoved gone => exact ⟨ended, .inr ⟨_, unremoved, gone, rfl⟩⟩
  · rintro ⟨ended, removed | ⟨e, unremoved, gone, rfl⟩⟩
    · exact .cleared ended removed
    · exact .absent ended unremoved gone

theorem collectsIff {m : Machine} {r : Except PackageError BuildResult} {x : BuildResult}
    (collects : Collects t config m r) : r = .ok x ↔ (∃ log results,
      Cache.newestIn t config m.files = .ok (some log) ∧ Cache.resultsIn t log m.files = .ok results ∧
      BuildResult.select m.files t.here t.projectFile results = some x ∧ x.succeeded = true) ∧
      r ≠ .error (.buildLog .noDeadline) := by
  constructor
  · rintro rfl
    cases collects with
    | found newest read selected succeeded => exact ⟨⟨_, _, newest, read, selected, succeeded⟩, nofun⟩
  · rintro ⟨⟨log, results, newest, read, selected, succeeded⟩, timely⟩
    cases collects with
    | unscanned newest' => cases newest.symm.trans newest'
    | noLog newest' => cases newest.symm.trans newest'
    | noDeadline => exact (timely rfl).elim
    | unread newest' read' =>
      cases newest.symm.trans newest'
      cases read.symm.trans read'
    | empty newest' read' =>
      cases newest.symm.trans newest'
      cases read.symm.trans read'
      cases selected
    | unmatched newest' read' some none =>
      cases newest.symm.trans newest'
      cases read.symm.trans read'
      cases selected.symm.trans none
    | unsuccessful newest' read' selected' failed =>
      cases newest.symm.trans newest'
      cases read.symm.trans read'
      cases selected.symm.trans selected'
      cases succeeded.symm.trans failed
    | found newest' read' selected' =>
      cases newest.symm.trans newest'
      cases read.symm.trans read'
      cases selected.symm.trans selected'
      rfl

theorem settlesOnce {output : ToolOutput} {r : Except BuildError Unit} {fs₁ fs₂ : FileSystem}
    (settles : Settles t fs output r fs₁) (settled : Settles t fs output (.ok ()) fs₂) :
    r = .ok () ∧ fs₁ = fs₂ := by
  obtain ⟨ended, cleared⟩ := settledIff.mp settled
  cases settles with
  | noted failed => exact (failed ended).elim
  | unnoted failed => exact (failed ended).elim
  | cleared _ removed =>
    rcases cleared with removed' | ⟨e, unremoved, -⟩
    · exact ⟨rfl, Except.ok.inj (removed.symm.trans removed')⟩
    · cases removed.symm.trans unremoved
  | absent _ unremoved =>
    rcases cleared with removed | ⟨e, -, -, rfl⟩
    · cases removed.symm.trans unremoved
    · exact ⟨rfl, rfl⟩
  | uncleared _ unremoved there =>
    rcases cleared with removed | ⟨e, unremoved', gone, -⟩
    · cases removed.symm.trans unremoved
    · cases unremoved.symm.trans unremoved'
      exact (there gone).elim

theorem concludesIff {call : Call} {outcome : Except BuildError ToolOutput} {m : Machine}
    {r : Except PackageError BuildResult} (ended : call.outcome = some outcome)
    (concludes : Concludes t config call.after.files outcome r m) (x : BuildResult) :
    r = .ok x ↔ Delivers t config call x ∧ r ≠ .error (.buildLog .noDeadline) := by
  cases concludes with
  | unstarted files =>
    refine ⟨nofun, fun ⟨⟨_, _, _, _, same, _⟩, _⟩ => ?_⟩
    cases ended.symm.trans same
  | unsettled settles =>
    refine ⟨nofun, fun ⟨⟨output, fs, _, _, same, zero, cleared, _⟩, _⟩ => ?_⟩
    cases ended.symm.trans same
    cases (settlesOnce settles (settledIff.mpr ⟨zero, cleared⟩)).1
  | settled settles collects =>
    rw [collectsIff collects]
    refine and_congr_left fun _ => ⟨?_, ?_⟩
    · rintro ⟨log, results, newest, read, selected, succeeded⟩
      obtain ⟨document, loaded, current, rfl⟩ := Cache.resultsInLoads.mp read
      obtain ⟨zero, cleared⟩ := settledIff.mp settles
      exact ⟨_, _, log, document, ended, zero, cleared, newest, loaded, current, selected, succeeded⟩
    · rintro ⟨output, fs, log, document, same, zero, cleared, newest, loaded, current, selected, succeeded⟩
      cases ended.symm.trans same
      obtain ⟨-, rfl⟩ := settlesOnce settles (settledIff.mpr ⟨zero, cleared⟩)
      exact ⟨log, document.results, newest, Cache.resultsInLoads.mpr ⟨document, loaded, current, rfl⟩,
        selected, succeeded⟩

inductive Outcome (t : Target) (tool : BuildTool) (config : Config) (m : Machine) :
    List Call → Except PackageError BuildResult → Machine → Prop where
  | unjudged {e m'} (saw : Cache.outlook t config m.files = .error e) (files : m'.files = m.files) :
      Outcome t tool config m [] (.error e) m'
  | noDeadline {m'} (endless : m'.deadline? config.logReadyTimeout = none) (files : m'.files = m.files) :
      Outcome t tool config m [] (.error (.buildLog .noDeadline)) m'
  | reused {log r m'} (saw : Cache.outlook t config m.files = .ok (log, .reusable r))
      (files : m'.files = m.files) : Outcome t tool config m [] (.ok r) m'
  | called {log v outcome r m'} {call : Call} (saw : Cache.outlook t config m.files = .ok (log, v))
      (miss : v.isReusable = false) (asked : call.request = request t config m.files)
      (found : call.before.files = m.files)
      (runs : Ends Alone call.before (tool call.request).run (some outcome) call.after)
      (ended : call.outcome = some outcome) (concludes : Concludes t config call.after.files outcome r m') :
      Outcome t tool config m [call] r m'

theorem courseOutcome {m m' : Machine} {calls : List Call} {r : Except PackageError BuildResult}
    (course : Course Alone t tool config m calls (some r) m') : Outcome t tool config m calls r m' := by
  have sees {r m'} (looks : Ends Alone m (Cache.look t config).run (some r) m') :
      Sees (fun m' => m'.files = m.files) config.logReadyTimeout (Cache.outlook t config m.files) r m' :=
    Cache.lookEnsures filesStable (fun m' files => files.symm ▸ .refl t config m.files) rfl looks
  cases course with
  | failed looks =>
    obtain ⟨files, saw | ⟨late, endless⟩⟩ := sees looks
    · exact .unjudged saw.symm files
    · cases late
      exact .noDeadline endless files
  | reused looks =>
    obtain ⟨files, saw | ⟨no, -⟩⟩ := sees looks
    · exact .reused saw.symm files
    · cases no
  | called looks miss others calls rest =>
    obtain ⟨files, saw | ⟨no, -⟩⟩ := sees looks
    · exact .called saw.symm miss (by rw [others.files, files]) (others.files.trans files) calls rfl
        (finishDecides _ rfl rest)
    · cases no

theorem buildEnds {m m' : Machine} {r : Except PackageError BuildResult}
    (built : Ends Alone m (build t tool config none).run (some r) m') :
    (∃ e, r = .error (.lock e) ∧ Ends Alone m (t.directory.acquire "build").run (some (.error e)) m') ∨
    ∃ locked ended calls, t.directory.Locks Alone "build" m locked ∧
      Course Alone t tool config locked calls (some r) ended ∧ m'.files = ended.files ∧
      m'.rehearsals = ended.rehearsals := by
  rw [buildUnderLock] at built
  rcases Directory.withLockEnds built with
    ⟨guard, locked, ended, freed, locks, builds, others | ⟨no, -⟩, rfl⟩ | ⟨e, same, fails⟩ | ⟨no, -⟩
  · obtain ⟨calls, course⟩ := Build.course.mp builds
    exact .inr ⟨locked, ended, calls, ⟨guard, locks⟩, course, others.files, others.rehearsals⟩
  · cases no
  · cases same
    exact .inl ⟨e, rfl, fails⟩
  · cases no

theorem buildNoted {m locked ended m' : Machine} {calls : List Call} {r : Except PackageError BuildResult}
    {number : Nat} (notes : tool.Notes number) (room : number < m.rehearsals.length)
    (locks : t.directory.Locks Alone "build" m locked)
    (course : Course Alone t tool config locked calls (some r) ended)
    (rehearsals : m'.rehearsals = ended.rehearsals) :
    m'.asked number = m.asked number ++ calls.map Call.request := by
  have quiet : locked.rehearsals = m.rehearsals := quietLock locks
  have noted := courseAsked notes (quiet ▸ room) course
  simpa only [Machine.asked, quiet, rehearsals] using noted

/-- A cached result is passed on as it is. Any other build either ends without the lock,
or ends as the files that it finds, the tool and the files that the tool leaves decide,
with one call of the tool at most; and it yields a result behind a call exactly if the
call delivers it. It ends once the lock is refused, and with the lock if the tool ends. -/
theorem buildOutcome (t : Target) (tool : BuildTool) (config : Config) :
    (∀ cached, build t tool config (some cached) = pure cached) ∧
    (∀ m r m', Ends Alone m (build t tool config none).run (some r) m' → ∃ calls,
      ((∃ e, r = .error (.lock e) ∧ calls = [] ∧
          Ends Alone m (t.directory.acquire "build").run (some (.error e)) m') ∨
        ∃ locked ended, t.directory.Locks Alone "build" m locked ∧
          Outcome t tool config locked calls r ended ∧ m'.files = ended.files) ∧
      calls.length ≤ 1 ∧
      (∀ call ∈ calls, ∀ x, r = .ok x ↔
        Delivers t config call x ∧ r ≠ .error (.buildLog .noDeadline)) ∧
      ∀ number, tool.Notes number → number < m.rehearsals.length →
        m'.asked number = m.asked number ++ calls.map Call.request) ∧
    (∀ m e m', Ends Alone m (t.directory.acquire "build").run (some (.error e)) m' →
      Ends Alone m (build t tool config none).run (some (.error (.lock e))) m') ∧
    ∀ m locked, t.directory.Locks Alone "build" m locked → (∀ request, Finishes Alone (tool request).run) →
      ∃ r m', Ends Alone m (build t tool config none).run (some r) m' := by
  refine ⟨fun _ => rfl, fun m r m' built => ?_, fun m e m' fails => ?_, fun m locked locks finishes => ?_⟩
  · rcases buildEnds built with ⟨e, rfl, fails⟩ | ⟨locked, ended, calls, locks, course, files, rehearsals⟩
    · refine ⟨[], .inl ⟨e, rfl, rfl, fails⟩, Nat.zero_le _, nofun, fun number _ _ => ?_⟩
      simp only [Machine.asked, Lock.acquireRehearsals (fun _ _ alone => alone.rehearsals) fails, List.map_nil, List.append_nil]
    · have outcome := courseOutcome course
      refine ⟨calls, .inr ⟨locked, ended, locks, outcome, files⟩, ?_, ?_, ?_⟩
      · cases outcome <;> simp
      · intro call called
        cases outcome with
        | called saw miss asked found runs ended concludes =>
          cases List.mem_singleton.mp called
          exact concludesIff ended concludes
        | _ => cases called
      · exact fun number notes room => buildNoted notes room locks course rehearsals
  · exact buildUnderLock t tool config ▸ Directory.withLockFails fails
  · obtain ⟨r, m₁, works⟩ := underLockFinishes t config finishes locked
    obtain ⟨m', ends⟩ := Directory.withLockOf Alone.refl locks works
    exact ⟨r, m', buildUnderLock t tool config ▸ ends⟩

def staleTurn := (build app appTool .default none).run.poll (twoLogs emptyLog)

def barred : Machine := { twoLogs emptyLog with
  files := ⟨#[⟨.directory [("app.kproj", 1), (".kiln-lock", 2)], 0o755, 0⟩, ⟨.file [], 0o644, 0⟩,
    ⟨.directory [], 0o755, 0⟩]⟩ }

theorem thirdLogDelivers : (∃ m' call locked, Ends Alone (twoLogs emptyLog) (build app appTool .default none).run
      (some (.ok (resultNaming "/app.kproj"))) m' ∧
    Delivers app .default call (resultNaming "/app.kproj") ∧ m'.asked 0 = [call.request] ∧
    app.directory.Locks Alone "build" (twoLogs emptyLog) locked ∧
    ∃ r m₁, Ends Alone (twoLogs emptyLog) (build app appTool .default none).run (some r) m₁) ∧
    ∃ e m', Ends Alone barred (build app appTool .default none).run (some (.error (.lock e))) m' := by
  have ends : Ends Alone (twoLogs emptyLog) (build app appTool .default none).run
      (some (.ok (resultNaming "/app.kproj"))) (staleTurn.2.poll staleTurn.1).1 :=
    .ofPoll Alone.refl (.ofValue Alone.refl (by decide +kernel))
  obtain ⟨-, decided, unlocked, finished⟩ := buildOutcome app appTool .default
  have failed : ((app.directory.acquire "build").run.poll barred).2.value? =
      some (.error (.openFile (.host .isDirectory))) := by decide +kernel
  refine ⟨?_, _, _, unlocked _ _ _ (.ofValue Alone.refl failed)⟩
  obtain ⟨calls, ⟨e, no, -⟩ | ⟨locked, -, locks, -⟩, -, delivers, asked⟩ := decided _ _ _ ends
  · cases no
  · have noted := asked 0 (BuildTool.rehearsedNotes _ 0) (by decide)
    have before : (twoLogs emptyLog).asked 0 = [] := rfl
    rw [before, List.nil_append] at noted
    have once : ((staleTurn.2.poll staleTurn.1).1.asked 0).length = 1 := by decide +kernel
    rw [noted, List.length_map] at once
    obtain ⟨call, rfl⟩ := List.length_eq_one_iff.mp once
    exact ⟨_, call, locked, ends, ((delivers call List.mem_cons_self _).mp rfl).1, noted, locks,
      finished _ locked locks (rehearsedFinishes _ 0)⟩

end Build
end BuildReuse
