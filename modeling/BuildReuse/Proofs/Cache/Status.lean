import BuildReuse.Proofs.Cache.Decided

/-! A status report tells what a cache check would find. Both look at the same files, and
the report leaves them for the check. -/
namespace BuildReuse

open BuildReuse.FileSystem
open BuildReuse.Task (Ends Ensures Finishes Patient)

namespace Cache

variable {t : Target} {config : Config} {place : Path} {fs : FileSystem} {T : Trail} {m m' : Machine}

def reported : Except PackageError Verdict → Except PackageError Verdict
  | .error (.buildLog e) => if e.corrupt then .ok (.corrupt e.message) else .error (.buildLog e)
  | judged => judged

def statusOf (t : Target) (fs : FileSystem) :
    Except PackageError (Option Path) → Except PackageError Status
  | .error e => .error e
  | .ok log => (reported (verdictIn t log fs)).map fun v => ⟨t.name, log, v, t.lastBuildError fs⟩

def statusIn (t : Target) (config : Config) (fs : FileSystem) : Except PackageError Status :=
  statusOf t fs (newestIn t config fs)

def survey (t : Target) (config : Config) : MachineJob PackageError Status := do
  let log := (← latest t config).map BuildLog.Artifact.path
  let verdict ← verdictOn t config log
  let lastError ← Job.get fun m => t.lastBuildError m.files
  pure ⟨t.name, log, verdict, lastError⟩

theorem inspectUnderLock (t : Target) (config : Config) :
    inspect t config = t.directory.withLock "status" (survey t config) := rfl

theorem surveyFinishes {rely : Machine → Machine → Prop} (patient : Patient rely) (t : Target)
    (config : Config) : Finishes rely (survey t config).run := by
  refine (latestFinishes patient t config).jobBind fun log => Finishes.jobBind ?_ fun v =>
    (Finishes.get patient.refl _).lift.jobBind fun _ => .done _
  refine (judgeFinishes patient t config _).tryCatch fun e => ?_
  cases e with
  | buildLog e =>
    simp only
    split
    · exact .done _
    · exact .done _
  | _ => exact .done _

section

variable {rely : Machine → Machine → Prop} {also : Machine → Prop} (alone : Undisturbed rely also)
include alone

theorem verdictOnEnsures {log : Option Path} (newest : newestIn t config fs = .ok log) :
    Ensures rely (Finds fs also) (verdictOn t config log).run
      (Sees (Finds fs also) config.logReadyTimeout (reported (verdictIn t log fs))) (Finds fs also) := by
  have alike : ∀ m, Finds fs also m → Alike t config fs m.files :=
    fun m found => found.1.symm ▸ .refl t config fs
  have judges := judgeEnsures newest (alone.finds fs) alike
  refine judges.tryCatch (fun v m sees => ?_) fun e => ?_
  · obtain ⟨found, judged | ⟨no, -⟩⟩ := sees
    · exact ⟨found, .inl (by rw [← judged]; rfl)⟩
    · cases no
  · cases e with
    | buildLog e =>
      by_cases corrupt : e.corrupt = true
      · simp only [corrupt, if_true]
        refine .done fun m sees => ?_
        obtain ⟨found, judged | ⟨late, -⟩⟩ := sees
        · exact ⟨found, .inl (by rw [← judged, reported, if_pos corrupt])⟩
        · cases late
          cases corrupt
      · simp only [corrupt]
        refine .done fun m sees => ?_
        obtain ⟨found, judged | late⟩ := sees
        · exact ⟨found, .inl (by rw [← judged, reported, if_neg corrupt])⟩
        · exact ⟨found, .inr late⟩
    | _ =>
      refine .done fun m sees => ?_
      obtain ⟨found, judged | ⟨no, -⟩⟩ := sees
      · exact ⟨found, .inl (by rw [← judged]; rfl)⟩
      · cases no

theorem reportEnsures {log : Option Path} (newest : newestIn t config fs = .ok log) :
    Ensures rely (Finds fs also) (do
        let verdict ← verdictOn t config log
        let lastError ← Job.get fun m => t.lastBuildError m.files
        pure ⟨t.name, log, verdict, lastError⟩ : MachineJob PackageError Status).run
      (fun r m => Finds fs also m ∧ (r = statusIn t config fs ∨ r = .error (.buildLog .noDeadline)))
      (Finds fs also) := by
  refine (verdictOnEnsures alone newest).jobBind (fun v => ?_) fun e m sees => ?_
  · have reads : Ensures rely
        (Sees (Finds fs also) config.logReadyTimeout (reported (verdictIn t log fs)) (.ok v))
        (Job.get fun m => t.lastBuildError m.files : MachineJob PackageError (Option String)).run
        (fun r m => Finds fs also m ∧ r = .ok (t.lastBuildError fs) ∧ reported (verdictIn t log fs) = .ok v)
        (Finds fs also) := by
      refine .lift (.get fun m m' sees others => ?_)
      have found := alone.finds fs m m' sees.1 others
      obtain ⟨-, judged | ⟨no, -⟩⟩ := sees
      · exact ⟨found, by rw [found.1], judged.symm⟩
      · cases no
    refine reads.jobBind (fun lastError => .done fun m holds => ?_) fun e m holds => ?_
    · obtain ⟨found, same, judged⟩ := holds
      cases same
      exact ⟨found, .inl (by rw [statusIn, newest, statusOf, judged]; rfl)⟩
    · cases holds.2.1
  · obtain ⟨found, judged | ⟨late, -⟩⟩ := sees
    · exact ⟨found, .inl (by rw [statusIn, newest, statusOf, ← judged]; rfl)⟩
    · cases late
      exact ⟨found, .inr rfl⟩

theorem surveyEnsures (fs : FileSystem) : Ensures rely (Finds fs also) (survey t config).run
    (fun r m => Finds fs also m ∧ (r = statusIn t config fs ∨ r = .error (.buildLog .noDeadline)))
    (Finds fs also) := by
  have alike : ∀ m, Finds fs also m → Alike t config fs m.files :=
    fun m found => found.1.symm ▸ .refl t config fs
  refine (latestEnsures (alone.finds fs) alike).jobBind (fun log m o m' holds => ?_) fun e m holds => ?_
  · have newest : newestIn t config fs = .ok (log.map BuildLog.Artifact.path) := holds.2.symm
    exact reportEnsures alone newest holds.1
  · obtain ⟨found, failed⟩ := holds
    have failed : newestIn t config fs = .error e := failed.symm
    exact ⟨found, .inl (by rw [statusIn, failed, statusOf])⟩

end

theorem statusVerdict (t : Target) (config : Config) (fs : FileSystem) :
    (statusIn t config fs).map Status.verdict = reported ((outlook t config fs).map Prod.snd) := by
  unfold statusIn outlook
  cases newest : newestIn t config fs with
  | error e =>
    obtain ⟨e', rfl, other⟩ := newestFails newest
    simp [statusOf, Except.map, reported, other]
  | ok log =>
    simp only
    cases verdict : verdictIn t log fs with
    | ok v => simp [statusOf, Except.map, verdict, reported]
    | error e =>
      obtain ⟨e', rfl⟩ := verdictFails verdict
      by_cases corrupt : e'.corrupt = true
      · simp [statusOf, Except.map, verdict, reported, corrupt]
      · simp [statusOf, Except.map, verdict, reported, corrupt]

def Reports (s : Except PackageError Status) (v : Verdict) : Prop :=
  ∃ status, s = .ok status ∧ status.verdict = v

theorem reportsIff {s : Except PackageError Status} {v : Verdict} : Reports s v ↔ s.map Status.verdict = .ok v := by
  cases s <;> simp [Reports, Except.map]

theorem failsIff {s : Except PackageError Status} {e : PackageError} :
    s = .error e ↔ s.map Status.verdict = .error e := by
  cases s <;> simp [Except.map]

structure Agrees (t : Target) (config : Config) (place : Path) (fs : FileSystem)
    (s : Except PackageError Status) (r : Except PackageError (Option BuildResult)) : Prop where
  reusable : ∀ b, Reports s (.reusable b) ↔ r = .ok (some b)
  missed : ∀ v ∈ [Verdict.noBuildLog, .noMatchingProject, .buildFailed, .noCompile], Reports s v →
    ∃ log looked, Touched place fs looked ∧ newestIn t config looked = .ok log ∧
      r = (cleared t config log looked).map fun _ => none
  corrupt : ∀ text, Reports s (.corrupt text) ↔
    ∃ e, r = .error (.buildLog e) ∧ e.corrupt = true ∧ e.message = text
  fails : ∀ e, s = .error e ↔ ∃ e', e = .buildLog e' ∧ e'.corrupt = false ∧ r = .error e

section

variable {s : Except PackageError Status}

theorem agreesCorrupt {e : BuildLog.Error} (corrupt : e.corrupt = true)
    (told : s.map Status.verdict = .ok (.corrupt e.message)) :
    Agrees t config place fs s (.error (.buildLog e)) := by
  constructor
  case reusable => simp [reportsIff, told]
  case missed => simp [reportsIff, told]
  case corrupt => simp [reportsIff, told, corrupt]
  case fails =>
    intro e'
    rw [failsIff, told]
    constructor
    · exact nofun
    · rintro ⟨e'', rfl, other, same⟩
      cases same
      cases corrupt.symm.trans other

theorem agreesFailed {e : BuildLog.Error} (other : e.corrupt = false)
    (told : s.map Status.verdict = .error (.buildLog e)) :
    Agrees t config place fs s (.error (.buildLog e)) := by
  constructor
  case reusable => simp [reportsIff, told]
  case missed => simp [reportsIff, told]
  case corrupt => simp [reportsIff, told, other]
  case fails =>
    intro e'
    rw [failsIff, told]
    constructor
    · intro same
      cases same
      exact ⟨e, rfl, other, rfl⟩
    · rintro ⟨e'', rfl, -, same⟩
      cases same
      rfl

theorem agreesReused {r : BuildResult} (told : s.map Status.verdict = .ok (.reusable r)) :
    Agrees t config place fs s (.ok (some r)) := by
  constructor
  case reusable => simp [reportsIff, told]
  case missed => simp [reportsIff, told]
  case corrupt => simp [reportsIff, told]
  case fails => simp [failsIff, told]

theorem agreesMissed {looked : FileSystem} {log : Option Path} {v : Verdict}
    (touched : Touched place fs looked) (saw : outlook t config looked = .ok (log, v)) (miss : v.isReusable = false)
    (told : s.map Status.verdict = .ok v) :
    Agrees t config place fs s ((cleared t config log looked).map fun _ => none) := by
  obtain ⟨newest, judged⟩ := outlookSaw saw
  have plain (e : BuildLog.Error) :
      (cleared t config log looked).map (fun _ => (none : Option BuildResult)) ≠ .error (.buildLog e) := by
    intro fails
    cases left : cleared t config log looked with
    | ok fs' => simp [left, Except.map] at fails
    | error e' =>
      obtain ⟨e', rfl⟩ := clearedFails left
      simp [left, Except.map] at fails
  constructor
  case missed => exact fun _ _ _ => ⟨log, looked, touched, newest, rfl⟩
  case reusable =>
    intro b
    rw [reportsIff, told]
    constructor
    · rintro ⟨⟩
      cases miss
    · cases cleared t config log looked <;> exact nofun
  case corrupt =>
    intro text
    rw [reportsIff, told]
    constructor
    · rintro ⟨⟩
      exact (verdictPlain judged).elim
    · rintro ⟨e, fails, -⟩
      exact (plain e fails).elim
  case fails =>
    intro e
    rw [failsIff, told]
    constructor
    · exact nofun
    · rintro ⟨e', rfl, -, fails⟩
      exact (plain e' fails).elim

theorem agreesAt {looked : FileSystem} (touched : Touched place fs looked)
    (told : s.map Status.verdict = reported ((outlook t config looked).map Prod.snd)) :
    Agrees t config place fs s (answerIn t config looked) := by
  unfold answerIn
  cases saw : outlook t config looked with
  | error e =>
    obtain ⟨e', rfl⟩ := outlookFails saw
    rw [saw, Except.map, reported] at told
    rw [answerOf]
    cases corrupt : e'.corrupt with
    | true => exact agreesCorrupt corrupt (by rw [told, if_pos corrupt])
    | false => exact agreesFailed corrupt (by rw [told, if_neg (by simp [corrupt])])
  | ok seen =>
    obtain ⟨log, v⟩ := seen
    have told : s.map Status.verdict = .ok v := by
      rw [told, saw]
      rfl
    cases miss : v.isReusable with
    | false =>
      rw [answerMissed miss]
      exact agreesMissed touched saw miss told
    | true =>
      cases v with
      | reusable r => exact agreesReused told
      | _ => cases miss

end

theorem inspectEnds {o : Option (Except PackageError Status)} (sound : m.locks.Sound)
    (found : m.files.find t.here t.root = .ok T)
    (ends : Ends (Lock.Aside (t.directory.lockPlace T)) m (inspect t config).run o m') :
    Touched (t.directory.lockPlace T) m.files m'.files ∧ m'.locks.Sound ∧
      ∀ s, o = some s → Answered s → ∃ looked node, Touched (t.directory.lockPlace T) m.files looked ∧
        looked.leads (t.directory.lockPlace T) = some node ∧ s = statusIn t config looked := by
  have leads : t.directory.LocksAt (t.directory.lockPlace T) m := Directory.locksAt found
  rw [inspectUnderLock] at ends
  rcases Directory.withLockAside leads sound ends with
    ⟨looked, left, node, touches, sound', there, works, files, freed⟩ | ⟨touches, sound', rfl | ⟨e, rfl⟩⟩
  · have surveyed := surveyEnsures (asideUndisturbed _) looked.files ⟨rfl, sound'⟩ works
    have kept : Finds looked.files (fun m => m.locks.Sound) left := by
      cases o with
      | none => exact surveyed
      | some s => exact surveyed.1
    refine ⟨by rw [files, kept.1]; exact touches.touched, freed kept.2, ?_⟩
    rintro s rfl answered
    rcases surveyed.2 with same | late
    · exact ⟨looked.files, node, touches.touched, there, same⟩
    · exact (answered.read late).elim
  · refine ⟨touches.touched, sound', ?_⟩
    rintro s ⟨⟩
  · refine ⟨touches.touched, sound', ?_⟩
    rintro s ⟨⟩ answered
    exact (answered.locked e rfl).elim

theorem checkEnds {r : Except PackageError (Option BuildResult)} (sound : m.locks.Sound)
    (found : m.files.find t.here t.root = .ok T) (answered : Answered r)
    (ends : Ends (Lock.Aside (t.directory.lockPlace T)) m (loadResultOrClean t config).run (some r) m') :
    ∃ looked node, Touched (t.directory.lockPlace T) m.files looked ∧
      looked.leads (t.directory.lockPlace T) = some node ∧ r = answerIn t config looked := by
  have leads : t.directory.LocksAt (t.directory.lockPlace T) m := Directory.locksAt found
  rw [checkUnderLock] at ends
  rcases Directory.withLockAside leads sound ends with
    ⟨looked, left, node, touches, sound', there, works, -, -⟩ | ⟨-, -, no | ⟨e, same⟩⟩
  · obtain ⟨answers, -⟩ := checkAnswers (asideUndisturbed _) looked.files ⟨rfl, sound'⟩ works
    exact ⟨looked.files, node, touches.touched, there, answersIn answers answered⟩
  · cases no
  · cases same
    exact (answered.locked e rfl).elim

inductive Inspected (t : Target) (config : Config) (place : Path) : Machine → Machine → Prop where
  | none {m : Machine} : Inspected t config place m m
  | more {m m₁ m₂ m' : Machine} {o : Option (Except PackageError Status)}
      (ends : Ends (Lock.Aside place) m (inspect t config).run o m₁) (others : Lock.Aside place m₁ m₂)
      (rest : Inspected t config place m₂ m') : Inspected t config place m m'

theorem Inspected.touched (h : Inspected t config place m m') :
    m.locks.Sound → m.files.find t.here t.root = .ok T → place = t.directory.lockPlace T →
      Touched place m.files m'.files ∧ m'.locks.Sound := by
  induction h with
  | none => exact fun sound _ _ => ⟨.same, sound⟩
  | more ends others rest ih =>
    rintro sound found rfl
    obtain ⟨touched, sound', -⟩ := inspectEnds sound found ends
    rw [← others.files] at touched
    obtain ⟨touched', sound''⟩ := ih (others.sound sound') (findGrown touched.grown found) rfl
    exact ⟨touched.trans touched', sound''⟩

theorem statusFails {e : PackageError} (fails : statusIn t config fs = .error e) : ∃ e', e = .buildLog e' := by
  unfold statusIn at fails
  cases newest : newestIn t config fs with
  | error e' =>
    rw [newest] at fails
    cases fails
    obtain ⟨e', rfl, -⟩ := newestFails newest
    exact ⟨e', rfl⟩
  | ok log =>
    rw [newest, statusOf] at fails
    cases judged : verdictIn t log fs with
    | ok v =>
      rw [judged] at fails
      cases fails
    | error e' =>
      obtain ⟨e', rfl⟩ := verdictFails judged
      rw [judged, reported] at fails
      split at fails
      · cases fails
      · cases fails
        exact ⟨e', rfl⟩

theorem inspectRuns (sound : m.locks.Sound) (found : m.files.find t.here t.root = .ok T) {m₁ : Machine}
    (locks : t.directory.Locks (Lock.Aside (t.directory.lockPlace T)) "status" m m₁) :
    ∃ s m', Ends (Lock.Aside (t.directory.lockPlace T)) m (inspect t config).run (some s) m' ∧
      ∀ e, s ≠ .error (.lock e) := by
  rw [inspectUnderLock]
  obtain ⟨s, left, works⟩ := surveyFinishes (Lock.asidePatient (t.directory.lockPlace T)) t config m₁
  obtain ⟨m', ends⟩ := Directory.withLockOf Lock.Aside.refl locks works
  refine ⟨s, m', ends, ?_⟩
  rintro e rfl
  have sound' := Directory.locksAside (Directory.locksAt found) sound locks
  rcases (surveyEnsures (asideUndisturbed _) m₁.files ⟨rfl, sound'⟩ works).2 with same | late
  · obtain ⟨e', no⟩ := statusFails same.symm
    cases no
  · cases late

/-- A report agrees with a check, changes nothing but the lock file, and so leaves the answer
of later checks as it was, however often it is made; and it can be made, as a check can,
wherever the lock can be had. -/
theorem statusAgrees (sound : m.locks.Sound) (found : m.files.find t.here t.root = .ok T)
    (apart : LogsApart t config (t.directory.lockPlace T) m.files) :
    (∀ s m₁ r m₂, Ends (Lock.Aside (t.directory.lockPlace T)) m (inspect t config).run (some s) m₁ →
      Ends (Lock.Aside (t.directory.lockPlace T)) m (loadResultOrClean t config).run (some r) m₂ →
      Answered s → Answered r → Agrees t config (t.directory.lockPlace T) m.files s r) ∧
    (∀ o m₁, Ends (Lock.Aside (t.directory.lockPlace T)) m (inspect t config).run o m₁ →
      Touched (t.directory.lockPlace T) m.files m₁.files) ∧
    (∀ m₀ r m₁ r' m₂, Inspected t config (t.directory.lockPlace T) m m₀ →
      Ends (Lock.Aside (t.directory.lockPlace T)) m (loadResultOrClean t config).run (some r) m₁ →
      Ends (Lock.Aside (t.directory.lockPlace T)) m₀ (loadResultOrClean t config).run (some r') m₂ →
      Answered r → Answered r' → r' = r) ∧
    (∀ m₁, t.directory.Locks (Lock.Aside (t.directory.lockPlace T)) "status" m m₁ →
      ∃ s m₂, Ends (Lock.Aside (t.directory.lockPlace T)) m (inspect t config).run (some s) m₂ ∧
        ∀ e, s ≠ .error (.lock e)) ∧
    (∀ m₁, t.directory.Locks (Lock.Aside (t.directory.lockPlace T)) "cache-check" m m₁ →
      ∃ r m₂, Ends (Lock.Aside (t.directory.lockPlace T)) m (loadResultOrClean t config).run (some r) m₂ ∧
        ∀ e, r ≠ .error (.lock e)) := by
  refine ⟨?agrees, ?touches, ?later, fun _ locks => inspectRuns sound found locks,
    fun _ locks => checkRuns sound found locks⟩
  case agrees =>
    intro s m₁ r m₂ inspects checks answered answered'
    obtain ⟨-, -, told⟩ := inspectEnds sound found inspects
    obtain ⟨looked, node, touched, leads, rfl⟩ := told s rfl answered
    obtain ⟨looked', node', touched', leads', rfl⟩ := checkEnds sound found answered' checks
    have same := (answerApart apart touched leads touched' leads').2
    exact agreesAt touched' (by rw [same, statusVerdict])
  case touches => exact fun o m₁ inspects => (inspectEnds sound found inspects).1
  case later =>
    intro m₀ r m₁ r' m₂ inspected checks checks' answered answered'
    obtain ⟨touched₀, sound₀⟩ := inspected.touched sound found rfl
    obtain ⟨looked, node, touched, leads, rfl⟩ := checkEnds sound found answered checks
    obtain ⟨looked', node', touched', leads', rfl⟩ :=
      checkEnds sound₀ (findGrown touched₀.grown found) answered' checks'
    exact (answerApart apart touched leads (touched₀.trans touched') leads').1

open Build (app logNaming resultNaming)

def ready : Machine := quiet #[⟨.directory [("app.kproj", 1), ("c.buildlog", 2)], 0o755, 0⟩,
  ⟨.file [], 0o644, 0⟩, ⟨.file (logNaming "/app.kproj"), 0o644, 0⟩]

def reportTurn (m : Machine) := (inspect app .default).run.poll m

theorem readyApart : LogsApart app .default ⟨"/.kiln-lock"⟩ ready.files := by
  have absent : ready.files.walk false linkLimit [] (stepsOf ⟨"/.kiln-lock"⟩) =
      .ok (.absent [] ".kiln-lock") := by decide +kernel
  have listed : app.directory.filesWithExtension Config.default.logExtension
      (ready.files.withFile 0 ".kiln-lock" [] 0) = .ok [⟨"/c.buildlog"⟩] := by decide +kernel
  exact logsApartOf (.made absent [] 0) (madeLeads absent [] 0).2 listed (by decide +kernel)

theorem readyReported : ∃ s r r',
    Ends (Lock.Aside ⟨"/.kiln-lock"⟩) ready (inspect app .default).run (some s) (reportTurn ready).1 ∧
    Reports s (.reusable (resultNaming "/app.kproj")) ∧
    Touched ⟨"/.kiln-lock"⟩ ready.files (reportTurn ready).1.files ∧
    Ends (Lock.Aside ⟨"/.kiln-lock"⟩) ready (loadResultOrClean app .default).run (some r) (checkTurn ready).1 ∧
    r = .ok (some (resultNaming "/app.kproj")) ∧
    Ends (Lock.Aside ⟨"/.kiln-lock"⟩) (reportTurn ready).1 (loadResultOrClean app .default).run (some r')
      (checkTurn (reportTurn ready).1).1 ∧ r' = r := by
  let b := resultNaming "/app.kproj"
  have place : app.directory.lockPlace [] = ⟨"/.kiln-lock"⟩ := by decide +kernel
  have found : ready.files.find app.here app.root = .ok [] := by decide +kernel
  have reported : (reportTurn ready).2.value? =
      some (.ok ⟨"app.kproj", some ⟨"/c.buildlog"⟩, .reusable b, none⟩) := by decide +kernel
  have checked : (checkTurn ready).2.value? = some (.ok (some b)) := by decide +kernel
  have checked' : (checkTurn (reportTurn ready).1).2.value? = some (.ok (some b)) := by decide +kernel
  have still : ∀ m, Lock.Aside ⟨"/.kiln-lock"⟩ m m := Lock.Aside.refl
  have inspects := Ends.ofValue still reported
  have checks := Ends.ofValue still checked
  have checks' := Ends.ofValue still checked'
  have answered {α : Type} (a : α) : Answered (.ok a : Except PackageError α) := ⟨nofun, nofun, nofun⟩
  obtain ⟨agrees, touches, later, -⟩ := statusAgrees LockTable.Sound.empty found (place ▸ readyApart)
  rw [place] at agrees touches later
  have reports : Reports (.ok ⟨"app.kproj", some ⟨"/c.buildlog"⟩, .reusable b, none⟩) (.reusable b) :=
    ⟨_, rfl, rfl⟩
  have returns := ((agrees _ _ _ _ inspects checks (answered _) (answered _)).reusable b).mp reports
  have once : Inspected app .default ⟨"/.kiln-lock"⟩ ready (reportTurn ready).1 := .more inspects (.refl _) .none
  exact ⟨_, _, _, inspects, reports, touches _ _ inspects, checks, returns, checks',
    later _ _ _ _ _ once checks checks' (answered _) (answered _)⟩

theorem linkedLogOverwritten :
    ((app.directory.file Config.default.lockFileName).hasExtension Config.default.logExtension = false ∧
      app.directory.file Config.default.lockFileName ≠ app.sentinel) ∧
    ∃ s m', Ends (Lock.Aside ⟨"/.kiln-lock"⟩) linked (inspect app .default).run (some (.ok s)) m' ∧
      linked.files.readBytes app.here ⟨"/c.buildlog"⟩ = .ok (logNaming "/app.kproj") ∧
      m'.files.readBytes app.here ⟨"/c.buildlog"⟩ ≠ .ok (logNaming "/app.kproj") := by
  have reported : (reportTurn linked).2.value? =
        some (.ok ⟨"app.kproj", some ⟨"/c.buildlog"⟩, .noMatchingProject, none⟩) ∧
      (reportTurn linked).1.files.readBytes app.here ⟨"/c.buildlog"⟩ ≠ .ok (logNaming "/app.kproj") := by
    decide +kernel
  exact ⟨by decide +kernel, _, (reportTurn linked).1, .ofValue Lock.Aside.refl reported.1, by decide +kernel,
    reported.2⟩

end Cache
end BuildReuse
