import BuildReuse.Proofs.Build.Course
import BuildReuse.Proofs.Cache.LockApart
import BuildReuse.Proofs.Cache.Finishes
import BuildReuse.Proofs.Lock.Aside

/-! What a cache check decides, and what it does to the files, for every content of the
directory. -/
namespace BuildReuse

open BuildReuse.FileSystem
open BuildReuse.Task (Ends)

namespace Cache

variable {t : Target} {config : Config} {place : Path} {fs : FileSystem} {T : Trail} {r : BuildResult}
  {m m' : Machine}

structure Reuses (t : Target) (config : Config) (fs : FileSystem) (log : Path) (r : BuildResult) : Prop where
  newest : newestIn t config fs = .ok (some log)
  loads : ∃ document, BuildLog.readFile fs t.here log = .ok document ∧
    document.version = BuildLog.currentVersion ∧ ∃ before after, document.results = before ++ r :: after ∧
      (∀ b ∈ before, b.matchesFile fs t.here t.projectFile = false) ∧
      r.matchesFile fs t.here t.projectFile = true
  good : r.succeeded = true ∧ r.sources ≠ [] ∧ r.inputs ≠ []

theorem reusableIff (r : BuildResult) :
    r.reusable = true ↔ r.succeeded = true ∧ r.sources ≠ [] ∧ r.inputs ≠ [] := by
  simp [BuildResult.reusable, BuildResult.compiled, and_comm]

theorem ofSelectedReusable {selected : Option BuildResult} :
    Verdict.ofSelected selected = .reusable r ↔ selected = some r ∧ r.reusable = true := by
  cases selected with
  | none => simp [Verdict.ofSelected]
  | some b =>
    rw [Verdict.ofSelected, Option.some_inj]
    by_cases reuse : b.reusable = true
    · rw [if_pos reuse, Verdict.reusable.injEq]
      exact ⟨fun same => ⟨same, same ▸ reuse⟩, And.left⟩
    · rw [if_neg reuse]
      constructor
      · intro no
        split at no <;> cases no
      · rintro ⟨rfl, holds⟩
        exact (reuse holds).elim

theorem resultsInLoads {log : Path} {results : List BuildResult} :
    resultsIn t log fs = .ok results ↔ ∃ document, BuildLog.readFile fs t.here log = .ok document ∧
      document.version = BuildLog.currentVersion ∧ document.results = results := by
  rw [resultsIn]
  cases BuildLog.readFile fs t.here log with
  | error fault => simp [BuildLog.resultsRead]
  | ok document =>
    by_cases current : document.version = BuildLog.currentVersion
    · simp [BuildLog.resultsRead, BuildLog.resultsOf, current, Except.mapError]
    · simp [BuildLog.resultsRead, BuildLog.resultsOf, current, Except.mapError]

theorem outlookReuses {log : Option Path} :
    outlook t config fs = .ok (log, .reusable r) ↔ ∃ path, log = some path ∧ Reuses t config fs path r := by
  have judged {path : Path} : verdictIn t (some path) fs = .ok (.reusable r) ↔ ∃ results,
      resultsIn t path fs = .ok results ∧ BuildResult.select fs t.here t.projectFile results = some r ∧
        r.reusable = true := by
    rw [verdictIn]
    cases resultsIn t path fs with
    | error e => simp [Except.map]
    | ok results => simp [Except.map, Verdict.ofResults, ofSelectedReusable]
  constructor
  · intro saw
    obtain ⟨found, verdict⟩ := outlookSaw saw
    cases log with
    | none => cases verdict
    | some path =>
      obtain ⟨results, recorded, selected, good⟩ := judged.mp verdict
      obtain ⟨document, read, current, rfl⟩ := resultsInLoads.mp recorded
      obtain ⟨matched, before, after, whole, others⟩ := List.find?_eq_some_iff_append.mp selected
      refine ⟨path, rfl, found, ⟨document, read, current, before, after, whole, ?_, matched⟩,
        (reusableIff r).mp good⟩
      simpa using others
  · rintro ⟨path, rfl, reuses⟩
    obtain ⟨document, read, current, before, after, whole, others, matched⟩ := reuses.loads
    have selected : BuildResult.select fs t.here t.projectFile document.results = some r :=
      List.find?_eq_some_iff_append.mpr ⟨matched, before, after, whole, by simpa using others⟩
    have verdict := judged.mpr ⟨_, resultsInLoads.mpr ⟨document, read, current, rfl⟩, selected,
      (reusableIff r).mpr reuses.good⟩
    unfold outlook
    rw [reuses.newest]
    simp only [verdict, Except.map]

theorem newestDirectory {log : Option Path} (found : fs.find t.here t.root = .ok T)
    (newest : newestIn t config fs = .ok log) : ∃ es, fs.content? T.node = some (.directory es) := by
  unfold newestIn BuildLog.latest at newest
  cases listed : t.directory.filesWithExtension config.logExtension fs with
  | error e => simp [listed, Except.mapError, Except.map] at newest
  | ok logs => exact Directory.listedIn found listed

theorem asideUndisturbed (place : Path) : Undisturbed (Lock.Aside place) fun m => m.locks.Sound where
  files _ _ others := others.files
  kept _ _ sound others := others.sound sound
  moved _ _ _ sound := sound

inductive Decides (t : Target) (config : Config) (place : Path) (directory : Nat) (m : Machine) :
    Option (Except PackageError (Option BuildResult)) → Machine → Prop where
  | reused {log : Path} {r : BuildResult} {m' : Machine} (reuses : Reuses t config m.files log r)
      (files : Touched place m.files m'.files) :
      Decides t config place directory m (some (.ok (some r))) m'
  | missed {log : Option Path} {looked : FileSystem} {m' : Machine}
      (never : ∀ log r, ¬ Reuses t config m.files log r)
      (newest : newestIn t config m.files = .ok log) (touched : Touched place m.files looked)
      (files : m'.files = looked.without directory (discards t config log looked)) :
      Decides t config place directory m (some (.ok none)) m'
  | unread {e : BuildLog.Error} {m' : Machine}
      (never : e = .noDeadline ∨ ∀ log r, ¬ Reuses t config m.files log r)
      (files : Touched place m.files m'.files) :
      Decides t config place directory m (some (.error (.buildLog e))) m'
  | uncleared {e : PackageError} {m' : Machine} (never : ∀ log r, ¬ Reuses t config m.files log r)
      (clearing : e = .noDeadline ∨ ∃ e', e = .io e') :
      Decides t config place directory m (some (.error e)) m'
  | unlocked {e : LockError} {m' : Machine} (files : Touched place m.files m'.files) :
      Decides t config place directory m (some (.error (.lock e))) m'
  | dropped {m' : Machine} : Decides t config place directory m none m'

theorem Reuses.same {log log' : Path} {r' : BuildResult} (reuses : Reuses t config fs log r)
    (reuses' : Reuses t config fs log' r') : r' = r := by
  have sees := outlookReuses.mpr ⟨log, rfl, reuses⟩
  cases sees.symm.trans (outlookReuses.mpr ⟨log', rfl, reuses'⟩)
  rfl

theorem Decides.reusesIff {directory : Nat} {r : Except PackageError (Option BuildResult)}
    (decides : Decides t config place directory m (some r) m') (answered : Answered r) (b : BuildResult) :
    r = .ok (some b) ↔ ∃ log, Reuses t config m.files log b := by
  have no (never : ∀ log r, ¬ Reuses t config m.files log r) (other : r ≠ .ok (some b)) :
      r = .ok (some b) ↔ ∃ log, Reuses t config m.files log b :=
    ⟨fun same => (other same).elim, fun ⟨log, reuses⟩ => (never log b reuses).elim⟩
  cases decides with
  | @reused log r' _ reuses files =>
    constructor
    · intro same
      cases same
      exact ⟨log, reuses⟩
    · rintro ⟨log', reuses'⟩
      rw [reuses.same reuses']
  | missed never => exact no never (by simp)
  | unread never =>
    rcases never with rfl | never
    · exact (answered.read rfl).elim
    · exact no never (by simp)
  | uncleared never => exact no never (by simp)
  | unlocked => exact (answered.locked _ rfl).elim

theorem answersDecides {looked left : Machine} {r : Except PackageError (Option BuildResult)}
    (tidy : m.files.Tidy) (found : m.files.find t.here t.root = .ok T) (apart : LockApart t config place m.files)
    (touched : Touched place m.files looked.files) (answers : Answers t config looked.files r left)
    (files : m'.files = left.files) : Decides t config place T.node m (some r) m' := by
  have alike := apart.alike tidy found touched
  have found' := FileSystem.findGrown touched.grown found
  have noReuse {log v} (saw : outlook t config looked.files = .ok (log, v)) (miss : v.isReusable = false) :
      ∀ log r, ¬ Reuses t config m.files log r := by
    intro log r reuses
    have sees := outlookReuses.mpr ⟨log, rfl, reuses⟩
    rw [← alike.outlook, saw] at sees
    cases sees
    cases miss
  have same (seen : left.files = looked.files) : Touched place m.files m'.files := by
    rw [files, seen]
    exact touched
  cases answers with
  | failed saw seen =>
    obtain ⟨e', rfl⟩ := outlookFails saw
    refine .unread (.inr fun log r reuses => ?_) (same seen)
    have sees := outlookReuses.mpr ⟨log, rfl, reuses⟩
    rw [← alike.outlook, saw] at sees
    cases sees
  | reused saw seen =>
    rw [alike.outlook] at saw
    obtain ⟨path, rfl, reuses⟩ := outlookReuses.mp saw
    exact .reused reuses (same seen)
  | missed saw miss cleared =>
    have newest := (outlookSaw saw).1
    obtain ⟨es, at?⟩ := newestDirectory found' newest
    refine .missed (noReuse saw miss) (alike.newest.symm.trans newest) touched ?_
    rw [files]
    exact clearedWithout (touched.tidy tidy) found' newest at? cleared
  | stuck saw miss cleared => exact .uncleared (noReuse saw miss) (.inr (clearedFails cleared))
  | unread late seen => exact .unread (.inl rfl) (same seen)
  | unremoved saw miss late seen => exact .uncleared (noReuse saw miss) (.inl rfl)

theorem checkRuns (sound : m.locks.Sound) (found : m.files.find t.here t.root = .ok T) {m₁ : Machine}
    (locks : t.directory.Locks (Lock.Aside (t.directory.lockPlace T)) "cache-check" m m₁) :
    ∃ r m', Ends (Lock.Aside (t.directory.lockPlace T)) m (loadResultOrClean t config).run (some r) m' ∧
      ∀ e, r ≠ .error (.lock e) := by
  rw [checkUnderLock]
  obtain ⟨r, left, works⟩ := checkFinishes (Lock.asidePatient (t.directory.lockPlace T)) t config m₁
  obtain ⟨m', ends⟩ := Directory.withLockOf Lock.Aside.refl locks works
  refine ⟨r, m', ends, ?_⟩
  rintro e rfl
  have sound' := Directory.locksAside (Directory.locksAt found) sound locks
  exact answersUnlocked (checkAnswers (asideUndisturbed _) m₁.files ⟨rfl, sound'⟩ works).1

/-- What a check decides and does, in every run in which nobody else changes the files; and
such a run there is wherever the lock can be had. -/
theorem checkDecides (tidy : m.files.Tidy) (sound : m.locks.Sound) (found : m.files.find t.here t.root = .ok T)
    (apart : LockApart t config (t.directory.lockPlace T) m.files) :
    (∀ o m', Ends (Lock.Aside (t.directory.lockPlace T)) m (loadResultOrClean t config).run o m' →
      Decides t config (t.directory.lockPlace T) T.node m o m' ∧
      ∀ r, o = some r → Answered r → ∀ b, r = .ok (some b) ↔ ∃ log, Reuses t config m.files log b) ∧
    ∀ m₁, t.directory.Locks (Lock.Aside (t.directory.lockPlace T)) "cache-check" m m₁ →
      ∃ r m', Ends (Lock.Aside (t.directory.lockPlace T)) m (loadResultOrClean t config).run (some r) m' ∧
        ∀ e, r ≠ .error (.lock e) := by
  refine ⟨fun o m' ends => ?_, fun m₁ locks => checkRuns sound found locks⟩
  rw [checkUnderLock] at ends
  have decides : Decides t config (t.directory.lockPlace T) T.node m o m' := by
    rcases Directory.withLockAside (Directory.locksAt found) sound ends with
      ⟨looked, left, node, touches, sound', -, works, files, -⟩ | ⟨touches, -, rfl | ⟨e, rfl⟩⟩
    · cases o with
      | none => exact .dropped
      | some r =>
        obtain ⟨answers, -⟩ := checkAnswers (asideUndisturbed _) looked.files ⟨rfl, sound'⟩ works
        exact answersDecides tidy found apart touches.touched answers files
    · exact .dropped
    · exact .unlocked touches.touched
  refine ⟨decides, ?_⟩
  rintro r rfl answered
  exact decides.reusesIff answered

open Build (app emptyLog logNaming resultNaming)

def quiet (nodes : Array Node) : Machine where
  files := ⟨nodes⟩
  locks := .empty
  clock := 0
  epoch := 0
  rehearsals := []
  agenda := []

def littered : Machine := quiet #[
  ⟨.directory [("app.kproj", 1), ("a.buildlog", 2), ("b.buildlog", 3), ("obj", 4), ("old", 5)], 0o755, 0⟩,
  ⟨.file [], 0o644, 0⟩, ⟨.file (logNaming "/app.kproj"), 0o644, 1⟩, ⟨.file emptyLog, 0o644, 2⟩,
  ⟨.directory [("m.o", 1)], 0o755, 0⟩, ⟨.link "obj", 0o777, 0⟩]

def litterTurn := (loadResultOrClean app .default).run.poll littered

def clearedTurn := litterTurn.2.poll litterTurn.1

theorem litterApart : LockApart app .default ⟨"/.kiln-lock"⟩ littered.files := by
  have absent : littered.files.walk false linkLimit [] (stepsOf ⟨"/.kiln-lock"⟩) =
      .ok (.absent [] ".kiln-lock") := by decide +kernel
  have listed : app.directory.filesWithExtension Config.default.logExtension
      (littered.files.withFile 0 ".kiln-lock" [] 0) = .ok [⟨"/a.buildlog"⟩, ⟨"/b.buildlog"⟩] := by
    decide +kernel
  exact lockApartOf (.made absent [] 0) (madeLeads absent [] 0).2 listed (by decide +kernel)

theorem litterCleared : ∃ looked,
    Ends (Lock.Aside ⟨"/.kiln-lock"⟩) littered (loadResultOrClean app .default).run
      (some (.ok none)) clearedTurn.1 ∧
    Touched ⟨"/.kiln-lock"⟩ littered.files looked ∧
    clearedTurn.1.files = looked.without 0 (discards app .default (some ⟨"/b.buildlog"⟩) looked) ∧
    clearedTurn.1.files.listing ⟨"/"⟩ ⟨"/"⟩ = [".kiln-lock", "a.buildlog", "app.kproj", "old@"] := by
  have found : littered.files.find app.here app.root = .ok [] := by decide +kernel
  have place : app.directory.lockPlace [] = ⟨"/.kiln-lock"⟩ := by decide +kernel
  have newest : newestIn app .default littered.files = .ok (some ⟨"/b.buildlog"⟩) := by decide +kernel
  have ends : Ends (Lock.Aside ⟨"/.kiln-lock"⟩) littered (loadResultOrClean app .default).run
      (some (.ok none)) clearedTurn.1 :=
    .ofPoll Lock.Aside.refl (.ofValue Lock.Aside.refl (by decide +kernel))
  have decided := ((checkDecides (tidyOf (by decide +kernel)) LockTable.Sound.empty found
    (place ▸ litterApart)).1 _ _ (place ▸ ends)).1
  rw [place] at decided
  cases decided with
  | missed never newest' touched files =>
    cases newest.symm.trans newest'
    exact ⟨_, ends, touched, files, by decide +kernel⟩

def linked : Machine := quiet #[
  ⟨.directory [("app.kproj", 1), ("c.buildlog", 2), (".kiln-lock", 3)], 0o755, 0⟩,
  ⟨.file [], 0o644, 0⟩, ⟨.file (logNaming "/app.kproj"), 0o644, 0⟩, ⟨.link "c.buildlog", 0o777, 0⟩]

def checkTurn (m : Machine) := (loadResultOrClean app .default).run.poll m

theorem linkedLogLost :
    ((app.directory.file Config.default.lockFileName).hasExtension Config.default.logExtension = false ∧
      app.directory.file Config.default.lockFileName ≠ app.sentinel ∧
      app.directory.file Config.default.lockFileName ≠ app.projectFile) ∧
    Reuses app .default linked.files ⟨"/c.buildlog"⟩ (resultNaming "/app.kproj") ∧
    ∃ m', Ends (Lock.Aside ⟨"/.kiln-lock"⟩) linked (loadResultOrClean app .default).run (some (.ok none)) m' ∧
      m'.files.find app.here ⟨"/c.buildlog"⟩ = .error (.host .noEntry) := by
  have saw : outlook app .default linked.files =
      .ok (some ⟨"/c.buildlog"⟩, .reusable (resultNaming "/app.kproj")) := by decide +kernel
  obtain ⟨path, same, reuses⟩ := outlookReuses.mp saw
  cases same
  have lost : (checkTurn linked).2.value? = some (.ok none) ∧
      (checkTurn linked).1.files.find app.here ⟨"/c.buildlog"⟩ = .error (.host .noEntry) := by decide +kernel
  exact ⟨by decide +kernel, reuses, (checkTurn linked).1, .ofValue Lock.Aside.refl lost.1, lost.2⟩

end Cache
end BuildReuse
