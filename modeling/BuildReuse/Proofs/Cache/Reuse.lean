import BuildReuse.Proofs.Cache.Decided
import BuildReuse.Proofs.Cache.Stands
import BuildReuse.Proofs.Task.Turned

/-! A cache check that finds a log to reuse. Others may want the lock as well and write into
the lock file meanwhile; the check still comes to the result that was there when it began. -/
namespace BuildReuse

open BuildReuse.FileSystem
open BuildReuse.Task (Ends Ensures Turned run)

structure Lock.Bystanders (place : Path) (m m' : Machine) : Prop where
  beside : Lock.Beside place m m'
  rehearsals : m'.rehearsals = m.rehearsals
  clock : m.clock ≤ m'.clock

theorem Lock.Bystanders.refl {place : Path} (m : Machine) : Lock.Bystanders place m m :=
  ⟨⟨.still rfl, id, fun _ => id⟩, rfl, Nat.le_refl _⟩

theorem Lock.Bystanders.trans {place : Path} (m₁ m₂ m₃ : Machine) (first : Lock.Bystanders place m₁ m₂)
    (second : Lock.Bystanders place m₂ m₃) : Lock.Bystanders place m₁ m₃ := by
  obtain ⟨⟨touches, sound, fits⟩, same, earlier⟩ := first
  obtain ⟨⟨touches', sound', fits'⟩, same', earlier'⟩ := second
  exact ⟨⟨touches.trans touches', sound' ∘ sound, fun own => fits' own ∘ fits own⟩, same'.trans same,
    Nat.le_trans earlier earlier'⟩

theorem Machine.endlessLater {m m' : Machine} {timeout : Duration} (later : m.clock ≤ m'.clock)
    (endless : m.deadline? timeout = none) : m'.deadline? timeout = none := by
  simp only [Machine.deadline?, ite_eq_right_iff, reduceCtorEq, imp_false] at endless ⊢
  omega

namespace Cache

variable {t : Target} {config : Config} {place : Path} {fs fs' : FileSystem} {T : Trail} {log : Path}
  {r : BuildResult} {m m' : Machine}

structure LockAside (t : Target) (config : Config) (place : Path) (fs : FileSystem) : Prop where
  logs : LogsApart t config place fs
  project : fs.leads place = none → LockApart t config place fs

theorem LockAside.alike (aside : LockAside t config place fs) (tidy : fs.Tidy)
    (found : fs.find t.here t.root = .ok T) (touched : Touched place fs fs') : Alike t config fs fs' := by
  cases there : fs.leads place with
  | none => exact (aside.project there).alike tidy found touched
  | some n =>
    cases touched with
    | same => exact .refl t config fs
    | written leads bytes now => exact alikeWriteNode (aside.logs .same leads) bytes now
    | made absent bytes now =>
      rw [FileSystem.leads, absent] at there
      cases there

theorem LockAside.stands {node : Nat} (aside : LockAside t config place fs) (tidy : fs.Tidy)
    (found : fs.find t.here t.root = .ok T) (reuses : Reuses t config fs log r) (touched : Touched place fs fs')
    (leads : fs'.leads place = some node) : Stands [t] config place node log (fun _ => r) fs' := by
  refine ⟨leads, ?_, ?_⟩
  · intro t' member
    cases List.mem_singleton.mp member
    exact aside.logs touched leads
  · intro t' member
    cases List.mem_singleton.mp member
    rw [(aside.alike tidy found touched).outlook]
    exact outlookReuses.mpr ⟨log, rfl, reuses⟩

theorem standsCheck {node : Nat} {c : Except PackageError (Option BuildResult)}
    (stands : Stands [t] config place node log (fun _ => r) m.files)
    (ends : Ends (Lock.Bystanders place) m (check t config).run (some c) m') :
    m.Touches place m' ∧ m'.rehearsals = m.rehearsals ∧
      (c = .ok (some r) ∨ c = .error (.buildLog .noDeadline) ∧ m'.deadline? config.logReadyTimeout = none) := by
  let inv (m₁ : Machine) : Prop := (Stands [t] config place node log (fun _ => r) m₁.files ∧
    Alike t config m.files m₁.files) ∧ m.Touches place m₁ ∧ m₁.rehearsals = m.rehearsals
  have stable : ∀ m₁ m₂, inv m₁ → Lock.Bystanders place m₁ m₂ → inv m₂ := by
    intro m₁ m₂ holds others
    obtain ⟨after, alike⟩ := holds.1.1.touched others.beside.1
    exact ⟨⟨after, holds.1.2.trans (alike t (List.mem_singleton_self t))⟩, holds.2.1.trans others.beside.1,
      others.rehearsals.trans holds.2.2⟩
  have looks := lookEnsures stable fun m₁ (holds : inv m₁) => holds.1.2
  rw [stands.reused t (List.mem_singleton_self t)] at looks
  have begins : inv m := ⟨⟨stands, .refl t config m.files⟩, .still rfl, rfl⟩
  rcases ends.jobBind with ⟨seen, m₁, first, rest⟩ | ⟨e, same, first⟩ | ⟨no, -⟩
  · obtain ⟨⟨-, touches, same⟩, saw | ⟨no, -⟩⟩ := looks begins first
    · cases saw
      cases rest
      exact ⟨touches, same, .inl rfl⟩
    · cases no
  · cases same
    obtain ⟨⟨-, touches, same⟩, no | ⟨late, clock⟩⟩ := looks begins first
    · cases no
    · cases late
      exact ⟨touches, same, .inr ⟨rfl, clock⟩⟩
  · cases no

inductive Hits (config : Config) (r : BuildResult) (m' : Machine) : Except PackageError (Option BuildResult) → Prop where
  | reused : Hits config r m' (.ok (some r))
  | unlocked (e : LockError) : Hits config r m' (.error (.lock e))
  | noDeadline (endless : m'.deadline? config.logReadyTimeout = none) :
      Hits config r m' (.error (.buildLog .noDeadline))

section

variable (tidy : m.files.Tidy) (sound : m.locks.Sound) (found : m.files.find t.here t.root = .ok T)
  (aside : LockAside t config (t.directory.lockPlace T) m.files) (reuses : Reuses t config m.files log r)
include tidy found aside reuses

include sound in
theorem hitEnds {c : Except PackageError (Option BuildResult)}
    (ends : Ends (Lock.Bystanders (t.directory.lockPlace T)) m (loadResultOrClean t config).run (some c) m') :
    m.Touches (t.directory.lockPlace T) m' ∧ m'.rehearsals = m.rehearsals ∧
      Hits config r m' c := by
  have keeps {o m'} (takes : Ends (Lock.Bystanders (t.directory.lockPlace T)) m
      (t.directory.acquire "cache-check").run o m') :=
    Lock.acquireKeeps (Directory.locksAt found) sound (takes.mono fun _ _ others => others.beside)
  have quiet {o m'} (takes : Ends (Lock.Bystanders (t.directory.lockPlace T)) m
      (t.directory.acquire "cache-check").run o m') : m'.rehearsals = m.rehearsals :=
    Lock.acquireRehearsals (fun _ _ others => others.rehearsals) takes
  rw [checkUnderLock] at ends
  rcases Directory.withLockEnds ends with ⟨guard, m₁, m₂, m₃, takes, works, others | ⟨no, -⟩, rfl⟩ |
    ⟨e, same, takes⟩ | ⟨no, -⟩
  · obtain ⟨touches, sound', has⟩ := keeps takes
    obtain ⟨node, leads⟩ := has guard rfl
    have stands := aside.stands tidy found reuses touches.touched leads
    obtain ⟨touches', same, answer⟩ := standsCheck stands works
    refine ⟨touches.trans (touches'.trans (others.beside.1.trans (.still rfl))),
      others.rehearsals.trans (same.trans (quiet takes)), ?_⟩
    rcases answer with rfl | ⟨rfl, endless⟩
    · exact .reused
    · exact .noDeadline (Machine.endlessLater others.clock endless)
  · cases no
  · cases same
    exact ⟨(keeps takes).1, quiet takes, .unlocked e⟩
  · cases no

end

theorem runLook (reuses : Reuses t config m.files log r) (timely : m.deadline? config.logReadyTimeout ≠ none) :
    run m (look t config).run = (m, .done (.ok (some log, .reusable r))) := by
  obtain ⟨document, read, current, -⟩ := reuses.loads
  obtain ⟨newest, verdict⟩ := outlookSaw (outlookReuses.mpr ⟨log, rfl, reuses⟩)
  have reads : run m (Task.get fun m => BuildLog.readFile m.files t.here log) = (m, .done (.ok document)) := by
    rw [← read]
    rfl
  have loads : run m (BuildLog.load t.here log config.logReadyTimeout).run = (m, .done (.ok document.results)) := by
    refine (Task.runJob (Task.runMapError (Task.runWhenAvailable nofun timely reads))).trans ?_
    simp only [BuildLog.resultsOf, current, if_pos]
    rfl
  have judges : run m (judge t config (some log)).run = (m, .done (.ok (.reusable r))) := by
    refine (Task.runJob (Task.runMapError loads)).trans ?_
    have judged : Verdict.ofResults m.files t document.results = .reusable r := by
      rw [verdictIn, resultsInLoads.mpr ⟨document, read, current, rfl⟩] at verdict
      exact Except.ok.inj verdict
    rw [← judged]
    rfl
  unfold newestIn at newest
  cases last : BuildLog.latest t.directory config.logExtension m.files with
  | error e => simp [last, Except.mapError, Except.map] at newest
  | ok artifact =>
    simp only [last, Except.mapError, Except.map, Except.ok.injEq] at newest
    have finds : run m (latest t config).run = (m, .done (.ok artifact)) := by
      have same : run m (latest t config).run = (m, .done
        ((BuildLog.latest t.directory config.logExtension m.files).mapError PackageError.buildLog)) := rfl
      rw [same, last]
      rfl
    refine (Task.runJob finds).trans ?_
    rw [newest]
    exact Task.runJob judges

theorem runCheck (reuses : Reuses t config m.files log r) (timely : m.deadline? config.logReadyTimeout ≠ none) :
    run m (check t config).run = (m, .done (.ok (some r))) := Task.runJob (runLook reuses timely)

section

variable (tidy : m.files.Tidy) (sound : m.locks.Sound) (found : m.files.find t.here t.root = .ok T)
  (aside : LockAside t config (t.directory.lockPlace T) m.files) (reuses : Reuses t config m.files log r)
include tidy found aside reuses

theorem Reuses.touched {m₁ : Machine} (touches : m.Touches (t.directory.lockPlace T) m₁) :
    Reuses t config m₁.files log r := by
  have saw := outlookReuses.mpr ⟨log, rfl, reuses⟩
  rw [← (aside.alike tidy found touches.touched).outlook] at saw
  obtain ⟨path, same, reuses'⟩ := outlookReuses.mp saw
  cases same
  exact reuses'

include sound in
theorem hitTurned {guard : Guard} {m₁ : Machine}
    (takes : Turned (Lock.Bystanders (t.directory.lockPlace T)) m (t.directory.acquire "cache-check").run
      (.ok guard) m₁) (timely : m₁.deadline? config.logReadyTimeout ≠ none) :
    Turned (Lock.Bystanders (t.directory.lockPlace T)) m (loadResultOrClean t config).run (.ok (some r))
      (Lock.release guard m₁) := by
  have ends := (takes.ends Lock.Bystanders.refl Lock.Bystanders.trans).mono fun _ _ others => others.beside
  have touches := Lock.acquireTouches (Directory.locksAt found) sound ends
  have checks := runCheck (reuses.touched tidy found aside touches) timely
  have renamed : Turned (Lock.Bystanders (t.directory.lockPlace T)) m
      (Job.mapError PackageError.lock (t.directory.acquire "cache-check")).run (.ok guard) m₁ :=
    takes.andThen rfl
  rw [checkUnderLock]
  exact renamed.andThen (Task.runEnsuring checks)

end

end Cache
end BuildReuse
