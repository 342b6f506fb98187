import BuildReuse.Proofs.BuildLog.Newest
import BuildReuse.Proofs.Cache.Look
import BuildReuse.Proofs.Lock.Touches
import Mathlib.Data.List.Basic

/-! A build log that stands: it is the newest, each package of a directory can reuse
it, and it is told apart from the lock file. Whoever only touches the lock file
leaves it standing. -/
namespace BuildReuse

open BuildReuse.Task (Ends Ensures)

variable {t : Target} {config : Config} {place : Path} {node : Nat} {fs : FileSystem}

namespace Cache

def Apart (t : Target) (config : Config) (node : Nat) (fs : FileSystem) : Prop :=
  ∀ ⦃logs⦄, t.directory.filesWithExtension config.logExtension fs = .ok logs →
    ∀ log ∈ logs, ∀ trail, fs.find t.here log = .ok trail → trail.node ≠ node

theorem logsWriteNode (t : Target) (config : Config) (fs : FileSystem) (node : Nat) (bytes : Bytes)
    (now : Int) :
    t.directory.filesWithExtension config.logExtension (fs.writeNode node bytes now) =
      t.directory.filesWithExtension config.logExtension fs := by
  have same := FileSystem.outlineWriteNode fs node bytes now
  simp only [Directory.filesWithExtension, Directory.files, FileSystem.regularFilesOutline same]

theorem Apart.outline {fs' : FileSystem} (same : fs.SameOutline fs') (apart : Apart t config node fs) :
    Apart t config node fs' := by
  intro logs listed log isLog trail found
  have listed' : t.directory.filesWithExtension config.logExtension fs = .ok logs := by
    simpa only [Directory.filesWithExtension, Directory.files, FileSystem.regularFilesOutline same] using listed
  rw [FileSystem.findOutline same] at found
  exact apart listed' log isLog trail found

theorem Apart.writeNode (apart : Apart t config node fs) (bytes : Bytes) (now : Int) :
    Apart t config node (fs.writeNode node bytes now) :=
  apart.outline (FileSystem.outlineWriteNode fs node bytes now)

theorem apartOf {logs : List Path}
    (listed : t.directory.filesWithExtension config.logExtension fs = .ok logs)
    (others : ∀ log ∈ logs, (fs.find t.here log).toOption.map Trail.node ≠ some node) :
    Apart t config node fs := by
  intro logs' listed' log isLog trail found same
  cases listed.symm.trans listed'
  exact others log isLog (by rw [found, Except.toOption, Option.map_some, same])

theorem latestWriteNode (apart : Apart t config node fs) (bytes : Bytes) (now : Int) :
    BuildLog.latest t.directory config.logExtension (fs.writeNode node bytes now) =
      BuildLog.latest t.directory config.logExtension fs := by
  have same := FileSystem.outlineWriteNode fs node bytes now
  rw [BuildLog.latest, BuildLog.latest, logsWriteNode]
  cases listed : t.directory.filesWithExtension config.logExtension fs with
  | error e => rfl
  | ok logs =>
    have artifacts : ∀ log ∈ logs,
        BuildLog.artifact? (fs.writeNode node bytes now) t.directory.caller.here log =
          BuildLog.artifact? fs t.directory.caller.here log := by
      intro log isLog
      unfold BuildLog.artifact?
      rw [FileSystem.findOutline same]
      cases found : fs.find t.directory.caller.here log with
      | error e => rfl
      | ok trail =>
        have other := apart listed log isLog trail found
        simp only [Except.toOption, bind, Option.bind, FileSystem.nodeWriteNode fs other]
    simp only [List.filterMap_congr artifacts]

theorem newestListed {log : Path} (newest : newestIn t config fs = .ok (some log)) :
    ∃ logs trail, t.directory.filesWithExtension config.logExtension fs = .ok logs ∧ log ∈ logs ∧
      fs.find t.here log = .ok trail := by
  unfold newestIn BuildLog.latest at newest
  cases listed : t.directory.filesWithExtension config.logExtension fs with
  | error e => simp [listed, Except.mapError, Except.map] at newest
  | ok logs =>
    simp only [listed, Except.mapError, Except.map, Except.ok.injEq, Option.map_eq_some_iff] at newest
    obtain ⟨artifact, isNewest, rfl⟩ := newest
    obtain ⟨log, isLog, made⟩ := List.mem_filterMap.mp (BuildLog.newestMember isNewest)
    unfold BuildLog.artifact? at made
    simp only [bind, Option.bind_eq_some_iff, Option.some.injEq] at made
    obtain ⟨trail, found, -, -, rfl⟩ := made
    cases result : fs.find t.directory.caller.here log with
    | error e => simp [result, Except.toOption] at found
    | ok trail => exact ⟨logs, trail, rfl, isLog, result⟩

theorem alikeWriteNode (apart : Apart t config node fs) (bytes : Bytes) (now : Int) :
    Alike t config fs (fs.writeNode node bytes now) := by
  have same := FileSystem.outlineWriteNode fs node bytes now
  constructor
  case newest => rw [newestIn, latestWriteNode apart, newestIn]
  case reads =>
    intro log newest
    obtain ⟨logs, -, listed, isLog, -⟩ := newestListed newest
    have read : (fs.writeNode node bytes now).readBytes t.here log = fs.readBytes t.here log := by
      rw [FileSystem.readBytes, FileSystem.findOutline same, FileSystem.readBytes]
      cases found : fs.find t.here log with
      | error e => rfl
      | ok trail =>
        have other := apart listed log isLog trail found
        simp only [bind, Except.bind, FileSystem.readNode, FileSystem.contentOther fs other]
    simp only [BuildLog.readFile, FileSystem.readText, read]
  case selects =>
    intro log results newest recorded
    have matched : BuildResult.matchesFile (fs.writeNode node bytes now) = BuildResult.matchesFile fs := by
      funext here projectFile r
      simp only [BuildResult.matchesFile, FileSystem.canonicalizeOutline same]
    rw [BuildResult.select, matched, BuildResult.select]

structure Stands (packages : List Target) (config : Config) (place : Path) (node : Nat) (log : Path)
    (result : Target → BuildResult) (fs : FileSystem) : Prop where
  inPlace : fs.leads place = some node
  apart : ∀ t ∈ packages, Apart t config node fs
  reused : ∀ t ∈ packages, outlook t config fs = .ok (some log, .reusable (result t))

variable {packages : List Target} {log : Path} {result : Target → BuildResult} {m m' : Machine}

theorem Stands.writeNode (stands : Stands packages config place node log result fs) (bytes : Bytes)
    (now : Int) : Stands packages config place node log result (fs.writeNode node bytes now) := by
  constructor
  case inPlace => rw [FileSystem.leadsOutline (FileSystem.outlineWriteNode fs node bytes now), stands.inPlace]
  case apart => exact fun t member => (stands.apart t member).writeNode bytes now
  case reused =>
    intro t member
    rw [(alikeWriteNode (stands.apart t member) bytes now).outlook, stands.reused t member]

theorem Stands.touched (touches : m.Touches place m')
    (stands : Stands packages config place node log result m.files) :
    Stands packages config place node log result m'.files ∧
      ∀ t ∈ packages, Alike t config m.files m'.files := by
  induction touches with
  | still files =>
    rw [files]
    exact ⟨stands, fun t _ => .refl t config _⟩
  | opened leads opens =>
    rw [(FileSystem.openFileAt (leads ▸ stands.inPlace) opens).1]
    exact ⟨stands, fun t _ => .refl t config _⟩
  | written leads files =>
    obtain rfl := Option.some.inj (leads.symm.trans stands.inPlace)
    rw [files]
    exact ⟨stands.writeNode _ _, fun t member => alikeWriteNode (stands.apart t member) _ _⟩
  | trans h k ih ih' =>
    obtain ⟨between, alike⟩ := ih stands
    obtain ⟨after, alike'⟩ := ih' between
    exact ⟨after, fun t member => (alike t member).trans (alike' t member)⟩

def Withstands (t : Target) (packages : List Target) (config : Config) (place : Path) (node : Nat)
    (log : Path) (result : Target → BuildResult) (fs : FileSystem) : Prop :=
  Stands packages config place node log result fs ∧
    ∀ ⦃fs'⦄, fs.removeFile t.here t.sentinel = .ok fs' →
      Stands packages config place node log result fs'

theorem Withstands.writeNode (stands : Withstands t packages config place node log result fs)
    (bytes : Bytes) (now : Int) :
    Withstands t packages config place node log result (fs.writeNode node bytes now) := by
  refine ⟨stands.1.writeNode bytes now, fun fs' removed => ?_⟩
  rw [FileSystem.removeFileWriteNode] at removed
  cases before : fs.removeFile t.here t.sentinel with
  | error e => simp [before, Except.map] at removed
  | ok without =>
    simp only [before, Except.map, Except.ok.injEq] at removed
    exact removed ▸ (stands.2 before).writeNode bytes now

theorem Withstands.touched (touches : m.Touches place m')
    (stands : Withstands t packages config place node log result m.files) :
    Withstands t packages config place node log result m'.files := by
  induction touches with
  | still files =>
    rw [files]
    exact stands
  | opened leads opens =>
    rw [(FileSystem.openFileAt (leads ▸ stands.1.inPlace) opens).1]
    exact stands
  | written leads files =>
    obtain rfl := Option.some.inj (leads.symm.trans stands.1.inPlace)
    rw [files]
    exact stands.writeNode _ _
  | trans h k ih ih' => exact ih' (ih stands)

theorem standsLook (member : t ∈ packages) :
    Ensures (Machine.Touches place) (fun m => Stands packages config place node log result m.files)
      (look t config).run
      (Sees (fun m => Stands packages config place node log result m.files) config.logReadyTimeout
        (.ok (some log, .reusable (result t))))
      fun m => Stands packages config place node log result m.files := by
  intro m o m' stands ends
  let inv (m' : Machine) : Prop :=
    Stands packages config place node log result m'.files ∧ Alike t config m.files m'.files
  have stable : ∀ m₁ m₂, inv m₁ → m₁.Touches place m₂ → inv m₂ := by
    intro m₁ m₂ holds touches
    obtain ⟨after, alike⟩ := holds.1.touched touches
    exact ⟨after, holds.2.trans (alike t member)⟩
  have looks := (lookEnsures stable fun _ holds => holds.2).weaken
    (fun (r : Except PackageError _) m (sees : Sees inv _ _ r m) =>
      show Sees (fun m => Stands packages config place node log result m.files) _ _ r m from
        ⟨sees.1.1, sees.2⟩) fun _ holds => holds.1
  rw [stands.reused t member] at looks
  exact looks ⟨stands, .refl t config m.files⟩ ends

end Cache
end BuildReuse
