import BuildReuse.Proofs.Cache.Finishes
import BuildReuse.Proofs.Cache.Scoured

/-! A directory that has been cleaned. There is nothing left for a second clean to take away, and a
report on it tells of no log and no failure. -/
namespace BuildReuse.Cache

open FileSystem
open BuildReuse.Task (Ends Ensures Finishes Patient)

variable {rely : Machine → Machine → Prop} {also : Machine → Prop} {t : Target} {config : Config}
  {fs fs' : FileSystem} {T : Trail} {es : List (String × Nat)} {α β : Type}

theorem litterWithout {d : Nat} (at? : fs.content? d = some (.directory es)) (gone : String × Nat → Bool)
    (e : String × Nat) : litter t config (fs.without d gone) e = litter t config fs e := by
  rw [litter, isFileWithout at?, isDirectoryWithout at?, litter]

structure Bare (t : Target) (config : Config) (T : Trail) (fs : FileSystem) : Prop where
  found : fs.find t.here t.root = .ok T
  clear : ∃ es, fs.content? T.node = some (.directory es) ∧ ∀ e ∈ es, litter t config fs e = false
  sentinel : ∃ e, fs.removeFile t.here t.sentinel = .error e ∧ e.kind = .notFound

theorem Bare.outline (same : fs.SameOutline fs') (bare : Bare t config T fs) : Bare t config T fs' := by
  constructor
  case found => rw [findOutline same, bare.found]
  case clear =>
    obtain ⟨es, at?, clear⟩ := bare.clear
    refine ⟨es, ?_, fun e member => ?_⟩
    · rcases outlineCases same T.node with equal | ⟨bytes, bytes', file, -⟩
      · rw [equal, at?]
      · cases at?.symm.trans file
    · rw [litter, isFileOutline same, isDirectoryOutline same]
      exact clear e member
  case sentinel =>
    obtain ⟨e, fails, notFound⟩ := bare.sentinel
    exact ⟨e, removeFileOutline same fails, notFound⟩

theorem SentinelGone.bare {last : List Path} (tidy : fs.Tidy) (root : t.root = T.path)
    (found : fs.find t.here t.root = .ok T) (at? : fs.content? T.node = some (.directory es))
    (clear : ∀ e ∈ es, litter t config fs e = false) (gone : SentinelGone t fs last fs') : Bare t config T fs' := by
  cases gone with
  | missing fails notFound => exact ⟨found, ⟨es, at?, clear⟩, _, fails, notFound⟩
  | removed removes =>
    have isDirectory : fs.isDirectory T.node = true := isDirectoryIff.mpr ⟨es, at?⟩
    constructor
    case found =>
      rw [root] at found ⊢
      exact removedFound tidy removes found isDirectory
    case clear =>
      obtain ⟨name, n, D, es', -, at', -, -, rfl⟩ := removedChain removes
      by_cases same : T.node = Trail.node D
      · cases at?.symm.trans (same ▸ at')
        refine ⟨_, by rw [contentWithout at', if_pos same], fun e member => ?_⟩
        rw [litterWithout at']
        exact clear e (List.mem_filter.mp member).1
      · refine ⟨es, by rw [contentWithout at', if_neg same, at?], fun e member => ?_⟩
        rw [litterWithout at']
        exact clear e member
    case sentinel => exact ⟨_, removedMissing tidy removes, rfl⟩

theorem Scoured.bare {report : List Path} (tidy : fs.Tidy) (straight : Straight T) (root : t.root = T.path)
    (found : fs.find t.here t.root = .ok T) (scoured : Scoured t config fs report fs') : Bare t config T fs' := by
  obtain ⟨es, names, last, at?, -, -, -, gone⟩ := scoured.exact tidy straight root found
  refine gone.bare (tidyWithout tidy at?) root (foundWithout tidy straight root found at? _)
    (contentLeft at? _) fun e member => ?_
  rw [litterWithout at?]
  simpa using (List.mem_filter.mp member).2

theorem Bare.logs (bare : Bare t config T fs) :
    t.directory.filesWithExtension config.logExtension fs = .ok [] := by
  obtain ⟨es, at?, clear⟩ := bare.clear
  have none : t.directory.namesWith config.logExtension fs es = [] := by
    refine List.eq_nil_iff_forall_not_mem.mpr fun name listed => ?_
    obtain ⟨e, member, -, file, extension⟩ := Directory.namesMem.mp listed
    have no := clear e member
    rw [litter, file, extension] at no
    cases no
  exact (Directory.listedAt bare.found at? _).trans (by rw [none]; rfl)

theorem Bare.trees (bare : Bare t config T fs) {name : String} (within : name ∈ config.intermediateDirs) :
    t.directory.directoriesNamed name fs = .ok [] := by
  obtain ⟨es, at?, clear⟩ := bare.clear
  rw [treesAt bare.found at?, Except.ok.injEq, List.map_eq_nil_iff, List.map_eq_nil_iff, List.filter_eq_nil_iff]
  intro e member selected
  rw [Bool.and_eq_true, beq_iff_eq] at selected
  have no := clear e member
  rw [litter, selected.1, selected.2, List.contains_iff_mem.mpr within] at no
  simp at no

theorem Bare.newest (bare : Bare t config T fs) : BuildLog.latest t.directory config.logExtension fs = .ok none := by
  rw [BuildLog.latest, bare.logs]
  rfl

def Idle (rely : Machine → Machine → Prop) (also : Machine → Prop) (fs : FileSystem)
    (job : MachineJob PackageError α) (value : α) : Prop :=
  Ensures rely (Finds fs also) job.run (fun r m => r = .ok value ∧ Finds fs also m) fun _ => True

theorem Idle.done (value : α) : Idle rely also fs (pure value) value :=
  Ensures.done fun _ found => ⟨rfl, found⟩

theorem Idle.bind {job : MachineJob PackageError α} {next : α → MachineJob PackageError β} {a : α} {b : β}
    (first : Idle rely also fs job a) (onward : Idle rely also fs (next a) b) :
    Idle rely also fs (job >>= next) b := by
  refine first.jobBind (fun a' m o m' holds => ?_) fun e m holds => by cases holds.1
  obtain ⟨same, there⟩ := holds
  cases same
  exact onward there

section

variable (alone : Undisturbed rely also)
include alone

theorem Idle.check {ε : Type} {f : FileSystem → Except ε α} {g : ε → PackageError} {a : α} (given : f fs = .ok a) :
    Idle rely also fs (Job.check fun m => (f m.files).mapError g) a := by
  refine .get fun m m' found others => ?_
  have now := alone.finds fs m m' found others
  exact ⟨by rw [now.1, given]; rfl, now⟩

theorem Idle.read {f : FileSystem → α} {a : α} (given : f fs = a) :
    Idle rely also fs (Job.get fun m => f m.files) a := by
  refine .lift (.get fun m m' found others => ?_)
  have now := alone.finds fs m m' found others
  exact ⟨by rw [now.1, given], now⟩

theorem intermediateBare (bare : Bare t config T fs) : ∀ names : List String,
    (∀ name ∈ names, name ∈ config.intermediateDirs) → Idle rely also fs (removeIntermediate t names) []
  | [], _ => .done []
  | name :: rest, within => by
    obtain ⟨own, others⟩ := List.forall_mem_cons.mp within
    have none : Idle rely also fs (Job.check fun m =>
        (t.directory.directoriesNamed name m.files).mapError PackageError.io) [] := .check alone (bare.trees own)
    exact none.bind ((intermediateBare bare rest others).bind (.done []))

theorem sentinelBare (bare : Bare t config T fs) : Idle rely also fs (removeSentinel t) [] := by
  obtain ⟨e, fails, notFound⟩ := bare.sentinel
  refine (sentinelEnds alone fs).weaken (fun r m ends => ?_) fun _ => id
  rcases ends with ⟨kept, ⟨last, rfl, gone⟩ | ⟨e', -, fails', other⟩⟩
  · cases gone with
    | removed removes => cases fails.symm.trans removes
    | missing => exact ⟨rfl, rfl, kept⟩
  · cases fails.symm.trans fails'
    exact (other notFound).elim

theorem scourBare (bare : Bare t config T fs) : Idle rely also fs (scour t config) [] := by
  have logs : Idle rely also fs (Job.check fun m =>
      (t.directory.filesWithExtension config.logExtension m.files).mapError PackageError.io) [] :=
    .check alone bare.logs
  have sweeps : Idle rely also fs (sweep t config) [] :=
    logs.bind (Idle.bind (.done ()) ((intermediateBare alone bare _ fun _ => id).bind (.done [])))
  exact sweeps.bind ((sentinelBare alone bare).bind (.done []))

theorem surveyBare (bare : Bare t config T fs) :
    Idle rely also fs (survey t config) ⟨t.name, none, .noBuildLog, none⟩ := by
  have log : Idle rely also fs (Job.check fun m =>
      (BuildLog.latest t.directory config.logExtension m.files).mapError PackageError.buildLog) none :=
    .check alone bare.newest
  have lastError : Idle rely also fs (Job.get fun m => t.lastBuildError m.files) none := by
    obtain ⟨e, fails, notFound⟩ := bare.sentinel
    exact .read alone (readMissing fails notFound)
  exact log.bind (Idle.bind (.done Verdict.noBuildLog) (lastError.bind (.done _)))

end

theorem scourFinishes (patient : Patient rely) (t : Target) (config : Config) :
    Finishes rely (scour t config).run := by
  have removes (logs : List Path) : Finishes rely (removeLogs t config logs).run := by
    induction logs with
    | nil => exact .done _
    | cons log rest ih => exact (removeLogFinishes patient t config log).jobBind fun _ => ih
  have sentinel : Finishes rely (removeSentinel t).run := by
    refine Finishes.jobBind (.tryCatch ((changeFinishes patient _).mapError.jobBind fun _ => .done _) fun e => ?_)
      fun last => (Finishes.yield patient.refl).lift.jobBind fun _ => .done _
    cases e with
    | io e =>
      simp only
      split
      · exact .done _
      · exact .done _
    | _ => exact .done _
  have sweeps : Finishes rely (sweep t config).run :=
    (Finishes.get patient.refl _).jobBind fun logs => (removes logs).jobBind fun _ =>
      (removeIntermediateFinishes patient t _).jobBind fun _ => .done _
  exact sweeps.jobBind fun swept => sentinel.jobBind fun last => .done _

end BuildReuse.Cache
