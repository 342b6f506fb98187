import BuildReuse.Proofs.Cache.Spared
import BuildReuse.Proofs.FileSystem.Missed

/-! What a clean takes away and what it tells of it. The logs go first, then the directories of
intermediate output, and last the sentinel, if its path still leads to it. -/
namespace BuildReuse.Cache

open FileSystem
open BuildReuse.Task (Ends Ensures Finishes Patient)

variable {rely : Machine → Machine → Prop} {also : Machine → Prop} {t : Target} {config : Config}
  {fs fs' : FileSystem} {T : Trail} {es : List (String × Nat)} {α β : Type}

def logsCleared (t : Target) : List Path → FileSystem → Except PackageError FileSystem
  | [], fs => .ok fs
  | log :: rest, fs =>
    match logCleared t fs (some log) with
    | .ok fs => logsCleared t rest fs
    | .error e => .error e

inductive Swept (t : Target) : List String → FileSystem → List Path → FileSystem → Prop where
  | none {fs : FileSystem} : Swept t [] fs [] fs
  | more {name : String} {rest : List String} {fs fs₁ fs' : FileSystem} {found others : List Path}
      (listed : t.directory.directoriesNamed name fs = .ok found) (trees : treesCleared t found fs = .ok fs₁)
      (onward : Swept t rest fs₁ others fs') : Swept t (name :: rest) fs (found ++ others) fs'

inductive SentinelGone (t : Target) (fs : FileSystem) : List Path → FileSystem → Prop where
  | removed {fs' : FileSystem} (removes : fs.removeFile t.here t.sentinel = .ok fs') :
      SentinelGone t fs [t.sentinel] fs'
  | missing {e : IoError} (fails : fs.removeFile t.here t.sentinel = .error e) (notFound : e.kind = .notFound) :
      SentinelGone t fs [] fs

inductive Scoured (t : Target) (config : Config) (fs : FileSystem) : List Path → FileSystem → Prop where
  | of {logs directories last : List Path} {fs₁ fs₂ fs' : FileSystem}
      (listed : t.directory.filesWithExtension config.logExtension fs = .ok logs)
      (first : logsCleared t logs fs = .ok fs₁) (second : Swept t config.intermediateDirs fs₁ directories fs₂)
      (third : SentinelGone t fs₂ last fs') : Scoured t config fs (logs ++ directories ++ last) fs'

def Gives (left : α → FileSystem → Prop) (also : Machine → Prop) (r : Except PackageError α) (m : Machine) : Prop :=
  ∀ a, r = .ok a → left a m.files ∧ also m

theorem givesBind {job : MachineJob PackageError α} {f : α → MachineJob PackageError β}
    {left : α → FileSystem → Prop} {left' : β → FileSystem → Prop}
    (first : Ensures rely (Finds fs also) job.run (Gives left also) fun _ => True)
    (second : ∀ a fs₁, left a fs₁ →
      Ensures rely (Finds fs₁ also) (f a).run (Gives left' also) fun _ => True) :
    Ensures rely (Finds fs also) (job >>= f).run (Gives left' also) fun _ => True := by
  refine first.jobBind (fun a m o m' given => ?_) fun e m _ b same => by cases same
  obtain ⟨holds, kept⟩ := given a rfl
  exact second a m.files holds ⟨rfl, kept⟩

theorem givesDone {left : α → FileSystem → Prop} {a : α} (holds : left a fs) :
    Ensures rely (Finds fs also) (pure a : MachineJob PackageError α).run (Gives left also) fun _ => True := by
  refine .done fun m found b same => ?_
  cases same
  exact ⟨found.1 ▸ holds, found.2⟩

section

variable (alone : Undisturbed rely also)
include alone

theorem givesCheck (f : FileSystem → Except IoError α) : Ensures rely (Finds fs also)
    (Job.check fun m => (f m.files).mapError PackageError.io).run
    (Gives (fun a left => left = fs ∧ f fs = .ok a) also) fun _ => True := by
  refine .get fun m m' found others a same => ?_
  have now := alone.finds fs m m' found others
  rw [now.1] at same
  refine ⟨⟨now.1, ?_⟩, now.2⟩
  cases given : f fs with
  | error e => simp [given, Except.mapError] at same
  | ok b => simpa [given, Except.mapError] using same

theorem logsGive (logs : List Path) : ∀ fs : FileSystem, Ensures rely (Finds fs also) (removeLogs t config logs).run
    (Gives (fun _ left => logsCleared t logs fs = .ok left) also) fun _ => True := by
  induction logs with
  | nil => exact fun fs => givesDone rfl
  | cons log rest ih =>
    intro fs
    have once : Ensures rely (Finds fs also) (removeLog t config log).run
        (Gives (fun _ left => logCleared t fs (some log) = .ok left) also) fun _ => True := by
      refine (logClears alone log).weaken (fun r m holds done same => ?_) fun _ => id
      subst same
      rcases holds with ⟨kept, left⟩ | ⟨no, -⟩
      · exact ⟨left, kept⟩
      · cases no
    refine givesBind once fun done fs₁ cleared => (ih fs₁).weaken (fun r m given done same => ?_) fun _ => id
    obtain ⟨left, kept⟩ := given done same
    exact ⟨by rw [logsCleared, cleared]; exact left, kept⟩

theorem intermediateGives (names : List String) : ∀ fs : FileSystem,
    Ensures rely (Finds fs also) (removeIntermediate t names).run (Gives (Swept t names fs) also)
      fun _ => True := by
  induction names with
  | nil => exact fun fs => givesDone .none
  | cons name rest ih =>
    intro fs
    refine givesBind (givesCheck alone (t.directory.directoriesNamed name)) fun found fs₁ holds => ?_
    obtain ⟨rfl, listed⟩ := holds
    have clears : Ensures rely (Finds fs₁ also) (removeTrees t found).run
        (Gives (fun _ left => treesCleared t found fs₁ = .ok left) also) fun _ => True := by
      refine (treesClear alone found fs₁).weaken (fun r m holds done same => ?_) fun _ => id
      subst same
      exact ⟨holds.2, holds.1⟩
    refine givesBind clears fun done fs₂ trees => givesBind (ih fs₂) fun others fs₃ swept => ?_
    exact givesDone (.more listed trees swept)

def SentinelTried (t : Target) (fs : FileSystem) (also : Machine → Prop) (r : Except PackageError (List Path))
    (m : Machine) : Prop :=
  also m ∧ (r = .ok [t.sentinel] ∧ fs.removeFile t.here t.sentinel = .ok m.files ∨
    ∃ e, r = .error (.io e) ∧ fs.removeFile t.here t.sentinel = .error e ∧ m.files = fs)

theorem sentinelTries (fs : FileSystem) : Ensures rely (Finds fs also) (do
    Job.mapError PackageError.io (changeFiles fun fs _ => fs.removeFile t.here t.sentinel)
    pure [t.sentinel] : MachineJob PackageError (List Path)).run (SentinelTried t fs also) fun _ => True := by
  let remove (fs : FileSystem) := fs.removeFile t.here t.sentinel
  have once : Ensures rely (Finds fs also) (Job.mapError PackageError.io (changeFiles fun fs _ => remove fs)).run
      (fun r m => SentinelTried t fs also (r.map fun _ => [t.sentinel]) m) fun _ => True := by
    refine .mapError ((triedEnsures alone remove _).weaken (fun r m tried => ?_) fun _ => id)
    cases r with
    | ok done => exact ⟨tried.2, .inl ⟨rfl, tried.1⟩⟩
    | error e => exact ⟨tried.2.2, .inr ⟨e, rfl, tried.1, tried.2.1⟩⟩
  exact once.jobBind (fun done => .done fun m tried => tried) fun e m tried => tried

def SentinelEnds (t : Target) (fs : FileSystem) (also : Machine → Prop) (r : Except PackageError (List Path))
    (m : Machine) : Prop :=
  also m ∧ ((∃ last, r = .ok last ∧ SentinelGone t fs last m.files) ∨
    ∃ e, r = .error (.io e) ∧ fs.removeFile t.here t.sentinel = .error e ∧ e.kind ≠ .notFound)

end

theorem sentinelFailed {e : IoError} {m : Machine} (tried : SentinelTried t fs also (.error (.io e)) m) :
    also m ∧ fs.removeFile t.here t.sentinel = .error e ∧ m.files = fs := by
  rcases tried with ⟨kept, ⟨no, -⟩ | ⟨e', same, fails, files⟩⟩
  · cases no
  · cases same
    exact ⟨kept, fails, files⟩

section

variable (alone : Undisturbed rely also)
include alone

theorem sentinelYields (last : List Path) : Ensures rely (SentinelEnds t fs also (.ok last)) (do
    Job.yield
    pure last : MachineJob PackageError (List Path)).run (SentinelEnds t fs also) fun _ => True := by
  have once : Ensures rely (SentinelEnds t fs also (.ok last)) (Job.yield : MachineJob PackageError Unit).run
      (fun r m => r = .ok () ∧ SentinelEnds t fs also (.ok last) m) fun _ => True := by
    refine .lift (.wait (fun m m' ends others => ⟨rfl, ?_⟩) fun _ _ _ _ => trivial)
    unfold SentinelEnds at ends ⊢
    rw [alone.files others]
    exact ⟨alone.kept ends.1 others, ends.2⟩
  exact once.jobBind (fun _ => .done fun m holds => holds.2) fun e m holds => by cases holds.1

theorem sentinelEnds (fs : FileSystem) : Ensures rely (Finds fs also) (removeSentinel t).run
    (SentinelEnds t fs also) fun _ => True := by
  have passes (e : IoError) (notFound : e.kind = .notFound) : Ensures rely (SentinelTried t fs also (.error (.io e)))
      (pure [] : MachineJob PackageError (List Path)).run (SentinelEnds t fs also) fun _ => True := by
    refine .done fun m tried => ?_
    obtain ⟨kept, fails, files⟩ := sentinelFailed tried
    refine ⟨kept, .inl ⟨[], rfl, ?_⟩⟩
    rw [files]
    exact .missing fails notFound
  have throws (e : IoError) (other : e.kind ≠ .notFound) : Ensures rely (SentinelTried t fs also (.error (.io e)))
      (throw (.io e) : MachineJob PackageError (List Path)).run (SentinelEnds t fs also) fun _ => True := by
    refine .done fun m tried => ?_
    obtain ⟨kept, fails, -⟩ := sentinelFailed tried
    exact ⟨kept, .inr ⟨e, rfl, fails, other⟩⟩
  have strange (e : PackageError) (other : ∀ e', e ≠ .io e') : Ensures rely (SentinelTried t fs also (.error e))
      (throw e : MachineJob PackageError (List Path)).run (SentinelEnds t fs also) fun _ => True := by
    refine .done fun m tried => ?_
    rcases tried with ⟨-, ⟨no, -⟩ | ⟨e', same, -⟩⟩
    · cases no
    · cases same
      exact (other e' rfl).elim
  refine ((sentinelTries alone fs).tryCatch (fun last m tried => ?_) fun e => ?_).jobBind
    (sentinelYields alone) fun e m ends => ends
  · rcases tried with ⟨kept, ⟨same, removed⟩ | ⟨e, no, -⟩⟩
    · cases same
      exact ⟨kept, .inl ⟨_, rfl, .removed removed⟩⟩
    · cases no
  · cases e with
    | io e =>
      simp only
      split
      · exact passes e ‹_›
      · exact throws e ‹_›
    | _ => exact strange _ fun e' no => by cases no

theorem sentinelGives (fs : FileSystem) : Ensures rely (Finds fs also) (removeSentinel t).run
    (Gives (SentinelGone t fs) also) fun _ => True := by
  refine (sentinelEnds alone fs).weaken (fun r m ends last same => ?_) fun _ => id
  rcases ends with ⟨kept, ⟨last', same', gone⟩ | ⟨e, no, -⟩⟩
  · cases same'.symm.trans same
    exact ⟨gone, kept⟩
  · cases no.symm.trans same

theorem scourGives (fs : FileSystem) : Ensures rely (Finds fs also) (scour t config).run
    (Gives (Scoured t config fs) also) fun _ => True := by
  have sweeps : Ensures rely (Finds fs also) (sweep t config).run
      (Gives (fun swept left => ∃ logs directories fs₁, swept = logs ++ directories ∧
        t.directory.filesWithExtension config.logExtension fs = .ok logs ∧ logsCleared t logs fs = .ok fs₁ ∧
        Swept t config.intermediateDirs fs₁ directories left) also) fun _ => True := by
    refine givesBind (givesCheck alone (t.directory.filesWithExtension config.logExtension)) fun logs fs₀ found => ?_
    obtain ⟨rfl, listed⟩ := found
    refine givesBind (logsGive alone logs fs₀) fun done fs₁ first => ?_
    refine givesBind (intermediateGives alone _ fs₁) fun directories fs₂ second => ?_
    exact givesDone ⟨logs, directories, fs₁, rfl, listed, first, second⟩
  refine givesBind sweeps fun swept fs₂ holds => ?_
  obtain ⟨logs, directories, fs₁, rfl, listed, first, second⟩ := holds
  exact givesBind (sentinelGives alone fs₂) fun last fs₃ third => givesDone (.of listed first second third)

end

def litter (t : Target) (config : Config) (fs : FileSystem) (e : String × Nat) : Bool :=
  fs.isFile e.2 && (t.directory.file e.1).hasExtension config.logExtension ||
    config.intermediateDirs.contains e.1 && fs.isDirectory e.2

theorem logsListed {logs : List Path} (tidy : fs.Tidy) (found : fs.find t.here t.root = .ok T)
    (listed : t.directory.filesWithExtension config.logExtension fs = .ok logs) :
    ∃ (es : List (String × Nat)) (names : List String),
      fs.content? T.node = some (.directory es) ∧ logs = names.map t.directory.file ∧ names.Nodup ∧
      ∀ name, name ∈ names ↔ ∃ e ∈ es, e.1 = name ∧
        (fs.isFile e.2 && (t.directory.file e.1).hasExtension config.logExtension) = true := by
  obtain ⟨es, at?⟩ := Directory.listedIn found listed
  have logs : logs = (t.directory.namesWith config.logExtension fs es).map t.directory.file :=
    Except.ok.inj (listed.symm.trans (Directory.listedAt found at? _))
  refine ⟨es, _, at?, logs, Directory.namesDistinct (tidy.distinct at?), fun name => ?_⟩
  simp only [Directory.namesMem, Bool.and_eq_true]

theorem logsClearedWithout (tidy : fs.Tidy) (straight : Straight T) (root : t.root = T.path)
    (found : fs.find t.here t.root = .ok T) (at? : fs.content? T.node = some (.directory es)) (names : List String) :
    ∀ {gone : String × Nat → Bool}, (∀ name ∈ names, ∃ e ∈ es, e.1 = name ∧ gone e = false) → names.Nodup →
      logsCleared t (names.map t.directory.file) (fs.without T.node gone) = .ok fs' →
        fs' = fs.without T.node fun e => gone e || names.contains e.1 := by
  induction names with
  | nil =>
    intro gone _ _ clears
    cases clears
    exact withoutCongr at? fun e _ => by simp
  | cons name rest ih =>
    intro gone there distinct clears
    obtain ⟨own, others⟩ := List.forall_mem_cons.mp there
    obtain ⟨e, member, rfl, stays⟩ := own
    obtain ⟨fresh, distinct⟩ := List.nodup_cons.mp distinct
    have found' := foundWithout tidy straight root found at? gone
    have at' := contentLeft at? gone
    have left : e ∈ es.filter fun e => !gone e := List.mem_filter.mpr ⟨member, by simp [stays]⟩
    rw [List.map_cons, logsCleared, logCleared] at clears
    cases removed : (fs.without T.node gone).removeFile t.here (t.directory.file e.1) with
    | error error =>
      have other := entryThere (tidyWithout tidy at?) found' at' left removed
      simp [removed, other] at clears
    | ok fs₁ =>
      have isName := tidy.named at? e member
      have gives := removeFileLeaves found' isName removed
      rw [withoutTwice] at gives
      simp only [removed, gives] at clears
      refine (ih (fun name later => ?_) distinct clears).trans (withoutCongr at? fun e' _ => ?_)
      · obtain ⟨e', member', rfl, stays'⟩ := others name later
        refine ⟨e', member', rfl, ?_⟩
        have other : e'.1 ≠ e.1 := fun same => fresh (same ▸ later)
        simp [stays', other]
      · simp only [List.contains_cons, Bool.or_assoc]

theorem Swept.without (tidy : fs.Tidy) (found : fs.find t.here t.root = .ok T)
    (at? : fs.content? T.node = some (.directory es)) {names : List String} {fs₁ : FileSystem} {paths : List Path}
    (swept : Swept t names fs₁ paths fs') : ∀ gone : String × Nat → Bool, fs₁ = fs.without T.node gone →
      fs' = fs.without T.node (fun e => gone e || names.contains e.1 && fs.isDirectory e.2) ∧
        ∃ trees : List String, paths = trees.map t.directory.file ∧ trees.Nodup ∧ ∀ name, name ∈ trees ↔
          ∃ e ∈ es, e.1 = name ∧ gone e = false ∧ (names.contains e.1 && fs.isDirectory e.2) = true := by
  induction swept with
  | none =>
    rintro gone rfl
    exact ⟨withoutCongr at? fun e _ => by simp, [], rfl, .nil, by simp⟩
  | @more name rest fs₁ fs₂ fs' foundPaths others listed trees onward ih =>
    rintro gone rfl
    have at' := contentLeft at? gone
    have parent := onlyFound tidy found at? gone
    have removed := treesClearedWithout (tidyWithout tidy at?) parent at' listed trees
    obtain ⟨-, same⟩ := treesListed parent at' listed
    simp only [withoutTwice, isDirectoryWithout at?] at removed same
    obtain ⟨left, later, same', distinct, isLater⟩ := ih _ removed
    let first := ((es.filter fun e => !gone e).filter fun e => fs.isDirectory e.2 && e.1 == name).map Prod.fst
    have isFirst (x : String) : x ∈ first ↔
        ∃ e ∈ es, e.1 = x ∧ gone e = false ∧ fs.isDirectory e.2 = true ∧ e.1 = name := by
      simp only [first, List.mem_map, List.mem_filter, Bool.and_eq_true, Bool.not_eq_true', beq_iff_eq]
      constructor
      · rintro ⟨e, ⟨⟨member, stays⟩, directory, named⟩, rfl⟩
        exact ⟨e, member, rfl, stays, directory, named⟩
      · rintro ⟨e, member, rfl, stays, directory, named⟩
        exact ⟨e, ⟨⟨member, stays⟩, directory, named⟩, rfl⟩
    refine ⟨left.trans (withoutCongr at? fun e _ => ?_), first ++ later, ?_, ?_, fun x => ?_⟩
    · simp only [List.contains_cons]
      cases gone e <;> cases fs.isDirectory e.2 <;> simp
    · rw [same, same', List.map_append]
    · have once : first.Nodup :=
        (tidy.distinct at?).sublist ((List.filter_sublist.trans List.filter_sublist).map _)
      refine List.nodup_append.mpr ⟨once, distinct, ?_⟩
      rintro x inFirst _ inLater rfl
      obtain ⟨e, -, rfl, -, -, named⟩ := (isFirst x).mp inFirst
      obtain ⟨e', -, named', stays, within⟩ := (isLater _).mp inLater
      simp [named'.trans named] at stays within
      simp [stays] at within
    · simp only [List.mem_append, isFirst, isLater, List.contains_cons]
      constructor
      · rintro (⟨e, member, rfl, stays, directory, named⟩ | ⟨e, member, rfl, stays, within⟩)
        · exact ⟨e, member, rfl, stays, by simp [named, directory]⟩
        · rw [Bool.or_eq_false_iff] at stays
          rw [Bool.and_eq_true] at within
          exact ⟨e, member, rfl, stays.1, by rw [within.1, within.2]; simp⟩
      · rintro ⟨e, member, rfl, stays, within⟩
        by_cases named : e.1 = name
        · refine .inl ⟨e, member, rfl, stays, ?_, named⟩
          exact (Bool.and_eq_true_iff.mp within).2
        · refine .inr ⟨e, member, rfl, ?_, ?_⟩
          · simp [stays, named]
          · simpa [named] using within

theorem Scoured.exact {report : List Path} (tidy : fs.Tidy) (straight : Straight T) (root : t.root = T.path)
    (found : fs.find t.here t.root = .ok T) (scoured : Scoured t config fs report fs') :
    ∃ (es : List (String × Nat)) (names : List String) (last : List Path),
      fs.content? T.node = some (.directory es) ∧ report = names.map t.directory.file ++ last ∧ names.Nodup ∧
      (∀ name, name ∈ names ↔ ∃ e ∈ es, e.1 = name ∧ litter t config fs e = true) ∧
      SentinelGone t (fs.without T.node (litter t config fs)) last fs' := by
  cases scoured with
  | @of logs directories last fs₁ fs₂ _ listed first second third =>
    obtain ⟨es, names, at?, rfl, distinct, isLog⟩ := logsListed tidy found listed
    let log (e : String × Nat) := fs.isFile e.2 && (t.directory.file e.1).hasExtension config.logExtension
    have whole : fs = fs.without T.node fun _ => false := (withoutNone at? fun _ _ => rfl).symm
    have cleared : fs₁ = fs.without T.node log := by
      rw [whole] at first
      have there : ∀ name ∈ names, ∃ e ∈ es, e.1 = name ∧ (fun _ : String × Nat => false) e = false := by
        intro name member
        obtain ⟨e, isEntry, same, -⟩ := (isLog name).mp member
        exact ⟨e, isEntry, same, rfl⟩
      refine (logsClearedWithout tidy straight root found at? names there distinct first).trans ?_
      refine withoutCongr at? fun e member => ?_
      rw [Bool.false_or, Bool.eq_iff_iff, List.contains_iff_mem, isLog]
      constructor
      · rintro ⟨e', member', same, isLog'⟩
        exact sameEntry (tidy.distinct at?) member' member same.symm ▸ isLog'
      · exact fun isLog' => ⟨e, member, rfl, isLog'⟩
    obtain ⟨swept, trees, rfl, distinct', isTree⟩ := second.without tidy found at? log cleared
    have noLog {e : String × Nat} (within : (config.intermediateDirs.contains e.1 && fs.isDirectory e.2) = true) :
        log e = false := by
      obtain ⟨es', directory⟩ := isDirectoryIff.mp (Bool.and_eq_true_iff.mp within).2
      simp [log, isFile, directory]
    refine ⟨es, names ++ trees, last, at?, by rw [List.map_append], ?_, fun name => ?_, swept ▸ third⟩
    · refine List.nodup_append.mpr ⟨distinct, distinct', ?_⟩
      rintro name inLogs _ inTrees rfl
      obtain ⟨e, member, rfl, isLog'⟩ := (isLog name).mp inLogs
      obtain ⟨e', member', same, stays, -⟩ := (isTree _).mp inTrees
      rw [sameEntry (tidy.distinct at?) member member' same] at stays
      cases stays.symm.trans isLog'
    · simp only [List.mem_append, isLog, isTree]
      constructor
      · rintro (⟨e, member, rfl, isLog'⟩ | ⟨e, member, rfl, -, within⟩)
        · exact ⟨e, member, rfl, Bool.or_eq_true_iff.mpr (.inl isLog')⟩
        · exact ⟨e, member, rfl, Bool.or_eq_true_iff.mpr (.inr within)⟩
      · rintro ⟨e, member, rfl, isLitter⟩
        rcases Bool.or_eq_true_iff.mp isLitter with isLog' | within
        · exact .inl ⟨e, member, rfl, isLog'⟩
        · exact .inr ⟨e, member, rfl, noLog within, within⟩

theorem pathsOnce {names : List String} (above : ∀ piece ∈ T.map Prod.fst, IsName piece) (root : t.root = T.path)
    (areNames : ∀ name ∈ names, IsName name) (distinct : names.Nodup) :
    (names.map t.directory.file).Pairwise fun p q => p.same q = false := by
  have file (name : String) : t.directory.file name = T.path.join name := congrArg (Path.join · name) root
  refine List.pairwise_map.mpr (distinct.imp_of_mem fun {a b} inside inside' differ => ?_)
  rw [file, file, Path.same, childComponents above (areNames a inside), childComponents above (areNames b inside')]
  simpa using differ

theorem Scoured.once {report : List Path} (tidy : fs.Tidy) (straight : Straight T) (root : t.root = T.path)
    (found : fs.find t.here t.root = .ok T) (scoured : Scoured t config fs report fs') :
    report.Pairwise fun p q => p.same q = false := by
  obtain ⟨es, names, last, at?, rfl, distinct, isLitter, gone⟩ := scoured.exact tidy straight root found
  have chain := findChain found
  have areNames : ∀ name ∈ names, IsName name := by
    intro name member
    obtain ⟨e, isEntry, rfl, -⟩ := (isLitter name).mp member
    exact tidy.named at? e isEntry
  have once := pathsOnce (chain.named tidy) root areNames distinct
  cases gone with
  | missing => rwa [List.append_nil]
  | removed removes =>
    refine List.pairwise_append.mpr ⟨once, List.pairwise_singleton .., ?_⟩
    intro p member q isLast
    obtain ⟨name, inside, rfl⟩ := List.mem_map.mp member
    obtain ⟨e, isEntry, rfl, litters⟩ := (isLitter name).mp inside
    have at' := contentLeft at? (litter t config fs)
    have lost : (es.filter fun e => !litter t config fs e).lookup e.1 = none := by
      cases there : (es.filter fun e => !litter t config fs e).lookup e.1 with
      | none => rfl
      | some k =>
        obtain ⟨member', stays⟩ := List.mem_filter.mp (lookupMem there)
        rw [sameEntry (tidy.distinct at?) isEntry member' rfl, litters] at stays
        cases stays
    have file : t.directory.file e.1 = T.path.join e.1 := congrArg (Path.join · e.1) root
    rw [List.mem_singleton.mp isLast, file, Path.sameComm]
    exact removedElsewhere (tidyWithout tidy at?) (chain.without straight at? (List.suffix_refl T)) at'
      (areNames e.1 inside) lost removes

theorem SentinelGone.topLevel {name : String} {last : List Path} (tidy : fs.Tidy)
    (found : fs.find t.here t.root = .ok T) (at? : fs.content? T.node = some (.directory es))
    (isName : IsName name) (sentinel : t.sentinel = t.directory.file name) (gone : SentinelGone t fs last fs') :
    fs' = fs.without T.node (fun e => e.1 == name) ∧
      (last = [t.sentinel] ∧ (∃ e ∈ es, e.1 = name) ∨ last = [] ∧ ∀ e ∈ es, e.1 ≠ name) := by
  cases gone with
  | removed removes =>
    rw [sentinel] at removes
    refine ⟨removeFileLeaves found isName removes, .inl ⟨rfl, ?_⟩⟩
    obtain ⟨-, name', n, D, located, -⟩ := removedEntry removes
    obtain ⟨k, last⟩ := locateChild found isName located
    rcases entryKept isName last with ⟨n', same⟩ | no
    · cases same
      have chain := (locateWalks located).2.chain .root
      cases chain with
      | entry above directory named =>
        cases at?.symm.trans directory
        exact ⟨_, lookupMem named, rfl⟩
    · cases no
  | missing fails notFound =>
    rw [sentinel] at fails
    have none : ∀ e ∈ es, e.1 ≠ name := by
      rintro e member rfl
      exact entryThere tidy found at? member fails notFound
    exact ⟨(withoutNone at? fun e member => by simpa using none e member).symm, .inr ⟨rfl, none⟩⟩

end BuildReuse.Cache
