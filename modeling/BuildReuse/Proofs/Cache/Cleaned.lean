import BuildReuse.Proofs.Cache.Bare

/-! A clean takes away the build state and nothing else, and tells what it took. Afterwards, as long as
the lock file is not among what was taken, there is nothing to report and nothing more to clean. -/
namespace BuildReuse.Cache

open FileSystem
open BuildReuse.Task (Ends Ensures Finishes Patient)

variable {t : Target} {config : Config} {place : Path} {fs fs' : FileSystem} {T : Trail}
  {es : List (String × Nat)} {m m' : Machine}

def buildState (t : Target) (config : Config) (fs : FileSystem) (e : String × Nat) : Bool :=
  litter t config fs e || e.1 == config.sentinelFileName

structure Cleans (t : Target) (config : Config) (T : Trail) (looked : FileSystem) (es : List (String × Nat))
    (last report : List Path) (left : FileSystem) : Prop where
  listed : looked.content? T.node = some (.directory es)
  gone : SentinelGone t (looked.without T.node (litter t config looked)) last left
  told : ∀ path, path ∈ report ↔
    (∃ e ∈ es, litter t config looked e = true ∧ path = t.directory.file e.1) ∨ path ∈ last
  once : report.Pairwise fun p q => p.same q = false
  topLevel : IsName config.sentinelFileName →
    left = looked.without T.node (buildState t config looked) ∧
      ∀ path, path ∈ report ↔ ∃ e ∈ es, buildState t config looked e = true ∧ path = t.directory.file e.1

theorem Scoured.cleans {looked left : FileSystem} {report : List Path} (seated : t.Seated T config) (tidy : looked.Tidy)
    (straight : Straight T) (found : looked.find t.here t.root = .ok T)
    (scoured : Scoured t config looked report left) : ∃ es last, Cleans t config T looked es last report left := by
  obtain ⟨es, names, last, at?, whole, -, isLitter, gone⟩ := scoured.exact tidy straight seated.root found
  have told (path : Path) : path ∈ report ↔
      (∃ e ∈ es, litter t config looked e = true ∧ path = t.directory.file e.1) ∨ path ∈ last := by
    rw [whole, List.mem_append, List.mem_map]
    refine or_congr ⟨?_, ?_⟩ Iff.rfl
    · rintro ⟨name, inside, rfl⟩
      obtain ⟨e, member, rfl, litters⟩ := (isLitter name).mp inside
      exact ⟨e, member, litters, rfl⟩
    · rintro ⟨e, member, litters, rfl⟩
      exact ⟨e.1, (isLitter e.1).mpr ⟨e, member, rfl, litters⟩, rfl⟩
  refine ⟨es, last, at?, gone, told, scoured.once tidy straight seated.root found, fun isName => ?_⟩
  have found' := foundWithout tidy straight seated.root found at? (litter t config looked)
  obtain ⟨rest, sentinel⟩ := gone.topLevel (tidyWithout tidy at?) found' (contentLeft at? _) isName seated.sentinel
  refine ⟨rest.trans (withoutTwice ..), fun path => (told path).trans ?_⟩
  simp only [buildState, Bool.or_eq_true, beq_iff_eq]
  rcases sentinel with ⟨same, e', member', named⟩ | ⟨none, others⟩
  · rw [same, List.mem_singleton, seated.sentinel]
    constructor
    · rintro (⟨e, member, litters, rfl⟩ | rfl)
      · exact ⟨e, member, .inl litters, rfl⟩
      · exact ⟨e', (List.mem_filter.mp member').1, .inr named, by rw [named]⟩
    · rintro ⟨e, member, litters | named, rfl⟩
      · exact .inl ⟨e, member, litters, rfl⟩
      · exact .inr (by rw [named])
  · rw [none]
    constructor
    · rintro (⟨e, member, litters, rfl⟩ | no)
      · exact ⟨e, member, .inl litters, rfl⟩
      · cases no
    · rintro ⟨e, member, litters | named, rfl⟩
      · exact .inl ⟨e, member, litters, rfl⟩
      · cases litters : litter t config looked e with
        | true => exact .inl ⟨e, member, litters, rfl⟩
        | false => exact (others e (List.mem_filter.mpr ⟨member, by simp [litters]⟩) named).elim

def StaysBare (t : Target) (config : Config) (T : Trail) (place : Path) (fs : FileSystem) : Prop :=
  ∀ ⦃looked⦄, Touched place fs looked → Bare t config T looked

theorem staysBareOf {n : Nat} (bare : Bare t config T fs) (leads : fs.leads place = some n) :
    StaysBare t config T place fs := by
  intro looked touched
  exact bare.outline (Touched.same.sameOutline leads touched (leadsGrown touched.grown leads)).2

theorem bareRuns (command : String) {α : Type} {body : MachineJob PackageError α} {value : α}
    (bare : StaysBare t config T (t.directory.lockPlace T) m.files) (sound : m.locks.Sound)
    (does : ∀ fs, Bare t config T fs →
      Idle (Lock.Aside (t.directory.lockPlace T)) (fun m => m.locks.Sound) fs body value)
    (finishes : Finishes (Lock.Aside (t.directory.lockPlace T)) body.run) :
    (∀ r m', Ends (Lock.Aside (t.directory.lockPlace T)) m (t.directory.withLock command body).run (some r) m' →
      (r = .ok value ∨ ∃ e, r = .error (.lock e)) ∧ Touched (t.directory.lockPlace T) m.files m'.files) ∧
    ∀ m₁, t.directory.Locks (Lock.Aside (t.directory.lockPlace T)) command m m₁ → ∃ m',
      Ends (Lock.Aside (t.directory.lockPlace T)) m (t.directory.withLock command body).run (some (.ok value)) m' := by
  have found : m.files.find t.here t.root = .ok T := (bare .same).found
  have leads : t.directory.LocksAt (t.directory.lockPlace T) m := Directory.locksAt found
  constructor
  · intro r m' ends
    rcases Directory.withLockAside leads sound ends with
      ⟨looked, left, -, touches, sound', -, works, files, -⟩ | ⟨touches, -, no | ⟨e, same⟩⟩
    · have done := does looked.files (bare touches.touched) ⟨rfl, sound'⟩ works
      exact ⟨.inl done.1, by rw [files, done.2.1]; exact touches.touched⟩
    · cases no
    · cases same
      exact ⟨.inr ⟨e, rfl⟩, touches.touched⟩
  · intro m₁ locks
    obtain ⟨r, left, works⟩ := finishes m₁
    obtain ⟨guard, takes⟩ := locks
    have kept := Lock.acquireKeeps leads sound (takes.mono fun _ _ => Lock.Aside.beside)
    have done := does m₁.files (bare kept.1.touched) ⟨rfl, kept.2.1⟩ works
    obtain ⟨rfl, -⟩ := done
    exact Directory.withLockOf Lock.Aside.refl ⟨guard, takes⟩ works

structure Emptied (t : Target) (config : Config) (place : Path) (m : Machine) : Prop where
  reports : ∀ s m', Ends (Lock.Aside place) m (inspect t config).run (some s) m' →
    (s = .ok ⟨t.name, none, .noBuildLog, none⟩ ∨ ∃ e, s = .error (.lock e)) ∧ Touched place m.files m'.files
  reported : ∀ m₁, t.directory.Locks (Lock.Aside place) "status" m m₁ → ∃ m',
    Ends (Lock.Aside place) m (inspect t config).run (some (.ok ⟨t.name, none, .noBuildLog, none⟩)) m'
  cleans : ∀ r m', Ends (Lock.Aside place) m (clean t config).run (some r) m' →
    (r = .ok [] ∨ ∃ e, r = .error (.lock e)) ∧ Touched place m.files m'.files
  cleaned : ∀ m₁, t.directory.Locks (Lock.Aside place) "clean" m m₁ → ∃ m',
    Ends (Lock.Aside place) m (clean t config).run (some (.ok [])) m'

theorem emptied (bare : StaysBare t config T (t.directory.lockPlace T) m.files) (sound : m.locks.Sound) :
    Emptied t config (t.directory.lockPlace T) m := by
  have alone := asideUndisturbed (t.directory.lockPlace T)
  have patient := Lock.asidePatient (t.directory.lockPlace T)
  obtain ⟨reports, reported⟩ := bareRuns "status" bare sound
    (fun fs bare => surveyBare alone bare) (surveyFinishes patient t config)
  obtain ⟨cleans, cleaned⟩ := bareRuns "clean" bare sound
    (fun fs bare => scourBare alone bare) (scourFinishes patient t config)
  rw [← cleanUnderLock] at cleans cleaned
  exact ⟨reports, reported, cleans, cleaned⟩

def LockKept (t : Target) (config : Config) (T : Trail) (fs : FileSystem) : Prop :=
  ∀ ⦃looked n⦄, Touched (t.directory.lockPlace T) fs looked → looked.leads (t.directory.lockPlace T) = some n →
    ∀ ⦃last left⦄, SentinelGone t (looked.without T.node (litter t config looked)) last left →
      left.leads (t.directory.lockPlace T) = some n

def NoLink (T : Trail) (name : String) (fs : FileSystem) : Prop :=
  ∀ ⦃es n⦄, fs.content? T.node = some (.directory es) → es.lookup name = some n →
    ∀ target, fs.content? n ≠ some (.link target)

theorem NoLink.touched {name : String} {looked : FileSystem} (noLink : NoLink T name fs)
    (touched : Touched place fs looked) : NoLink T name looked := by
  intro es n at? named target link
  have old := (touched.grown.links n target).mp link
  cases touched with
  | same => exact noLink at? named target old
  | @written k leads bytes now =>
    rcases outlineCases (outlineWriteNode fs k bytes now) T.node with same | ⟨bytes, bytes', -, file⟩
    · exact noLink (same.symm.trans at?) named target old
    · cases at?.symm.trans file
  | made absent bytes now =>
    obtain ⟨es', at', missing⟩ := walkAbsent _ _ _ absent
    obtain ⟨before, directory, names⟩ := lookupMade at' missing at?
    exact noLink directory (names named (Nat.ne_of_lt (contentInside old))) target old

theorem NoLink.leads {here : Path} {name : String} {node : Nat} (noLink : NoLink T name fs) (isName : IsName name)
    (found : fs.find here T.path = .ok T) (leads : fs.leads (here.join (T.path.join name).text) = some node) :
    ∃ es, fs.content? T.node = some (.directory es) ∧ es.lookup name = some node ∧
      name.utf8ByteSize ≤ nameLimit := by
  obtain ⟨filled, way⟩ := findPieces found
  unfold FileSystem.leads at leads
  split at leads
  · rename_i A walked
    have walks := walksOf _ _ _ walked
    rw [stepsOfChild filled isName] at walks
    obtain ⟨k, T', first, last⟩ := walks.split (List.cons_ne_nil name []) _ rfl
    cases way.same first
    cases leads
    have short := nameShort isName last
    cases last with
    | dot directory onward => exact (isName.notHere rfl).elim
    | up directory onward => exact (isName.notUp rfl).elim
    | kept directory inner named link keep => cases keep
    | follow directory inner named link passes onward => exact (noLink directory named _ link).elim
    | enter directory inner named isNoLink onward =>
      cases onward
      exact ⟨_, directory, named, short⟩
  · cases leads

theorem leadsEntry {here : Path} {name : String} {node : Nat} (isName : IsName name)
    (found : fs.find here T.path = .ok T) (at? : fs.content? T.node = some (.directory es))
    (named : es.lookup name = some node) (short : name.utf8ByteSize ≤ nameLimit)
    (noLink : ∀ target, fs.content? node ≠ some (.link target)) :
    fs.leads (here.join (T.path.join name).text) = some node := by
  obtain ⟨filled, way⟩ := findPieces found
  have last (k : Nat) : Walks fs false k T [name] (.present ((name, node) :: T)) :=
    entryWalks (e := (name, node)) at? isName short named k (.inr noLink)
  have whole := way.append (List.cons_ne_nil name []) last rfl
  rw [← stepsOfChild filled isName] at whole
  exact leadsOf whole.walk

structure PlainLock (t : Target) (config : Config) (T : Trail) (fs : FileSystem) : Prop where
  isName : IsName t.directory.lockFileName
  noLink : NoLink T t.directory.lockFileName fs
  noLog : (t.directory.file t.directory.lockFileName).hasExtension config.logExtension = false
  noTree : t.directory.lockFileName ∉ config.intermediateDirs
  isSentinel : IsName config.sentinelFileName
  noSentinel : config.sentinelFileName ≠ t.directory.lockFileName

theorem PlainLock.spared {looked : FileSystem} {n : Nat} (plain : PlainLock t config T fs) :
    buildState t config looked (t.directory.lockFileName, n) = false := by
  have noTree : config.intermediateDirs.contains t.directory.lockFileName = false := by
    simpa using plain.noTree
  have noSentinel : (t.directory.lockFileName == config.sentinelFileName) = false :=
    beq_eq_false_iff_ne.mpr (Ne.symm plain.noSentinel)
  simp only [buildState, litter, plain.noLog, noTree, noSentinel, Bool.and_false, Bool.false_and, Bool.or_false]

theorem PlainLock.kept (plain : PlainLock t config T fs) (seated : t.Seated T config) (tidy : fs.Tidy)
    (straight : Straight T) (found : fs.find t.here t.root = .ok T) : LockKept t config T fs := by
  intro looked n touched leads last left gone
  have tidy' := touched.tidy tidy
  have noLink := plain.noLink.touched touched
  have found' := findGrown touched.grown found
  rw [seated.root] at found'
  obtain ⟨es, at?, named, short⟩ := noLink.leads plain.isName found' leads
  have found₁ : (looked.without T.node (litter t config looked)).find t.here t.root = .ok T :=
    foundWithout tidy' straight seated.root (findGrown touched.grown found) at? _
  obtain ⟨rest, -⟩ := gone.topLevel (tidyWithout tidy' at?) found₁ (contentLeft at? _) plain.isSentinel seated.sentinel
  have rest : left = looked.without T.node (buildState t config looked) := rest.trans (withoutTwice ..)
  have at₂ : left.content? T.node = some (.directory (es.filter fun e => !buildState t config looked e)) :=
    rest ▸ contentLeft at? _
  have member : (t.directory.lockFileName, n) ∈ es.filter fun e => !buildState t config looked e :=
    List.mem_filter.mpr ⟨lookupMem named, by simp [plain.spared]⟩
  have tidy₂ : left.Tidy := rest ▸ tidyWithout tidy' at?
  have found₂ : left.find t.here T.path = .ok T := rest ▸ findWithout tidy' straight found' at?
  have grown : left.Grown looked := rest ▸ grownWithout tidy' at?
  exact leadsEntry plain.isName found₂ at₂ (lookupOfMem (tidy₂.distinct at₂) member) short fun target =>
    mt (grown.links n target).mpr (noLink at? named target)

/-- What a clean that succeeds does and tells, as long as nobody else changes the files. -/
theorem cleanExact {report : List Path} (seated : t.Seated T config) (tidy : m.files.Tidy) (sound : m.locks.Sound)
    (straight : Straight T) (found : m.files.find t.here t.root = .ok T)
    (ends : Ends (Lock.Aside (t.directory.lockPlace T)) m (clean t config).run (some (.ok report)) m') :
    (∃ looked es last, Touched (t.directory.lockPlace T) m.files looked ∧
      Cleans t config T looked es last report m'.files) ∧
    m'.locks.Sound ∧
    (PlainLock t config T m.files → LockKept t config T m.files) ∧
    (LockKept t config T m.files → ∀ m₀ : Machine, Touched (t.directory.lockPlace T) m'.files m₀.files →
      m₀.locks.Sound → Emptied t config (t.directory.lockPlace T) m₀) := by
  rw [cleanUnderLock] at ends
  rcases Directory.withLockAside (Directory.locksAt found) sound ends with
    ⟨looked, left, node, touches, sound', leads, works, files, freed⟩ | ⟨-, -, no | ⟨e, no⟩⟩
  · have given := scourGives (asideUndisturbed (t.directory.lockPlace T)) looked.files ⟨rfl, sound'⟩ works
    obtain ⟨scoured, kept⟩ := given report rfl
    rw [← files] at scoured
    have touched := touches.touched
    have tidy' := touched.tidy tidy
    have found' := findGrown touched.grown found
    obtain ⟨es, last, cleans⟩ := scoured.cleans seated tidy' straight found'
    refine ⟨⟨looked.files, es, last, touched, cleans⟩, freed kept, fun plain => plain.kept seated tidy straight found,
      fun stands m₀ later sound₀ => emptied ?_ sound₀⟩
    have bare := scoured.bare tidy' straight seated.root found'
    have stays := staysBareOf bare (stands touched leads cleans.gone)
    exact fun _ touched' => stays (later.trans touched')
  · cases no
  · cases no

open Build (app emptyLog)

def cluttered : Machine := quiet #[
  ⟨.directory [("app.kproj", 1), ("a.buildlog", 2), ("b.buildlog", 3), ("obj", 4), ("old", 5), ("src", 6),
    (".kiln-builderror", 7)], 0o755, 0⟩,
  ⟨.file [], 0o644, 0⟩, ⟨.file emptyLog, 0o644, 1⟩, ⟨.link "a.buildlog", 0o777, 0⟩,
  ⟨.directory [("m.o", 1)], 0o755, 0⟩, ⟨.link "obj", 0o777, 0⟩, ⟨.directory [("n.buildlog", 2)], 0o755, 0⟩,
  ⟨.file [], 0o644, 0⟩]

def cleanTurns (t : Target) (config : Config) (m : Machine) :
    Machine × Task Machine (Except PackageError (List Path)) :=
  let first := (clean t config).run.poll m
  let second := first.2.poll first.1
  second.2.poll second.1

theorem cleanTurnsEnd {t : Target} {config : Config} {m : Machine} {r : Except PackageError (List Path)}
    (ended : (cleanTurns t config m).2.value? = some r) :
    Ends (Lock.Aside place) m (clean t config).run (some r) (cleanTurns t config m).1 :=
  .ofPoll Lock.Aside.refl (.ofPoll Lock.Aside.refl (.ofValue Lock.Aside.refl ended))

theorem clutterCleaned : ∃ m',
    Ends (Lock.Aside ⟨"/.kiln-lock"⟩) cluttered (clean app .default).run
      (some (.ok [⟨"/a.buildlog"⟩, ⟨"/obj"⟩, ⟨"/.kiln-builderror"⟩])) m' ∧
    m'.files.listing ⟨"/"⟩ ⟨"/"⟩ = [".kiln-lock", "app.kproj", "b.buildlog@", "old@", "src/", "src/n.buildlog"] ∧
    (∃ looked es last, Touched ⟨"/.kiln-lock"⟩ cluttered.files looked ∧
      Cleans app .default [] looked es last [⟨"/a.buildlog"⟩, ⟨"/obj"⟩, ⟨"/.kiln-builderror"⟩] m'.files) ∧
    Emptied app .default ⟨"/.kiln-lock"⟩ m' := by
  have ended : (cleanTurns app .default cluttered).2.value? =
      some (.ok [⟨"/a.buildlog"⟩, ⟨"/obj"⟩, ⟨"/.kiln-builderror"⟩]) := by decide +kernel
  have place : app.directory.lockPlace [] = ⟨"/.kiln-lock"⟩ := by decide +kernel
  have seated : app.Seated [] .default := ⟨by decide +kernel, by decide +kernel⟩
  have tidy : cluttered.files.Tidy := tidyOf (by decide +kernel)
  have straight : Straight [] := fun A suffix differ => (differ (List.suffix_nil.mp suffix)).elim
  have found : cluttered.files.find app.here app.root = .ok [] := by decide +kernel
  have missing : (cluttered.files.entries (Trail.node [])).lookup app.directory.lockFileName = none := by decide +kernel
  have noLink : NoLink [] app.directory.lockFileName cluttered.files := by
    intro es n at? named
    rw [entriesAt at?] at missing
    cases missing.symm.trans named
  have plain : PlainLock app .default [] cluttered.files :=
    ⟨by decide +kernel, noLink, by decide +kernel, by decide +kernel, by decide +kernel, by decide +kernel⟩
  obtain ⟨cleans, sound, kept, emptied⟩ :=
    cleanExact seated tidy LockTable.Sound.empty straight found (cleanTurnsEnd ended)
  rw [place] at cleans emptied
  exact ⟨_, cleanTurnsEnd ended, by decide +kernel, cleans, emptied (kept plain) _ .same sound⟩

def detour : Target := { app with sentinel := ⟨"/obj/../x"⟩ }

def detouring : Config := { Config.default with sentinelFileName := "obj/../x" }

def detoured : Machine := quiet #[
  ⟨.directory [("app.kproj", 1), ("obj", 2), ("x", 3)], 0o755, 0⟩, ⟨.file [], 0o644, 0⟩,
  ⟨.directory [], 0o755, 0⟩, ⟨.file [], 0o644, 0⟩]

theorem cleanIncomplete :
    ((app.directory.file Config.default.lockFileName).hasExtension Config.default.logExtension = false ∧
      app.directory.file Config.default.lockFileName ≠ app.sentinel ∧
      app.directory.file Config.default.lockFileName ≠ app.projectFile ∧
      ∃ m₁ m₂ m₃,
        Ends (Lock.Aside ⟨"/.kiln-lock"⟩) linked (clean app .default).run (some (.ok [⟨"/c.buildlog"⟩])) m₁ ∧
        Ends (Lock.Aside ⟨"/.kiln-lock"⟩) m₁ (inspect app .default).run
          (some (.ok ⟨"app.kproj", some ⟨"/c.buildlog"⟩, .noMatchingProject, none⟩)) m₂ ∧
        Ends (Lock.Aside ⟨"/.kiln-lock"⟩) m₂ (clean app .default).run (some (.ok [⟨"/c.buildlog"⟩])) m₃) ∧
    detour.Seated [] detouring ∧ detoured.files.present detour.here detour.sentinel = true ∧
      ∃ m₁, Ends (Lock.Aside ⟨"/.kiln-lock"⟩) detoured (clean detour detouring).run (some (.ok [⟨"/obj"⟩])) m₁ ∧
        m₁.files.listing ⟨"/"⟩ ⟨"/"⟩ = [".kiln-lock", "app.kproj", "x"] := by
  let m₁ := (cleanTurns app .default linked).1
  let m₂ := (reportTurn m₁).1
  have first : (cleanTurns app .default linked).2.value? = some (.ok [⟨"/c.buildlog"⟩]) := by decide +kernel
  have reported : (reportTurn m₁).2.value? =
      some (.ok ⟨"app.kproj", some ⟨"/c.buildlog"⟩, .noMatchingProject, none⟩) := by decide +kernel
  have second : (cleanTurns app .default m₂).2.value? = some (.ok [⟨"/c.buildlog"⟩]) := by decide +kernel
  have around : (cleanTurns detour detouring detoured).2.value? = some (.ok [⟨"/obj"⟩]) ∧
      (cleanTurns detour detouring detoured).1.files.listing ⟨"/"⟩ ⟨"/"⟩ = [".kiln-lock", "app.kproj", "x"] := by
    decide +kernel
  refine ⟨⟨by decide +kernel, by decide +kernel, by decide +kernel, m₁, m₂, _, cleanTurnsEnd first,
    .ofValue Lock.Aside.refl reported, cleanTurnsEnd second⟩, ⟨by decide +kernel, by decide +kernel⟩,
    by decide +kernel, _, cleanTurnsEnd around.1, around.2⟩

end BuildReuse.Cache
