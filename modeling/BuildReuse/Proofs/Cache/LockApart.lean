import BuildReuse.Proofs.Cache.Discards
import BuildReuse.Proofs.FileSystem.Made

/-! A lock file that is neither a log nor the project file. Whatever is done to it, the
files have one answer for the target. -/
namespace BuildReuse.Cache

open FileSystem

variable {t : Target} {config : Config} {place : Path} {fs fs' : FileSystem} {T : Trail}

def LogsApart (t : Target) (config : Config) (place : Path) (fs : FileSystem) : Prop :=
  ∀ ⦃fs' n⦄, Touched place fs fs' → fs'.leads place = some n → Apart t config n fs'

structure LockApart (t : Target) (config : Config) (place : Path) (fs : FileSystem) : Prop where
  logs : LogsApart t config place fs
  project : ∀ ⦃fs' n trail⦄, Touched place fs fs' → fs'.leads place = some n →
    fs'.find t.here t.projectFile = .ok trail → trail.node ≠ n

section

variable {n : Nat} {logs : List Path} (touched : Touched place fs fs') (leads : fs'.leads place = some n)
  (listed : t.directory.filesWithExtension config.logExtension fs' = .ok logs)
include touched leads listed

theorem logsApartOf (others : ∀ log ∈ logs, (fs'.find t.here log).toOption.map Trail.node ≠ some n) :
    LogsApart t config place fs := by
  intro fs'' k touched' leads'
  obtain ⟨rfl, same⟩ := touched.sameOutline leads touched' leads'
  exact (apartOf listed others).outline same

theorem lockApartOf (others : ∀ path ∈ t.projectFile :: logs,
    (fs'.find t.here path).toOption.map Trail.node ≠ some n) : LockApart t config place fs := by
  constructor
  case logs => exact logsApartOf touched leads listed fun log isLog => others log (List.mem_cons_of_mem _ isLog)
  case project =>
    intro fs'' k trail touched' leads' found isLock
    obtain ⟨rfl, same⟩ := touched.sameOutline leads touched' leads'
    rw [findOutline same] at found
    exact others t.projectFile List.mem_cons_self (by rw [found, Except.toOption, Option.map_some, isLock])

end

def logNamed? (t : Target) (config : Config) (fs : FileSystem) (name : String) : Option BuildLog.Artifact :=
  if (t.directory.file name).hasExtension config.logExtension then
    BuildLog.artifact? fs t.here (t.directory.file name)
  else none

theorem latestNamed (t : Target) (config : Config) (fs : FileSystem) :
    BuildLog.latest t.directory config.logExtension fs =
      match fs.regularFiles t.here t.root with
      | .error e => .error (.scan t.root e)
      | .ok names => .ok (BuildLog.newest (names.filterMap (logNamed? t config fs))) := by
  have listing : t.directory.files fs =
      (fs.regularFiles t.here t.root).map fun names => names.map t.directory.file := rfl
  unfold BuildLog.latest Directory.filesWithExtension
  rw [listing]
  cases fs.regularFiles t.here t.root with
  | error e => rfl
  | ok names =>
    simp only [Except.map, List.filterMap_filter, List.filterMap_map]
    rfl

theorem namedListed {names : List String} {name : String} (listing : fs.regularFiles t.here t.root = .ok names)
    (member : name ∈ names) (extension : (t.directory.file name).hasExtension config.logExtension = true) :
    ∃ logs, t.directory.filesWithExtension config.logExtension fs = .ok logs ∧
      t.directory.file name ∈ logs := by
  refine ⟨(names.map t.directory.file).filter (Path.hasExtension config.logExtension), ?_, ?_⟩
  · have listing : fs.regularFiles t.directory.caller.here t.directory.root = .ok names := listing
    unfold Directory.filesWithExtension Directory.files
    rw [listing]
    rfl
  · exact List.mem_filter.mpr ⟨List.mem_map_of_mem member, extension⟩

section

variable {d : Nat} {name : String} {es : List (String × Nat)} {bytes : Bytes} {now : Int}
  (at? : fs.content? d = some (.directory es)) (missing : es.lookup name = none)
include at? missing

theorem artifactMade {log : Path}
    (elsewhere : ∀ trail, (fs.withFile d name bytes now).find t.here log = .ok trail →
      trail.node ≠ fs.nodes.size) :
    BuildLog.artifact? (fs.withFile d name bytes now) t.here log = BuildLog.artifact? fs t.here log := by
  have beside := findBeside at? missing elsewhere
  unfold BuildLog.artifact?
  cases before : fs.find t.here log with
  | error e =>
    cases after : (fs.withFile d name bytes now).find t.here log with
    | error e' => rfl
    | ok trail => cases before.symm.trans ((beside trail).mp after)
  | ok trail =>
    have after := (beside trail).mpr before
    have dates := modifiedMade fs d name ⟨.file bytes, 0o644, now⟩ (elsewhere trail after)
    have dated (fs : FileSystem) :
        (fs.nodes[trail.node]? >>= fun node => some (⟨log, node.modified⟩ : BuildLog.Artifact)) =
          ((fs.nodes[trail.node]?).map Node.modified).map (BuildLog.Artifact.mk log) := by
      cases fs.nodes[trail.node]? <;> rfl
    rw [after]
    simp only [Except.toOption, Option.bind_eq_bind, Option.bind_some] at dated ⊢
    rw [dated, dated, dates]

theorem newestMade (tidy : fs.Tidy) (isName : IsName name) (found : fs.find t.here t.root = .ok T)
    (apart : Apart t config fs.nodes.size (fs.withFile d name bytes now)) :
    newestIn t config (fs.withFile d name bytes now) = newestIn t config fs := by
  have elsewhere {names name'} (listing : (fs.withFile d name bytes now).regularFiles t.here t.root = .ok names)
      (member : name' ∈ names) (extension : (t.directory.file name').hasExtension config.logExtension = true) :
      ∀ trail, (fs.withFile d name bytes now).find t.here (t.directory.file name') = .ok trail →
        trail.node ≠ fs.nodes.size := by
    obtain ⟨logs, listed, isLog⟩ := namedListed listing member extension
    exact apart listed _ isLog
  have kept {names} (listing : (fs.withFile d name bytes now).regularFiles t.here t.root = .ok names) :
      ∀ name' ∈ names, logNamed? t config (fs.withFile d name bytes now) name' = logNamed? t config fs name' := by
    intro name' member
    unfold logNamed?
    split
    · exact artifactMade at? missing (elsewhere listing member ‹_›)
    · rfl
  have latest : BuildLog.latest t.directory config.logExtension (fs.withFile d name bytes now) =
      BuildLog.latest t.directory config.logExtension fs := by
    rw [latestNamed, latestNamed]
    rcases regularFilesMade at? missing tidy found with same | ⟨inside, names, before, after⟩
    · rw [same]
      cases listing : fs.regularFiles t.here t.root with
      | error e => rfl
      | ok names => simp only [List.filterMap_congr (kept (same.trans listing))]
    · have dropped : logNamed? t config (fs.withFile d name bytes now) name = none := by
        unfold logNamed?
        split
        · rename_i extension
          have no := elsewhere after (insertNameMem.mpr (.inl rfl)) extension
          cases there : (fs.withFile d name bytes now).find t.here (t.directory.file name) with
          | ok trail => exact (no trail there (findNew at? missing found inside isName there)).elim
          | error e =>
            unfold BuildLog.artifact?
            rw [there]
            rfl
        · rfl
      have old : ∀ name' ∈ names,
          logNamed? t config (fs.withFile d name bytes now) name' = logNamed? t config fs name' :=
        fun name' member => kept after name' (insertNameMem.mpr (.inr member))
      simp only [before, after, filterMapInserted dropped, List.filterMap_congr old]
  rw [newestIn, latest, newestIn]

theorem matchesMade (tidy : fs.Tidy) (isName : IsName name)
    (elsewhere : ∀ trail, (fs.withFile d name bytes now).find t.here t.projectFile = .ok trail →
      trail.node ≠ fs.nodes.size) (r : BuildResult) :
    r.matchesFile (fs.withFile d name bytes now) t.here t.projectFile = r.matchesFile fs t.here t.projectFile := by
  have grown : fs.Grown (fs.withFile d name bytes now) := grownCreate at? missing nofun
  have beside := findBeside at? missing elsewhere
  unfold BuildResult.matchesFile canonicalize
  congr 1
  cases wanted : fs.find t.here t.projectFile with
  | error e =>
    cases wanted' : (fs.withFile d name bytes now).find t.here t.projectFile with
    | ok W => cases wanted.symm.trans ((beside W).mp wanted')
    | error e' =>
      cases fs.find t.here r.projectFile <;>
        cases (fs.withFile d name bytes now).find t.here r.projectFile <;> rfl
  | ok W =>
    have wanted' := (beside W).mpr wanted
    rw [wanted']
    cases recorded : fs.find t.here r.projectFile with
    | ok R => rw [findGrown grown recorded]
    | error e =>
      cases recorded' : (fs.withFile d name bytes now).find t.here r.projectFile with
      | error e' => rfl
      | ok R =>
        -- The result names the new file, which is not the project file.
        have new : R.node = fs.nodes.size := by
          by_contra elsewhere
          cases recorded.symm.trans (findMade at? missing recorded' elsewhere)
        have other : R.path.same W.path = false := by
          refine Bool.eq_false_iff.mpr fun same => elsewhere W wanted' ?_
          rw [← (findChain recorded').pathUnique (tidyMade at? missing tidy isName) (findChain wanted') same, new]
        exact other

end

theorem LockApart.alike (apart : LockApart t config place fs) (tidy : fs.Tidy)
    (found : fs.find t.here t.root = .ok T) (touched : Touched place fs fs') : Alike t config fs fs' := by
  cases touched with
  | same => exact .refl t config fs
  | written leads bytes now => exact alikeWriteNode (apart.logs .same leads) bytes now
  | @made d name absent bytes now =>
    obtain ⟨es, at?, missing⟩ := walkAbsent _ _ _ absent
    have isName := (walksOf _ _ _ absent).missedName (fun _ => stepsOfWhole) rfl
    obtain ⟨-, leads⟩ := madeLeads absent bytes now
    have newest := newestMade at? missing tidy isName found (apart.logs (.made absent bytes now) leads)
    constructor
    case newest => exact newest
    case reads =>
      intro log isNewest
      obtain ⟨logs, trail, listed, isLog, there⟩ := newestListed (newest.trans isNewest)
      have elsewhere := apart.logs (.made absent bytes now) leads listed log isLog trail there
      have read : (fs.withFile d.node name bytes now).readBytes t.here log = fs.readBytes t.here log := by
        rw [readBytes, there, readBytes, findMade at? missing there elsewhere]
        exact readMade at? missing elsewhere
      simp only [BuildLog.readFile, readText, read]
    case selects =>
      intro log results isNewest recorded
      have same := fun r => matchesMade at? missing tidy isName
        (fun trail => apart.project (.made absent bytes now) leads) r
      rw [BuildResult.select, BuildResult.select]
      congr 1
      exact funext same

theorem answerWriteNode {n : Nat} (apart : Apart t config n fs) (bytes : Bytes) (now : Int) :
    answerIn t config (fs.writeNode n bytes now) = answerIn t config fs := by
  unfold answerIn
  rw [(alikeWriteNode apart bytes now).outlook]
  cases outlook t config fs with
  | error e => rfl
  | ok seen =>
    obtain ⟨log, v⟩ := seen
    cases miss : v.isReusable with
    | true =>
      cases v with
      | reusable r => rfl
      | _ => cases miss
    | false =>
      rw [answerMissed miss, answerMissed miss, clearedWriteNode]
      cases cleared t config log fs <;> rfl

theorem answerApart {looked looked' : FileSystem} {n k : Nat} (apart : LogsApart t config place fs)
    (touched : Touched place fs looked) (leads : looked.leads place = some n)
    (touched' : Touched place fs looked') (leads' : looked'.leads place = some k) :
    answerIn t config looked' = answerIn t config looked ∧ outlook t config looked' = outlook t config looked := by
  obtain ⟨base, isTouched, leadsBase, all⟩ := touched.base leads
  have apartBase := apart isTouched leadsBase
  have same {x : FileSystem} (either : x = base ∨ ∃ bytes now, x = base.writeNode n bytes now) :
      answerIn t config x = answerIn t config base ∧ outlook t config x = outlook t config base := by
    rcases either with rfl | ⟨bytes, now, rfl⟩
    · exact ⟨rfl, rfl⟩
    · exact ⟨answerWriteNode apartBase bytes now, (alikeWriteNode apartBase bytes now).outlook⟩
  obtain ⟨answer, sight⟩ := same (all touched leads).2
  obtain ⟨answer', sight'⟩ := same (all touched' leads').2
  exact ⟨answer'.trans answer.symm, sight'.trans sight.symm⟩

end BuildReuse.Cache
