import BuildReuse.Package
import BuildReuse.Proofs.FileSystem.Names

/-! What the standard factory makes of a result that was matched with the project file of
an opened package: one project with all that the result records. -/
namespace BuildReuse

variable {fs : FileSystem} {here : Path} {r : BuildResult}

namespace Path

theorem joinAbsolute {p : Path} (absolute : p.isAbsolute = true) (q : String) : (p.join q).isAbsolute = true := by
  by_cases own : (Path.mk q).isAbsolute = true
  · rw [join, if_pos own]
    exact own
  · rw [isAbsolute, joinRelative (Bool.eq_false_iff.mpr own), List.append_assoc]
    rw [isAbsolute] at absolute
    cases text : p.text.toList with
    | nil =>
      rw [text] at absolute
      cases absolute
    | cons c rest =>
      rw [text] at absolute
      exact absolute

end Path

structure MaterializedWorkspace.Records (w : MaterializedWorkspace) (r : BuildResult) : Prop where
  version : w.solution.version = 1
  project : ∃ p, w.solution.projects = [p] ∧ p.file = r.projectFile ∧
    p.documents = r.sources.map .ofPath ∧ p.documents.map Document.path = r.sources ∧
    p.references.map Reference.path = r.references
  quiet : w.warnings = []

theorem BuildResult.matchedNamed {projectFile : Path} (absolute : projectFile.isAbsolute = true)
    (matched : r.matchesFile fs here projectFile = true) : r.projectFile.text ≠ "" := by
  intro empty
  have nowhere : fs.canonicalize here r.projectFile = .error (.host .noEntry) := by
    rw [FileSystem.canonicalize, FileSystem.find, FileSystem.locate, empty]
    rfl
  have none : r.projectFile.components = [] := by
    simp [Path.components, Path.isAbsolute, Path.pieces, empty]
  rw [matchesFile, nowhere, Path.same, none, Path.components, if_pos absolute] at matched
  cases matched

theorem standardRecords (named : r.projectFile.text ≠ "") (sources : r.sources ≠ []) :
    ∃ w, materialize .standard r = .ok w ∧ w.Records r := by
  have converted : WorkspaceFactory.standard r = some (.ofSolution (.ofProjects
      [⟨1, r.projectFile.nameOrEmpty, r.projectFile, r.sources.map .ofPath, []⟩])) := by
    rw [WorkspaceFactory.standard, if_neg (by simp [named, sources])]
  refine ⟨⟨⟨⟨1, [⟨1, r.projectFile.nameOrEmpty, r.projectFile, r.sources.map .ofPath,
    r.references.map .mk⟩]⟩, false⟩, []⟩, ?_, rfl, ⟨_, rfl, rfl, rfl, ?_, ?_⟩, rfl⟩
  · have target : targetProject? (Solution.ofProjects
        [⟨1, r.projectFile.nameOrEmpty, r.projectFile, r.sources.map .ofPath, []⟩]) r =
        some ⟨1, r.projectFile.nameOrEmpty, r.projectFile, r.sources.map .ofPath, []⟩ := by
      simp [targetProject?, Solution.projectByFile?, Solution.ofProjects, Path.sameRefl]
    simp only [materialize, converted, Workspace.ofSolution, target]
    rfl
  · simp [Document.ofPath, Function.comp_def]
  · simp [Function.comp_def]

namespace Package

variable {caller : Caller} {registry : Nat} {root : Path} {name : Option String} {tool : BuildTool}
  {factory : WorkspaceFactory} {config : Config} {p : Package}

theorem openedFiles {d : Directory} {extension : String} {files : List Path} (absolute : d.root.isAbsolute = true)
    (listed : d.filesWithExtension extension fs = .ok files) : ∀ file ∈ files, file.isAbsolute = true := by
  rw [Directory.filesWithExtension, Directory.files] at listed
  cases names : fs.regularFiles d.caller.here d.root with
  | error e => simp [names, Except.map] at listed
  | ok names =>
    simp only [names, Except.map, Except.ok.injEq] at listed
    subst listed
    intro file inside
    obtain ⟨name, -, rfl⟩ := List.mem_map.mp (List.mem_filter.mp inside).1
    exact Path.joinAbsolute absolute name

theorem opened (opens : openAt caller registry root name tool factory config fs = .ok p) :
    p = ofTarget p.target tool factory config ∧ p.target.projectFile.isAbsolute = true := by
  simp only [openAt, bind, Except.bind] at opens
  cases found : Directory.openAt caller registry config root fs with
  | error e => simp [found, Except.mapError] at opens
  | ok d =>
    have absolute : d.root.isAbsolute = true := by
      simp only [Directory.openAt, bind, Except.bind] at found
      split at found
      · cases found
      · split at found
        · cases found
          exact Path.ofNamesAbsolute _
        · cases found
    simp only [found, Except.mapError] at opens
    cases aimed : Target.find d name config fs with
    | error e => simp [aimed] at opens
    | ok t =>
      simp only [aimed, Except.ok.injEq] at opens
      subst opens
      refine ⟨rfl, ?_⟩
      simp only [Target.find, bind, Except.bind] at aimed
      split at aimed
      · cases aimed
      · rename_i file chosen
        cases aimed
        rw [Target.projectFileIn] at chosen
        split at chosen
        · cases chosen
          exact Path.joinAbsolute absolute _
        · rw [Target.singleProjectFile] at chosen
          split at chosen <;> cases chosen
          rename_i listed
          exact openedFiles absolute listed _ (List.mem_singleton_self _)

end Package
end BuildReuse
