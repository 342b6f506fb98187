import BuildReuse.Package
import BuildReuse.Proofs.Workspace.Editors

/-! When a result cannot be materialized, and when it is with a warning. The edit names a project
of the very snapshot that it is committed against, so a commit can be refused for one cause only,
that the workspace is read-only. -/
namespace BuildReuse

def refusalWarning (e : WorkspaceError) : String := s!"metadata references were not applied: {e.message}"

structure Materialized (w : Workspace) (r : BuildResult) (m : MaterializedWorkspace) : Prop where
  warned : m.warnings ≠ [] ↔ w.readOnly = true
  kept : w.readOnly = true → m.warnings = [refusalWarning .readOnly] ∧ m.solution = w.current
  moved : w.readOnly = false → m.solution.version = w.current.version + 1
  committed : ∃ target edited, targetProject? w.current r = some target ∧
    w.current.withReferences target.id (r.references.map .mk) = .ok edited ∧
    w.commit edited = if w.readOnly then .error .readOnly else .ok m.workspace

variable {factory : WorkspaceFactory} {r : BuildResult} {w : Workspace}

theorem materializeNothing (nothing : factory r = none) : materialize factory r = .error .notConvertible := by
  simp only [materialize, nothing]

theorem materializeEmpty (made : factory r = some w) (empty : w.current.projects = []) :
    materialize factory r = .error .noProjects := by
  have untargeted : targetProject? w.current r = none := by
    simp [targetProject?, Solution.projectByFile?, empty]
  simp only [materialize, made, untargeted]

theorem targetEdits {target : Project} (meant : targetProject? w.current r = some target)
    (references : List Reference) : ∃ edited, w.current.withReferences target.id references = .ok edited ∧
      edited.version = w.current.version := by
  have member : target ∈ w.current.projects := List.mem_of_getElem? ((targetStands w.current r).symm.trans meant)
  obtain ⟨found, there⟩ := Solution.projectThere member
  refine ⟨{ w.current with projects := Solution.setReferences target.id references w.current.projects }, ?_, rfl⟩
  rw [Solution.withReferences, there]

theorem materializeFilled (made : factory r = some w) (filled : w.current.projects ≠ []) :
    ∃ m, materialize factory r = .ok m ∧ Materialized w r m := by
  obtain ⟨target, meant, -⟩ := targetFound (r := r) filled
  obtain ⟨edited, edits, version⟩ := targetEdits meant (r.references.map .mk)
  cases flag : w.readOnly with
  | true =>
    have refused : w.commit edited = .error .readOnly := by simp [Workspace.commit, flag]
    refine ⟨_, materializeFrozen made flag meant, by simp [flag], fun _ => ⟨rfl, rfl⟩, by simp [flag], ?_⟩
    exact ⟨target, edited, meant, edits, by rw [refused, flag]; rfl⟩
  | false =>
    have accepted : w.commit edited =
        .ok { w with current := { edited with version := w.current.version + 1 } } := by
      simp [Workspace.commit, flag, version]
    have same := withReferencesKeeps edits
    refine ⟨_, materializeWritable made flag meant, by simp [flag], by simp [flag], fun _ => rfl, ?_⟩
    exact ⟨target, edited, meant, edits, by rw [accepted, same]; simp [flag]⟩

theorem materializationSettled (factory : WorkspaceFactory) (r : BuildResult) (name : String) :
    (∀ e, (materialize factory r).mapError (PackageError.workspace name) = .error e ↔
      factory r = none ∧ e = .workspace name .notConvertible ∨
      (∃ w, factory r = some w ∧ w.current.projects = []) ∧ e = .workspace name .noProjects) ∧
    ∀ w, factory r = some w → w.current.projects ≠ [] →
      ∃ m, (materialize factory r).mapError (PackageError.workspace name) = .ok m ∧ Materialized w r m := by
  cases made : factory r with
  | none =>
    rw [materializeNothing made]
    refine ⟨fun e => ?_, fun w yields => nomatch yields⟩
    simp [Except.mapError, eq_comm]
  | some w =>
    by_cases empty : w.current.projects = []
    · rw [materializeEmpty made empty]
      refine ⟨fun e => ?_, fun w' yields filled => ?_⟩
      · simp [Except.mapError, empty, eq_comm]
      · cases yields
        exact absurd empty filled
    · obtain ⟨m, opened, settled⟩ := materializeFilled made empty
      rw [opened]
      refine ⟨fun e => ?_, fun w' yields _ => ?_⟩
      · simp [Except.mapError, empty]
      · cases yields
        exact ⟨m, rfl, settled⟩

theorem twinsSettled :
    let twin (file : String) : Project := ⟨1, file, ⟨file⟩, [], []⟩
    let factory (readOnly : Bool) : WorkspaceFactory :=
      fun _ => some ⟨⟨7, [twin "/a.kproj", twin "/b.kproj"]⟩, readOnly⟩
    let result : BuildResult := ⟨⟨"/b.kproj"⟩, true, [], [], [⟨"/r"⟩]⟩
    ∃ m n, (materialize (factory false) result).mapError (PackageError.workspace "b") = .ok m ∧
      (materialize (factory true) result).mapError (PackageError.workspace "b") = .ok n ∧
      m.warnings = [] ∧ m.solution.version = 8 ∧ n.warnings.length = 1 ∧ n.solution.version = 7 := by
  intro twin factory result
  obtain ⟨m, opened, writable⟩ :=
    (materializationSettled (factory false) result "b").2 _ rfl (List.cons_ne_nil _ _)
  obtain ⟨n, opened', frozen⟩ :=
    (materializationSettled (factory true) result "b").2 _ rfl (List.cons_ne_nil _ _)
  obtain ⟨warned, same⟩ := frozen.kept rfl
  have silent : m.warnings = [] := by
    by_contra told
    cases writable.warned.mp told
  exact ⟨m, n, opened, opened', silent, writable.moved rfl, by rw [warned]; rfl, by rw [same]⟩

end BuildReuse
