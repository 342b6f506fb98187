import BuildReuse.Workspace.Materialize
import Mathlib.Data.List.Basic

/-! Where the references of a result go. The project is chosen by its file, and it is found
by its id when the references are put in, so that they may end at another project of that
id. -/
namespace BuildReuse

def Project.bare (p : Project) : Project := { p with references := [] }

def Project.refer (references : List Reference) (p : Project) : Project := { p with references := references }

def targetPlace (projects : List Project) (r : BuildResult) : Nat :=
  (projects.findIdx? fun p => p.file.same r.projectFile).getD 0

structure Refers (r : BuildResult) (place : Nat) (before after : List Project) : Prop where
  there : after[place]?.map Project.references = some (r.references.map .mk)
  elsewhere : ∀ i, i ≠ place → after[i]? = before[i]?

variable {r : BuildResult} {projects : List Project} {s : Solution} {p target : Project}
  {factory : WorkspaceFactory} {w : Workspace}

namespace Solution

def placeOf (id : Nat) (projects : List Project) : Nat := projects.findIdx fun p => p.id == id

theorem setReferencesModifies (id : Nat) (references : List Reference) (projects : List Project) :
    setReferences id references projects = projects.modify (placeOf id projects) (.refer references) := by
  induction projects with
  | nil => rfl
  | cons first rest ih =>
    rw [setReferences, placeOf, List.findIdx_cons]
    by_cases own : first.id = id
    · rw [if_pos own, beq_iff_eq.mpr own, cond_true, List.modify_zero_cons]
      rfl
    · rw [if_neg own, beq_eq_false_iff_ne.mpr own, cond_false, List.modify_succ_cons, ih]
      rfl

theorem setReferencesAt (id : Nat) (references : List Reference) (projects : List Project) (i : Nat) :
    (setReferences id references projects)[i]? =
      projects[i]?.map fun p => if placeOf id projects = i then p.refer references else p := by
  rw [setReferencesModifies, List.getElem?_modify]
  rfl

theorem projectThere (member : p ∈ s.projects) : ∃ q, s.project? p.id = some q := by
  rw [← Option.isSome_iff_exists, project?, List.find?_isSome]
  exact ⟨p, member, beq_self_eq_true p.id⟩

end Solution

open Solution (placeOf setReferences setReferencesAt)

theorem targetStands (s : Solution) (r : BuildResult) :
    targetProject? s r = s.projects[targetPlace s.projects r]? := by
  unfold targetProject? Solution.projectByFile? targetPlace
  cases found : s.projects.findIdx? fun p => p.file.same r.projectFile with
  | none =>
    have nowhere : s.projects.find? (fun p => p.file.same r.projectFile) = none := by
      rw [List.find?_eq_none]
      intro p member
      simp [List.findIdx?_eq_none_iff.mp found p member]
    rw [nowhere, Option.none_or, Option.getD_none, List.head?_eq_getElem?]
  | some i =>
    obtain ⟨inside, same, first⟩ := List.findIdx?_eq_some_iff_getElem.mp found
    have there : s.projects.find? (fun p => p.file.same r.projectFile) = some s.projects[i] := by
      refine List.find?_eq_some_iff_getElem.mpr ⟨same, i, inside, rfl, fun j earlier => ?_⟩
      simpa using first j earlier
    rw [there, Option.some_or, Option.getD_some, List.getElem?_eq_getElem inside]

theorem targetInside (filled : projects ≠ []) : targetPlace projects r < projects.length := by
  unfold targetPlace
  cases found : projects.findIdx? fun p => p.file.same r.projectFile with
  | none => exact List.length_pos_of_ne_nil filled
  | some i =>
    obtain ⟨inside, -⟩ := List.findIdx?_eq_some_iff_getElem.mp found
    exact inside

theorem targetFound (filled : s.projects ≠ []) :
    ∃ target, targetProject? s r = some target ∧ s.projects[targetPlace s.projects r]? = some target := by
  have inside := List.getElem?_eq_getElem (targetInside (r := r) filled)
  exact ⟨_, (targetStands s r).trans inside, inside⟩

theorem materializeWritable (made : factory r = some w) (writable : w.readOnly = false)
    (meant : targetProject? w.current r = some target) :
    materialize factory r = .ok ⟨⟨⟨w.current.version + 1,
      setReferences target.id (r.references.map .mk) w.current.projects⟩, false⟩, []⟩ := by
  obtain ⟨q, there⟩ := Solution.projectThere (List.mem_of_getElem? ((targetStands w.current r).symm.trans meant))
  simp only [materialize, made, meant, Solution.withReferences, there, bind, Except.bind, Workspace.commit,
    writable]
  simp

theorem materializeFrozen (made : factory r = some w) (frozen : w.readOnly = true)
    (meant : targetProject? w.current r = some target) :
    materialize factory r = .ok ⟨w, ["metadata references were not applied: workspace is read-only"]⟩ := by
  obtain ⟨q, there⟩ := Solution.projectThere (List.mem_of_getElem? ((targetStands w.current r).symm.trans meant))
  simp only [materialize, made, meant, Solution.withReferences, there, bind, Except.bind, Workspace.commit,
    frozen]
  rfl

theorem placeOfStands {place : Nat} (stands : s.projects[place]? = some target) :
    placeOf target.id s.projects ≤ place ∧ ∃ first, s.projects[placeOf target.id s.projects]? = some first ∧
      s.project? target.id = some first ∧ first.id = target.id := by
  obtain ⟨inside, there⟩ := List.getElem?_eq_some_iff.mp stands
  have own : (s.projects[place].id == target.id) = true := by rw [there, beq_self_eq_true]
  have notBehind : placeOf target.id s.projects ≤ place := by
    by_contra behind
    have other := List.not_of_lt_findIdx (Nat.lt_of_not_le behind)
    rw [own] at other
    cases other
  have within : placeOf target.id s.projects < s.projects.length := Nat.lt_of_le_of_lt notBehind inside
  have same : (s.projects[placeOf target.id s.projects].id == target.id) = true :=
    List.findIdx_getElem (p := fun p : Project => p.id == target.id) (w := within)
  refine ⟨notBehind, _, List.getElem?_eq_getElem within, ?_, beq_iff_eq.mp same⟩
  refine List.find?_eq_some_iff_getElem.mpr ⟨same, _, within, rfl, fun i earlier => ?_⟩
  rw [List.not_of_lt_findIdx earlier, Bool.not_false]

def Foremost (place : Nat) (projects : List Project) : Prop :=
  ∀ i, i < place → projects[i]?.map Project.id ≠ projects[place]?.map Project.id

theorem foremostIff {place : Nat} (stands : s.projects[place]? = some target) :
    Foremost place s.projects ↔ placeOf target.id s.projects = place := by
  obtain ⟨notBehind, first, there, -, same⟩ := placeOfStands stands
  constructor
  · intro foremost
    by_contra differ
    refine foremost _ (Nat.lt_of_le_of_ne notBehind differ) ?_
    rw [there, stands, Option.map_some, Option.map_some, same]
  · intro atPlace i before twin
    rw [← atPlace] at before
    obtain ⟨inside, -⟩ := List.getElem?_eq_some_iff.mp there
    have other := List.not_of_lt_findIdx before
    rw [stands, List.getElem?_eq_getElem (Nat.lt_trans before inside)] at twin
    have twin : s.projects[i].id = target.id := Option.some.inj twin
    rw [twin, beq_self_eq_true] at other
    cases other

theorem foremostOfDistinct {place : Nat} (inside : place < projects.length)
    (distinct : (projects.map Project.id).Nodup) : Foremost place projects := by
  intro i before same
  have inside' : i < projects.length := Nat.lt_trans before inside
  rw [← List.getElem?_map, ← List.getElem?_map] at same
  exact Nat.ne_of_lt before ((List.getElem?_inj (by simpa using inside') distinct).mp same)

theorem setReferencesBare (id : Nat) (references : List Reference) (projects : List Project) :
    (setReferences id references projects).map Project.bare = projects.map Project.bare := by
  refine List.ext_getElem? fun i => ?_
  rw [List.getElem?_map, setReferencesAt, Option.map_map, List.getElem?_map]
  congr 1
  funext p
  simp only [Function.comp_apply]
  split <;> rfl

theorem setReferencesRefers {place : Nat} {first : Project} (stands : s.projects[place]? = some target)
    (found : s.project? target.id = some first) :
    Refers r place s.projects (setReferences target.id (r.references.map .mk) s.projects) ↔
      Foremost place s.projects ∨
        first.references = r.references.map .mk ∧ target.references = r.references.map .mk := by
  obtain ⟨-, first', there, found', -⟩ := placeOfStands stands
  cases found.symm.trans found'
  rw [foremostIff stands]
  constructor
  · intro refers
    by_cases atPlace : placeOf target.id s.projects = place
    · exact .inl atPlace
    · have given := refers.elsewhere _ atPlace
      rw [setReferencesAt, there, Option.map_some, if_pos rfl] at given
      have kept := refers.there
      rw [setReferencesAt, stands, Option.map_some, if_neg atPlace] at kept
      exact .inr ⟨(congrArg Project.references (Option.some.inj given)).symm, Option.some.inj kept⟩
  · rintro (atPlace | ⟨had, has⟩)
    · refine ⟨?_, fun i other => ?_⟩
      · rw [setReferencesAt, stands, Option.map_some, if_pos atPlace]
        rfl
      · have apart : placeOf target.id s.projects ≠ i := fun h => other (h.symm.trans atPlace)
        simp only [setReferencesAt, if_neg apart, Option.map_id']
    · have same : setReferences target.id (r.references.map .mk) s.projects = s.projects := by
        refine List.ext_getElem? fun i => ?_
        rw [setReferencesAt]
        by_cases own : placeOf target.id s.projects = i
        · rw [← own, there, Option.map_some, if_pos rfl, Project.refer, ← had]
        · simp only [if_neg own, Option.map_id']
      rw [same]
      exact ⟨by rw [stands, Option.map_some, has], fun _ _ => rfl⟩

theorem referencesReach (made : factory r = some w) (writable : w.readOnly = false)
    (filled : w.current.projects ≠ []) :
    ∃ m target first, materialize factory r = .ok m ∧ targetProject? w.current r = some target ∧
      w.current.project? target.id = some first ∧
      m.solution.projects.map Project.bare = w.current.projects.map Project.bare ∧
      (Refers r (targetPlace w.current.projects r) w.current.projects m.solution.projects ↔
        Foremost (targetPlace w.current.projects r) w.current.projects ∨
          first.references = r.references.map .mk ∧ target.references = r.references.map .mk) := by
  obtain ⟨target, meant, stands⟩ := targetFound (r := r) filled
  obtain ⟨-, first, -, found, -⟩ := placeOfStands stands
  exact ⟨_, target, first, materializeWritable made writable meant, meant, found,
    setReferencesBare .., setReferencesRefers stands found⟩

theorem secondReferred :
    let lib : Project := ⟨1, "lib", ⟨"/lib.kproj"⟩, [⟨"l.k", ⟨"/l.k"⟩⟩], [⟨⟨"/old"⟩⟩]⟩
    let app : Project := ⟨2, "app", ⟨"/app.kproj"⟩, [⟨"a.k", ⟨"/a.k"⟩⟩], []⟩
    let result : BuildResult := ⟨⟨"/app.kproj"⟩, true, [⟨"/a.k"⟩], [⟨"/a.k"⟩], [⟨"/r"⟩, ⟨"/q"⟩, ⟨"/r"⟩]⟩
    let made : Workspace := .ofSolution (.ofProjects [lib, app, { lib with references := [] }])
    let factory : WorkspaceFactory := fun _ => some made
    ∃ m, materialize factory result = .ok m ∧ Refers result 1 made.current.projects m.solution.projects := by
  intro lib app result made factory
  have yields : factory result = some made := rfl
  have filled : made.current.projects ≠ [] := List.cons_ne_nil _ _
  obtain ⟨m, target, first, opened, -, -, -, referred⟩ := referencesReach yields rfl filled
  have place : targetPlace made.current.projects result = 1 := by decide +kernel
  rw [place] at referred
  refine ⟨m, opened, referred.mpr (.inl ?_)⟩
  intro i before
  obtain rfl : i = 0 := Nat.lt_one_iff.mp before
  decide

theorem twinReferred :
    let front : Project := ⟨1, "a", ⟨"/a.kproj"⟩, [], []⟩
    let meant : Project := ⟨1, "b", ⟨"/b.kproj"⟩, [], []⟩
    let result : BuildResult := ⟨⟨"/b.kproj"⟩, true, [], [], [⟨"/r"⟩]⟩
    targetProject? (.ofProjects [front, meant]) result = some meant ∧
      materialize (fun _ => some (.ofSolution (.ofProjects [front, meant]))) result =
        .ok ⟨.ofSolution ⟨1, [front.refer [⟨⟨"/r"⟩⟩], meant]⟩, []⟩ ∧
      ¬ Refers result 1 [front, meant] [front.refer [⟨⟨"/r"⟩⟩], meant] := by
  refine ⟨by decide +kernel, by decide +kernel, fun referred => ?_⟩
  exact absurd referred.there (by decide)

end BuildReuse
