import BuildReuse.Proofs.Workspace.References

/-! Results that are materialized one after another, each on the solution that the one before
has left. Every project ends with the references of the last result that meant it. -/
namespace BuildReuse

structure Round where
  result : BuildResult
  readOnly : Bool
  deriving DecidableEq, Repr

def Round.materialize (round : Round) (s : Solution) : Except MaterializeError MaterializedWorkspace :=
  BuildReuse.materialize (fun _ => some ⟨s, round.readOnly⟩) round.result

def materializeInTurn : Solution → List Round → Except MaterializeError (List MaterializedWorkspace)
  | _, [] => .ok []
  | s, round :: rest => do
    let m ← round.materialize s
    let later ← materializeInTurn m.solution rest
    return m :: later

def leftBefore (s : Solution) (opened : List MaterializedWorkspace) : Nat → Solution
  | 0 => s
  | i + 1 => (opened[i]?.map MaterializedWorkspace.solution).getD s

def Round.Means (projects : List Project) (place : Nat) (round : Round) : Bool :=
  !round.readOnly && targetPlace projects round.result == place

def referencesLeft (projects : List Project) (rounds : List Round) (place : Nat) (p : Project) :
    List Reference :=
  ((rounds.filter (Round.Means projects place)).getLast?.map fun round =>
    round.result.references.map .mk).getD p.references

structure Left (s : Solution) (rounds : List Round) (left : Solution) : Prop where
  version : left.version = s.version + rounds.countP fun round => !round.readOnly
  bare : left.projects.map Project.bare = s.projects.map Project.bare
  references : ∀ place, left.projects[place]?.map Project.references =
    s.projects[place]?.map (referencesLeft s.projects rounds place)

variable {s t u : Solution} {round : Round} {rounds : List Round} {projects other : List Project}

theorem fileOfBare : Project.file ∘ Project.bare = Project.file := rfl

theorem idOfBare : Project.id ∘ Project.bare = Project.id := rfl

theorem targetPlaceBare (same : projects.map Project.bare = other.map Project.bare) (r : BuildResult) :
    targetPlace projects r = targetPlace other r := by
  have files : projects.map Project.file = other.map Project.file := by
    rw [← fileOfBare, ← List.map_map, same, List.map_map]
  have ofFiles (l : List Project) : l.findIdx? (fun p => p.file.same r.projectFile) =
      (l.map Project.file).findIdx? fun file => file.same r.projectFile := by
    rw [List.findIdx?_map]
    rfl
  rw [targetPlace, targetPlace, ofFiles, ofFiles, files]

theorem distinctBare (same : projects.map Project.bare = other.map Project.bare)
    (distinct : (other.map Project.id).Nodup) : (projects.map Project.id).Nodup := by
  rwa [← idOfBare, ← List.map_map, same, List.map_map]

theorem filledBare (same : projects.map Project.bare = other.map Project.bare) (filled : other ≠ []) :
    projects ≠ [] := by
  rintro rfl
  exact filled (List.map_eq_nil_iff.mp same.symm)

theorem Left.cons (first : Left s [round] t) (later : Left t rounds u) : Left s (round :: rounds) u where
  version := by
    rw [later.version, first.version, List.countP_cons (l := rounds), List.countP_singleton]
    omega
  bare := later.bare.trans first.bare
  references := by
    intro place
    have means : Round.Means t.projects place = Round.Means s.projects place := by
      funext round
      rw [Round.Means, targetPlaceBare first.bare, Round.Means]
    have start := first.references place
    rw [later.references place]
    cases here : s.projects[place]? with
    | none =>
      rw [here] at start
      rw [Option.map_eq_none_iff.mp start]
      rfl
    | some p =>
      rw [here] at start
      obtain ⟨q, there, given⟩ := Option.map_eq_some_iff.mp start
      rw [there, Option.map_some, Option.map_some, referencesLeft, referencesLeft, given, means, referencesLeft]
      cases meant : Round.Means s.projects place round with
      | false => simp [meant]
      | true =>
        simp only [List.filter_cons, meant, if_true, List.filter_nil, List.getLast?_cons]
        cases (rounds.filter (Round.Means s.projects place)).getLast? <;> rfl

theorem referencesApart {place : Nat} (apart : round.Means projects place = false) :
    referencesLeft projects [round] place = Project.references := by
  funext p
  simp [referencesLeft, apart]

theorem referencesMeant {place : Nat} (meant : round.Means projects place = true) (p : Project) :
    referencesLeft projects [round] place p = round.result.references.map .mk := by
  simp [referencesLeft, meant]

theorem roundOpens (round : Round) (filled : s.projects ≠ []) (distinct : (s.projects.map Project.id).Nodup) :
    ∃ m, round.materialize s = .ok m ∧ Left s [round] m.solution ∧
      (round.readOnly = false → m.warnings = []) ∧
      (round.readOnly = true → m.warnings.length = 1 ∧ m.solution = s) := by
  obtain ⟨target, meant, stands⟩ := targetFound (r := round.result) filled
  obtain ⟨-, first, -, found, -⟩ := placeOfStands stands
  cases flag : round.readOnly with
  | true =>
    obtain ⟨m, opened, warned, same⟩ :
        ∃ m, round.materialize s = .ok m ∧ m.warnings.length = 1 ∧ m.solution = s := by
      rw [Round.materialize, flag]
      exact ⟨_, materializeFrozen (w := ⟨s, true⟩) rfl rfl meant, rfl, rfl⟩
    have still : Left s [round] m.solution := by
      refine ⟨by simp [same, flag], by rw [same], fun place => ?_⟩
      rw [same, referencesApart (by rw [Round.Means, flag]; rfl)]
    exact ⟨m, opened, still, (nomatch ·), fun _ => ⟨warned, same⟩⟩
  | false =>
    obtain ⟨m, opened, silent, same⟩ : ∃ m, round.materialize s = .ok m ∧ m.warnings = [] ∧
        m.solution = ⟨s.version + 1,
          Solution.setReferences target.id (round.result.references.map .mk) s.projects⟩ := by
      rw [Round.materialize, flag]
      exact ⟨_, materializeWritable (w := ⟨s, false⟩) rfl rfl meant, rfl, rfl⟩
    have referred : Refers round.result (targetPlace s.projects round.result) s.projects m.solution.projects := by
      rw [same]
      exact (setReferencesRefers stands found).mpr (.inl (foremostOfDistinct (targetInside filled) distinct))
    have moved : Left s [round] m.solution := by
      refine ⟨by simp [same, flag], by rw [same]; exact setReferencesBare .., fun place => ?_⟩
      by_cases here : targetPlace s.projects round.result = place
      · subst here
        rw [referred.there, stands, Option.map_some, referencesMeant (by simp [Round.Means, flag])]
      · rw [referred.elsewhere place (Ne.symm here), referencesApart (by simp [Round.Means, here])]
    exact ⟨m, opened, moved, fun _ => silent, (nomatch ·)⟩

theorem roundsOpen (filled : s.projects ≠ []) (distinct : (s.projects.map Project.id).Nodup)
    (rounds : List Round) :
    ∃ opened, materializeInTurn s rounds = .ok opened ∧ opened.length = rounds.length ∧
      ∀ i round m, rounds[i]? = some round → opened[i]? = some m →
        Left s (rounds.take (i + 1)) m.solution ∧ (round.readOnly = false → m.warnings = []) ∧
        (round.readOnly = true → m.warnings.length = 1 ∧ m.solution = leftBefore s opened i) := by
  induction rounds generalizing s with
  | nil => exact ⟨[], rfl, rfl, fun _ _ _ there => nomatch there⟩
  | cons first rest ih =>
    obtain ⟨m, openedFirst, leftFirst, silent, frozen⟩ := roundOpens first filled distinct
    obtain ⟨later, openedRest, size, each⟩ :=
      ih (filledBare leftFirst.bare filled) (distinctBare leftFirst.bare distinct)
    refine ⟨m :: later, ?_, by rw [List.length_cons, size, List.length_cons], fun i round n round' there => ?_⟩
    · simp only [materializeInTurn, openedFirst, openedRest, bind, Except.bind]
      rfl
    · cases i with
      | zero =>
        cases round'
        cases there
        exact ⟨leftFirst, silent, frozen⟩
      | succ i =>
        obtain ⟨leftLater, silent', frozen'⟩ := each i round n round' there
        refine ⟨leftFirst.cons leftLater, silent', fun flag => ?_⟩
        obtain ⟨warned, same⟩ := frozen' flag
        refine ⟨warned, same.trans ?_⟩
        cases i with
        | zero => rfl
        | succ i =>
          have inside : i < later.length := by
            have := (List.getElem?_eq_some_iff.mp there).1
            rw [List.length_cons] at this
            omega
          simp only [leftBefore, List.getElem?_cons_succ, List.getElem?_eq_getElem inside, Option.map_some,
            Option.getD_some]

theorem staysFrozen {opened : List MaterializedWorkspace} {k : Nat}
    (still : ∀ i m, k ≤ i → opened[i]? = some m → m.solution = leftBefore s opened i) :
    ∀ i m, k ≤ i → opened[i]? = some m → m.solution = leftBefore s opened k := by
  intro i m behind
  induction behind generalizing m with
  | refl => exact still k m (Nat.le_refl k)
  | @step i behind ih =>
    intro there
    have inside : i < opened.length := Nat.lt_of_succ_lt (List.getElem?_eq_some_iff.mp there).1
    have here := List.getElem?_eq_getElem inside
    rw [still (i + 1) m (Nat.le_succ_of_le behind) there, leftBefore, here, Option.map_some, Option.getD_some]
    exact ih _ here

theorem repeatedMaterialization (filled : s.projects ≠ []) (distinct : (s.projects.map Project.id).Nodup)
    (rounds : List Round) :
    ∃ opened, materializeInTurn s rounds = .ok opened ∧ opened.length = rounds.length ∧
      (∀ i round m, rounds[i]? = some round → opened[i]? = some m →
        Left s (rounds.take (i + 1)) m.solution ∧ (round.readOnly = false → m.warnings = []) ∧
        (round.readOnly = true → m.warnings.length = 1 ∧ m.solution = leftBefore s opened i)) ∧
      ∀ k, (∀ i round, k ≤ i → rounds[i]? = some round → round.readOnly = true) →
        ∀ i m, k ≤ i → opened[i]? = some m → m.solution = leftBefore s opened k := by
  obtain ⟨opened, inTurn, size, each⟩ := roundsOpen filled distinct rounds
  refine ⟨opened, inTurn, size, each, fun k frozen => staysFrozen fun i m behind there => ?_⟩
  have inside : i < rounds.length := size ▸ (List.getElem?_eq_some_iff.mp there).1
  have round := List.getElem?_eq_getElem inside
  exact ((each i _ m round there).2.2 (frozen i _ behind round)).2

theorem threeRounds :
    let s : Solution := .ofProjects [⟨4, "a", ⟨"/a.kproj"⟩, [], [⟨⟨"/old"⟩⟩]⟩, ⟨2, "b", ⟨"/b.kproj"⟩, [], []⟩]
    let result (file reference : String) : BuildResult := ⟨⟨file⟩, true, [], [], [⟨reference⟩]⟩
    let rounds : List Round :=
      [⟨result "/b.kproj" "/r", false⟩, ⟨result "/c.kproj" "/q", false⟩, ⟨result "/b.kproj" "/x", true⟩]
    ∃ opened m, materializeInTurn s rounds = .ok opened ∧ opened[2]? = some m ∧ m.warnings.length = 1 ∧
      m.solution.version = 2 ∧
      m.solution.projects.map Project.references = [[⟨⟨"/q"⟩⟩], [⟨⟨"/r"⟩⟩]] := by
  intro s result rounds
  have filled : s.projects ≠ [] := List.cons_ne_nil _ _
  have distinct : (s.projects.map Project.id).Nodup := by decide
  obtain ⟨opened, inTurn, size, each, -⟩ := repeatedMaterialization filled distinct rounds
  have inside : 2 < opened.length := size ▸ Nat.lt_succ_self 2
  have third : opened[2]? = some opened[2] := List.getElem?_eq_getElem inside
  obtain ⟨left, -, frozen⟩ := each 2 _ _ rfl third
  refine ⟨opened, opened[2], inTurn, third, (frozen rfl).1, left.version, List.ext_getElem? fun place => ?_⟩
  rw [List.getElem?_map, left.references]
  match place with
  | 0 => decide +kernel
  | 1 => decide +kernel
  | _ + 2 => rfl

end BuildReuse
