import BuildReuse.Proofs.Workspace.References

/-! Editors of one workspace. Each takes snapshots, derives from them and commits, in any order
with the others. A commit is accepted only if nothing was accepted since its snapshot was taken. -/
namespace BuildReuse

structure Edit where
  id : Nat
  references : List Reference
  deriving DecidableEq, Repr

def Solution.derive (s : Solution) (edits : List Edit) : Except WorkspaceError Solution :=
  edits.foldlM (fun s edit => s.withReferences edit.id edit.references) s

structure Draft where
  snapshot : Solution
  edits : List Edit
  solution : Solution

structure Desk where
  workspace : Workspace
  drafts : List Draft

structure Commit where
  before : Workspace
  draft : Draft
  refusal : Option WorkspaceError
  after : Workspace

def Commit.accepted (c : Commit) : Bool := c.refusal.isNone

inductive Desk.Step : Desk → List Commit → Desk → Prop where
  | read (desk : Desk) :
      Step desk [] { desk with drafts := desk.drafts ++ [⟨desk.workspace.current, [], desk.workspace.current⟩] }
  | derive {desk : Desk} {draft : Draft} {edit : Edit} {next : Solution} (held : draft ∈ desk.drafts)
      (edited : draft.solution.withReferences edit.id edit.references = .ok next) :
      Step desk [] { desk with drafts := desk.drafts ++ [⟨draft.snapshot, draft.edits ++ [edit], next⟩] }
  | accept {desk : Desk} {draft : Draft} {w : Workspace} (held : draft ∈ desk.drafts)
      (accepted : desk.workspace.commit draft.solution = .ok w) :
      Step desk [⟨desk.workspace, draft, none, w⟩] { desk with workspace := w }
  | refuse {desk : Desk} {draft : Draft} {e : WorkspaceError} (held : draft ∈ desk.drafts)
      (refused : desk.workspace.commit draft.solution = .error e) :
      Step desk [⟨desk.workspace, draft, some e, desk.workspace⟩] desk

inductive Desk.Steps : Desk → List Commit → Desk → Prop where
  | start (desk : Desk) : Steps desk [] desk
  | next {start desk desk' : Desk} {commits more : List Commit} (before : Steps start commits desk)
      (step : Step desk more desk') : Steps start (commits ++ more) desk'

def Commit.Follow : Workspace → List Commit → Workspace → Prop
  | w, [], w' => w = w'
  | w, c :: rest, w' => c.before = w ∧ Follow c.after rest w'

variable {s t : Solution} {w w' : Workspace} {edits : List Edit} {desk desk' : Desk} {draft : Draft}
  {commits more : List Commit} {c : Commit}

theorem withReferencesKeeps {id : Nat} {references : List Reference}
    (edited : s.withReferences id references = .ok t) :
    t = { s with projects := Solution.setReferences id references s.projects } := by
  unfold Solution.withReferences at edited
  split at edited
  · cases edited
  · exact (Except.ok.inj edited).symm

structure Edited (edits : List Edit) (s t : Solution) : Prop where
  version : t.version = s.version
  bare : t.projects.map Project.bare = s.projects.map Project.bare
  elsewhere : ∀ (i : Nat) (p : Project), s.projects[i]? = some p → (∀ edit ∈ edits, edit.id ≠ p.id) → t.projects[i]? = some p

theorem setReferencesElsewhere {id : Nat} {references : List Reference} {projects : List Project} {i : Nat}
    {p : Project} (there : projects[i]? = some p) (other : id ≠ p.id) :
    (Solution.setReferences id references projects)[i]? = some p := by
  rw [Solution.setReferencesAt, there, Option.map_some, if_neg]
  rintro rfl
  obtain ⟨inside, rfl⟩ := List.getElem?_eq_some_iff.mp there
  have own : (projects[Solution.placeOf id projects].id == id) = true :=
    List.findIdx_getElem (p := fun p : Project => p.id == id) (w := inside)
  exact other (beq_iff_eq.mp own).symm

theorem deriveEdited (derived : s.derive edits = .ok t) : Edited edits s t := by
  induction edits generalizing s with
  | nil =>
    cases derived
    exact ⟨rfl, rfl, fun _ _ there _ => there⟩
  | cons edit rest ih =>
    rw [Solution.derive, List.foldlM_cons] at derived
    cases edited : s.withReferences edit.id edit.references with
    | error e =>
      rw [edited] at derived
      cases derived
    | ok s' =>
      rw [edited] at derived
      have later := ih derived
      cases withReferencesKeeps edited
      refine ⟨later.version, later.bare.trans (setReferencesBare ..), fun i p there other => ?_⟩
      obtain ⟨own, rest⟩ := List.forall_mem_cons.mp other
      exact later.elsewhere i p (setReferencesElsewhere there own) rest

structure Draft.Based (w : Workspace) (draft : Draft) : Prop where
  derived : draft.snapshot.derive draft.edits = .ok draft.solution
  behind : draft.snapshot.version ≤ w.current.version
  taken : draft.snapshot.version = w.current.version → draft.snapshot = w.current

theorem commitAccepted (accepted : w.commit s = .ok w') :
    w.readOnly = false ∧ s.version = w.current.version ∧
      w' = { w with current := { s with version := w.current.version + 1 } } := by
  unfold Workspace.commit at accepted
  split at accepted
  · cases accepted
  · split at accepted
    · cases accepted
    · rename_i writable fresh
      exact ⟨by simpa using writable, not_not.mp fresh, (Except.ok.inj accepted).symm⟩

theorem commitRefused {e : WorkspaceError} (refused : w.commit s = .error e) :
    w.readOnly = true ∧ e = .readOnly ∨
      w.readOnly = false ∧ s.version ≠ w.current.version ∧ e = .staleSolution s.version w.current.version := by
  unfold Workspace.commit at refused
  split at refused
  · rename_i frozen
    exact .inl ⟨frozen, (Except.error.inj refused).symm⟩
  · split at refused
    · rename_i writable stale
      exact .inr ⟨by simpa using writable, stale, (Except.error.inj refused).symm⟩
    · cases refused

inductive Commit.Sound : Commit → Prop where
  | accepted {w : Workspace} {draft : Draft} {changed : Solution} (writable : w.readOnly = false)
      (fresh : draft.snapshot = w.current) (derived : w.current.derive draft.edits = .ok changed)
      (edited : Edited draft.edits w.current changed) :
      Sound ⟨w, draft, none, { w with current := { changed with version := w.current.version + 1 } }⟩
  | stale {w : Workspace} {draft : Draft} (writable : w.readOnly = false)
      (older : draft.snapshot.version < w.current.version) :
      Sound ⟨w, draft, some (.staleSolution draft.snapshot.version w.current.version), w⟩
  | frozen {w : Workspace} {draft : Draft} (readOnly : w.readOnly = true) :
      Sound ⟨w, draft, some .readOnly, w⟩

theorem Draft.Based.acceptSound (based : draft.Based w) (accepted : w.commit draft.solution = .ok w') :
    Commit.Sound ⟨w, draft, none, w'⟩ := by
  obtain ⟨writable, fresh, rfl⟩ := commitAccepted accepted
  have taken := based.taken ((deriveEdited based.derived).version.symm.trans fresh)
  have derived := based.derived
  rw [taken] at derived
  exact .accepted writable taken derived (deriveEdited derived)

theorem Draft.Based.refuseSound {e : WorkspaceError} (based : draft.Based w)
    (refused : w.commit draft.solution = .error e) : Commit.Sound ⟨w, draft, some e, w⟩ := by
  rcases commitRefused refused with ⟨frozen, rfl⟩ | ⟨writable, stale, rfl⟩
  · exact .frozen frozen
  · rw [(deriveEdited based.derived).version] at stale ⊢
    exact .stale writable (Nat.lt_of_le_of_ne based.behind stale)

theorem Commit.Follow.append {w'' : Workspace} (first : Follow w commits w') (later : Follow w' more w'') :
    Follow w (commits ++ more) w'' := by
  induction commits generalizing w with
  | nil => exact first ▸ later
  | cons c rest ih => exact ⟨first.1, ih first.2⟩

theorem Commit.Sound.grows (sound : c.Sound) : c.after.readOnly = c.before.readOnly ∧
    c.after.current.version = c.before.current.version + if c.accepted then 1 else 0 := by
  cases sound <;> exact ⟨rfl, rfl⟩

theorem Commit.Sound.takes (sound : c.Sound) (accepted : c.accepted = true) :
    c.draft.snapshot.version = c.before.current.version := by
  cases sound with
  | accepted writable fresh derived edited => exact congrArg Solution.version fresh
  | stale writable older => cases accepted
  | frozen readOnly => cases accepted

theorem Draft.Based.later (based : draft.Based c.before) (sound : c.Sound) : draft.Based c.after := by
  cases sound with
  | accepted writable fresh derived edited =>
    have grown : draft.snapshot.version < _ + 1 := Nat.lt_succ_of_le based.behind
    exact ⟨based.derived, Nat.le_of_lt grown, fun same => absurd same (Nat.ne_of_lt grown)⟩
  | stale writable older => exact based
  | frozen readOnly => exact based

def Desk.Kept (desk : Desk) : Prop := ∀ draft ∈ desk.drafts, draft.Based desk.workspace

theorem Desk.Kept.step (kept : desk.Kept) (step : Step desk more desk') :
    desk'.Kept ∧ Commit.Follow desk.workspace more desk'.workspace ∧ ∀ c ∈ more, c.Sound := by
  cases step with
  | read =>
    refine ⟨List.forall_mem_append.mpr ⟨kept, ?_⟩, rfl, fun _ none => nomatch none⟩
    rw [List.forall_mem_singleton]
    exact ⟨rfl, Nat.le_refl _, fun _ => rfl⟩
  | @derive draft edit next held edited =>
    have based := kept draft held
    have derived : draft.snapshot.derive (draft.edits ++ [edit]) = .ok next := by
      rw [Solution.derive, List.foldlM_append, ← Solution.derive, based.derived]
      simp only [List.foldlM_cons, List.foldlM_nil, bind, Except.bind, edited]
      rfl
    refine ⟨List.forall_mem_append.mpr ⟨kept, ?_⟩, rfl, fun _ none => nomatch none⟩
    rw [List.forall_mem_singleton]
    exact ⟨derived, based.behind, based.taken⟩
  | accept held accepted =>
    have sound := (kept _ held).acceptSound accepted
    exact ⟨fun draft mine => (kept draft mine).later sound, ⟨rfl, rfl⟩, List.forall_mem_singleton.mpr sound⟩
  | refuse held refused =>
    have sound := (kept _ held).refuseSound refused
    exact ⟨kept, ⟨rfl, rfl⟩, List.forall_mem_singleton.mpr sound⟩

theorem Desk.Steps.sound {start : Desk} (steps : Steps start commits desk) (kept : start.Kept) :
    desk.Kept ∧ Commit.Follow start.workspace commits desk.workspace ∧ ∀ c ∈ commits, c.Sound := by
  induction steps with
  | start => exact ⟨kept, rfl, fun _ none => nomatch none⟩
  | next before step ih =>
    obtain ⟨kept, follow, sound⟩ := ih
    obtain ⟨kept', more, sound'⟩ := kept.step step
    exact ⟨kept', follow.append more, List.forall_mem_append.mpr ⟨sound, sound'⟩⟩

theorem followGrows (follow : Commit.Follow w commits w') (sound : ∀ c ∈ commits, c.Sound) :
    w'.readOnly = w.readOnly ∧
      w'.current.version = w.current.version + commits.countP Commit.accepted := by
  induction commits generalizing w with
  | nil => exact follow ▸ ⟨rfl, rfl⟩
  | cons c rest ih =>
    obtain ⟨rfl, later⟩ := follow
    obtain ⟨own, others⟩ := List.forall_mem_cons.mp sound
    obtain ⟨flag, grown⟩ := own.grows
    obtain ⟨flags, version⟩ := ih later others
    rw [flags, flag, version, grown, List.countP_cons, Nat.add_assoc, Nat.add_comm (rest.countP _)]
    exact ⟨rfl, rfl⟩

theorem acceptedBehind (follow : Commit.Follow w commits w') (sound : ∀ c ∈ commits, c.Sound) :
    ∀ c ∈ commits, c.accepted = true → w.current.version ≤ c.draft.snapshot.version := by
  induction commits generalizing w with
  | nil => exact fun _ none => nomatch none
  | cons first rest ih =>
    obtain ⟨rfl, later⟩ := follow
    obtain ⟨own, others⟩ := List.forall_mem_cons.mp sound
    refine List.forall_mem_cons.mpr ⟨fun accepted => Nat.le_of_eq (own.takes accepted).symm, ?_⟩
    intro c member accepted
    exact Nat.le_trans (own.grows.2 ▸ Nat.le_add_right ..) (ih later others c member accepted)

theorem acceptedApart (follow : Commit.Follow w commits w') (sound : ∀ c ∈ commits, c.Sound) :
    (commits.filter Commit.accepted).Pairwise fun c d => c.draft.snapshot.version < d.draft.snapshot.version := by
  induction commits generalizing w with
  | nil => exact .nil
  | cons first rest ih =>
    obtain ⟨rfl, later⟩ := follow
    obtain ⟨own, others⟩ := List.forall_mem_cons.mp sound
    cases accepted : first.accepted with
    | false =>
      rw [List.filter_cons_of_neg (by rw [accepted]; exact Bool.false_ne_true)]
      exact ih later others
    | true =>
      rw [List.filter_cons_of_pos accepted, List.pairwise_cons]
      refine ⟨fun c member => ?_, ih later others⟩
      obtain ⟨member, accepted'⟩ := List.mem_filter.mp member
      have behind := acceptedBehind later others c member accepted'
      rw [own.grows.2, accepted, if_pos rfl] at behind
      exact own.takes accepted ▸ behind

theorem oneEach {s : Solution} (apart : (commits.filter Commit.accepted).Pairwise fun c d =>
      c.draft.snapshot.version < d.draft.snapshot.version) :
    commits.countP (fun c => c.draft.snapshot == s && c.accepted) ≤ 1 := by
  rw [List.countP_eq_length_filter, ← List.filter_filter]
  have ofSnapshot : ∀ c ∈ (commits.filter Commit.accepted).filter (·.draft.snapshot == s), c.draft.snapshot = s :=
    fun c member => beq_iff_eq.mp (List.mem_filter.mp member).2
  have apart := apart.filter (·.draft.snapshot == s)
  generalize (commits.filter Commit.accepted).filter (·.draft.snapshot == s) = chosen at apart ofSnapshot ⊢
  rcases chosen with _ | ⟨c, _ | ⟨d, rest⟩⟩
  · exact Nat.zero_le 1
  · exact Nat.le_refl 1
  · have less := List.rel_of_pairwise_cons apart (List.mem_cons_self ..)
    rw [ofSnapshot c (by simp), ofSnapshot d (by simp)] at less
    exact absurd less (Nat.lt_irrefl _)

theorem noLostUpdate (w : Workspace) (steps : Desk.Steps ⟨w, []⟩ commits desk) :
    Commit.Follow w commits desk.workspace ∧ (∀ c ∈ commits, c.Sound) ∧
      desk.workspace.current.version = w.current.version + commits.countP Commit.accepted ∧
      ∀ s, commits.countP (fun c => c.draft.snapshot == s && c.accepted) ≤ 1 := by
  obtain ⟨-, follow, sound⟩ := steps.sound fun _ none => nomatch none
  exact ⟨follow, sound, (followGrows follow sound).2, fun s => oneEach (acceptedApart follow sound)⟩

theorem secondRefused :
    let app : Project := ⟨1, "app", ⟨"/app.kproj"⟩, [], []⟩
    let base : Solution := .ofProjects [app]
    let mine : Draft := ⟨base, [⟨1, [⟨⟨"/r"⟩⟩]⟩], { base with projects := [app.refer [⟨⟨"/r"⟩⟩]] }⟩
    let yours : Draft := ⟨base, [⟨1, [⟨⟨"/q"⟩⟩]⟩], { base with projects := [app.refer [⟨⟨"/q"⟩⟩]] }⟩
    ∃ commits desk, Desk.Steps ⟨.ofSolution base, []⟩ commits desk ∧
      commits.map Commit.draft = [mine, yours] ∧
      commits.map Commit.refusal = [none, some (.staleSolution 0 1)] ∧
      desk.workspace.current = ⟨1, mine.solution.projects⟩ ∧
      commits.countP (fun c => c.draft.snapshot == base && c.accepted) ≤ 1 := by
  intro app base mine yours
  let plain : Draft := ⟨base, [], base⟩
  let w : Workspace := .ofSolution base
  let w' : Workspace := .ofSolution ⟨1, mine.solution.projects⟩
  have reads : Desk.Step ⟨w, []⟩ [] ⟨w, [plain]⟩ := .read _
  have first : Desk.Step ⟨w, [plain]⟩ [] ⟨w, [plain, mine]⟩ :=
    @Desk.Step.derive _ plain ⟨1, [⟨⟨"/r"⟩⟩]⟩ _ (List.mem_cons_self ..) rfl
  have second : Desk.Step ⟨w, [plain, mine]⟩ [] ⟨w, [plain, mine, yours]⟩ :=
    @Desk.Step.derive _ plain ⟨1, [⟨⟨"/q"⟩⟩]⟩ _ (List.mem_cons_self ..) rfl
  have accepts : Desk.Step ⟨w, [plain, mine, yours]⟩ [⟨w, mine, none, w'⟩] ⟨w', [plain, mine, yours]⟩ :=
    .accept (by simp) rfl
  have refuses : Desk.Step ⟨w', [plain, mine, yours]⟩ [⟨w', yours, some (.staleSolution 0 1), w'⟩]
      ⟨w', [plain, mine, yours]⟩ := .refuse (by simp) rfl
  have steps := (((((Desk.Steps.start _).next reads).next first).next second).next accepts).next refuses
  obtain ⟨-, -, -, once⟩ := noLostUpdate _ steps
  exact ⟨_, _, steps, rfl, rfl, rfl, once base⟩

end BuildReuse
