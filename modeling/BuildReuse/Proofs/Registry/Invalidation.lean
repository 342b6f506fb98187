import BuildReuse.Proofs.Registry.Race

/-! What an invalidation reaches. The path is resolved when the call is made, so the package held
under a root is dropped just if the path leads to that root then. A package that was dropped is given
back at no time after; one that was overlooked is given back as soon as a path leads to its root. -/
namespace BuildReuse.Session

variable {k : Nat} {s s' : Session} {here root key : Path} {r : Registry Nat} {package : Nat}

def Resolves (s : Session) (here root target : Path) : Prop :=
  ∃ key, s.machine.files.canonicalize here root = .ok key ∧ target.same key = true

theorem dropAt (there : s.registries[k]? = some r) (key : Path) : s.drop k key =
    ((r.find? key).isSome,
      { s with registries := s.registries.set! k { r with entries := r.without key } }) := by
  simp only [drop, there]
  rfl

theorem findIsSome : (r.find? key).isSome = true ↔ ∃ e ∈ r.entries, e.1.same key = true := by
  rw [Registry.find?, List.find?_isSome]

theorem registryAfter (there : s.registries[k]? = some r) (key : Path) :
    (s.drop k key).2.registries[k]? = some { r with entries := r.without key } := by
  rw [dropAt there]
  exact registrySet there _

theorem getOrInsertHeld {ε : Type} {create : Session → Except ε Nat × Session} {e : Path × Nat}
    {history : List Registry.Event} (recent : Registry.Recent s.Owns r history)
    (there : s.registries[k]? = some r) (held : e ∈ r.entries) (resolves : s.Resolves here root e.1) :
    (s.getOrInsert here k root create).1 = .ok e.2 ∧
      (s.getOrInsert here k root create).2.packages = s.packages := by
  obtain ⟨key, resolved, same⟩ := resolves
  rw [getOrInsertHit (getHeld recent there held same resolved)]
  exact ⟨rfl, rfl⟩

theorem getOrInsertCreates {ε : Type} {create : Session → Except ε Nat × Session} {own : Path}
    (there : s.registries[k]? = some r) (resolved : s.machine.files.canonicalize here root = .ok key)
    (absent : ∀ e ∈ r.entries, e.1.same key = false) (made : create s = (.ok package, s'))
    (apart : Apart k s s') (owned : s'.root? package = some own) (same : own.same key = true) :
    (s.getOrInsert here k root create).1 = .ok package := by
  have missed : s.get here k root = (none, s) := by
    rw [getAt there resolved, Registry.lookupAbsent absent, registrySame there]
  rw [getOrInsertMiss missed, made]
  cases keeps : s'.keep k package with
  | mk kept s₂ =>
    obtain ⟨r', inserted, -⟩ := keepCases owned (apart.registry.trans there) keeps
    rcases Registry.insertCases inserted with ⟨e, held, same', -, -⟩ | ⟨-, rfl, -⟩
    · have other := absent e held
      rw [Path.sameTrans same' same] at other
      cases other
    · simp only [keeps]

namespace Race

variable {capacity : Nat} {told new later : List Told} {p p' : Race} {e : Path × Nat}

structure Gone (k : Nat) (p : Race) (package : Nat) : Prop where
  made : package ∈ p.made
  idle : package ∉ p.waiting
  unheld : ¬ Holding k p.session package

theorem Step.gone (step : Step k p new p') (ready : Ready k capacity told p) (gone : Gone k p package) :
    Gone k p' package ∧ .returned package ∉ new := by
  obtain ⟨history, r, there, -, -⟩ := ready.keeps
  cases step with
  | aside apart =>
    refine ⟨⟨gone.made, gone.idle, fun holding => gone.unheld ?_⟩, List.not_mem_nil⟩
    simpa only [Holding, apart.registry] using holding
  | find found =>
    obtain ⟨holds, before⟩ := lookHolding found
    refine ⟨⟨gone.made, gone.idle, fun holding => gone.unheld (before package holding)⟩, fun returned => ?_⟩
    cases List.mem_singleton.mp returned
    exact gone.unheld holds
  | miss missed =>
    cases lookMiss missed
    exact ⟨⟨gone.made, gone.idle, gone.unheld⟩, List.not_mem_nil⟩
  | stray unresolved => exact ⟨⟨gone.made, gone.idle, gone.unheld⟩, List.not_mem_nil⟩
  | drop key =>
    exact ⟨⟨gone.made, gone.idle, fun holding => gone.unheld (dropHolding holding)⟩, List.not_mem_nil⟩
  | fail => exact ⟨⟨gone.made, gone.idle, gone.unheld⟩, List.not_mem_nil⟩
  | @make s n waiting made created root fresh own =>
    have other : package ≠ created := by
      rintro rfl
      exact fresh gone.made
    refine ⟨⟨List.mem_cons_of_mem _ gone.made, ?_, gone.unheld⟩, List.not_mem_nil⟩
    simpa using ⟨other, gone.idle⟩
  | win waits put =>
    obtain ⟨root, owned⟩ := ready.owned waits
    obtain ⟨-, before⟩ := keepHolding owned there put
    refine ⟨⟨gone.made, fun mem => gone.idle (List.mem_of_mem_erase mem), fun holding => ?_⟩, fun returned => ?_⟩
    · rcases before package holding with old | ⟨rfl, -⟩
      · exact gone.unheld old
      · exact gone.idle waits
    · cases List.mem_singleton.mp returned
      exact gone.idle waits
  | lose waits put late =>
    obtain ⟨root, owned⟩ := ready.owned waits
    obtain ⟨which, before⟩ := keepHolding owned there put
    refine ⟨⟨gone.made, fun mem => gone.idle (List.mem_of_mem_erase mem), fun holding => ?_⟩, fun returned => ?_⟩
    · exact gone.unheld ((before package holding).resolve_right fun same => late same.2)
    · simp only [List.mem_cons, Told.returned.injEq, reduceCtorEq, List.not_mem_nil, or_false] at returned
      exact gone.unheld (returned ▸ which.resolve_left late)

theorem Steps.gone (steps : Steps k p later p') (ready : Ready k capacity told p) (gone : Gone k p package) :
    Ready k capacity (later ++ told) p' ∧ Gone k p' package ∧ .returned package ∉ later := by
  induction steps with
  | start => exact ⟨ready, gone, List.not_mem_nil⟩
  | tail before step ih =>
    obtain ⟨ready', gone', never⟩ := ih
    obtain ⟨gone'', silent⟩ := step.gone ready' gone'
    refine ⟨?_, gone'', fun returned => ?_⟩
    · rw [List.append_assoc]
      exact step.ready ready'
    · exact (List.mem_append.mp returned).elim silent never

def Creates {ε : Type} (k : Nat) (p : Race) (create : Session → Except ε Nat × Session) : Prop :=
  ∀ created s', create p.session = (.ok created, s') → ∃ during n waiting made,
    (∃ own, s'.root? created = some own) ∧ created ∉ made ∧
      Steps k ⟨p.session, p.creating + 1, p.waiting, p.made⟩ during ⟨s', n + 1, waiting, made⟩

theorem Gone.withheld {ε : Type} {create : Session → Except ε Nat × Session} {given : Nat}
    (ready : Ready k capacity told p) (gone : Gone k p package) (creates : Creates k p create)
    (done : p.session.getOrInsert here k root create = (.ok given, s')) : given ≠ package := by
  rintro rfl
  cases getOrInsertCalls done with
  | finds resolved found step => exact (step.gone ready gone).2 List.mem_cons_self
  | @creates created s₂ vain step made put among =>
    obtain ⟨during, n, waiting, others, own, fresh, steps⟩ := creates created s₂ made
    obtain ⟨told', returned, whole⟩ := among own fresh steps
    exact (whole.gone ready gone).2.2 (List.mem_append_left _ returned)

structure Dropped (k : Nat) (p : Race) (r : Registry Nat) (e : Path × Nat) (done : Bool × Session) : Prop where
  told : done.1 = true
  entries : ∃ r', done.2.registries[k]? = some r' ∧ ∀ f, f ∈ r'.entries ↔ f ∈ r.entries ∧ f ≠ e
  never {behind : List Told} {q : Race} : Steps k ⟨done.2, p.creating, p.waiting, p.made⟩ behind q →
    .returned e.2 ∉ behind ∧
    ∀ {ε : Type} {here root : Path} {create : Session → Except ε Nat × Session} {given s'},
      Creates k q create → q.session.getOrInsert here k root create = (.ok given, s') → given ≠ e.2
  anew {ε : Type} {s₁ s₂ : Session} {here root own : Path} {create : Session → Except ε Nat × Session}
    {created : Nat} : Apart k done.2 s₁ → s₁.Resolves here root e.1 → create s₁ = (.ok created, s₂) →
      Apart k s₁ s₂ → s₂.root? created = some own → own.same e.1 = true →
      (s₁.getOrInsert here k root create).1 = .ok created

structure Overlooked (k : Nat) (e : Path × Nat) (done : Bool × Session) : Prop where
  entries : ∃ r', done.2.registries[k]? = some r' ∧ e ∈ r'.entries
  back {ε : Type} {s₁ : Session} {here root : Path} {create : Session → Except ε Nat × Session} :
    Apart k done.2 s₁ → s₁.Resolves here root e.1 →
      (s₁.getOrInsert here k root create).1 = .ok e.2 ∧
      (s₁.getOrInsert here k root create).2.packages = s₁.packages

section

variable (ready : Ready k capacity told p)
include ready

section

variable (there : p.session.registries[k]? = some r) (held : e ∈ r.entries)
include there held

theorem goneOf (same : e.1.same key = true) :
    Gone k ⟨(p.session.drop k key).2, p.creating, p.waiting, p.made⟩ e.2 := by
  obtain ⟨history, r₁, there₁, -, recent⟩ := ready.keeps
  cases there₁.symm.trans there
  obtain ⟨made, idle, -⟩ := ready.shown e.2 (.inl ⟨r, there, e, held, rfl⟩)
  refine ⟨made, idle, fun ⟨r', there', f, held', own⟩ => ?_⟩
  cases (registryAfter there key).symm.trans there'
  obtain ⟨old, apart⟩ := Registry.memWithout.mp held'
  have roots := (recent.owned f old).symm.trans (own ▸ recent.owned e held)
  rw [Option.some.inj roots, same] at apart
  cases apart

theorem droppedOf (same : e.1.same key = true) : Dropped k p r e (p.session.drop k key) := by
  obtain ⟨history, r₁, there₁, -, recent⟩ := ready.keeps
  cases there₁.symm.trans there
  have gone := goneOf ready there held same
  have after := registryAfter there key
  have ready' : Ready k capacity told ⟨(p.session.drop k key).2, p.creating, p.waiting, p.made⟩ :=
    Step.ready (.drop key) ready
  constructor
  case told =>
    rw [dropAt there]
    exact findIsSome.mpr ⟨e, held, same⟩
  case entries =>
    refine ⟨_, after, fun f => ?_⟩
    rw [Registry.memWithout]
    refine and_congr_right fun held' => ?_
    constructor
    · rintro apart rfl
      rw [same] at apart
      cases apart
    · intro other
      rw [← Bool.not_eq_true]
      exact fun same' => other (recent.only held' held (Path.sameTrans same' (Path.sameComm e.1 key ▸ same)))
  case never =>
    intro later p' steps
    obtain ⟨ready'', gone', silent⟩ := steps.gone ready' gone
    exact ⟨silent, fun creates done => gone'.withheld ready'' creates done⟩
  case anew =>
    intro ε s₁ s₂ here root own create created apart resolves made apart' owned mine
    obtain ⟨key', resolved, same'⟩ := resolves
    have absent : ∀ f ∈ r.without key, f.1.same key' = false := by
      intro f held'
      rw [← Bool.not_eq_true]
      intro same''
      have back := Path.sameTrans same'' (Path.sameComm e.1 key' ▸ same')
      have other := (Registry.memWithout.mp held').2
      rw [Path.sameTrans back same] at other
      cases other
    exact getOrInsertCreates (apart.registry.trans after) resolved absent made apart' owned
      (Path.sameTrans mine same')

end

theorem overlookedOf {done : Bool × Session} {r' : Registry Nat} {new : List Told}
    (step : Step k p new ⟨done.2, p.creating, p.waiting, p.made⟩)
    (after : done.2.registries[k]? = some r') (still : e ∈ r'.entries) : Overlooked k e done where
  entries := ⟨r', after, still⟩
  back apart resolves := by
    obtain ⟨history, r₂, there₂, -, recent⟩ := (step.ready ready).keeps
    cases there₂.symm.trans after
    have recent' : Registry.Recent (Owns _) r' history :=
      { recent with owned := fun f held => apart.roots (recent.owned f held) }
    exact getOrInsertHeld recent' (apart.registry.trans after) still resolves

end

/-- Whatever has happened to a registry and on the disk: an invalidation drops the package held under
a root if its path leads to that root by then, and overlooks it if not. It tells of success if there
is such a package for the path at all. -/
theorem invalidationReaches (fresh : s.registries[k]? = some (.ofCapacity capacity))
    (reached : Steps k ⟨s, 0, [], []⟩ told p) (there : p.session.registries[k]? = some r)
    (held : e ∈ r.entries) (here root : Path) :
    (p.session.Resolves here root e.1 → Dropped k p r e (p.session.invalidate here k root)) ∧
    (¬ p.session.Resolves here root e.1 → Overlooked k e (p.session.invalidate here k root)) ∧
    ((p.session.invalidate here k root).1 = true ↔ ∃ f ∈ r.entries, p.session.Resolves here root f.1) := by
  have ready := reached.ready (readyNew fresh)
  rw [invalidateDrops]
  cases resolved : p.session.machine.files.canonicalize here root with
  | error fault =>
    have nowhere (target : Path) : ¬ p.session.Resolves here root target := by
      rintro ⟨key, leads, -⟩
      cases resolved.symm.trans leads
    refine ⟨fun leads => (nowhere _ leads).elim, fun _ => ?_, ?_⟩
    · exact overlookedOf ready (.aside (.refl k _)) there held
    · simp [nowhere]
  | ok key =>
    have leads (target : Path) : p.session.Resolves here root target ↔ target.same key = true := by
      constructor
      · rintro ⟨key', resolved', same⟩
        cases resolved.symm.trans resolved'
        exact same
      · exact fun same => ⟨key, resolved, same⟩
    simp only [leads]
    refine ⟨droppedOf ready there held, fun apart => ?_, ?_⟩
    · rw [Bool.not_eq_true] at apart
      exact overlookedOf ready (.drop key) (registryAfter there key)
        (Registry.memWithout.mpr ⟨held, apart⟩)
    · rw [dropAt there]
      exact findIsSome

def onDisk (s : Session) (change : FileSystem → Except IoError FileSystem) : Session :=
  { s with machine := { s.machine with files := (change s.machine.files).toOption.getD s.machine.files } }

theorem onDiskApart (k : Nat) (s : Session) (change : FileSystem → Except IoError FileSystem) :
    Apart k s (onDisk s change) := apartPackages k s _ fun _ => rfl

def firstRemoved : Race where
  session := onDisk firstOpened.session fun fs => fs.removeTree ⟨"/"⟩ ⟨"/a"⟩
  creating := 0
  waiting := []
  made := [0]

def remade (s : Session) : Session := onDisk s fun fs => fs.makeDirectory ⟨"/"⟩ ⟨"/a"⟩ 0

def firstReplaced : Race := { firstRemoved with session := remade firstRemoved.session }

theorem removedReached : Steps 0 ⟨twoDirectories, 0, [], []⟩ [.returned 0] firstRemoved := by
  have absent : twoDirectories.look 0 ⟨"/a"⟩ = (none, twoDirectories) := rfl
  have called : Steps 0 ⟨twoDirectories, 0, [], []⟩ [] ⟨twoDirectories, 1, [], []⟩ := .tail .start (.miss absent)
  have added := called.tail (.aside (addApart 0 (bare ⟨"/a"⟩) twoDirectories))
  have made := added.tail (.make (by decide) (show root? 0 _ = some ⟨"/a"⟩ by decide +kernel))
  have opened : Steps 0 ⟨twoDirectories, 0, [], []⟩ [.returned 0] ⟨firstOpened.session, 0, [], [0]⟩ :=
    made.tail (.win (by decide) rfl)
  exact opened.tail (.aside (onDiskApart 0 firstOpened.session _))

theorem replacedReached : Steps 0 ⟨twoDirectories, 0, [], []⟩ [.returned 0] firstReplaced :=
  removedReached.tail (.aside (onDiskApart 0 firstRemoved.session _))

theorem replacedDropped : Steps 0 ⟨twoDirectories, 0, [], []⟩ [.returned 0] firstReplaced ∧
    (firstReplaced.session.registries[0]?).map Registry.entries = some [(⟨"/a"⟩, 0)] ∧
    firstReplaced.session.Resolves ⟨"/"⟩ ⟨"/a"⟩ ⟨"/a"⟩ ∧
    (∃ r, Dropped 0 firstReplaced r (⟨"/a"⟩, 0) (firstReplaced.session.invalidate ⟨"/"⟩ 0 ⟨"/a"⟩)) ∧
    ((firstReplaced.session.invalidate ⟨"/"⟩ 0 ⟨"/a"⟩).2.getOrInsert ⟨"/"⟩ 0 ⟨"/a"⟩ (opens ⟨"/a"⟩)).1 = .ok 1 := by
  have there : firstReplaced.session.registries[0]? = some ⟨1, [(⟨"/a"⟩, 0)]⟩ := rfl
  have resolved : firstReplaced.session.machine.files.canonicalize ⟨"/"⟩ ⟨"/a"⟩ = .ok ⟨"/a"⟩ := rfl
  have resolves : firstReplaced.session.Resolves ⟨"/"⟩ ⟨"/a"⟩ ⟨"/a"⟩ := ⟨_, resolved, Path.sameRefl _⟩
  have reaches := invalidationReaches rfl replacedReached there (List.mem_singleton.mpr rfl) ⟨"/"⟩ ⟨"/a"⟩
  have dropped := reaches.1 resolves
  refine ⟨replacedReached, by rw [there]; rfl, resolves, ⟨_, dropped⟩, ?_⟩
  have own : (opens ⟨"/a"⟩ (firstReplaced.session.invalidate ⟨"/"⟩ 0 ⟨"/a"⟩).2).2.root? 1 = some ⟨"/a"⟩ := by
    decide +kernel
  exact dropped.anew (.refl 0 _) resolves rfl (addApart 0 (bare ⟨"/a"⟩) _) own (Path.sameRefl _)

theorem removedOverlooked : Steps 0 ⟨twoDirectories, 0, [], []⟩ [.returned 0] firstRemoved ∧
    (firstRemoved.session.registries[0]?).map Registry.entries = some [(⟨"/a"⟩, 0)] ∧
    (firstRemoved.session.invalidate ⟨"/"⟩ 0 ⟨"/a"⟩).1 = false ∧
    ((remade (firstRemoved.session.invalidate ⟨"/"⟩ 0 ⟨"/a"⟩).2).getOrInsert ⟨"/"⟩ 0 ⟨"/a"⟩
      (opens ⟨"/a"⟩)).1 = .ok 0 := by
  have overlooked : (firstRemoved.session.invalidate ⟨"/"⟩ 0 ⟨"/a"⟩).1 = false ∧
      ((remade (firstRemoved.session.invalidate ⟨"/"⟩ 0 ⟨"/a"⟩).2).get ⟨"/"⟩ 0 ⟨"/a"⟩).1 = some 0 := by
    decide +kernel
  have there : firstRemoved.session.registries[0]? = some ⟨1, [(⟨"/a"⟩, 0)]⟩ := rfl
  refine ⟨removedReached, by rw [there]; rfl, overlooked.1, ?_⟩
  exact congrArg Prod.fst (getOrInsertHit (Prod.ext overlooked.2 rfl))

end Race
end BuildReuse.Session
