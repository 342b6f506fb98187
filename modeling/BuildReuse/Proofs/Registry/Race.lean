import BuildReuse.Proofs.Registry.Bounded

/-! Calls that race for one root. The lookup of a call and the putting in of what it has made are
sections of their own, and between the two others may look up, put in and drop what they like. A
package that is given back is the one held under its root by then, and whoever comes too late gives
back that of another and never shows his own. -/
namespace BuildReuse.Session

open Registry (Move Recent Last)

variable {k capacity : Nat} {s s' : Session} {here root key : Path} {package : Nat}

def Holding (k : Nat) (s : Session) (package : Nat) : Prop :=
  ∃ r, s.registries[k]? = some r ∧ ∃ e ∈ r.entries, e.2 = package

def Newest (k : Nat) (s : Session) (package : Nat) : Prop :=
  ∃ r root, s.registries[k]? = some r ∧ s.root? package = some root ∧
    r.entries.getLast? = some (root, package) ∧ r.find? root = some (root, package)

structure Race where
  session : Session
  creating : Nat
  waiting : List Nat
  made : List Nat

inductive Told where
  | returned (package : Nat)
  | lost (package : Nat)
  deriving DecidableEq, Repr

theorem lookHolding (found : s.look k key = (some package, s')) :
    Holding k s package ∧ ∀ other, Holding k s' other → Holding k s other := by
  obtain ⟨r, r', there, hit, rfl⟩ := lookHit found
  obtain ⟨e, held, -, own, rfl⟩ := Registry.lookupHit hit
  refine ⟨⟨r, there, e, held, own⟩, fun other holding => ?_⟩
  obtain ⟨r₂, there₂, f, mem, own₂⟩ := holding
  cases (registrySet there _).symm.trans there₂
  rcases List.mem_append.mp mem with kept | last
  · exact ⟨r, there, f, (Registry.memWithout.mp kept).1, own₂⟩
  · exact ⟨r, there, e, held, List.mem_singleton.mp last ▸ own₂⟩

theorem dropHolding {other : Nat} (holding : Holding k (s.drop k key).2 other) : Holding k s other := by
  simp only [drop] at holding
  cases there : s.registries[k]? with
  | none => simpa [there] using holding
  | some r =>
    simp only [there] at holding
    obtain ⟨r₂, there₂, f, mem, own⟩ := holding
    cases (registrySet there _).symm.trans there₂
    exact ⟨r, there, f, (Registry.memWithout.mp mem).1, own⟩

theorem keepHolding {kept : Nat} {r : Registry Nat} (own : s.root? package = some root)
    (there : s.registries[k]? = some r) (keeps : s.keep k package = (kept, s')) :
    (kept = package ∨ Holding k s kept) ∧
      ∀ other, Holding k s' other → Holding k s other ∨ other = package ∧ kept = package := by
  obtain ⟨r', inserted, rfl⟩ := keepCases own there keeps
  have entries {other} (holding : Holding k { s with registries := s.registries.set! k r' } other) :
      ∃ f ∈ r'.entries, f.2 = other := by
    obtain ⟨r₂, there₂, held⟩ := holding
    cases (registrySet there _).symm.trans there₂
    exact held
  rcases Registry.insertCases inserted with ⟨e, held, -, own', rfl⟩ | ⟨-, rfl, rfl⟩
  · refine ⟨.inr ⟨r, there, e, held, own'⟩, fun other holding => .inl ?_⟩
    obtain ⟨f, mem, rfl⟩ := entries holding
    rcases List.mem_append.mp mem with old | last
    · exact ⟨r, there, f, (Registry.memWithout.mp old).1, rfl⟩
    · exact ⟨r, there, e, held, List.mem_singleton.mp last ▸ rfl⟩
  · refine ⟨.inl rfl, fun other holding => ?_⟩
    obtain ⟨f, mem, rfl⟩ := entries holding
    rcases List.mem_append.mp (List.mem_of_mem_drop mem) with old | last
    · exact .inl ⟨r, there, f, old, rfl⟩
    · exact .inr ⟨List.mem_singleton.mp last ▸ rfl, rfl⟩

theorem newestOf {w : Watched} {r : Registry Nat} (keeps : Keeps k capacity w r) (last : Last r key package) :
    Newest k w.session package := by
  obtain ⟨there, -, recent⟩ := keeps
  obtain ⟨e, latest, -, rfl⟩ := last
  have held := List.mem_of_getLast? latest
  refine ⟨r, e.1, there, recent.owned e held, latest, ?_⟩
  cases found : r.find? e.1 with
  | none =>
    have absent := Registry.findNone found e held
    rw [Path.sameRefl] at absent
    cases absent
  | some f =>
    obtain ⟨held', same⟩ := Registry.findSome found
    rw [recent.only held' held same]

namespace Race

inductive Step (k : Nat) : Race → List Told → Race → Prop where
  | aside {s s' n waiting made} (apart : Apart k s s') :
      Step k ⟨s, n, waiting, made⟩ [] ⟨s', n, waiting, made⟩
  | find {s s' n waiting made key package} (found : s.look k key = (some package, s')) :
      Step k ⟨s, n, waiting, made⟩ [.returned package] ⟨s', n, waiting, made⟩
  | miss {s s' n waiting made key} (missed : s.look k key = (none, s')) :
      Step k ⟨s, n, waiting, made⟩ [] ⟨s', n + 1, waiting, made⟩
  | stray {s n waiting made here root e} (unresolved : s.machine.files.canonicalize here root = .error e) :
      Step k ⟨s, n, waiting, made⟩ [] ⟨s, n + 1, waiting, made⟩
  | drop {s n waiting made} (key) : Step k ⟨s, n, waiting, made⟩ [] ⟨(s.drop k key).2, n, waiting, made⟩
  | fail {s n waiting made} : Step k ⟨s, n + 1, waiting, made⟩ [] ⟨s, n, waiting, made⟩
  | make {s n waiting made package root} (fresh : package ∉ made) (own : s.root? package = some root) :
      Step k ⟨s, n + 1, waiting, made⟩ [] ⟨s, n, package :: waiting, package :: made⟩
  | win {s s' n waiting made package} (waits : package ∈ waiting) (keeps : s.keep k package = (package, s')) :
      Step k ⟨s, n, waiting, made⟩ [.returned package] ⟨s', n, waiting.erase package, made⟩
  | lose {s s' n waiting made package kept} (waits : package ∈ waiting)
      (keeps : s.keep k package = (kept, s')) (other : kept ≠ package) :
      Step k ⟨s, n, waiting, made⟩ [.returned kept, .lost package] ⟨s', n, waiting.erase package, made⟩

inductive Steps (k : Nat) (p : Race) : List Told → Race → Prop where
  | start : Steps k p [] p
  | tail {told p' new p''} (before : Steps k p told p') (step : Step k p' new p'') :
      Steps k p (new ++ told) p''

inductive Tenure (k : Nat) (root : Path) (p : Race) : List Told → Race → Prop where
  | start : Tenure k root p [] p
  | tail {told p' new p'' r e} (before : Tenure k root p told p') (step : Step k p' new p'')
      (there : p''.session.registries[k]? = some r) (held : e ∈ r.entries) (same : e.1.same root = true) :
      Tenure k root p (new ++ told) p''

structure Ready (k capacity : Nat) (told : List Told) (p : Race) : Prop where
  keeps : ∃ history r, Keeps k capacity ⟨p.session, history⟩ r
  rooted : ∀ package ∈ p.made, ∃ root, p.session.root? package = some root
  waiting : ∀ package ∈ p.waiting, package ∈ p.made
  once : p.waiting.Nodup
  shown : ∀ package, Holding k p.session package ∨ .returned package ∈ told →
    package ∈ p.made ∧ package ∉ p.waiting ∧ .lost package ∉ told
  lost : ∀ package, .lost package ∈ told → package ∈ p.made ∧ package ∉ p.waiting

variable {told new : List Told} {p p' : Race}

theorem readyNew (fresh : s.registries[k]? = some (.ofCapacity capacity)) :
    Ready k capacity [] ⟨s, 0, [], []⟩ where
  keeps := ⟨[], _, keepsNew fresh⟩
  rooted := nofun
  waiting := nofun
  once := .nil
  shown package either := by
    rcases either with ⟨r, there, e, held, -⟩ | never
    · cases fresh.symm.trans there
      cases held
    · cases never
  lost := nofun

namespace Ready

theorem owned (ready : Ready k capacity told p) (waits : package ∈ p.waiting) :
    ∃ root, p.session.root? package = some root := ready.rooted package (ready.waiting package waits)

theorem addFresh (ready : Ready k capacity told p) (opened : Package) :
    (p.session.add opened).1 ∉ p.made := by
  intro old
  obtain ⟨root, own⟩ := ready.rooted _ old
  simp [add, root?] at own

end Ready

theorem Step.moves (step : Step k p new p') (ready : Ready k capacity told p) (history : List Registry.Event) :
    ∃ history', Moves k ⟨p.session, history⟩ ⟨p'.session, history'⟩ := by
  cases step with
  | aside apart => exact ⟨_, apart.moves⟩
  | find found => exact ⟨_, lookMoves found⟩
  | miss missed =>
    cases lookMiss missed
    exact ⟨_, (Apart.refl k _).moves⟩
  | stray unresolved => exact ⟨_, (Apart.refl k _).moves⟩
  | drop key => exact ⟨_, dropMoves _ k key history⟩
  | fail => exact ⟨_, (Apart.refl k _).moves⟩
  | make fresh own => exact ⟨_, (Apart.refl k _).moves⟩
  | win waits keeps =>
    obtain ⟨root, own⟩ := ready.owned waits
    have moves := keepMoves (k := k) own history
    rw [keeps] at moves
    exact ⟨_, moves⟩
  | lose waits keeps other =>
    obtain ⟨root, own⟩ := ready.owned waits
    have moves := keepMoves (k := k) own history
    rw [keeps] at moves
    exact ⟨_, moves⟩

theorem Step.keeps (step : Step k p new p') (ready : Ready k capacity told p) :
    ∃ history r, Keeps k capacity ⟨p'.session, history⟩ r := by
  obtain ⟨history, r, keeps⟩ := ready.keeps
  obtain ⟨history', moves⟩ := step.moves ready history
  exact ⟨history', moves.keeps keeps⟩

theorem Step.roots (step : Step k p new p') (ready : Ready k capacity told p)
    (own : p.session.root? package = some root) : p'.session.root? package = some root := by
  obtain ⟨history', moves⟩ := step.moves ready []
  exact moves.roots own

namespace Ready

variable {n : Nat} {waiting made : List Nat}

theorem tells (ready : Ready k capacity told ⟨s, n, waiting, made⟩) (holds : Holding k s package)
    (keeps : ∃ history r, Keeps k capacity ⟨s', history⟩ r)
    (rooted : ∀ package ∈ made, ∃ root, s'.root? package = some root)
    (before : ∀ other, Holding k s' other → Holding k s other) :
    Ready k capacity (.returned package :: told) ⟨s', n, waiting, made⟩ where
  keeps := keeps
  rooted := rooted
  waiting := ready.waiting
  once := ready.once
  shown other either := by
    have old : Holding k s other ∨ .returned other ∈ told := by
      rcases either with holding | returned
      · exact .inl (before other holding)
      · rcases List.mem_cons.mp returned with same | returned
        · cases same
          exact .inl holds
        · exact .inr returned
    simpa using ready.shown other old
  lost other lost := ready.lost other (by simpa using lost)

theorem makes (ready : Ready k capacity told ⟨s, n + 1, waiting, made⟩) (fresh : package ∉ made)
    (own : s.root? package = some root) :
    Ready k capacity told ⟨s, n, package :: waiting, package :: made⟩ where
  keeps := ready.keeps
  rooted other mem := by
    rcases List.mem_cons.mp mem with rfl | old
    · exact ⟨root, own⟩
    · exact ready.rooted other old
  waiting other mem := by
    rcases List.mem_cons.mp mem with rfl | waits
    · exact List.mem_cons_self
    · exact List.mem_cons_of_mem _ (ready.waiting other waits)
  once := List.nodup_cons.mpr ⟨fun waits => fresh (ready.waiting package waits), ready.once⟩
  shown other either := by
    obtain ⟨old, idle, notLost⟩ := ready.shown other either
    have apart : other ≠ package := fun same => fresh (same ▸ old)
    exact ⟨List.mem_cons_of_mem _ old, by simp [apart, idle], notLost⟩
  lost other lost := by
    obtain ⟨old, idle⟩ := ready.lost other lost
    have apart : other ≠ package := fun same => fresh (same ▸ old)
    exact ⟨List.mem_cons_of_mem _ old, by simp [apart, idle]⟩

theorem settles {told' : List Told} (ready : Ready k capacity told ⟨s, n, waiting, made⟩)
    (waits : package ∈ waiting) (keeps : ∃ history r, Keeps k capacity ⟨s', history⟩ r)
    (rooted : ∀ package ∈ made, ∃ root, s'.root? package = some root)
    (shown : ∀ other, Holding k s' other ∨ .returned other ∈ told' →
      (Holding k s other ∨ .returned other ∈ told) ∨ other = package ∧ .lost package ∉ told')
    (lost : ∀ other, .lost other ∈ told' → .lost other ∈ told ∨ other = package) :
    Ready k capacity told' ⟨s', n, waiting.erase package, made⟩ where
  keeps := keeps
  rooted := rooted
  waiting other mem := ready.waiting other (List.mem_of_mem_erase mem)
  once := ready.once.erase package
  shown other either := by
    rcases shown other either with old | ⟨rfl, notLost⟩
    · obtain ⟨made, idle, notLost⟩ := ready.shown other old
      refine ⟨made, fun mem => idle (List.mem_of_mem_erase mem), fun now => ?_⟩
      rcases lost other now with earlier | rfl
      · exact notLost earlier
      · exact idle waits
    · exact ⟨ready.waiting other waits, ready.once.not_mem_erase, notLost⟩
  lost other now := by
    rcases lost other now with earlier | rfl
    · obtain ⟨made, idle⟩ := ready.lost other earlier
      exact ⟨made, fun mem => idle (List.mem_of_mem_erase mem)⟩
    · exact ⟨ready.waiting other waits, ready.once.not_mem_erase⟩

end Ready

theorem Step.ready (step : Step k p new p') (ready : Ready k capacity told p) :
    Ready k capacity (new ++ told) p' := by
  have keeps := step.keeps ready
  have rooted : ∀ package ∈ p.made, ∃ root, p'.session.root? package = some root := by
    intro package made
    obtain ⟨root, own⟩ := ready.rooted package made
    exact ⟨root, step.roots ready own⟩
  obtain ⟨history, r, there, -, -⟩ := ready.keeps
  cases step with
  | aside apart =>
    refine ⟨keeps, rooted, ready.waiting, ready.once, fun package either => ready.shown package ?_, ready.lost⟩
    exact either.imp_left fun holding => by simpa only [Holding, apart.registry] using holding
  | find found =>
    obtain ⟨holds, before⟩ := lookHolding found
    exact ready.tells holds keeps rooted before
  | miss missed =>
    cases lookMiss missed
    exact ⟨keeps, rooted, ready.waiting, ready.once, ready.shown, ready.lost⟩
  | stray unresolved => exact ⟨keeps, rooted, ready.waiting, ready.once, ready.shown, ready.lost⟩
  | drop key =>
    exact ⟨keeps, rooted, ready.waiting, ready.once,
      fun package either => ready.shown package (either.imp_left dropHolding), ready.lost⟩
  | fail => exact ⟨keeps, rooted, ready.waiting, ready.once, ready.shown, ready.lost⟩
  | make fresh own => exact ready.makes fresh own
  | @win s s' n waiting made own waits put =>
    obtain ⟨root, owned⟩ := ready.owned waits
    obtain ⟨-, before⟩ := keepHolding owned there put
    have notLost : .lost own ∉ [.returned own] ++ told := by
      simpa using fun lost => (ready.lost own lost).2 waits
    refine ready.settles waits keeps rooted (fun other either => ?_) fun other lost => .inl (by simpa using lost)
    rcases either with holding | returned
    · exact (before other holding).imp .inl fun same => ⟨same.1, notLost⟩
    · rcases List.mem_cons.mp returned with same | returned
      · cases same
        exact .inr ⟨rfl, notLost⟩
      · exact .inl (.inr returned)
  | @lose s s' n waiting made own kept waits put late =>
    obtain ⟨root, owned⟩ := ready.owned waits
    obtain ⟨which, before⟩ := keepHolding owned there put
    refine ready.settles waits keeps rooted (fun other either => .inl ?_) fun other lost => ?_
    · rcases either with holding | returned
      · exact .inl ((before other holding).resolve_right fun same => late same.2)
      · rcases List.mem_cons.mp returned with same | returned
        · cases same
          exact .inl (which.resolve_left late)
        · exact .inr (by simpa using returned)
    · rcases (by simpa using lost : other = own ∨ .lost other ∈ told) with same | earlier
      · exact .inr same
      · exact .inl earlier

theorem Steps.ready (steps : Steps k p told p') (ready : Ready k capacity [] p) : Ready k capacity told p' := by
  induction steps with
  | start => exact ready
  | tail before step ih => exact step.ready ih

theorem Step.newest (step : Step k p new p') (ready : Ready k capacity told p)
    (returned : .returned package ∈ new) : Newest k p'.session package := by
  obtain ⟨history, r', keeps⟩ := step.keeps ready
  obtain ⟨history', r, there, room, recent⟩ := ready.keeps
  cases step with
  | find found =>
    cases List.mem_singleton.mp returned
    obtain ⟨r₁, r₂, there₁, hit, rfl⟩ := lookHit found
    cases (registrySet there₁ r₂).symm.trans keeps.1
    exact newestOf keeps (Registry.lookupLast hit)
  | win waits put =>
    cases List.mem_singleton.mp returned
    obtain ⟨root, own⟩ := ready.owned waits
    obtain ⟨r₂, inserted, rfl⟩ := keepCases own there put
    cases (registrySet there r₂).symm.trans keeps.1
    exact newestOf keeps (Registry.insertLast recent.room inserted)
  | lose waits put other =>
    obtain ⟨root, own⟩ := ready.owned waits
    obtain ⟨r₂, inserted, rfl⟩ := keepCases own there put
    cases (registrySet there r₂).symm.trans keeps.1
    have kept := newestOf keeps (Registry.insertLast recent.room inserted)
    simp only [List.mem_cons, Told.returned.injEq, reduceCtorEq, List.not_mem_nil, or_false] at returned
    exact returned ▸ kept
  | aside apart => cases returned
  | miss missed => cases returned
  | stray unresolved => cases returned
  | drop key => cases returned
  | fail => cases returned
  | make fresh own => cases returned

theorem Step.tenant (step : Step k p new p') (ready : Ready k capacity told p) {r r' : Registry Nat}
    (there : p.session.registries[k]? = some r) (there' : p'.session.registries[k]? = some r')
    {e f : Path × Nat} (held : e ∈ r.entries) (held' : f ∈ r'.entries) (same : e.1.same f.1 = true) : e = f := by
  obtain ⟨history, r₁, there₁, -, recent⟩ := ready.keeps
  cases there₁.symm.trans there
  obtain ⟨history', moves⟩ := step.moves ready history
  obtain ⟨events, -, moved⟩ := moves.moved
  obtain ⟨r₂, there₂, move⟩ := moved r there
  cases there₂.symm.trans there'
  exact move.tenant recent held held' same

theorem Tenure.shares {later : List Told} {r : Registry Nat} {e : Path × Nat} (tenure : Tenure k e.1 p later p')
    (ready : Ready k capacity told p) (there : p.session.registries[k]? = some r) (held : e ∈ r.entries) :
    Ready k capacity (later ++ told) p' ∧
      (∃ r', p'.session.registries[k]? = some r' ∧ e ∈ r'.entries) ∧
      ∀ package, .returned package ∈ later → ∃ root, p'.session.root? package = some root ∧
        (root.same e.1 = true → package = e.2) := by
  induction tenure with
  | start => exact ⟨ready, ⟨r, there, held⟩, nofun⟩
  | @tail later p₁ new p₂ r₂ f before step there₂ held₂ same ih =>
    obtain ⟨ready₁, ⟨r₁, there₁, held₁⟩, shared⟩ := ih
    have stays := step.tenant ready₁ there₁ there₂ held₁ held₂ (Path.sameComm f.1 e.1 ▸ same)
    cases stays
    have ready₂ := step.ready ready₁
    rw [← List.append_assoc] at ready₂
    refine ⟨ready₂, ⟨r₂, there₂, held₂⟩, fun package returned => ?_⟩
    rcases List.mem_append.mp returned with now | earlier
    · obtain ⟨r₃, root, there₃, own, latest, -⟩ := step.newest ready₁ now
      cases there₂.symm.trans there₃
      refine ⟨root, own, fun same => ?_⟩
      obtain ⟨history, r₄, there₄, -, recent⟩ := ready₂.keeps
      cases there₂.symm.trans there₄
      have both := recent.only (List.mem_of_getLast? latest) held₂ same
      rw [← both]
    · obtain ⟨root, own, shared⟩ := shared package earlier
      exact ⟨root, step.roots ready₁ own, shared⟩

theorem Steps.head {p'' : Race} (step : Step k p [] p') (steps : Steps k p' told p'') : Steps k p told p'' := by
  induction steps with
  | start => exact .tail .start step
  | tail before next ih => exact .tail ih next

theorem missStep (missed : p.session.get here k root = (none, s')) :
    Step k p [] ⟨s', p.creating + 1, p.waiting, p.made⟩ := by
  cases resolved : p.session.machine.files.canonicalize here root with
  | error e =>
    cases getMiss missed
    exact .stray resolved
  | ok key =>
    simp only [getLooks, resolved] at missed
    exact .miss missed

inductive Calls {ε : Type} (k : Nat) (p : Race) (here root : Path) (create : Session → Except ε Nat × Session)
    (package : Nat) (s' : Session) : Prop where
  | finds {key : Path} (resolved : p.session.machine.files.canonicalize here root = .ok key)
      (found : p.session.look k key = (some package, s'))
      (step : Step k p [.returned package] ⟨s', p.creating, p.waiting, p.made⟩)
  | creates {created s₂} (vain : Vain k p.session here root)
      (step : Step k p [] ⟨p.session, p.creating + 1, p.waiting, p.made⟩)
      (made : create p.session = (.ok created, s₂)) (put : s₂.keep k created = (package, s'))
      (among : ∀ {during n waiting made}, (∃ own, s₂.root? created = some own) → created ∉ made →
        Steps k ⟨p.session, p.creating + 1, p.waiting, p.made⟩ during ⟨s₂, n + 1, waiting, made⟩ →
        ∃ told, .returned package ∈ told ∧ Steps k p (told ++ during) ⟨s', n, waiting, created :: made⟩)

theorem getOrInsertCalls {ε : Type} {create : Session → Except ε Nat × Session}
    (done : p.session.getOrInsert here k root create = (.ok package, s')) :
    Calls k p here root create package s' := by
  rcases foundOrVain k p.session here root with ⟨key, e, found⟩ | vain
  · cases looked : p.session.get here k root with
    | mk held s₁ =>
      cases held with
      | none => exact (vainIff.mpr (by rw [looked]) key e found).elim
      | some held =>
        rw [getOrInsertHit looked] at done
        cases done
        obtain ⟨key', resolved, hit⟩ := getHit looked
        exact .finds resolved hit (.find hit)
  · rw [getOrInsertMiss (getVain vain)] at done
    cases creates : create p.session with
    | mk result s₂ =>
      rw [creates] at done
      cases result with
      | error e => cases done
      | ok created =>
        cases put : s₂.keep k created with
        | mk kept s₃ =>
          simp only [put] at done
          cases done
          have misses := missStep (p := p) (getVain vain)
          refine .creates vain misses creates put fun {during n waiting made} own fresh others => ?_
          obtain ⟨root, own⟩ := own
          have makes := (others.head misses).tail (.make fresh own)
          have waits : created ∈ created :: waiting := List.mem_cons_self
          by_cases same : package = created
          · have wins : Step k ⟨s₂, n, created :: waiting, created :: made⟩ _ _ := .win waits (same ▸ put)
            rw [List.erase_cons_head] at wins
            exact ⟨_, same ▸ List.mem_cons_self, makes.tail wins⟩
          · have loses : Step k ⟨s₂, n, created :: waiting, created :: made⟩ _ _ := .lose waits put same
            rw [List.erase_cons_head] at loses
            exact ⟨_, List.mem_cons_self, makes.tail loses⟩

/-- After any sections of any number of calls on a new registry: a package that a call gives back is
the one held under its root, and the one used last; as long as something stays held under this root,
whatever else is given back for it is the same package. A package that came too late is given back at
no time. A package that is opened is none of those made before, and a call of `getOrInsert` is a
number of such sections. -/
theorem racersShare (new : s.registries[k]? = some (.ofCapacity capacity))
    (reached : Steps k ⟨s, 0, [], []⟩ told p) :
    (∀ {now p'}, Step k p now p' → ∀ package, .returned package ∈ now →
      Newest k p'.session package ∧
      ∀ root, p'.session.root? package = some root → ∀ {later p''}, Tenure k root p' later p'' →
        ∀ other, .returned other ∈ later → ∃ root', p''.session.root? other = some root' ∧
          (root'.same root = true → other = package)) ∧
    (∀ package, .lost package ∈ told → .returned package ∉ told) ∧
    (∀ opened : Package, (p.session.add opened).1 ∉ p.made) ∧
    ∀ {ε : Type} (here root : Path) (create : Session → Except ε Nat × Session) package s',
      p.session.getOrInsert here k root create = (.ok package, s') → Calls k p here root create package s' := by
  have ready := reached.ready (readyNew new)
  refine ⟨fun {now p'} step package returned => ?_, fun package lost returned => ?_, ready.addFresh, ?_⟩
  · have newest := step.newest ready returned
    refine ⟨newest, fun root own later p'' tenure => ?_⟩
    obtain ⟨r, root', there, own', latest, -⟩ := newest
    cases own.symm.trans own'
    exact (tenure.shares (step.ready ready) there (List.mem_of_getLast? latest)).2.2
  · exact (ready.shown package (.inr returned)).2.2 lost
  · exact fun here root create package s' => getOrInsertCalls

def twins : Session where
  machine := ⟨.empty, .empty, 0, 0, [], []⟩
  packages := #[⟨bare ⟨"/a"⟩, (bare ⟨"/a"⟩).fresh⟩, ⟨bare ⟨"/a"⟩, (bare ⟨"/a"⟩).fresh⟩]
  registries := #[.ofCapacity 4]

def firstIn : Race := ⟨(twins.keep 0 0).2, 0, [1], [1, 0]⟩

def bothIn : Race := ⟨(firstIn.session.keep 0 1).2, 0, [], [1, 0]⟩

theorem bothMade : Steps 0 ⟨twins, 0, [], []⟩ [] ⟨twins, 0, [1, 0], [1, 0]⟩ := by
  have absent : twins.look 0 ⟨"/a"⟩ = (none, twins) := rfl
  have called : Steps 0 ⟨twins, 0, [], []⟩ [] ⟨twins, 2, [], []⟩ :=
    .tail (.tail .start (.miss absent)) (.miss absent)
  have own : twins.root? 0 = some ⟨"/a"⟩ := rfl
  have own' : twins.root? 1 = some ⟨"/a"⟩ := rfl
  exact (called.tail (.make (by decide) own)).tail (.make (by decide) own')

theorem firstWins : Step 0 ⟨twins, 0, [1, 0], [1, 0]⟩ [.returned 0] firstIn :=
  .win (by decide) rfl

theorem secondLoses : Step 0 firstIn [.returned 0, .lost 1] bothIn :=
  .lose (by decide) rfl (by decide)

theorem lateTwinHidden : Steps 0 ⟨twins, 0, [], []⟩ [.returned 0, .lost 1, .returned 0] bothIn ∧
    Newest 0 firstIn.session 0 ∧ Newest 0 bothIn.session 0 ∧
    Tenure 0 ⟨"/a"⟩ firstIn [.returned 0, .lost 1] bothIn ∧
    (∀ other, .returned other ∈ [.returned 0, Told.lost 1] → ∃ root, bothIn.session.root? other = some root ∧
      (root.same ⟨"/a"⟩ = true → other = 0)) ∧
    .returned 1 ∉ [.returned 0, .lost 1, Told.returned 0] := by
  have reached := (bothMade.tail firstWins).tail secondLoses
  have tenure : Tenure 0 ⟨"/a"⟩ firstIn [.returned 0, .lost 1] bothIn := by
    have there : bothIn.session.registries[0]? = some ⟨4, [(⟨"/a"⟩, 0)]⟩ := rfl
    exact .tail .start secondLoses there (List.mem_singleton.mpr rfl) (Path.sameRefl _)
  obtain ⟨shares, -, -⟩ := racersShare rfl bothMade
  obtain ⟨shares', -, -⟩ := racersShare rfl (bothMade.tail firstWins)
  obtain ⟨-, hidden, -⟩ := racersShare rfl reached
  obtain ⟨newest, same⟩ := shares firstWins 0 (by decide)
  exact ⟨reached, newest, (shares' secondLoses 0 (by decide)).1, tenure, same ⟨"/a"⟩ rfl tenure,
    hidden 1 (by decide)⟩

end Race

end BuildReuse.Session
