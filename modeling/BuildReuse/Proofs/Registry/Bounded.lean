import BuildReuse.Proofs.Registry.Sections

/-! A registry under any sequence of requests. While a package is made, anything may
happen in the session, and be it to the same registry: the making is a sequence of requests itself.
So each request is one course of moves, and what all moves keep holds after any of them. -/
namespace BuildReuse.Session

open Registry (Event Last Recent lastUse Crowded)

variable {k capacity : Nat} {s s' : Session} {here root key : Path} {history : List Event} {ε : Type}

inductive Serves (k : Nat) : Watched → Watched → Prop where
  | start (w) : Serves k w w
  | aside {w s s' h} (before : Serves k w ⟨s, h⟩) (apart : Apart k s s') : Serves k w ⟨s', h⟩
  | hit {w s h here root key e} (before : Serves k w ⟨s, h⟩) (found : Found k s here root key e) :
      Serves k w ⟨(s.get here k root).2, .used key :: h⟩
  | miss {w s h here root} (before : Serves k w ⟨s, h⟩) (vain : Vain k s here root) :
      Serves k w ⟨(s.get here k root).2, h⟩
  | invalidate {w s h here root key} (before : Serves k w ⟨s, h⟩)
      (resolved : s.machine.files.canonicalize here root = .ok key) :
      Serves k w ⟨(s.invalidate here k root).2, .dropped key :: h⟩
  | stray {w s h here root e} (before : Serves k w ⟨s, h⟩)
      (unresolved : s.machine.files.canonicalize here root = .error e) :
      Serves k w ⟨(s.invalidate here k root).2, h⟩
  | reuse {w s h here root key e} {ε : Type} (create : Session → Except ε Nat × Session)
      (before : Serves k w ⟨s, h⟩) (found : Found k s here root key e) :
      Serves k w ⟨(s.getOrInsert here k root create).2, .used key :: h⟩
  | fail {w s h here root s₂ h₂} {ε : Type} {create : Session → Except ε Nat × Session} {e : ε}
      (before : Serves k w ⟨s, h⟩) (vain : Vain k s here root)
      (creation : Serves k ⟨s, h⟩ ⟨s₂, h₂⟩) (failed : create s = (.error e, s₂)) :
      Serves k w ⟨(s.getOrInsert here k root create).2, h₂⟩
  | insert {w s h here root s₂ h₂ package key} {ε : Type} {create : Session → Except ε Nat × Session}
      (before : Serves k w ⟨s, h⟩) (vain : Vain k s here root)
      (creation : Serves k ⟨s, h⟩ ⟨s₂, h₂⟩) (made : create s = (.ok package, s₂))
      (own : s₂.root? package = some key) :
      Serves k w ⟨(s.getOrInsert here k root create).2, .used key :: h₂⟩

variable {create : Session → Except ε Nat × Session}

theorem Serves.course {w w' : Watched} (serves : Serves k w w') : Course k w w' := by
  induction serves with
  | start w => exact .refl
  | aside before apart ih => exact ih.tail apart.moves
  | hit before found ih => exact ih.tail (found.getMoves _)
  | miss before vain ih =>
    rw [getVain vain]
    exact ih
  | invalidate before resolved ih => exact ih.tail (invalidateMoves resolved)
  | stray before unresolved ih =>
    rw [invalidateDrops, unresolved]
    exact ih
  | reuse create before found ih =>
    rw [found.getOrInsert]
    exact ih.tail (found.getMoves _)
  | fail before vain creation failed ih made =>
    rw [getOrInsertMiss (getVain vain)]
    simp only [failed]
    exact ih.trans made
  | insert before vain creation created own ih made =>
    rw [getOrInsertMiss (getVain vain)]
    simp only [created]
    exact (ih.trans made).tail (keepMoves own _)

structure Open (k : Nat) (w : Watched) : Prop where
  perform : ∀ {α : Type} limit (t : Task Machine α), Serves k w ⟨(w.session.perform limit t).2, w.history⟩
  serve : ∀ limit requests, Serves k w ⟨(w.session.serve limit requests).2, w.history⟩
  add : ∀ p, Serves k w ⟨(w.session.add p).2, w.history⟩
  retire : ∀ referred, Serves k w ⟨w.session.retire referred, w.history⟩
  get : ∀ here root, ∃ history, Serves k w ⟨(w.session.get here k root).2, history⟩
  invalidate : ∀ here root, ∃ history, Serves k w ⟨(w.session.invalidate here k root).2, history⟩
  getOrInsert : ∀ {ε : Type} here root (create : Session → Except ε Nat × Session),
    (∃ history, Serves k w ⟨(create w.session).2, history⟩) →
    (∀ package s', create w.session = (.ok package, s') → ∃ key, s'.root? package = some key) →
    ∃ history, Serves k w ⟨(w.session.getOrInsert here k root create).2, history⟩

theorem servesGet (k : Nat) (here root : Path) (s : Session) (history : List Event) :
    ∃ history', Serves k ⟨s, history⟩ ⟨(s.get here k root).2, history'⟩ := by
  rcases foundOrVain k s here root with ⟨key, e, found⟩ | vain
  · exact ⟨_, .hit (.start _) found⟩
  · exact ⟨_, .miss (.start _) vain⟩

theorem servesInvalidate (k : Nat) (here root : Path) (s : Session) (history : List Event) :
    ∃ history', Serves k ⟨s, history⟩ ⟨(s.invalidate here k root).2, history'⟩ := by
  cases resolved : s.machine.files.canonicalize here root with
  | ok key => exact ⟨_, .invalidate (.start _) resolved⟩
  | error e => exact ⟨_, .stray (.start _) resolved⟩

theorem servesGetOrInsert (k : Nat) (here root : Path) (s : Session) (history : List Event)
    (creation : ∃ history', Serves k ⟨s, history⟩ ⟨(create s).2, history'⟩)
    (own : ∀ package s', create s = (.ok package, s') → ∃ key, s'.root? package = some key) :
    ∃ history', Serves k ⟨s, history⟩ ⟨(s.getOrInsert here k root create).2, history'⟩ := by
  rcases foundOrVain k s here root with ⟨key, e, found⟩ | vain
  · exact ⟨_, .reuse create (.start _) found⟩
  · obtain ⟨history', creation⟩ := creation
    cases made : create s with
    | mk result s₂ =>
      rw [made] at creation
      cases result with
      | error e => exact ⟨_, .fail (.start _) vain creation made⟩
      | ok package =>
        obtain ⟨key, own⟩ := own package s₂ made
        exact ⟨_, .insert (.start _) vain creation made own⟩

theorem alwaysOpen (k : Nat) (w : Watched) : Open k w where
  perform limit t := .aside (.start w) (performApart k limit t w.session)
  serve limit requests := .aside (.start w) (serveApart k limit requests w.session)
  add p := .aside (.start w) (addApart k p w.session)
  retire referred := .aside (.start w) (retireApart k referred w.session)
  get here root := servesGet k here root w.session w.history
  invalidate here root := servesInvalidate k here root w.session w.history
  getOrInsert here root _ := servesGetOrInsert k here root w.session w.history

structure Answers (k : Nat) (w : Watched) (r : Registry Nat) : Prop where
  held : ∀ {here root key e}, Found k w.session here root key e →
    ∃ s', s'.registries[k]? = some { r with entries := r.without key ++ [e] } ∧
      w.session.get here k root = (some e.2, s') ∧
      ∀ {ε : Type} (create : Session → Except ε Nat × Session),
        w.session.getOrInsert here k root create = (.ok e.2, s')
  vain : ∀ {here root}, Vain k w.session here root → w.session.get here k root = (none, w.session)
  failed : ∀ {ε : Type} (here root : Path) (create : Session → Except ε Nat × Session) (e : ε) (s' : Session),
    w.session.getOrInsert here k root create = (.error e, s') → create w.session = (.error e, s')
  created : ∀ {ε : Type} {here root} {create : Session → Except ε Nat × Session} {package key s₂ h₂},
    Vain k w.session here root → create w.session = (.ok package, s₂) → s₂.root? package = some key →
    Serves k w ⟨s₂, h₂⟩ → ∃ r₂ kept s' r', s₂.registries[k]? = some r₂ ∧
      w.session.getOrInsert here k root create = (.ok kept, s') ∧ s'.registries[k]? = some r' ∧
      Last r' key kept ∧ (∀ e ∈ r₂.entries, e.1.same key = true → kept = e.2) ∧
      ((∀ e ∈ r₂.entries, e.1.same key = false) → kept = package)

theorem Keeps.answers {w : Watched} {r : Registry Nat} (keeps : Keeps k capacity w r) : Answers k w r where
  held {here root key e} found := by
    obtain ⟨resolved, ⟨r₁, there, held⟩, same⟩ := found
    cases keeps.1.symm.trans there
    have got := getHeld keeps.2.2 there held same resolved
    exact ⟨_, registrySet there _, got, fun _ => getOrInsertHit got⟩
  vain := getVain
  failed here root create e s' := getOrInsertFails
  created {ε here root create package key s₂ h₂} vain made own serves := by
    obtain ⟨r₂, there, room, recent⟩ := Course.keeps serves.course keeps
    cases put : s₂.keep k package with
    | mk kept s' =>
      obtain ⟨r', inserted, rfl⟩ := keepCases own there put
      have done : w.session.getOrInsert here k root create =
          (.ok kept, { s₂ with registries := s₂.registries.set! k r' }) := by
        rw [getOrInsertMiss (getVain vain)]
        simp only [made, put]
      refine ⟨r₂, kept, _, r', there, done, registrySet there r', Registry.insertLast recent.room inserted, ?_⟩
      rcases Registry.insertCases inserted with ⟨e, held, same, rfl, -⟩ | ⟨absent, rfl, -⟩
      · refine ⟨fun f held' same' => ?_, fun absent => ?_⟩
        · rw [recent.only held held' (Path.sameTrans same (Path.sameComm f.1 key ▸ same'))]
        · rw [absent e held] at same
          cases same
      · refine ⟨fun e held same => ?_, fun _ => rfl⟩
        rw [absent e held] at same
        cases same

/-- After any sequence of requests to a new registry: it holds no more than its capacity, and one
package at most under a key, which is the root of that package. The packages stand in the order of
their last use, and have all been used. Each request finds what is held and puts it last. Whatever is
requested then, a package that was held and is not any more has left when its root was dropped, or
when as many other roots as there is room for had been used since. -/
theorem boundedRecency (new : s.registries[k]? = some (.ofCapacity capacity)) {w : Watched}
    (serves : Serves k ⟨s, []⟩ w) :
    ∃ r, w.session.registries[k]? = some r ∧
      r.entries.length ≤ max capacity 1 ∧
      (r.entries.Pairwise fun e f => e.1.same f.1 = false) ∧
      (∀ e ∈ r.entries, w.session.root? e.2 = some e.1) ∧
      (r.entries.Pairwise fun e f => lastUse e.1 w.history < lastUse f.1 w.history) ∧
      (∀ e ∈ r.entries, 0 < lastUse e.1 w.history) ∧
      Answers k w r ∧ Open k w ∧
      ∀ w', Serves k w w' → ∃ r', w'.session.registries[k]? = some r' ∧
        ∀ e ∈ r.entries, e ∉ r'.entries → ∃ event before, w.history <:+ before ∧
          event :: before <:+ w'.history ∧
          ((∃ key, event = .dropped key ∧ e.1.same key = true) ∨
            Crowded (max capacity 1) (event :: before) e.1) := by
  obtain ⟨r, keeps⟩ := Course.keeps serves.course (keepsNew new)
  have recent := keeps.2.2
  refine ⟨r, keeps.1, ?_, recent.distinct, recent.owned, recent.ordered, recent.used,
    keeps.answers, alwaysOpen k w, ?_⟩
  · have bounded := recent.bounded
    rwa [keeps.2.1] at bounded
  · intro w' later
    obtain ⟨r', keeps'⟩ := Course.keeps later.course keeps
    exact ⟨r', keeps'.1, fun e held gone => Course.leaves later.course keeps keeps' held gone⟩

def bare (root : Path) : Package := ⟨⟨⟨root, ⟨⟨"/"⟩, 1⟩, 0, "lock", .ofMillis 0⟩, root, "p", root⟩, []⟩

def opens (root : Path) (s : Session) : Except Unit Nat × Session :=
  (.ok (s.add (bare root)).1, (s.add (bare root)).2)

def twoDirectories : Session where
  machine := ⟨⟨#[⟨.directory [("a", 1), ("b", 2)], 0o755, 0⟩, ⟨.directory [], 0o755, 0⟩,
    ⟨.directory [], 0o755, 0⟩]⟩, .empty, 0, 0, [], []⟩
  packages := #[]
  registries := #[.ofCapacity 0]

def firstOpened : Watched where
  session := (twoDirectories.getOrInsert ⟨"/"⟩ 0 ⟨"/a"⟩ (opens ⟨"/a"⟩)).2
  history := [.used ⟨"/a"⟩]

def opensSecond (s : Session) : Except Unit Nat × Session := opens ⟨"/b"⟩ (s.get ⟨"/"⟩ 0 ⟨"/a"⟩).2

def secondOpened : Watched where
  session := (firstOpened.session.getOrInsert ⟨"/"⟩ 0 ⟨"/b"⟩ opensSecond).2
  history := [.used ⟨"/b"⟩, .used ⟨"/a"⟩, .used ⟨"/a"⟩]

theorem firstServed : Serves 0 ⟨twoDirectories, []⟩ firstOpened := by
  have vain : Vain 0 twoDirectories ⟨"/"⟩ ⟨"/a"⟩ := vainIff.mpr (by decide +kernel)
  have made : Serves 0 ⟨twoDirectories, []⟩ ⟨(opens ⟨"/a"⟩ twoDirectories).2, []⟩ :=
    .aside (.start _) (addApart 0 (bare ⟨"/a"⟩) twoDirectories)
  exact .insert (.start _) vain made rfl (by decide +kernel)

theorem firstFound : Found 0 firstOpened.session ⟨"/"⟩ ⟨"/a"⟩ ⟨"/a"⟩ (⟨"/a"⟩, 0) :=
  ⟨rfl, ⟨⟨1, [(⟨"/a"⟩, 0)]⟩, rfl, List.mem_singleton.mpr rfl⟩, Path.sameRefl _⟩

theorem secondServed : Serves 0 firstOpened secondOpened := by
  have vain : Vain 0 firstOpened.session ⟨"/"⟩ ⟨"/b"⟩ := vainIff.mpr (by decide +kernel)
  have looked : Serves 0 firstOpened
      ⟨(firstOpened.session.get ⟨"/"⟩ 0 ⟨"/a"⟩).2, [.used ⟨"/a"⟩, .used ⟨"/a"⟩]⟩ :=
    .hit (.start _) firstFound
  have made : Serves 0 firstOpened
      ⟨(opensSecond firstOpened.session).2, [.used ⟨"/a"⟩, .used ⟨"/a"⟩]⟩ :=
    .aside looked (addApart 0 (bare ⟨"/b"⟩) _)
  exact .insert (.start _) vain made rfl (by decide +kernel)

theorem firstCrowdedOut : Serves 0 ⟨twoDirectories, []⟩ firstOpened ∧ Serves 0 firstOpened secondOpened ∧
    (∃ s', firstOpened.session.get ⟨"/"⟩ 0 ⟨"/a"⟩ = (some 0, s')) ∧
    (secondOpened.session.registries[0]?).map Registry.entries = some [(⟨"/b"⟩, 1)] ∧
      ∃ event before, firstOpened.history <:+ before ∧ event :: before <:+ secondOpened.history ∧
        ((∃ key, event = .dropped key ∧ Path.same ⟨"/a"⟩ key = true) ∨
          Crowded 1 (event :: before) ⟨"/a"⟩) := by
  obtain ⟨r, there, -, -, -, -, -, answers, -, leaves⟩ := boundedRecency rfl firstServed
  obtain ⟨s', -, found, -⟩ := answers.held firstFound
  obtain ⟨r', there', gone⟩ := leaves secondOpened secondServed
  have before : (firstOpened.session.registries[0]?).map Registry.entries = some [(⟨"/a"⟩, 0)] := by
    decide +kernel
  have after : (secondOpened.session.registries[0]?).map Registry.entries = some [(⟨"/b"⟩, 1)] := by
    decide +kernel
  have held : r.entries = [(⟨"/a"⟩, 0)] := by simpa [there] using before
  have held' : r'.entries = [(⟨"/b"⟩, 1)] := by simpa [there'] using after
  exact ⟨firstServed, secondServed, ⟨s', found⟩, after, gone (⟨"/a"⟩, 0) (by simp [held]) (by simp [held'])⟩

end BuildReuse.Session
