import BuildReuse.Proofs.Registry.Apart
import BuildReuse.Proofs.Registry.Recency
import Mathlib.Logic.Relation

/-! The critical sections on a registry of a session: a key is looked up, a package is kept,
a key is dropped. Each is a move of that registry, and whatever else a session does is none.
Resolving a path to a key comes before, and may be old by then. -/
namespace BuildReuse.Session

open Registry (Event Move Recent Last lastUse Crowded)

variable {k : Nat} {s s' : Session} {here root key : Path} {history : List Event}

def look (registry : Nat) (key : Path) (s : Session) : Option Nat × Session :=
  match s.registries[registry]? with
  | some r =>
    let (found, r) := r.lookup key
    (found, { s with registries := s.registries.set! registry r })
  | none => (none, s)

def drop (registry : Nat) (key : Path) (s : Session) : Bool × Session :=
  match s.registries[registry]? with
  | some r =>
    let (dropped, r) := r.invalidate key
    (dropped, { s with registries := s.registries.set! registry r })
  | none => (false, s)

theorem getLooks (s : Session) : s.get here k root =
    match s.machine.files.canonicalize here root with
    | .ok key => s.look k key
    | .error _ => (none, s) := by
  rw [get]
  cases s.machine.files.canonicalize here root with
  | ok key =>
    simp only [look]
    cases s.registries[k]? with
    | none => rfl
    | some r => rfl
  | error e => rfl

theorem invalidateDrops (s : Session) : s.invalidate here k root =
    match s.machine.files.canonicalize here root with
    | .ok key => s.drop k key
    | .error _ => (false, s) := by
  rw [invalidate]
  cases s.machine.files.canonicalize here root with
  | ok key =>
    simp only [drop]
    cases s.registries[k]? with
    | none => rfl
    | some r => rfl
  | error e => rfl

def Owns (s : Session) (key : Path) (package : Nat) : Prop := s.root? package = some key

structure Watched where
  session : Session
  history : List Event

structure Moves (k : Nat) (w w' : Watched) : Prop where
  roots : ∀ {package root}, w.session.root? package = some root → w'.session.root? package = some root
  moved : ∃ events, w'.history = events ++ w.history ∧ ∀ r, w.session.registries[k]? = some r →
    ∃ r', w'.session.registries[k]? = some r' ∧ Move w.session.Owns r events r'

theorem Apart.moves (apart : Apart k s s') : Moves k ⟨s, history⟩ ⟨s', history⟩ where
  roots := apart.roots
  moved := ⟨[], rfl, fun r there => ⟨r, apart.registry.trans there, .stay⟩⟩

theorem registrySet {r : Registry Nat} (there : s.registries[k]? = some r) (r' : Registry Nat) :
    (s.registries.set! k r')[k]? = some r' := by
  obtain ⟨inside, -⟩ := Array.getElem?_eq_some_iff.mp there
  simp [inside]

theorem registrySame {r : Registry Nat} (there : s.registries[k]? = some r) :
    s.registries.set! k r = s.registries := by
  obtain ⟨inside, rfl⟩ := Array.getElem?_eq_some_iff.mp there
  simp [Array.setIfInBounds, inside]

theorem movesSet {r r' : Registry Nat} {events : List Event} (there : s.registries[k]? = some r)
    (move : Move s.Owns r events r') :
    Moves k ⟨s, history⟩ ⟨{ s with registries := s.registries.set! k r' }, events ++ history⟩ where
  roots := id
  moved := by
    refine ⟨events, rfl, fun r₁ there' => ?_⟩
    cases there.symm.trans there'
    exact ⟨r', registrySet there r', move⟩

theorem lookHit {package : Nat} (found : s.look k key = (some package, s')) :
    ∃ r r', s.registries[k]? = some r ∧ r.lookup key = (some package, r') ∧
      s' = { s with registries := s.registries.set! k r' } := by
  simp only [look] at found
  split at found
  · rename_i r there
    cases at? : r.lookup key with
    | mk hit r' =>
      rw [at?] at found
      cases found
      exact ⟨r, r', there, at?, rfl⟩
  · cases found

theorem lookMiss (missed : s.look k key = (none, s')) : s' = s := by
  simp only [look] at missed
  split at missed
  · rename_i r there
    cases at? : r.lookup key with
    | mk hit r' =>
      rw [at?] at missed
      cases missed
      obtain ⟨-, rfl⟩ := Registry.lookupMiss at?
      rw [registrySame there]
  · cases missed
    rfl

theorem lookMoves {package : Nat} (found : s.look k key = (some package, s')) :
    Moves k ⟨s, history⟩ ⟨s', .used key :: history⟩ := by
  obtain ⟨r, r', there, hit, rfl⟩ := lookHit found
  obtain ⟨e, held, same, -, rfl⟩ := Registry.lookupHit hit
  exact movesSet there (.touch held same)

theorem dropMoves (s : Session) (k : Nat) (key : Path) (history : List Event) :
    Moves k ⟨s, history⟩ ⟨(s.drop k key).2, .dropped key :: history⟩ := by
  cases there : s.registries[k]? with
  | none => exact ⟨by simp [drop, there], [_], rfl, fun r there' => by simp [there] at there'⟩
  | some r =>
    simp only [drop, there]
    exact movesSet there (.remove key)

theorem keepCases {package kept : Nat} (own : s.root? package = some key) {r : Registry Nat}
    (there : s.registries[k]? = some r) (keeps : s.keep k package = (kept, s')) :
    ∃ r', r.insert key package = (kept, r') ∧ s' = { s with registries := s.registries.set! k r' } := by
  simp only [keep, own, there] at keeps
  cases at? : r.insert key package with
  | mk kept' r' =>
    rw [at?] at keeps
    cases keeps
    exact ⟨r', rfl, rfl⟩

theorem keepMoves {package : Nat} (own : s.root? package = some key) (history : List Event) :
    Moves k ⟨s, history⟩ ⟨(s.keep k package).2, .used key :: history⟩ := by
  cases there : s.registries[k]? with
  | none => exact ⟨by simp [keep, own, there], [_], rfl, fun r there' => by simp [there] at there'⟩
  | some r =>
    cases keeps : s.keep k package with
    | mk kept s' =>
      obtain ⟨r', inserted, rfl⟩ := keepCases own there keeps
      have moved (move : Move s.Owns r [.used key] r') :=
        (movesSet there move : Moves k ⟨s, history⟩ ⟨_, [.used key] ++ history⟩)
      rcases Registry.insertCases inserted with ⟨e, held, same, -, rfl⟩ | ⟨absent, -, rfl⟩
      · exact moved (.touch held same)
      · exact moved (.push absent own)

theorem getHit {package : Nat} (found : s.get here k root = (some package, s')) :
    ∃ key, s.machine.files.canonicalize here root = .ok key ∧ s.look k key = (some package, s') := by
  rw [getLooks] at found
  cases resolved : s.machine.files.canonicalize here root with
  | ok key => exact ⟨key, rfl, by simpa [resolved] using found⟩
  | error e => simp [resolved] at found

theorem getMiss (missed : s.get here k root = (none, s')) : s' = s := by
  rw [getLooks] at missed
  cases resolved : s.machine.files.canonicalize here root with
  | ok key =>
    simp only [resolved] at missed
    exact lookMiss missed
  | error e => simpa [resolved] using missed.symm

structure Found (k : Nat) (s : Session) (here root key : Path) (e : Path × Nat) : Prop where
  resolved : s.machine.files.canonicalize here root = .ok key
  held : ∃ r, s.registries[k]? = some r ∧ e ∈ r.entries
  same : e.1.same key = true

def Vain (k : Nat) (s : Session) (here root : Path) : Prop := ∀ key e, ¬ Found k s here root key e

theorem getAt {r : Registry Nat} (there : s.registries[k]? = some r)
    (resolved : s.machine.files.canonicalize here root = .ok key) : s.get here k root =
      ((r.lookup key).1, { s with registries := s.registries.set! k (r.lookup key).2 }) := by
  simp only [get, resolved, there]

theorem getHeld {r : Registry Nat} {e : Path × Nat} (recent : Recent s.Owns r history)
    (there : s.registries[k]? = some r) (held : e ∈ r.entries) (same : e.1.same key = true)
    (resolved : s.machine.files.canonicalize here root = .ok key) : s.get here k root =
      (some e.2, { s with registries := s.registries.set! k { r with entries := r.without key ++ [e] } }) := by
  rw [getAt there resolved, recent.lookup held same]

theorem getVain (vain : Vain k s here root) : s.get here k root = (none, s) := by
  cases resolved : s.machine.files.canonicalize here root with
  | error e => simp only [getLooks, resolved]
  | ok key =>
    cases there : s.registries[k]? with
    | none => simp only [getLooks, resolved, look, there]
    | some r =>
      have absent : ∀ e ∈ r.entries, e.1.same key = false := by
        intro e held
        rw [← Bool.not_eq_true]
        exact fun same => vain key e ⟨resolved, ⟨r, there, held⟩, same⟩
      rw [getAt there resolved, Registry.lookupAbsent absent, registrySame there]

theorem vainIff : Vain k s here root ↔ (s.get here k root).1 = none := by
  refine ⟨fun vain => by rw [getVain vain], fun nothing key e found => ?_⟩
  obtain ⟨resolved, ⟨r, there, held⟩, same⟩ := found
  rw [getAt there resolved] at nothing
  have absent := (Registry.lookupMiss (Prod.ext nothing rfl)).1 e held
  rw [same] at absent
  cases absent

theorem foundOrVain (k : Nat) (s : Session) (here root : Path) :
    (∃ key e, Found k s here root key e) ∨ Vain k s here root := by
  by_cases found : ∃ key e, Found k s here root key e
  · exact .inl found
  · exact .inr fun key e at? => found ⟨key, e, at?⟩

theorem Found.getMoves {e : Path × Nat} (found : Found k s here root key e) (history : List Event) :
    Moves k ⟨s, history⟩ ⟨(s.get here k root).2, .used key :: history⟩ := by
  cases looked : s.get here k root with
  | mk package s' =>
    cases package with
    | none => exact (vainIff.mpr (by rw [looked]) key e found).elim
    | some package =>
      obtain ⟨key', resolved, hit⟩ := getHit looked
      cases found.resolved.symm.trans resolved
      exact lookMoves hit

theorem invalidateMoves (resolved : s.machine.files.canonicalize here root = .ok key) :
    Moves k ⟨s, history⟩ ⟨(s.invalidate here k root).2, .dropped key :: history⟩ := by
  simp only [invalidateDrops, resolved]
  exact dropMoves s k key history

variable {ε : Type} {create : Session → Except ε Nat × Session}

theorem getOrInsertHit {package : Nat} (found : s.get here k root = (some package, s')) :
    s.getOrInsert here k root create = (.ok package, s') := by
  simp only [getOrInsert, found]

theorem Found.getOrInsert {e : Path × Nat} (found : Found k s here root key e) :
    (s.getOrInsert here k root create).2 = (s.get here k root).2 := by
  cases looked : s.get here k root with
  | mk package s' =>
    cases package with
    | none => exact (vainIff.mpr (by rw [looked]) key e found).elim
    | some package => rw [getOrInsertHit looked]

theorem getOrInsertMiss (missed : s.get here k root = (none, s')) : s.getOrInsert here k root create =
    match create s with
    | (.error e, s) => (.error e, s)
    | (.ok package, s) => (.ok (s.keep k package).1, (s.keep k package).2) := by
  cases getMiss missed
  cases created : create s with
  | mk made s₂ =>
    cases made with
    | error e => simp only [getOrInsert, missed, created]
    | ok package => simp only [getOrInsert, missed, created]

theorem getOrInsertFails {e : ε} (failed : s.getOrInsert here k root create = (.error e, s')) :
    create s = (.error e, s') := by
  cases looked : s.get here k root with
  | mk found s₁ =>
    cases found with
    | some package =>
      rw [getOrInsertHit looked] at failed
      cases failed
    | none =>
      rw [getOrInsertMiss looked] at failed
      cases made : create s with
      | mk result s₂ =>
        rw [made] at failed
        cases result with
        | error e' => exact failed
        | ok package => cases failed

def Keeps (k capacity : Nat) (w : Watched) (r : Registry Nat) : Prop :=
  w.session.registries[k]? = some r ∧ r.capacity = max capacity 1 ∧ Recent w.session.Owns r w.history

variable {capacity : Nat} {w w' : Watched}

theorem keepsNew (new : s.registries[k]? = some (.ofCapacity capacity)) :
    Keeps k capacity ⟨s, []⟩ (.ofCapacity capacity) :=
  ⟨new, rfl, Registry.recentOfCapacity capacity⟩

theorem Moves.keeps (moves : Moves k w w') {r : Registry Nat} (keeps : Keeps k capacity w r) :
    ∃ r', Keeps k capacity w' r' := by
  obtain ⟨there, room, recent⟩ := keeps
  obtain ⟨events, history, moved⟩ := moves.moved
  obtain ⟨r', there', move⟩ := moved r there
  have recent' := move.recent recent
  rw [← history] at recent'
  exact ⟨r', there', move.capacity.trans room,
    { recent' with owned := fun e held => moves.roots (recent'.owned e held) }⟩

abbrev Course (k : Nat) : Watched → Watched → Prop := Relation.ReflTransGen (Moves k)

theorem Course.keeps (course : Course k w w') {r : Registry Nat} (keeps : Keeps k capacity w r) :
    ∃ r', Keeps k capacity w' r' := by
  induction course with
  | refl => exact ⟨r, keeps⟩
  | tail before moves ih =>
    obtain ⟨r', keeps'⟩ := ih
    exact moves.keeps keeps'

theorem Course.suffix (course : Course k w w') : w.history <:+ w'.history := by
  induction course with
  | refl => exact List.suffix_refl _
  | tail before moves ih =>
    obtain ⟨events, history, -⟩ := moves.moved
    rw [history]
    exact ih.trans (List.suffix_append _ _)

theorem Course.leaves (course : Course k w w') {r r' : Registry Nat} (keeps : Keeps k capacity w r)
    (keeps' : Keeps k capacity w' r') {e : Path × Nat} (held : e ∈ r.entries) (gone : e ∉ r'.entries) :
    ∃ event before, w.history <:+ before ∧ event :: before <:+ w'.history ∧
      ((∃ key, event = .dropped key ∧ e.1.same key = true) ∨
        Crowded (max capacity 1) (event :: before) e.1) := by
  induction course generalizing r' with
  | refl =>
    cases keeps.1.symm.trans keeps'.1
    exact (gone held).elim
  | @tail w₁ w₂ earlier moves ih =>
    obtain ⟨r₁, keeps₁⟩ := Course.keeps earlier keeps
    obtain ⟨events, history, moved⟩ := moves.moved
    by_cases still : e ∈ r₁.entries
    · obtain ⟨r₂, there, move⟩ := moved r₁ keeps₁.1
      cases there.symm.trans keeps'.1
      obtain ⟨event, rfl, cause⟩ := move.leaves keeps₁.2.2 still gone
      rw [keeps₁.2.1] at cause
      exact ⟨event, w₁.history, Course.suffix earlier, history ▸ List.suffix_refl _, cause⟩
    · obtain ⟨event, before, first, then', cause⟩ := ih keeps₁ still
      exact ⟨event, before, first, then'.trans (history ▸ List.suffix_append _ _), cause⟩

end BuildReuse.Session
