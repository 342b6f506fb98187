import BuildReuse.Proofs.Lock.Scene

/-! Mutual exclusion. Others may do with the files what they like, as long as the path of one lock
file goes on to lead to the same file once it is there; then at most one attempt holds it. -/
namespace BuildReuse.Lock

open BuildReuse.Task (Obeys)

structure Spares (place : Path) (m m' : Machine) : Prop where
  locks : m'.locks = m.locks
  stays : ∀ n, m.files.leads place = some n → m'.files.leads place = some n

namespace Attempt

def place (a : Attempt) (directory : Path) : Path :=
  a.caller.here.join (directory.join a.fileName).text

def place? (a : Attempt) : Option Path :=
  match a.standing with
  | .resolved directory _ | .waiting directory _ _ | .holding directory _ => some (a.place directory)
  | _ => none

theorem placeOfAbsolute (a : Attempt) {directory : Path} (absolute : directory.isAbsolute) :
    a.place directory = directory.join a.fileName := by
  have also : (directory.join a.fileName).isAbsolute := by
    unfold Path.join
    split
    · assumption
    · obtain ⟨text⟩ := directory
      simp only [Path.isAbsolute] at absolute ⊢
      split <;> cases chars : text.toList <;> simp_all
  rw [place, Path.join, if_pos also]

end Attempt

def Attempt.Has (place : Path) (a : Attempt) (own : Own) : Prop :=
  match a.standing with
  | .resolved directory t =>
    Obeys (Fair place (some (a.place directory))) .nothing (Ended (directory.join a.fileName)) own t
  | .waiting directory _ t => t.value? = none ∧
    Obeys (Fair place (some (a.place directory))) .nothing (Ended (directory.join a.fileName)) own t
  | .holding directory g => Ended (directory.join a.fileName) own (.ok g)
  | _ => own = .nothing

theorem Attempt.hasAfter {place : Path} {a : Attempt} {directory : Path} {ticket : Nat} {own : Own} {t}
    (obeys : Obeys (Fair place (some (a.place directory))) .nothing
      (Ended (directory.join a.fileName)) own t) :
    Attempt.Has place { a with standing := .after directory ticket t } own := by
  cases t with
  | done r =>
    cases obeys with
    | done ended => cases r <;> exact ended
  | look next => exact ⟨rfl, obeys⟩
  | put s rest => exact ⟨rfl, obeys⟩
  | suspend wake tidy rest => exact ⟨rfl, obeys⟩

theorem Attempt.placeAfter (a : Attempt) (directory : Path) (ticket : Nat)
    (t : Task Machine (Except LockError Guard)) :
    Attempt.place? { a with standing := .after directory ticket t } = some (a.place directory) ∨
      Standing.after directory ticket t = .gone := by
  cases t with
  | done r =>
    cases r with
    | ok g => exact .inl rfl
    | error e => exact .inr rfl
  | look next => exact .inl rfl
  | put s rest => exact .inl rfl
  | suspend wake tidy rest => exact .inl rfl

structure Parted (place : Path) (s : Scene) (owns : Nat → Own) : Prop where
  sound : s.machine.locks.Sound
  has : ∀ ⦃k : Nat⦄ ⦃a⦄, s.attempts[k]? = some a → a.Has place (owns k)
  fits : ∀ ⦃k : Nat⦄ ⦃a⦄, s.attempts[k]? = some a → (owns k).Fits place a.place? s.machine
  absent : ∀ k, s.attempts.length ≤ k → owns k = .nothing
  apart : ∀ ⦃j k⦄, j ≠ k → (owns j).Apart (owns k)

namespace Parted

variable {place : Path} {s : Scene} {owns : Nat → Own}

theorem moved (h : Parted place s owns) {k : Nat} {a a' : Attempt} {path? own' m'}
    (at? : s.attempts[k]? = some a) (fits : (owns k).Fits place path? s.machine)
    (fair : Fair place path? (owns k) s.machine own' m') (has : a'.Has place own')
    (path : a'.place? = path? ∨ own' = .nothing) :
    ∃ owns', Parted place ⟨m', s.attempts.set k a'⟩ owns' := by
  obtain ⟨sound', fits', others⟩ := fair h.sound fits
  refine ⟨fun j => if j = k then own' else owns j, ?_⟩
  constructor
  case sound => exact sound'
  case has =>
    intro j b there
    rcases Scene.slotOfSet there with ⟨rfl, rfl⟩ | ⟨other, old⟩
    · simpa using has
    · simpa [other] using h.has old
  case fits =>
    intro j b there
    rcases Scene.slotOfSet there with ⟨rfl, rfl⟩ | ⟨other, old⟩
    · simp only [if_true]
      rcases path with same | nothing
      · rw [same]
        exact fits'
      · rw [nothing]
        trivial
    · simp only [other, if_false]
      exact (others _ _ (h.fits old) (h.apart (Ne.symm other))).1
  case absent =>
    intro j beyond
    rw [List.length_set] at beyond
    have inside : k < s.attempts.length := (List.getElem?_eq_some_iff.mp at?).1
    have other : j ≠ k := by omega
    simpa [other] using h.absent j beyond
  case apart =>
    have fromMover {j} (other : j ≠ k) : own'.Apart (owns j) := by
      cases there : s.attempts[j]? with
      | none =>
        rw [h.absent j (List.getElem?_eq_none_iff.mp there)]
        exact (Own.apartNothing _).symm
      | some b => exact (others _ _ (h.fits there) (h.apart (Ne.symm other))).2
    intro i j differ
    split
    · rename_i mover
      rw [if_neg fun same => differ (mover.trans same.symm)]
      exact fromMover fun same => differ (mover.trans same.symm)
    · rename_i other
      split
      · exact (fromMover other).symm
      · exact h.apart differ

theorem called (h : Parted place s owns) {k : Nat} {a : Attempt} (at? : s.attempts[k]? = some a)
    (new : a.standing = .called) : owns k = .nothing := by
  have has := h.has at?
  simpa only [Attempt.Has, new] using has

theorem resolved (h : Parted place s owns) {k : Nat} {a : Attempt} {directory t}
    (at? : s.attempts[k]? = some a) (knows : a.standing = .resolved directory t) :
    Obeys (Fair place (some (a.place directory))) .nothing (Ended (directory.join a.fileName)) (owns k) t ∧
      (owns k).Fits place (some (a.place directory)) s.machine := by
  have has := h.has at?
  have fits := h.fits at?
  simp only [Attempt.Has, Attempt.place?, knows] at has fits
  exact ⟨has, fits⟩

theorem waiting (h : Parted place s owns) {k : Nat} {a : Attempt} {directory ticket t}
    (at? : s.attempts[k]? = some a) (waits : a.standing = .waiting directory ticket t) :
    (t.value? = none ∧ Obeys (Fair place (some (a.place directory))) .nothing
      (Ended (directory.join a.fileName)) (owns k) t) ∧
      (owns k).Fits place (some (a.place directory)) s.machine := by
  have has := h.has at?
  have fits := h.fits at?
  simp only [Attempt.Has, Attempt.place?, waits] at has fits
  exact ⟨has, fits⟩

theorem holding (h : Parted place s owns) {k : Nat} {a : Attempt} {directory g}
    (at? : s.attempts[k]? = some a) (holds : a.standing = .holding directory g) :
    ∃ node, owns k = .locked ⟨g.handle, node⟩ ∧ ⟨g.handle, node⟩ ∈ s.machine.locks.locked ∧
      (a.place directory = place → s.machine.files.leads place = some node) := by
  have has := h.has at?
  have fits := h.fits at?
  simp only [Attempt.Has, Attempt.place?, holds] at has fits
  obtain ⟨-, node, mine⟩ := has
  rw [mine] at fits
  exact ⟨node, mine, fits.1, fun same => fits.2 (by rw [same])⟩

theorem acted (h : Parted place s owns) {k : Nat} {a : Attempt} {directory t own' m'} (ticket : Nat)
    (at? : s.attempts[k]? = some a) (fits : (owns k).Fits place (some (a.place directory)) s.machine)
    (fair : Fair place (some (a.place directory)) (owns k) s.machine own' m')
    (obeys : Obeys (Fair place (some (a.place directory))) .nothing
      (Ended (directory.join a.fileName)) own' t) :
    ∃ owns', Parted place ⟨m', s.attempts.set k { a with standing := .after directory ticket t }⟩ owns' := by
  have has : Attempt.Has place { a with standing := .after directory ticket t } own' := Attempt.hasAfter obeys
  refine h.moved at? fits fair has ?_
  rcases a.placeAfter directory ticket t with same | gone
  · exact .inl same
  · right
    simpa only [Attempt.Has, gone] using has

theorem step (h : Parted place s owns) {s' : Scene} (step : Scene.Step (Spares place) s s') :
    ∃ owns', Parted place s' owns' := by
  have nothing {path?} : Own.Fits place path? s.machine .nothing := trivial
  cases step with
  | others m apart =>
    obtain ⟨locks, stays⟩ := apart
    refine ⟨owns, locks ▸ h.sound, h.has, fun k a at? => ?_, h.absent, h.apart⟩
    exact (h.fits at?).kept (fun _ _ isOpen => locks ▸ isOpen) (fun _ _ isLocked => locks ▸ isLocked) stays
  | call a new =>
    refine ⟨owns, h.sound, fun k b at? => ?_, fun k b at? => ?_, fun k beyond => ?_, h.apart⟩
    · rcases Scene.slotOfCall at? with old | ⟨beyond, rfl⟩
      · exact h.has old
      · simpa only [Attempt.Has, new] using h.absent k beyond
    · rcases Scene.slotOfCall at? with old | ⟨beyond, rfl⟩
      · exact h.fits old
      · rw [h.absent k beyond]
        trivial
    · rw [List.length_append] at beyond
      exact h.absent k (by omega)
  | @begin k a m t at? new acts =>
    have mine := h.called at? new
    obtain ⟨rfl, obeys⟩ := acquireObeys a.registry a.directory a.fileName a.command a.timeout s.machine acts
      (fairAllowed place a.caller _)
    have has : Attempt.Has place
        { a with standing := .resolved (lockDirectory a.caller a.directory s.machine) t } (owns k) := by
      rw [mine]
      exact obeys
    exact h.moved at? (mine ▸ nothing) (Fair.idle (owns k) s.machine) has (.inl rfl)
  | @ask k a directory t m t' at? knows acts =>
    obtain ⟨obeys, fits⟩ := h.resolved at? knows
    obtain ⟨own', fair, obeys'⟩ := obeys.act Fair.idle acts
    exact h.acted _ at? fits fair obeys'
  | @act k a directory ticket t m t' at? waits acts =>
    obtain ⟨⟨-, obeys⟩, fits⟩ := h.waiting at? waits
    obtain ⟨own', fair, obeys'⟩ := obeys.act Fair.idle acts
    exact h.acted ticket at? fits fair obeys'
  | @forget k a at? new =>
    have mine := h.called at? new
    have path : none = (none : Option Path) := rfl
    exact h.moved at? (mine ▸ nothing) (Fair.idle (owns k) s.machine) mine (.inl path)
  | @cancel k a directory ticket t wake at? waits sleeps =>
    obtain ⟨⟨-, obeys⟩, fits⟩ := h.waiting at? waits
    exact h.moved at? fits (obeys.abandon sleeps s.machine) rfl (.inr rfl)
  | @unlock k a directory g at? holds =>
    obtain ⟨node, mine, -⟩ := h.holding at? holds
    have handle : (owns k).handle? = some ⟨g.handle, node⟩ := by rw [mine]; rfl
    exact h.moved at? (h.fits at?) (Fair.close handle s.machine) rfl (.inr rfl)
  | @giveBack k a directory ticket at? returns =>
    have mine : owns k = .nothing := by
      have has := h.has at?
      simpa only [Attempt.Has, returns] using has
    exact h.moved at? (h.fits at?) (Fair.leave ticket s.machine) mine (.inr mine)

theorem steps {s s' : Scene} {owns} (h : Parted place s owns) (steps : Scene.Steps (Spares place) s s') :
    ∃ owns', Parted place s' owns' := by
  induction steps with
  | refl => exact ⟨owns, h⟩
  | tail _ last ih =>
    obtain ⟨owns', h'⟩ := ih
    exact h'.step last

end Parted

/-- At any time at most one attempt holds a guard whose lock file is at `place`,
and so at most one for an absolute directory and a file name. Turns of attempts
are such steps, and so is the release of a guard. -/
theorem mutualExclusion (place : Path) {m : Machine} (sound : m.locks.Sound) {s : Scene}
    (reached : Scene.Steps (Spares place) ⟨m, []⟩ s) :
    (∀ ⦃j k : Nat⦄ ⦃a b directory directory' g g'⦄,
      s.attempts[j]? = some a → a.standing = .holding directory g → a.place directory = place →
      s.attempts[k]? = some b → b.standing = .holding directory' g' → b.place directory' = place →
        j = k) ∧
    (∀ ⦃j k : Nat⦄ ⦃a b directory g g'⦄, directory.isAbsolute → directory.join a.fileName = place →
      s.attempts[j]? = some a → a.standing = .holding directory g →
      s.attempts[k]? = some b → b.standing = .holding directory g' → b.fileName = a.fileName →
        j = k ∧ g.lockPath = place) ∧
    (∀ ⦃k : Nat⦄ ⦃a⦄, s.attempts[k]? = some a → a.standing = .called →
      Scene.Steps (Spares place) s (s.begun k a)) ∧
    (∀ ⦃k : Nat⦄ ⦃a directory ticket t⦄, s.attempts[k]? = some a → a.standing = .waiting directory ticket t →
      Scene.Steps (Spares place) s (s.turned k a directory ticket t)) ∧
    ∀ ⦃k : Nat⦄ ⦃a directory g⦄, s.attempts[k]? = some a → a.standing = .holding directory g →
      Scene.Steps (Spares place) s ⟨release g s.machine, s.attempts.set k { a with standing := .gone }⟩ := by
  have start : Parted place ⟨m, []⟩ fun _ => .nothing :=
    ⟨sound, nofun, nofun, fun _ _ => rfl, fun _ _ _ => Own.apartNothing _⟩
  obtain ⟨owns, parted⟩ := start.steps reached
  have alone : ∀ ⦃j k : Nat⦄ ⦃a b directory directory' g g'⦄,
      s.attempts[j]? = some a → a.standing = .holding directory g → a.place directory = place →
      s.attempts[k]? = some b → b.standing = .holding directory' g' → b.place directory' = place →
        j = k := by
    intro j k a b directory directory' g g' first holds here second holds' here'
    -- One place leads to one node, and of the handles at a node only one is locked.
    obtain ⟨node, mine, isLocked, leads⟩ := parted.holding first holds
    obtain ⟨node', theirs, locked', leads'⟩ := parted.holding second holds'
    have sameNode : some node = some node' := (leads here).symm.trans (leads' here')
    have sameHandle := parted.sound.alone _ isLocked _ locked' (Option.some.inj sameNode)
    rw [← sameHandle] at theirs
    by_contra differ
    have apart := parted.apart differ
    rw [mine, theirs] at apart
    exact apart _ rfl rfl
  refine ⟨alone, ?_, ?_, ?_, ?_⟩
  · intro j k a b directory g g' absolute here first holds second holds' names
    have ours := (a.placeOfAbsolute absolute).trans here
    have theirs := (b.placeOfAbsolute absolute).trans (names ▸ here)
    refine ⟨alone first holds ours second holds' theirs, ?_⟩
    have has := parted.has first
    simp only [Attempt.Has, holds] at has
    exact has.1.trans here
  · exact fun k a => Scene.begunSteps
  · exact fun k a directory ticket t at? waits => Scene.turnSteps at? waits (parted.waiting at? waits).1.1
  · exact fun k a directory g => Scene.releaseSteps

def rootAttempt (pid : Nat) : Attempt :=
  ⟨⟨⟨"/"⟩, pid⟩, pid, ⟨"/"⟩, "lock", "build", .ofMillis 1000, .called⟩

def bothCalled : Scene := ⟨emptyMachine, [rootAttempt 1, rootAttempt 2]⟩

def bothTurned : Scene := (bothCalled.begun 0 (rootAttempt 1)).begun 1 (rootAttempt 2)

theorem bothTurnedReached : Scene.Steps (Spares ⟨"/lock"⟩) ⟨emptyMachine, []⟩ bothTurned := by
  have called : Scene.Steps (Spares ⟨"/lock"⟩) ⟨emptyMachine, []⟩ bothCalled :=
    (Relation.ReflTransGen.single (.call _ (rootAttempt 1) rfl)).tail (.call _ (rootAttempt 2) rfl)
  exact (called.trans (Scene.begunSteps rfl rfl)).trans (Scene.begunSteps rfl rfl)

theorem firstHoldsAlone : Scene.Steps (Spares ⟨"/lock"⟩) ⟨emptyMachine, []⟩ bothTurned ∧
    (∃ a, bothTurned.attempts[0]? = some a ∧ a.standing = .holding ⟨"/"⟩ ⟨1, 2, ⟨"/lock"⟩⟩) ∧
    (∃ b ticket t, bothTurned.attempts[1]? = some b ∧ b.standing = .waiting ⟨"/"⟩ ticket t) ∧
    ∀ k b g, bothTurned.attempts[k]? = some b → b.standing = .holding ⟨"/"⟩ g → b.fileName = "lock" →
      0 = k := by
  let once := bothCalled.begun 0 (rootAttempt 1)
  have evaluated : lockDirectory ⟨⟨"/"⟩, 1⟩ ⟨"/"⟩ bothCalled.machine = ⟨"/"⟩ ∧
      ((rootAttempt 1).task.poll bothCalled.machine).2.value? = some (.ok ⟨1, 2, ⟨"/lock"⟩⟩) ∧
      lockDirectory ⟨⟨"/"⟩, 2⟩ ⟨"/"⟩ once.machine = ⟨"/"⟩ ∧
      ((rootAttempt 2).task.poll once.machine).2.value? = none := by decide +kernel
  obtain ⟨root, taken, root', untaken⟩ := evaluated
  have holding : ∃ a, bothTurned.attempts[0]? = some a ∧ a.standing = .holding ⟨"/"⟩ ⟨1, 2, ⟨"/lock"⟩⟩ ∧
      a.fileName = "lock" := by
    obtain ⟨ticket, at?⟩ := bothCalled.begunAt (k := 0) (by decide) (rootAttempt 1) root
    rw [Task.ofValue taken] at at?
    exact ⟨_, (List.getElem?_set_ne (by decide)).trans at?, rfl, rfl⟩
  have waiting : ∃ b ticket t, bothTurned.attempts[1]? = some b ∧ b.standing = .waiting ⟨"/"⟩ ticket t := by
    obtain ⟨ticket, at?⟩ := once.begunAt (k := 1) (by decide) (rootAttempt 2) root'
    rw [Standing.afterUnfinished _ _ untaken] at at?
    exact ⟨_, ticket, _, at?, rfl⟩
  obtain ⟨a, at?, holds, named⟩ := holding
  obtain ⟨-, alone, -⟩ := mutualExclusion ⟨"/lock"⟩ .empty bothTurnedReached
  refine ⟨bothTurnedReached, ⟨a, at?, holds⟩, waiting, fun k b g at?' holds' name => ?_⟩
  exact (alone (by decide) (by rw [named]; decide) at? holds at?' holds' (name.trans named.symm)).1

end BuildReuse.Lock
