import BuildReuse.Proofs.Lock.Mutexes
import BuildReuse.Proofs.Lock.Orderly
import BuildReuse.Proofs.Lock.Scene

/-! Who shares a mutex. Others may do what they like with everything but the mutexes and their
queues; then all attempts for one directory that wait or hold refer to one mutex. -/
namespace BuildReuse.Lock

open BuildReuse.LockTable (SameQueues Serves)
open BuildReuse.Task (Obeys)

abbrev Queued (m m' : Machine) : Prop := SameQueues m.locks m'.locks

def Attempt.stake? (a : Attempt) : Option Stake :=
  match a.standing with
  | .waiting directory ticket _ => some ⟨a.registry, directory, ticket⟩
  | .holding directory g => some ⟨a.registry, directory, g.ticket⟩
  | .returning directory ticket => some ⟨a.registry, directory, ticket⟩
  | _ => none

namespace Scene

def stakes (s : Scene) (k : Nat) : Option Stake := s.attempts[k]?.bind Attempt.stake?

def asked (s : Scene) (registry : Nat) (directory : Path) : Nat × LockTable :=
  s.machine.locks.mutexFor registry directory

end Scene

def Still (_ : Own) (m : Machine) (_ : Own) (m' : Machine) : Prop := SameQueues m.locks m'.locks

theorem stillHandles (caller : Caller) (lockPath : Path) : Handles caller lockPath Still where
  idle _ _ := ⟨rfl, rfl, Nat.le_refl _⟩
  trans first second := ⟨second.entries.trans first.entries, second.queue.trans first.queue,
    Nat.le_trans first.fresh second.fresh⟩
  openFile m := by
    unfold openFile
    split
    · exact ⟨rfl, rfl, Nat.le_refl _⟩
    · exact ⟨rfl, rfl, Nat.le_succ _⟩
  tryLock h m := by
    have locks : (tryLock h.number m).2.locks = (m.locks.tryLock h.number).2 := rfl
    rw [Still, locks]
    rcases LockTable.tryLockAdds m.locks h.number with same | ⟨_, -, -, same⟩
    · rw [same]
      exact ⟨rfl, rfl, Nat.le_refl _⟩
    · rw [same]
      exact ⟨rfl, rfl, Nat.le_refl _⟩
  write h command directory m := by
    unfold writeMetadata
    split
    · exact ⟨rfl, rfl, Nat.le_refl _⟩
    · split <;> exact ⟨rfl, rfl, Nat.le_refl _⟩
  close _ _ := ⟨rfl, rfl, Nat.le_refl _⟩

def Waits (ticket : Nat) (t : Task Machine (Except LockError Guard)) : Prop :=
  t.value? = none ∧ ∃ own inner, t = Task.orUndo (leave ticket) inner ∧
    Obeys Still .nothing (fun _ r => ∀ g, r = .ok g → g.ticket = ticket) own inner

def Asks (registry : Nat) (directory : Path) (t : Task Machine (Except LockError Guard)) : Prop :=
  ∀ m, ∃ t', t.act m = some ((enqueue registry directory m).2, t') ∧ Waits (enqueue registry directory m).1 t'

theorem acquireAsks {a : Attempt} {m m' t} (acts : a.task.act m = some (m', t)) :
    m' = m ∧ Asks a.registry (lockDirectory a.caller a.directory m) t := by
  obtain ⟨rfl, rfl⟩ := Prod.mk.inj (Option.some.inj acts)
  refine ⟨rfl, fun m₁ => ⟨_, rfl, rfl, .nothing, _, rfl, ?_⟩⟩
  have waits (ticket : Nat) : Obeys Still .nothing (fun own (_ : Except LockError Unit) => own = .nothing) .nothing
      (Job.waitFor (fun m => m.locks.granted ticket) none).run :=
    .lift (.suspend ((stillHandles a.caller a.directory).idle _) (.done rfl))
  refine (waits _).jobBind (fun own _ holds => ?_) fun own e holds => nofun
  subst holds
  exact (takeFileObeys (stillHandles ..) a.command a.timeout _).weaken fun own r holds => holds.2

namespace Attempt

def Works (a : Attempt) : Prop :=
  match a.standing with
  | .resolved directory t => Asks a.registry directory t
  | .waiting _ ticket t => Waits ticket t
  | _ => True

theorem afterKept {a : Attempt} {directory : Path} {ticket : Nat} {own : Own}
    {t : Task Machine (Except LockError Guard)}
    (obeys : Obeys Still .nothing (fun _ r => ∀ g, r = .ok g → g.ticket = ticket) own t) :
    stake? { a with standing := .after directory ticket (t.orUndo (leave ticket)) } = some ⟨a.registry, directory, ticket⟩ ∧
      Works { a with standing := .after directory ticket (t.orUndo (leave ticket)) } := by
  cases ended : (t.orUndo (leave ticket)).value? with
  | none =>
    rw [Standing.afterUnfinished directory ticket ended]
    exact ⟨rfl, ended, own, t, rfl, obeys⟩
  | some r =>
    obtain ⟨g, rfl, rfl⟩ := Task.doneOrUndo (Task.ofValue ended)
    cases obeys with
    | done told =>
      refine ⟨?_, trivial⟩
      simp only [Task.orUndo, Standing.after, stake?, told g rfl]

end Attempt

namespace Scene

structure Runs (s : Scene) : Prop where
  serves : s.machine.locks.Serves s.stakes
  works : ∀ ⦃k : Nat⦄ ⦃a⦄, s.attempts[k]? = some a → Attempt.Works a

variable {s s' : Scene} {k : Nat} {a a' : Attempt}

theorem stakesAt (at? : s.attempts[k]? = some a) : s.stakes k = a.stake? := by
  rw [stakes, at?, Option.bind_some]

theorem stakesSet (at? : s.attempts[k]? = some a) (m : Machine) :
    stakes ⟨m, s.attempts.set k a'⟩ = Function.update s.stakes k a'.stake? := by
  have inside : k < s.attempts.length := (List.getElem?_eq_some_iff.mp at?).1
  funext j
  by_cases same : j = k
  · rw [same, Function.update_self, stakes, List.getElem?_set_self inside, Option.bind_some]
  · rw [Function.update_of_ne same, stakes, stakes, List.getElem?_set_ne (Ne.symm same)]

theorem stakesKept (at? : s.attempts[k]? = some a) (same : a'.stake? = a.stake?) :
    Function.update s.stakes k a'.stake? = s.stakes := by
  rw [same, ← stakesAt at?, Function.update_eq_self]

theorem Runs.moved (runs : s.Runs) (at? : s.attempts[k]? = some a) {m : Machine}
    (serves : m.locks.Serves (Function.update s.stakes k a'.stake?)) (works : a'.Works) :
    Runs ⟨m, s.attempts.set k a'⟩ := by
  refine ⟨stakesSet at? m ▸ serves, fun j b there => ?_⟩
  rcases slotOfSet there with ⟨-, rfl⟩ | ⟨-, old⟩
  · exact works
  · exact runs.works old

theorem Runs.stays (runs : s.Runs) (at? : s.attempts[k]? = some a) {m : Machine}
    (same : SameQueues s.machine.locks m.locks) (stake : a'.stake? = a.stake?) (works : a'.Works) :
    Runs ⟨m, s.attempts.set k a'⟩ :=
  runs.moved at? ((stakesKept at? stake).symm ▸ runs.serves.same same) works

theorem Runs.left (runs : s.Runs) (at? : s.attempts[k]? = some a) {p : Stake} {m : Machine} (has : a.stake? = some p)
    (same : SameQueues s.machine.locks m.locks) :
    Runs ⟨leave p.ticket m, s.attempts.set k { a with standing := .gone }⟩ :=
  runs.moved at? ((runs.serves.same same).leave ((stakesAt at?).trans has)) trivial

theorem Runs.step (runs : s.Runs) (step : Step Queued s s') : s'.Runs := by
  have still : SameQueues s.machine.locks s.machine.locks := ⟨rfl, rfl, Nat.le_refl _⟩
  cases step with
  | others m same => exact ⟨runs.serves.same same, runs.works⟩
  | call a new =>
    have same : stakes { s with attempts := s.attempts ++ [a] } = s.stakes := by
      funext k
      rw [stakes, stakes]
      cases there : (s.attempts ++ [a])[k]? with
      | none =>
        have beyond : s.attempts.length ≤ k := by
          rw [List.getElem?_eq_none_iff, List.length_append] at there
          omega
        rw [List.getElem?_eq_none beyond]
      | some b =>
        rcases slotOfCall there with old | ⟨beyond, rfl⟩
        · rw [old]
        · rw [List.getElem?_eq_none beyond]
          simp only [Option.bind_some, Attempt.stake?, new, Option.bind_none]
    refine ⟨same ▸ runs.serves, fun k b there => ?_⟩
    rcases slotOfCall there with old | ⟨-, rfl⟩
    · exact runs.works old
    · simp only [Attempt.Works, new]
  | @begin k a m t at? new acts =>
    obtain ⟨rfl, asks⟩ := acquireAsks acts
    exact runs.stays at? still (by simp only [Attempt.stake?, new]) asks
  | @ask k a directory t m t' at? knows acts =>
    have asks := runs.works at?
    simp only [Attempt.Works, knows] at asks
    obtain ⟨t₁, acts', waits⟩ := asks s.machine
    cases acts.symm.trans acts'
    have idle : s.stakes k = none := by
      rw [stakesAt at?, Attempt.stake?, knows]
    rw [Standing.afterUnfinished _ _ waits.1]
    exact runs.moved at? (runs.serves.enqueue idle a.registry directory) waits
  | @act k a directory ticket t m t' at? tries acts =>
    have waits := runs.works at?
    simp only [Attempt.Works, tries] at waits
    obtain ⟨-, own, t₁, rfl, obeys⟩ := waits
    have has : a.stake? = some ⟨a.registry, directory, ticket⟩ := by rw [Attempt.stake?, tries]
    -- Either the place in the queue is kept, or the task has failed and this action gives it back.
    rcases Task.actOrUndo acts with ⟨t₂, inner, rfl⟩ | ⟨e, -, rfl, rfl⟩
    · obtain ⟨own', same, obeys'⟩ := obeys.act (stillHandles a.caller directory).idle inner
      obtain ⟨stake, works⟩ := Attempt.afterKept obeys'
      exact runs.stays at? same (stake.trans has.symm) works
    · exact runs.left at? has still
  | @forget k a at? new => exact runs.stays at? still (by simp only [Attempt.stake?, new]) trivial
  | @cancel k a directory ticket t wake at? tries sleeps =>
    have waits := runs.works at?
    simp only [Attempt.Works, tries] at waits
    obtain ⟨-, own, t₁, rfl, obeys⟩ := waits
    have has : a.stake? = some ⟨a.registry, directory, ticket⟩ := by rw [Attempt.stake?, tries]
    obtain ⟨sleeps', dropped⟩ := Task.abandonOrUndo sleeps s.machine
    rw [dropped]
    exact runs.left at? has (obeys.abandon sleeps' s.machine)
  | @unlock k a directory g at? holds =>
    exact runs.stays at? ⟨rfl, rfl, Nat.le_refl _⟩ (by simp only [Attempt.stake?, holds]) trivial
  | @giveBack k a directory ticket at? returns =>
    have has : a.stake? = some ⟨a.registry, directory, ticket⟩ := by rw [Attempt.stake?, returns]
    exact runs.left at? has still

theorem Runs.steps (runs : s.Runs) (steps : Steps Queued s s') : s'.Runs := by
  induction steps with
  | refl => exact runs
  | tail _ last ih => exact ih.step last

theorem runsFresh {m : Machine} (entries : m.locks.entries = []) (queue : m.locks.queue = []) : Runs ⟨m, []⟩ := by
  have none (k : Nat) : stakes ⟨m, []⟩ k = none := by simp [stakes]
  refine ⟨?_, nofun⟩
  constructor <;> simp [entries, queue, none]

end Scene

/-- Whoever holds the lock of a directory or waits for it shares the mutex with all who do so
too, and with nobody else. Right after somebody has asked for a mutex, the registry knows the
directory asked for and those of the stakes, and no others. Turns of attempts are such steps, and
so is the release of a guard. -/
theorem mutexShared {m : Machine} (entries : m.locks.entries = []) (queue : m.locks.queue = []) {s : Scene}
    (reached : Scene.Steps Queued ⟨m, []⟩ s) :
    (∀ k p, s.stakes k = some p → ∃ e ∈ s.machine.locks.entries, e.IsFor p.registry p.directory ∧
      s.machine.locks.mutex? p.ticket = some e.mutex) ∧
    (∀ j k p q, s.stakes j = some p → s.stakes k = some q →
      (s.machine.locks.mutex? p.ticket = s.machine.locks.mutex? q.ticket ↔
        p.registry = q.registry ∧ p.directory.same q.directory = true)) ∧
    (∀ w ∈ s.machine.locks.queue, ∃ k p, s.stakes k = some p ∧ p.ticket = w.ticket) ∧
    (∀ registry directory,
      (s.asked registry directory).2.entries.Pairwise MutexEntry.Apart ∧
      (∀ directory', (∃ e ∈ (s.asked registry directory).2.entries, e.IsFor registry directory') ↔
        directory.same directory' = true ∨
          ∃ k p, s.stakes k = some p ∧ p.registry = registry ∧ p.directory.same directory' = true) ∧
      (s.asked registry directory).2.entries.filter (fun e => e.registry != registry) =
        s.machine.locks.entries.filter (fun e => e.registry != registry) ∧
      ∀ k p, s.stakes k = some p → p.registry = registry → p.directory.same directory = true →
        s.machine.locks.mutex? p.ticket = some (s.asked registry directory).1) ∧
    (∀ ⦃k : Nat⦄ ⦃a directory t m' t'⦄, s.attempts[k]? = some a → a.standing = .resolved directory t →
      t.act s.machine = some (m', t') → m'.locks.entries = (s.asked a.registry directory).2.entries ∧
        m'.locks.mutex? (enqueue a.registry directory s.machine).1 = some (s.asked a.registry directory).1) ∧
    (∀ ⦃k : Nat⦄ ⦃a⦄, s.attempts[k]? = some a → a.standing = .called → Scene.Steps Queued s (s.begun k a)) ∧
    (∀ ⦃k : Nat⦄ ⦃a directory ticket t⦄, s.attempts[k]? = some a → a.standing = .waiting directory ticket t →
      Scene.Steps Queued s (s.turned k a directory ticket t)) ∧
    ∀ ⦃k : Nat⦄ ⦃a directory g⦄, s.attempts[k]? = some a → a.standing = .holding directory g →
      Scene.Steps Queued s ⟨release g s.machine, s.attempts.set k { a with standing := .gone }⟩ := by
  have runs := (Scene.runsFresh entries queue).steps reached
  refine ⟨fun k p => runs.serves.mutex, fun j k p q => runs.serves.sharedIff, ?staked, ?asked, ?asks,
    fun k a => Scene.begunSteps, ?turns, fun k a directory g => Scene.releaseSteps⟩
  case staked =>
    intro w waits
    obtain ⟨k, p, has, ticket, -⟩ := runs.serves.staked w waits
    exact ⟨k, p, has, ticket.symm⟩
  case asked =>
    intro registry directory
    have asks := LockTable.mutexForAsked s.machine.locks registry directory
    refine ⟨(runs.serves.asked asks).keys, runs.serves.askedKeys asks, asks.others, fun k p has own same => ?_⟩
    subst own
    exact runs.serves.askedMutex asks has same
  case asks =>
    intro k a directory t m' t' at? knows acts
    have works := runs.works at?
    simp only [Attempt.Works, knows] at works
    obtain ⟨t₁, acts', -⟩ := works s.machine
    cases acts.symm.trans acts'
    have idle : s.stakes k = none := by
      rw [Scene.stakesAt at?, Attempt.stake?, knows]
    exact ⟨rfl, runs.serves.enqueueMutex idle a.registry directory⟩
  case turns =>
    intro k a directory ticket t at? waits
    have works := runs.works at?
    simp only [Attempt.Works, waits] at works
    exact Scene.turnSteps at? waits works.1

def attemptOf (directory : String) : Attempt :=
  ⟨⟨⟨"/"⟩, 1⟩, 0, ⟨directory⟩, "lock", "build", .ofMillis 1000, .called⟩

def crowd : Scene := ⟨emptyMachine, [attemptOf "/", attemptOf "/.", attemptOf "/nowhere"]⟩

def crowdBegun : Scene :=
  ((crowd.begun 0 (attemptOf "/")).begun 1 (attemptOf "/.")).begun 2 (attemptOf "/nowhere")

theorem crowdReached : Scene.Steps Queued ⟨emptyMachine, []⟩ crowdBegun := by
  have called : Scene.Steps Queued ⟨emptyMachine, []⟩ crowd :=
    ((Relation.ReflTransGen.single (.call _ (attemptOf "/") rfl)).tail (.call _ (attemptOf "/.") rfl)).tail
      (.call _ (attemptOf "/nowhere") rfl)
  exact ((called.trans (Scene.begunSteps rfl rfl)).trans (Scene.begunSteps rfl rfl)).trans (Scene.begunSteps rfl rfl)

theorem crowdShares : ∃ p q,
    crowdBegun.stakes 0 = some p ∧ crowdBegun.stakes 1 = some q ∧ crowdBegun.stakes 2 = none ∧
    crowdBegun.machine.locks.mutex? p.ticket = crowdBegun.machine.locks.mutex? q.ticket ∧
    (∃ e ∈ crowdBegun.machine.locks.entries, e.IsFor 0 ⟨"/nowhere"⟩) ∧
    ¬ ∃ e ∈ (crowdBegun.asked 0 ⟨"/"⟩).2.entries, e.IsFor 0 ⟨"/nowhere"⟩ := by
  have first : crowdBegun.stakes 0 = some ⟨0, ⟨"/"⟩, 1⟩ := by decide +kernel
  have second : crowdBegun.stakes 1 = some ⟨0, ⟨"/"⟩, 3⟩ := by decide +kernel
  have third : crowdBegun.stakes 2 = none := by decide +kernel
  have beyond (k : Nat) : crowdBegun.stakes (k + 3) = none := rfl
  have left : ⟨0, ⟨"/nowhere"⟩, 4⟩ ∈ crowdBegun.machine.locks.entries := by decide +kernel
  obtain ⟨-, shared, -, asked, -⟩ := mutexShared rfl rfl crowdReached
  refine ⟨_, _, first, second, third, (shared _ _ _ _ first second).mpr ⟨rfl, by decide⟩,
    ⟨_, left, rfl, by decide⟩, fun known => ?_⟩
  rcases ((asked 0 ⟨"/"⟩).2.1 ⟨"/nowhere"⟩).mp known with same | ⟨k, p, has, -, same⟩
  · revert same
    decide
  · revert same
    match k with
    | 0 =>
      cases first.symm.trans has
      decide
    | 1 =>
      cases second.symm.trans has
      decide
    | 2 => cases third.symm.trans has
    | k + 3 => cases (beyond k).symm.trans has

end BuildReuse.Lock
