import BuildReuse.Proofs.Lock.Acquire
import BuildReuse.Proofs.Task.Deadline

/-! The course of an attempt to take a lock, step by step among others: it reads the path of
its directory, queues, opens the lock file when its turn has come, tries to lock it until the
deadline and writes the metadata. After a failure it gives back what it has, the handle first. -/
namespace BuildReuse.Lock

open BuildReuse.Task (Ends Ensures Since)

variable {rely : Machine → Machine → Prop} {caller : Caller} {lockPath : Path} {m m' : Machine}

def Tried (inv : Machine → Prop) (caller : Caller) (lockPath : Path) (handle deadline : Nat) :
    Except LockError Unit → Machine → Prop
  | .ok (), m' => ∃ m, inv m ∧ tryLock handle m = (true, m')
  | .error e, m' => inv m' ∧ deadline ≤ m'.clock ∧ e = contention caller lockPath m' ∧
      ∃ m, inv m ∧ (tryLock handle m).1 = false

theorem takeByEnsures {inv : Machine → Prop} (stable : ∀ m m', inv m → rely m m' → inv m')
    (forward : ∀ m m', rely m m' → m.clock ≤ m'.clock) {handle : Nat}
    (again : ∀ m, inv m → (tryLock handle m).1 = false → inv (tryLock handle m).2) (deadline more : Nat)
    {time : Nat} (enough : deadline ≤ time + more * interval)
    (tried : more = 0 → ∃ m, inv m ∧ (tryLock handle m).1 = false) :
    Ensures rely (Since inv time) (takeBy caller lockPath handle deadline more).run
      (Tried inv caller lockPath handle deadline) inv := by
  have ready : ∀ (time : Nat) m m', Since inv time m → rely m m' → Since inv time m' :=
    Task.sinceStable stable forward
  induction more generalizing time with
  | zero =>
    refine .get fun m m' holds others => ?_
    obtain ⟨holds', late⟩ := ready time m m' holds others
    rw [Nat.zero_mul, Nat.add_zero] at enough
    exact ⟨holds', Nat.le_trans enough late, rfl, tried rfl⟩
  | succ more ih =>
    have tries : Ensures rely (Since inv time) (Job.update (tryLock handle) : MachineJob LockError Bool).run
        (fun r m' => r = .ok true ∧ (∃ m, inv m ∧ tryLock handle m = (true, m')) ∨
          r = .ok false ∧ Since inv time m' ∧ ∃ m, inv m ∧ (tryLock handle m).1 = false) inv := by
      refine .lift (.update fun m m' holds others => ?_)
      have holds' := ready time m m' holds others
      cases taken : (tryLock handle m').1 with
      | true => exact .inl ⟨rfl, m', holds'.1, Prod.ext taken rfl⟩
      | false => exact .inr ⟨rfl, ⟨again m' holds'.1 taken, holds'.2⟩, m', holds'.1, taken⟩
    refine tries.jobBind (fun taken => ?_) fun e m no => by rcases no with ⟨no, -⟩ | ⟨no, -⟩ <;> cases no
    cases taken with
    | true =>
      refine .done fun m holds => ?_
      rcases holds with ⟨-, locked⟩ | ⟨no, -⟩
      · exact locked
      · cases no
    | false =>
      intro m o m' holds
      obtain ⟨no, -⟩ | ⟨-, since, failed⟩ := holds
      · cases no
      refine (?_ : Ensures rely (Since inv time) _ _ _) since
      have reads : Ensures rely (Since inv time) (Job.get Machine.clock : MachineJob LockError Nat).run
          (fun r m' => ∃ now, r = .ok now ∧ Since inv time m' ∧ now ≤ m'.clock) inv :=
        .lift (.get fun m m' holds others => ⟨_, rfl, ready time m m' holds others, Nat.le_refl _⟩)
      refine reads.jobBind (fun now => ?_) fun e m no => by cases no.choose_spec.1
      by_cases late : now ≥ deadline
      · rw [if_pos late]
        refine .get fun m m' holds others => ?_
        obtain ⟨_, same, since, past⟩ := holds
        cases same
        exact ⟨stable m m' since.1 others,
          Nat.le_trans late (Nat.le_trans past (forward m m' others)), rfl, failed⟩
      · rw [if_neg late]
        intro m o m' holds
        obtain ⟨_, -, since, -⟩ := holds
        refine (?_ : Ensures rely (Since inv time) _ _ _) since
        have rests : Ensures rely (Since inv time) (Job.lift (Task.sleep interval) : MachineJob LockError Unit).run
            (fun r m' => r = .ok () ∧ Since inv (time + interval) m') inv :=
          .lift ((Task.sleepLasts stable forward time interval).weaken (fun _ _ since => ⟨rfl, since⟩) fun _ => id)
        have later : deadline ≤ time + interval + more * interval := by
          rw [Nat.succ_mul] at enough
          omega
        refine rests.jobBind (fun _ m o m' holds => ih later (fun _ => failed) holds.2) fun e m no => ?_
        cases no.1

theorem triesReach (timeout : Duration) : timeout.totalNanos ≤ (timeout.totalNanos / interval + 2) * interval := by
  have divided := Nat.div_add_mod timeout.totalNanos interval
  have less := Nat.mod_lt timeout.totalNanos (show 0 < interval by decide)
  rw [Nat.add_mul, Nat.mul_comm (timeout.totalNanos / interval)]
  omega

inductive Locking (rely : Machine → Machine → Prop) (caller : Caller) (directory lockPath : Path)
    (command : String) (timeout : Duration) (handle : Nat) :
    Machine → Except LockError Unit → Machine → Prop where
  | endless {m m' : Machine} (others : rely m m') (none : m'.deadline? timeout = none) :
      Locking rely caller directory lockPath command timeout handle m (.error .noDeadline) m'
  | refused {m m₁ m' : Machine} {deadline e} (others : rely m m₁) (ends : m₁.deadline? timeout = some deadline)
      (tries : Ends rely m₁ (takeBy caller lockPath handle deadline (timeout.totalNanos / interval + 2)).run
        (some (.error e)) m') :
      Locking rely caller directory lockPath command timeout handle m (.error e) m'
  | written {m m₁ m₂ m₃ : Machine} {deadline} (others : rely m m₁) (ends : m₁.deadline? timeout = some deadline)
      (tries : Ends rely m₁ (takeBy caller lockPath handle deadline (timeout.totalNanos / interval + 2)).run
        (some (.ok ())) m₂) (others' : rely m₂ m₃) :
      Locking rely caller directory lockPath command timeout handle m
        (writeMetadata caller handle command directory m₃).1 (writeMetadata caller handle command directory m₃).2

inductive Taking (rely : Machine → Machine → Prop) (caller : Caller) (directory : Path)
    (fileName command : String) (timeout : Duration) (ticket : Nat) :
    Machine → Except LockError Guard → Machine → Prop where
  | closed {m m₁ m' : Machine} {e} (others : rely m m₁)
      (fails : openFile caller (directory.join fileName) m₁ = (.error e, m')) :
      Taking rely caller directory fileName command timeout ticket m (.error e) m'
  | failed {m m₁ m₂ m₃ m₄ : Machine} {handle e} (others : rely m m₁)
      (opens : openFile caller (directory.join fileName) m₁ = (.ok handle, m₂))
      (locking : Locking rely caller directory (directory.join fileName) command timeout handle m₂ (.error e) m₃)
      (others' : rely m₃ m₄) :
      Taking rely caller directory fileName command timeout ticket m (.error e) (close handle m₄)
  | taken {m m₁ m₂ m' : Machine} {handle} (others : rely m m₁)
      (opens : openFile caller (directory.join fileName) m₁ = (.ok handle, m₂))
      (locking : Locking rely caller directory (directory.join fileName) command timeout handle m₂ (.ok ()) m') :
      Taking rely caller directory fileName command timeout ticket m
        (.ok ⟨ticket, handle, directory.join fileName⟩) m'

inductive Course (rely : Machine → Machine → Prop) (caller : Caller) (registry : Nat) (directory : Path)
    (fileName command : String) (timeout : Duration) :
    Machine → Except LockError Guard → Machine → Prop where
  | failed {m m₁ queued m₂ m₃ m₄ : Machine} {ticket e} (others : rely m m₁)
      (queues : enqueue registry directory m₁ = (ticket, queued)) (waits : rely queued m₂)
      (granted : m₂.locks.granted ticket = true)
      (taking : Taking rely caller directory fileName command timeout ticket m₂ (.error e) m₃) (others' : rely m₃ m₄) :
      Course rely caller registry directory fileName command timeout m (.error e) (leave ticket m₄)
  | taken {m m₁ queued m₂ m' : Machine} {ticket g} (others : rely m m₁)
      (queues : enqueue registry directory m₁ = (ticket, queued)) (waits : rely queued m₂)
      (granted : m₂.locks.granted ticket = true)
      (taking : Taking rely caller directory fileName command timeout ticket m₂ (.ok g) m') :
      Course rely caller registry directory fileName command timeout m (.ok g) m'

theorem lockingOfEnds {directory : Path} {command : String} {timeout : Duration} {ticket handle : Nat}
    {r : Except LockError Guard}
    (ends : Ends rely m (do
      match ← Job.get fun m => m.deadline? timeout with
      | none => throw LockError.noDeadline
      | some deadline =>
        takeBy caller lockPath handle deadline (timeout.totalNanos / interval + 2)
        Job.attempt (writeMetadata caller handle command directory)
        pure ⟨ticket, handle, lockPath⟩ : MachineJob LockError Guard).run (some r) m') :
    Locking rely caller directory lockPath command timeout handle m (r.map fun _ => ()) m' ∧
      ∀ g, r = .ok g → g = ⟨ticket, handle, lockPath⟩ := by
  rcases ends.jobBind with ⟨deadline?, m₁, reads, rest⟩ | ⟨e, -, reads⟩ | ⟨no, -⟩
  · obtain ⟨_, same, first⟩ := reads.lift
    cases same
    obtain ⟨others, same⟩ := first.get
    cases deadline? with
    | none =>
      cases rest
      exact ⟨.endless others (Option.some.inj same).symm, fun _ no => by cases no⟩
    | some deadline =>
      have representable := (Option.some.inj same).symm
      rcases rest.jobBind with ⟨⟨⟩, m₂, tries, rest⟩ | ⟨e, same, tries⟩ | ⟨no, -⟩
      · rcases rest.jobBind with ⟨⟨⟩, m₃, writes, rest⟩ | ⟨e, same, writes⟩ | ⟨no, -⟩
        · obtain ⟨m₄, others', result, rfl⟩ := writes.update
          cases rest
          have written : Locking rely caller directory lockPath command timeout handle m _ _ :=
            .written others representable tries others'
          rw [← Option.some.inj result] at written
          refine ⟨written, fun g same => ?_⟩
          cases same
          rfl
        · cases same
          obtain ⟨m₄, others', result, rfl⟩ := writes.update
          have written : Locking rely caller directory lockPath command timeout handle m _ _ :=
            .written others representable tries others'
          rw [← Option.some.inj result] at written
          exact ⟨written, fun _ no => by cases no⟩
        · cases no
      · cases same
        exact ⟨.refused others representable tries, fun _ no => by cases no⟩
      · cases no
  · obtain ⟨_, no, -⟩ := reads.lift
    cases no
  · cases no

theorem takingOfEnds {directory : Path} {fileName command : String} {timeout : Duration} {ticket : Nat}
    {r : Except LockError Guard}
    (ends : Ends rely m (takeFile caller directory fileName command timeout ticket).run (some r) m') :
    Taking rely caller directory fileName command timeout ticket m r m' := by
  rcases ends.jobBind with ⟨handle, m₁, opens, rest⟩ | ⟨e, same, opens⟩ | ⟨no, -⟩
  · obtain ⟨m₂, others, result, rfl⟩ := opens.update
    have opens' : openFile caller (directory.join fileName) m₂ = (.ok handle, _) :=
      Prod.ext (Option.some.inj result).symm rfl
    rcases rest.orUndo with ⟨g, same, locks⟩ | ⟨e, m₃, m₄, same, locks, others', rfl⟩ | ⟨no, -⟩
    · cases same
      obtain ⟨locking, own⟩ := lockingOfEnds locks
      rw [own g rfl]
      exact .taken others opens' locking
    · cases same
      exact .failed others opens' (lockingOfEnds locks).1 others'
    · cases no
  · cases same
    obtain ⟨m₂, others, result, rfl⟩ := opens.update
    exact .closed others (Prod.ext (Option.some.inj result).symm rfl)
  · cases no

theorem courseOfEnds {registry : Nat} {directory : Path} {fileName command : String} {timeout : Duration}
    {r : Except LockError Guard}
    (ends : Ends rely m (acquire caller registry directory fileName command timeout).run (some r) m') :
    ∃ m₀, rely m m₀ ∧
      Course rely caller registry (lockDirectory caller directory m₀) fileName command timeout m₀ r m' := by
  rcases ends.jobBind with ⟨directory', m₀, looks, rest⟩ | ⟨e, -, looks⟩ | ⟨no, -⟩
  · obtain ⟨_, same, first⟩ := looks.lift
    cases same
    obtain ⟨others₀, same⟩ := first.get
    cases Option.some.inj same
    refine ⟨m₀, others₀, ?_⟩
    rcases rest.jobBind with ⟨ticket, queued, queues, rest⟩ | ⟨e, -, queues⟩ | ⟨no, -⟩
    · obtain ⟨_, same, first⟩ := queues.lift
      cases same
      obtain ⟨m₁, others₁, same, rfl⟩ := first.update
      have queues' : enqueue registry (lockDirectory caller directory m₀) m₁ = (ticket, _) :=
        Prod.ext (Option.some.inj same).symm rfl
      have waits {m₂} (wait : Ends rely (enqueue registry (lockDirectory caller directory m₀) m₁).2
          (Job.waitFor (fun m => m.locks.granted ticket) none : MachineJob LockError Unit).run
          (some (.ok ())) m₂) :
          rely (enqueue registry (lockDirectory caller directory m₀) m₁).2 m₂ ∧ m₂.locks.granted ticket = true := by
        obtain ⟨_, -, first⟩ := wait.lift
        cases first with
        | resume others ready rest =>
          cases rest
          exact ⟨others, ready⟩
      have taking {r m'} (rest : Ends rely (enqueue registry (lockDirectory caller directory m₀) m₁).2 (do
            Job.waitFor (fun m => m.locks.granted ticket) none
            takeFile caller (lockDirectory caller directory m₀) fileName command timeout ticket :
              MachineJob LockError Guard).run (some r) m') :
          ∃ m₂, rely (enqueue registry (lockDirectory caller directory m₀) m₁).2 m₂ ∧
            m₂.locks.granted ticket = true ∧
            Taking rely caller (lockDirectory caller directory m₀) fileName command timeout ticket m₂ r m' := by
        rcases rest.jobBind with ⟨⟨⟩, m₂, wait, rest⟩ | ⟨e, -, wait⟩ | ⟨no, -⟩
        · obtain ⟨others₂, granted⟩ := waits wait
          exact ⟨m₂, others₂, granted, takingOfEnds rest⟩
        · obtain ⟨_, no, -⟩ := wait.lift
          cases no
        · cases no
      rcases rest.orUndo with ⟨g, same, turn⟩ | ⟨e, m₃, m₄, same, turn, others₄, rfl⟩ | ⟨no, -⟩
      · cases same
        obtain ⟨m₂, others₂, granted, takes⟩ := taking turn
        exact .taken others₁ queues' others₂ granted takes
      · cases same
        obtain ⟨m₂, others₂, granted, takes⟩ := taking turn
        exact .failed others₁ queues' others₂ granted takes others₄
      · cases no
    · obtain ⟨_, no, -⟩ := queues.lift
      cases no
    · cases no
  · obtain ⟨_, no, -⟩ := looks.lift
    cases no
  · cases no

end BuildReuse.Lock
