import BuildReuse.Proofs.Lock.Owned

/-! The actions of which taking a lock is made. Whatever they keep is kept by each
attempt at every action, and an attempt ends with its own lock file locked or with
nothing, also when it is dropped. -/
namespace BuildReuse.Lock

open BuildReuse.Task (Obeys)

structure Handles (caller : Caller) (lockPath : Path) (move : Own → Machine → Own → Machine → Prop) :
    Prop where
  idle : ∀ own m, move own m own m
  trans : ∀ {a b c : Own} {m m' m'' : Machine}, move a m b m' → move b m' c m'' → move a m c m''
  openFile : ∀ m, move .nothing m (.opening caller lockPath m) (Lock.openFile caller lockPath m).2
  tryLock : ∀ h m, move (.opened h) m (.trying h m) (Lock.tryLock h.number m).2
  write : ∀ h command directory m,
    move (.locked h) m (.locked h) (writeMetadata caller h.number command directory m).2
  close : ∀ {own h}, own.handle? = some h → ∀ m, move own m .nothing (Lock.close h.number m)

structure Allowed (caller : Caller) (lockPath : Path) (move : Own → Machine → Own → Machine → Prop) : Prop
    extends Handles caller lockPath move where
  enqueue : ∀ registry directory m, move .nothing m .nothing (Lock.enqueue registry directory m).2
  leave : ∀ ticket m, move .nothing m .nothing (Lock.leave ticket m)

theorem fairAllowed (place : Path) (caller : Caller) (lockPath : Path) :
    Allowed caller lockPath (Fair place (some (caller.here.join lockPath.text))) where
  idle := Fair.idle
  trans := Fair.trans
  enqueue := Fair.enqueue
  leave := Fair.leave
  openFile m := Fair.openFile caller lockPath m rfl
  tryLock := Fair.tryLock
  write h := Fair.write caller h.number
  close := Fair.close

variable {move : Own → Machine → Own → Machine → Prop} {caller : Caller}

def Took (h : Handle) (own : Own) : Except LockError Unit → Prop
  | .ok () => own = .locked h
  | .error _ => own = .opened h

theorem sleepObeys (idle : ∀ own m, move own m own m) (own : Own) (nanos : Nat) :
    Obeys move own (fun own' (_ : Unit) => own' = own) own (Task.sleep nanos) := by
  refine .look (fun _ => own) id _ (fun _ => .inl ⟨rfl, rfl⟩) (idle own) fun m => ?_
  exact .suspend (idle own) (.done rfl)

theorem takeByObeys {lockPath : Path} (allowed : Handles caller lockPath move) (h : Handle) (deadline : Nat) (more : Nat) :
    Obeys move (.opened h) (Took h) (.opened h)
      (takeBy caller lockPath h.number deadline more).run := by
  induction more with
  | zero => exact .get allowed.idle fun _ => rfl
  | succ more ih =>
    have tries : Obeys move (.opened h)
        (fun own (r : Except LockError Bool) => own = if r = .ok true then .locked h else .opened h)
        (.opened h) (Job.update (tryLock h.number)).run :=
      .lift (.update (.trying h) (allowed.tryLock h) fun m => by simp [Own.trying])
    refine tries.jobBind (fun own taken holds => ?_) fun own e holds => by simpa [Took] using holds
    cases taken with
    | true =>
      obtain rfl : own = .locked h := by simpa using holds
      exact .done rfl
    | false =>
      obtain rfl : own = .opened h := by simpa using holds
      have reads : Obeys move (.opened h) (fun own (_ : Except LockError Nat) => own = .opened h)
          (.opened h) (Job.get Machine.clock).run := .lift (.get allowed.idle fun _ => rfl)
      refine reads.jobBind (fun own now holds => ?_) fun own e holds => holds
      subst holds
      by_cases late : now ≥ deadline
      · rw [if_pos late]
        exact .get allowed.idle fun _ => rfl
      · rw [if_neg late]
        have rests : Obeys move (.opened h) (fun own (_ : Except LockError Unit) => own = .opened h)
            (.opened h) (Job.lift (Task.sleep interval)).run := .lift (sleepObeys allowed.idle _ interval)
        refine rests.jobBind (fun own _ holds => ?_) fun own e holds => holds
        subst holds
        exact ih

def Held (lockPath : Path) (h : Handle) (own : Own) : Except LockError Guard → Prop
  | .ok g => g.lockPath = lockPath ∧ g.handle = h.number ∧ own = .locked h
  | .error _ => own.handle? = some h

def Ended (lockPath : Path) (own : Own) : Except LockError Guard → Prop
  | .ok g => g.lockPath = lockPath ∧ ∃ node, own = .locked ⟨g.handle, node⟩
  | .error _ => own = .nothing

theorem takeFileObeys {directory : Path} {fileName : String}
    (allowed : Handles caller (directory.join fileName) move) (command : String) (timeout : Duration)
    (ticket : Nat) :
    Obeys move .nothing
      (fun own r => Ended (directory.join fileName) own r ∧ ∀ g, r = .ok g → g.ticket = ticket) .nothing
      (takeFile caller directory fileName command timeout ticket).run := by
  have opens : Obeys move .nothing
      (fun own (r : Except LockError Nat) => match r with
        | .ok number => ∃ node, own = .opened ⟨number, node⟩
        | .error _ => own = .nothing)
      .nothing (Job.attempt (openFile caller (directory.join fileName))).run := by
    refine .update (.opening caller (directory.join fileName)) allowed.openFile fun m => ?_
    unfold Own.opening openFile
    cases m.files.openFile caller.here (directory.join fileName) m.now with
    | error e => rfl
    | ok made => exact ⟨made.2, rfl⟩
  refine opens.jobBind (fun own number holds => ?_) fun own e holds => ⟨holds, nofun⟩
  obtain ⟨node, rfl⟩ := holds
  let h : Handle := ⟨number, node⟩
  have closes (own : Own) (mine : own.handle? = some h) (m : Machine) :
      move own m .nothing (close number m) := allowed.close mine m
  refine Obeys.orUndo
    (show Obeys _ (.opened h) (fun own r => Held (directory.join fileName) h own r ∧
      ∀ g, r = .ok g → g.ticket = ticket) (.opened h) _ from ?_)
    allowed.trans (closes _ rfl) ?_ ?_
  · have reads : Obeys move (.opened h)
        (fun own (_ : Except LockError (Option Nat)) => own = .opened h)
        (.opened h) (Job.get fun m => m.deadline? timeout).run := .lift (.get allowed.idle fun _ => rfl)
    refine reads.jobBind (fun own deadline? holds => ?_) fun own e holds => ⟨by rw [holds]; rfl, nofun⟩
    subst holds
    cases deadline? with
    | none => exact .done ⟨rfl, nofun⟩
    | some deadline =>
      refine (takeByObeys allowed h deadline _).jobBind (fun own _ holds => ?_) fun own e holds => ?_
      · obtain rfl : own = .locked h := holds
        have writes : Obeys move (.opened h)
            (fun own (_ : Except LockError Unit) => own = .locked h) (.locked h)
            (Job.attempt (writeMetadata caller number command directory)).run :=
          .update (fun _ => .locked h) (allowed.write h command directory) fun _ => rfl
        refine writes.jobBind (fun own _ holds => ?_) fun own e holds => ⟨by rw [holds]; rfl, nofun⟩
        refine .done ⟨⟨rfl, rfl, holds⟩, fun g same => ?_⟩
        rw [← Except.ok.inj same]
      · obtain rfl : own = .opened h := holds
        exact ⟨rfl, nofun⟩
  · rintro own ⟨ticket', handle, lockPath⟩ ⟨⟨path, number, mine⟩, told⟩
    exact ⟨⟨path, node, number ▸ mine⟩, told⟩
  · exact fun own e ⟨mine, _⟩ => ⟨.nothing, closes own mine, rfl, nofun⟩

theorem acquireObeys (registry : Nat) (directory : Path) (fileName command : String)
    (timeout : Duration) (m : Machine) {m' t}
    (acts : (acquire caller registry directory fileName command timeout).run.act m = some (m', t))
    (allowed : Allowed caller ((lockDirectory caller directory m).join fileName) move) :
    m' = m ∧ Obeys move .nothing
      (Ended ((lockDirectory caller directory m).join fileName)) .nothing t := by
  obtain ⟨rfl, rfl⟩ := Prod.mk.inj (Option.some.inj acts)
  refine ⟨rfl, ?_⟩
  change Obeys _ _ _ _ (Job.update (enqueue registry (lockDirectory caller directory m)) >>= fun ticket =>
    Job.orUndo (leave ticket) do
      Job.waitFor (fun m => m.locks.granted ticket) none
      takeFile caller (lockDirectory caller directory m) fileName command timeout ticket).run
  have queues : Obeys move .nothing (fun own (_ : Except LockError Nat) => own = .nothing)
      .nothing (Job.update (enqueue registry (lockDirectory caller directory m))).run :=
    .lift (.update (fun _ => .nothing) (allowed.enqueue registry _) fun _ => rfl)
  refine queues.jobBind (fun own ticket holds => ?_) fun own e holds => holds
  subst holds
  refine Obeys.orUndo
    (show Obeys _ .nothing (fun own r => Ended ((lockDirectory caller directory m).join fileName) own r ∧
      ∀ g, r = .ok g → g.ticket = ticket) .nothing _ from ?_)
    allowed.trans (allowed.leave ticket) (fun own g holds => holds.1)
    fun own e ⟨holds, _⟩ => ⟨.nothing, holds ▸ allowed.leave ticket, rfl⟩
  have waits : Obeys move .nothing (fun own (_ : Except LockError Unit) => own = .nothing)
      .nothing (Job.waitFor (fun m => m.locks.granted ticket) none).run :=
    .lift (.suspend (allowed.idle _) (.done rfl))
  refine waits.jobBind (fun own _ holds => ?_) fun own e holds => ⟨holds, nofun⟩
  subst holds
  exact takeFileObeys allowed.toHandles command timeout ticket

end BuildReuse.Lock
