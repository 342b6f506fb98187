import BuildReuse.Proofs.Lock.Metadata
import BuildReuse.Proofs.Lock.Orderly
import Mathlib.Logic.Relation

/-! Attempts to take a lock that are refused: because somebody else has locked the file until the
deadline, because the file cannot be opened, or because there is no such deadline. The others see
nothing of a refused attempt but its turn at the mutex, its open file and its lock while it lasts,
and the lock file if it was missing. -/
namespace BuildReuse

structure Share where
  ticket? : Option Nat
  handle? : Option Nat
  deriving DecidableEq, Repr

namespace LockTable

def without (t : LockTable) (own : Share) : LockTable :=
  { t with
    queue := t.queue.filter fun w => own.ticket? != some w.ticket
    handles := t.handles.filter fun h => own.handle? != some h.number
    locked := t.locked.filter fun h => own.handle? != some h.number }

variable {t : LockTable} {own : Share} {α : Type} {number : α → Nat}

theorem filterNone (l : List α) : (l.filter fun a => (none : Option Nat) != some (number a)) = l :=
  List.filter_eq_self.mpr fun _ _ => rfl

theorem filterTwice (l : List α) (n : Nat) :
    ((l.filter fun a => number a != n).filter fun a => (none : Option Nat) != some (number a)) =
      l.filter fun a => some n != some (number a) := by
  rw [filterNone]
  exact List.filter_congr fun a _ => by simp [bne, Bool.beq_comm]

theorem filterFresh {l : List α} {a : α} {n : Nat} (fresh : ∀ b ∈ l, number b < n) (mine : number a = n) :
    ((l ++ [a]).filter fun b => some n != some (number b)) = l := by
  rw [List.filter_append, List.filter_eq_self.mpr, List.filter_eq_nil_iff.mpr, List.append_nil]
  · simp [mine]
  · intro b within
    simpa using (Nat.ne_of_lt (fresh b within)).symm

theorem withoutNone (t : LockTable) : t.without ⟨none, none⟩ = t := by
  simp only [without, filterNone]

theorem withoutLeave (t : LockTable) (ticket : Nat) (handle? : Option Nat) :
    (t.leave ticket).without ⟨none, handle?⟩ = t.without ⟨some ticket, handle?⟩ := by
  simp only [leave, without, filterTwice]

theorem withoutClose (t : LockTable) (ticket? : Option Nat) (handle : Nat) :
    (t.close handle).without ⟨ticket?, none⟩ = t.without ⟨ticket?, some handle⟩ := by
  simp only [close, without, filterTwice]

theorem withoutTryLock (t : LockTable) {handle : Nat} (mine : own.handle? = some handle) :
    (t.tryLock handle).2.without own = t.without own := by
  rcases tryLockAdds t handle with same | ⟨h, -, rfl, same⟩
  · rw [same]
  · rw [same]
    simp [without, mine]

theorem withoutOpenNode (orderly : t.Orderly) (node : Nat) (ticket? : Option Nat) :
    (t.openNode node).2.without ⟨ticket?, some (t.openNode node).1⟩ =
      { t.without ⟨ticket?, none⟩ with fresh := t.fresh + 1 } := by
  have locked : (t.locked.filter fun h => some t.fresh != some h.number) = t.locked :=
    List.filter_eq_self.mpr fun h isLocked => by simpa using (Nat.ne_of_lt (orderly.locked h isLocked)).symm
  have handles : ((t.handles ++ [(⟨t.fresh, node⟩ : Handle)]).filter fun h => some t.fresh != some h.number) = t.handles :=
    filterFresh orderly.handles rfl
  simp only [openNode, without, locked, handles, filterNone]

theorem withoutEnqueue (orderly : t.Orderly) (registry : Nat) (directory : Path) :
    let after := (t.enqueue registry directory).2.without ⟨some (t.enqueue registry directory).1, none⟩
    after.queue = t.queue ∧ after.Awaited = t.Awaited ∧ after.handles = t.handles ∧ after.locked = t.locked := by
  have named := mutexNamed orderly registry directory
  have awaited := named.awaited orderly
  have tickets := (named.orderly orderly).tickets
  simp only [enqueue, without, filterNone]
  generalize t.mutexFor registry directory = asked at named awaited tickets ⊢
  obtain ⟨mutex, t'⟩ := asked
  simp only at named awaited tickets ⊢
  have queue : ((t'.queue ++ [(⟨t'.fresh, mutex⟩ : Waiter)]).filter fun w => some t'.fresh != some w.ticket) =
      t'.queue := filterFresh tickets rfl
  refine ⟨queue.trans named.queue, ?_, named.handles, named.locked⟩
  funext registry₁ directory₁
  rw [queue]
  exact propext (awaited registry₁ directory₁)

end LockTable

structure Rest where
  queue : List Waiter
  awaited : Nat → Path → Prop
  handles : List Handle
  locked : List Handle
  files : FileSystem

def Machine.rest (m : Machine) (own : Share) : Rest :=
  let t := m.locks.without own
  ⟨t.queue, t.Awaited, t.handles, t.locked, m.files⟩

namespace Lock

open BuildReuse.Task (Ends Ensures Since)
open Relation (ReflTransGen)

variable {rely : Machine → Machine → Prop} {caller : Caller} {registry : Nat} {directory lockPath : Path}
  {fileName command : String} {timeout : Duration} {m m' : Machine} {own : Share} {e : LockError}

inductive Opened (caller : Caller) (lockPath : Path) (before : Rest) : Rest → Prop where
  | found : Opened caller lockPath before before
  | made {files : FileSystem} {n : Nat} {now : Int}
      (missing : before.files.leads (caller.here.join lockPath.text) = none)
      (opens : before.files.openFile caller.here lockPath now = .ok (files, n)) :
      Opened caller lockPath before { before with files := files }

theorem Opened.ofOpen {before : Rest} {files : FileSystem} {n : Nat} {now : Int}
    (opens : before.files.openFile caller.here lockPath now = .ok (files, n)) :
    Opened caller lockPath before { before with files := files } := by
  cases leads : before.files.leads (caller.here.join lockPath.text) with
  | none => exact .made leads opens
  | some k =>
    obtain ⟨rfl, -⟩ := FileSystem.openFileAt leads opens
    exact .found

inductive Refusal (caller : Caller) (lockPath : Path) (timeout : Duration) (time : Nat) (m₁ : Machine) :
    LockError → Prop where
  | closed {e : IoError} (fails : m₁.files.openFile caller.here lockPath m₁.now = .error e) :
      Refusal caller lockPath timeout time m₁ (.openFile e)
  | endless (none : m₁.deadline? timeout = none) : Refusal caller lockPath timeout time m₁ .noDeadline
  | told {m₀ : Machine} {deadline : Nat} {bytes : Bytes} (since : time ≤ m₀.clock) (ends : m₀.deadline? timeout = some deadline)
      (late : deadline ≤ m₁.clock) (reads : m₁.files.readBytes caller.here lockPath = .ok bytes) :
      Refusal caller lockPath timeout time m₁ (report lockPath bytes)
  | untold {m₀ : Machine} {deadline : Nat} {e : IoError} (since : time ≤ m₀.clock) (ends : m₀.deadline? timeout = some deadline)
      (late : deadline ≤ m₁.clock) (fails : m₁.files.readBytes caller.here lockPath = .error e) :
      Refusal caller lockPath timeout time m₁ (.contentionUnknown lockPath)
  | unwritten {handle : Nat} {command : String} {directory : Path} {e : IoError}
      (fails : (writeMetadata caller handle command directory m₁).1 = .error (.writeMetadata e)) :
      Refusal caller lockPath timeout time m₁ (.writeMetadata e)

theorem Refusal.ofContention {m₀ m₁ : Machine} {time deadline : Nat} (since : time ≤ m₀.clock)
    (ends : m₀.deadline? timeout = some deadline) (late : deadline ≤ m₁.clock) :
    Refusal caller lockPath timeout time m₁ (contention caller lockPath m₁) := by
  cases reads : m₁.files.readBytes caller.here lockPath with
  | ok bytes =>
    rw [contentionReads reads]
    exact .told since ends late reads
  | error e =>
    have unread : contention caller lockPath m₁ = .contentionUnknown lockPath := by
      simp only [contention, FileSystem.readText, reads, bind, Except.bind]
    rw [unread]
    exact .untold since ends late reads

structure Alongside (others : Rest → Rest → Prop) (start : Rest) (time : Nat) (own : Share) (m : Machine) : Prop where
  orderly : m.locks.Orderly
  reached : ReflTransGen others start (m.rest own)
  since : time ≤ m.clock

structure Mannered (others : Rest → Rest → Prop) (rely : Machine → Machine → Prop) : Prop where
  rest : ∀ m m' own, rely m m' → others (m.rest own) (m'.rest own)
  orderly : ∀ m m', rely m m' → m.locks.Orderly → m'.locks.Orderly
  forward : ∀ m m', rely m m' → m.clock ≤ m'.clock

section
variable {others : Rest → Rest → Prop} {start : Rest} {time : Nat}

theorem Alongside.later (along : Alongside others start time own m) (mannered : Mannered others rely)
    (rel : rely m m') : Alongside others start time own m' :=
  ⟨mannered.orderly m m' rel along.orderly, along.reached.tail (mannered.rest m m' own rel),
    Nat.le_trans along.since (mannered.forward m m' rel)⟩

theorem Alongside.enqueue (along : Alongside others start time ⟨none, none⟩ m) (registry : Nat) (directory : Path) :
    Alongside others start time ⟨some (enqueue registry directory m).1, none⟩ (Lock.enqueue registry directory m).2 := by
  refine ⟨LockTable.orderlyEnqueue along.orderly registry directory, ?_, along.since⟩
  have same : (Lock.enqueue registry directory m).2.rest ⟨some (Lock.enqueue registry directory m).1, none⟩ =
      m.rest ⟨none, none⟩ := by
    obtain ⟨queue, awaited, handles, locked⟩ := LockTable.withoutEnqueue along.orderly registry directory
    simp only [Machine.rest, LockTable.withoutNone, Lock.enqueue]
    rw [queue, awaited, handles, locked]
  rw [same]
  exact along.reached

theorem Alongside.leave {ticket : Nat} {handle? : Option Nat} (along : Alongside others start time ⟨some ticket, handle?⟩ m) :
    Alongside others start time ⟨none, handle?⟩ (leave ticket m) := by
  refine ⟨LockTable.orderlyLeave along.orderly ticket, ?_, along.since⟩
  simpa only [Machine.rest, Lock.leave, LockTable.withoutLeave] using along.reached

theorem Alongside.close {ticket? : Option Nat} {handle : Nat} (along : Alongside others start time ⟨ticket?, some handle⟩ m) :
    Alongside others start time ⟨ticket?, none⟩ (close handle m) := by
  refine ⟨LockTable.orderlyClose along.orderly handle, ?_, along.since⟩
  simpa only [Machine.rest, Lock.close, LockTable.withoutClose] using along.reached

theorem Alongside.tryLock {handle : Nat} (along : Alongside others start time own m) (mine : own.handle? = some handle) :
    Alongside others start time own (tryLock handle m).2 := by
  refine ⟨LockTable.orderlyTryLock along.orderly handle, ?_, along.since⟩
  simpa only [Machine.rest, Lock.tryLock, LockTable.withoutTryLock _ mine] using along.reached

theorem Alongside.openFile {ticket? : Option Nat} {handle : Nat} (along : Alongside others start time ⟨ticket?, none⟩ m)
    (opens : openFile caller lockPath m = (.ok handle, m')) :
    ∃ after, Opened caller lockPath (m.rest ⟨ticket?, none⟩) after ∧
      Alongside others after time ⟨ticket?, some handle⟩ m' := by
  unfold Lock.openFile at opens
  cases made : m.files.openFile caller.here lockPath m.now with
  | error e =>
    rw [made] at opens
    cases opens
  | ok result =>
    obtain ⟨files, n⟩ := result
    rw [made] at opens
    cases opens
    refine ⟨{ m.rest ⟨ticket?, none⟩ with files := files }, .ofOpen made,
      LockTable.orderlyOpenNode along.orderly n, ?_, Nat.le_trans along.since (Nat.le_add_right ..)⟩
    have without := LockTable.withoutOpenNode along.orderly n ticket?
    simp only [LockTable.openNode] at without
    simp only [Machine.rest, without]
    exact .refl

theorem openFileFails (fails : openFile caller lockPath m = (.error e, m')) :
    m' = m ∧ ∃ source, e = .openFile source ∧ m.files.openFile caller.here lockPath m.now = .error source := by
  unfold openFile at fails
  cases made : m.files.openFile caller.here lockPath m.now with
  | error source =>
    rw [made] at fails
    cases fails
    exact ⟨rfl, source, rfl, rfl⟩
  | ok result =>
    rw [made] at fails
    cases fails

theorem writeMetadataFails {handle : Nat}
    (fails : (writeMetadata caller handle command directory m).1 = .error e) :
    (writeMetadata caller handle command directory m).2 = m ∧ ∃ source, e = .writeMetadata source := by
  unfold writeMetadata at fails ⊢
  split at fails
  · cases fails
    exact ⟨rfl, _, rfl⟩
  · split at fails
    · cases fails
    · rename_i notFile
      cases fails
      simp only [notFile]
      exact ⟨rfl, _, rfl⟩

def Refused (others : Rest → Rest → Prop) (caller : Caller) (lockPath : Path) (timeout : Duration) (start : Rest)
    (time : Nat) (e : LockError) (own : Share) (m' : Machine) : Prop :=
  ∃ before after m₁ own₁, ReflTransGen others start before ∧ Opened caller lockPath before after ∧
    ReflTransGen others after (Machine.rest m₁ own₁) ∧ Refusal caller lockPath timeout time m₁ e ∧
    Alongside others (m₁.rest own₁) m₁.clock own m'

theorem Locking.refusal {handle : Nat} {r : Except LockError Unit} (mannered : Mannered others rely)
    (locking : Locking rely caller directory lockPath command timeout handle m r m') (failed : r = .error e)
    (mine : own.handle? = some handle) (along : Alongside others start time own m) :
    ∃ m₁, ReflTransGen others start (m₁.rest own) ∧ Refusal caller lockPath timeout time m₁ e ∧
      Alongside others (m₁.rest own) m₁.clock own m' := by
  have here {m₁ : Machine} (now : Alongside others start time own m₁) : Alongside others (m₁.rest own) m₁.clock own m₁ :=
    ⟨now.orderly, .refl, Nat.le_refl _⟩
  have tried {m₁ deadline r m₂} (others' : rely m m₁) (ends : m₁.deadline? timeout = some deadline)
      (tries : Ends rely m₁ (takeBy caller lockPath handle deadline (timeout.totalNanos / interval + 2)).run
        (some r) m₂) : Tried (Alongside others start time own) caller lockPath handle deadline r m₂ := by
    have enough : deadline ≤ m₁.clock + (timeout.totalNanos / interval + 2) * interval := by
      rw [Task.deadlineTime ends]
      exact Nat.add_le_add_left (triesReach timeout) _
    exact takeByEnsures (fun _ _ now rel => now.later mannered rel) mannered.forward
      (fun _ now _ => now.tryLock mine) deadline _ enough (fun no => (Nat.succ_ne_zero _ no).elim)
      ⟨along.later mannered others', Nat.le_refl _⟩ tries
  cases locking with
  | endless others' none =>
    cases failed
    have now := along.later mannered others'
    exact ⟨_, now.reached, .endless none, here now⟩
  | refused others' ends tries =>
    cases failed
    obtain ⟨now, late, rfl, -⟩ := tried others' ends tries
    exact ⟨_, now.reached, .ofContention (along.later mannered others').since ends late, here now⟩
  | written others' ends tries others'' =>
    rename_i m₃ _
    obtain ⟨m₂, now, taken⟩ := tried others' ends tries
    have locked := now.tryLock mine
    rw [taken] at locked
    have now' := locked.later mannered others''
    obtain ⟨same, source, rfl⟩ := writeMetadataFails failed
    refine ⟨m₃, now'.reached, .unwritten failed, ?_⟩
    rw [same]
    exact here now'

theorem Taking.refusal {ticket : Nat} {r : Except LockError Guard} (mannered : Mannered others rely)
    (taking : Taking rely caller directory fileName command timeout ticket m r m') (failed : r = .error e)
    (along : Alongside others start time ⟨some ticket, none⟩ m) :
    Refused others caller (directory.join fileName) timeout start time e ⟨some ticket, none⟩ m' := by
  cases taking with
  | closed others' fails =>
    cases failed
    have now := along.later mannered others'
    obtain ⟨rfl, source, rfl, closed⟩ := openFileFails fails
    exact ⟨_, _, _, ⟨some ticket, none⟩, now.reached, .found, .refl, .closed closed, now.orderly, .refl, Nat.le_refl _⟩
  | failed others' opens locking others'' =>
    cases failed
    obtain ⟨after, opened, now⟩ := (along.later mannered others').openFile opens
    obtain ⟨m₁, reached, refusal, last⟩ := locking.refusal mannered rfl rfl now
    exact ⟨_, after, m₁, _, (along.later mannered others').reached, opened, reached, refusal,
      (last.later mannered others'').close⟩
  | taken others' opens locking => cases failed

theorem Course.refusal {r : Except LockError Guard} (mannered : Mannered others rely)
    (course : Course rely caller registry directory fileName command timeout m r m') (failed : r = .error e)
    (along : Alongside others start time ⟨none, none⟩ m) :
    Refused others caller (directory.join fileName) timeout start time e ⟨none, none⟩ m' := by
  cases course with
  | taken others' queues waits granted taking => cases failed
  | failed others' queues waits granted taking others'' =>
    cases failed
    have queued := (along.later mannered others').enqueue registry directory
    rw [queues] at queued
    obtain ⟨before, after, m₁, own₁, first, opened, then', refusal, last⟩ :=
      taking.refusal mannered rfl (queued.later mannered waits)
    exact ⟨before, after, m₁, own₁, first, opened, then', refusal, (last.later mannered others'').leave⟩

/-- Nothing of a refused attempt is left. From its beginning to its end the others come as far as
their own deeds bring them, and only a missing lock file is made meanwhile. Who comes next gets
its turn at once unless somebody else awaits it, and locks its file unless somebody else has it
locked. A holder that the others respect still holds the lock file with the same content; whoever
tries to lock that very file is refused, and told what stands there if the time is over. -/
theorem refusedLeavesNothing (mannered : Mannered others rely) (orderly : m.locks.Orderly)
    (ends : Ends rely m (acquire caller registry directory fileName command timeout).run (some (.error e)) m') :
    ∃ m₀ lockPath, rely m m₀ ∧ lockPath = (lockDirectory caller directory m₀).join fileName ∧
      Refused others caller lockPath timeout (m.rest ⟨none, none⟩) m.clock e ⟨none, none⟩ m' ∧
      (∀ registry₁ directory₁, (m'.locks.enqueue registry₁ directory₁).2.granted
          (m'.locks.enqueue registry₁ directory₁).1 = true ↔
        ¬ (m'.rest ⟨none, none⟩).awaited registry₁ directory₁) ∧
      (∀ node, ((m'.locks.openNode node).2.tryLock (m'.locks.openNode node).1).1 = true ↔
        ∀ l ∈ (m'.rest ⟨none, none⟩).locked, l.node ≠ node) ∧
      ∀ place h bytes, (∀ m m', rely m m' → Respects place h m m') → Occupied place h bytes m →
        Occupied place h bytes m' ∧ (caller.here.join lockPath.text = place →
          (∃ source, e = .openFile source) ∨ e = .noDeadline ∨ e = report lockPath bytes) := by
  obtain ⟨m₀, looks, course⟩ := courseOfEnds ends
  have along : Alongside others (m.rest ⟨none, none⟩) m.clock ⟨none, none⟩ m := ⟨orderly, .refl, Nat.le_refl _⟩
  have refused := course.refusal mannered rfl (along.later mannered looks)
  have orderly' : m'.locks.Orderly := by
    obtain ⟨_, _, _, _, -, -, -, -, last⟩ := refused
    exact last.orderly
  refine ⟨m₀, _, looks, rfl, refused, fun registry₁ directory₁ => ?_, fun node => ?_, fun place h bytes respects occupied => ?_⟩
  · simp only [Machine.rest, LockTable.withoutNone]
    exact LockTable.grantedIff orderly' registry₁ directory₁
  · simp only [Machine.rest, LockTable.withoutNone]
    exact LockTable.newLocksIff orderly' node
  · refine ⟨acquirePasses respects occupied ends, fun here => ?_⟩
    obtain ⟨_, same, told⟩ := course.rival respects (occupied.respected (respects _ _ looks)) here
    cases same
    exact told

end

theorem holderUndisturbed : ∃ m m',
    Ends Eq formerlyLocked (rootAcquire 7 0 quotedCommand .zero).run (some (.ok ⟨1, 2, ⟨"/lock"⟩⟩)) m ∧
    Ends Eq m (rootAcquire 8 1 "late" .zero).run
      (some (.error (.contention quotedCommand 7 1700000000 ⟨"/lock"⟩))) m' ∧
    m'.rest ⟨none, none⟩ = m.rest ⟨none, none⟩ ∧ m'.locks.locked = [⟨2, 1⟩] := by
  have first : ((rootAcquire 7 0 quotedCommand .zero).run.poll formerlyLocked).2.value? =
      some (.ok ⟨1, 2, ⟨"/lock"⟩⟩) := by decide +kernel
  have second : ((rootAcquire 8 1 "late" .zero).run.poll
      ((rootAcquire 7 0 quotedCommand .zero).run.poll formerlyLocked).1).2.value? =
      some (.error (.contention quotedCommand 7 1700000000 ⟨"/lock"⟩)) := by decide +kernel
  have orderly : ((rootAcquire 7 0 quotedCommand .zero).run.poll formerlyLocked).1.locks.Orderly := by
    constructor <;> decide +kernel
  have there : ((rootAcquire 7 0 quotedCommand .zero).run.poll formerlyLocked).1.files.leads ⟨"/lock"⟩ = some 1 := by
    decide +kernel
  have locked : ((rootAcquire 7 0 quotedCommand .zero).run.poll formerlyLocked).1.locks.locked = [⟨2, 1⟩] := by
    decide +kernel
  have root : lockDirectory ⟨⟨"/"⟩, 8⟩ ⟨"."⟩ ((rootAcquire 7 0 quotedCommand .zero).run.poll formerlyLocked).1 = ⟨"/"⟩ := by
    decide +kernel
  have ends : Ends Eq _ (rootAcquire 8 1 "late" .zero).run _ _ := Ends.ofValue (fun _ => rfl) second
  have mannered : Mannered (Eq : Rest → Rest → Prop) Eq := by
    refine ⟨fun m _ own same => congrArg (Machine.rest · own) same, ?_, ?_⟩
    · rintro m _ rfl
      exact id
    · rintro m _ rfl
      exact Nat.le_refl _
  obtain ⟨_, _, rfl, rfl, ⟨before, after, m₁, own, begins, opened, goes, -, last⟩, -⟩ :=
    refusedLeavesNothing mannered orderly ends
  have still {a b : Rest} (steps : ReflTransGen Eq a b) : a = b := by
    induction steps with
    | refl => rfl
    | tail _ same ih => exact ih.trans same
  have same := (still goes).trans (still last.reached)
  cases still begins
  cases opened with
  | found =>
    refine ⟨_, _, Ends.ofValue (fun _ => rfl) first, ends, same.symm, ?_⟩
    have kept := congrArg Rest.locked same
    simp only [Machine.rest, LockTable.withoutNone] at kept
    rw [← kept, locked]
  | made missing opens =>
    rw [root] at missing
    cases there.symm.trans missing

end Lock
end BuildReuse
