import BuildReuse.Proofs.FileSystem.Outline
import BuildReuse.Proofs.FileSystem.Stored
import BuildReuse.Proofs.Lock.Course
import BuildReuse.Proofs.Lock.Sections

/-! A lock file that somebody has locked. Whoever else wants the lock neither takes it away nor
changes what stands in the file, and is told what stands there when the time is over. -/
namespace BuildReuse

def LockMetadata.ofBytes? (bytes : Bytes) : Option LockMetadata :=
  (FileSystem.textOf bytes).toOption.bind fun text => (LockMetadata.ofText text).toOption

namespace FileSystem

variable {fs fs' : FileSystem} {here path : Path} {n : Nat} {bytes : Bytes}

theorem openFileLocated {now : Int} (opens : fs.openFile here path now = .ok (fs', n)) :
    ∃ spot, fs.locate here false path = .ok spot := by
  unfold openFile at opens
  split at opens
  · cases located : fs.locate here true path.withoutFinalSlash <;> simp [located, bind, Except.bind] at opens
  · cases located : fs.locate here false path with
    | error e => simp [located, bind, Except.bind] at opens
    | ok spot => exact ⟨spot, rfl⟩

theorem openFileContent {now : Int} {k : Nat} (opens : fs.openFile here path now = .ok (fs', n))
    (content : fs.content? k = some (.file bytes)) : fs'.content? k = some (.file bytes) := by
  unfold openFile at opens
  split at opens
  · cases located : fs.locate here true path.withoutFinalSlash <;> simp [located, bind, Except.bind] at opens
  cases located : fs.locate here false path with
  | error e => simp [located, bind, Except.bind] at opens
  | ok spot =>
    simp only [located, bind, Except.bind] at opens
    cases spot with
    | present trail =>
      simp only at opens
      split at opens
      · cases opens
      · cases opens
        exact content
    | absent d name =>
      simp only [Except.ok.injEq, Prod.mk.injEq] at opens
      obtain ⟨rfl, rfl⟩ := opens
      obtain ⟨es, at?, -⟩ := walkAbsent _ _ _ (locateWalk located)
      have other : k ≠ d.node := by
        rintro rfl
        cases content.symm.trans at?
      rw [contentCreate at?, if_neg other, if_neg (Nat.ne_of_lt (contentInside content)), content]

theorem readAtLead {spot : Spot} (located : fs'.locate here false path = .ok spot)
    (leads : fs.leads (here.join path.text) = some n) (content : fs.content? n = some (.file bytes)) :
    fs.readBytes here path = .ok bytes := by
  unfold FileSystem.leads at leads
  split at leads
  · rename_i T walked
    cases leads
    have found : fs.find here path = .ok T := findLocate.mpr (locateOf located (walksOf _ _ _ walked))
    simp only [readBytes, found, bind, Except.bind, readNode, content]
  · cases leads

end FileSystem

namespace Lock

open BuildReuse.Task (Ends Ensures Since)

def report (lockPath : Path) (bytes : Bytes) : LockError :=
  match LockMetadata.ofBytes? bytes with
  | some d => .contention d.command d.pid d.startedAt lockPath
  | none => .contentionUnknown lockPath

theorem contentionReads {caller : Caller} {lockPath : Path} {bytes : Bytes} {m : Machine}
    (reads : m.files.readBytes caller.here lockPath = .ok bytes) :
    contention caller lockPath m = report lockPath bytes := by
  rw [contention, FileSystem.readTextOf reads, report, LockMetadata.ofBytes?]
  cases FileSystem.textOf bytes with
  | error e => rfl
  | ok text =>
    simp only [Except.toOption, Option.bind_some]
    cases LockMetadata.ofText text <;> rfl

structure Occupied (place : Path) (h : Handle) (bytes : Bytes) (m : Machine) : Prop where
  sound : m.locks.Sound
  locked : h ∈ m.locks.locked
  leads : m.files.leads place = some h.node
  content : m.files.content? h.node = some (.file bytes)

structure Fellows (place : Path) (m m' : Machine) : Prop where
  sound : m.locks.Sound → m'.locks.Sound
  fits : ∀ (own : Own) path?, own.Fits place path? m → own.Fits place path? m'
  clock : m.clock ≤ m'.clock

structure Respects (place : Path) (h : Handle) (m m' : Machine) : Prop extends Fellows place m m' where
  content : h ∈ m.locks.locked → m'.files.content? h.node = m.files.content? h.node

variable {place : Path} {h : Handle} {bytes : Bytes} {path? : Option Path} {own own' : Own}
  {m m' : Machine}

theorem Occupied.fits (occupied : Occupied place h bytes m) : (Own.locked h).Fits place (some place) m :=
  ⟨occupied.locked, fun _ => occupied.leads⟩

theorem Occupied.respected (occupied : Occupied place h bytes m) (others : Respects place h m m') :
    Occupied place h bytes m' := by
  obtain ⟨locked, leads⟩ := others.fits _ _ occupied.fits
  exact ⟨others.sound occupied.sound, locked, leads rfl, (others.content occupied.locked).trans occupied.content⟩

def Passes (place : Path) (h : Handle) (bytes : Bytes) (path? : Option Path) (own : Own) (m : Machine)
    (own' : Own) (m' : Machine) : Prop :=
  Occupied place h bytes m → own.Fits place path? m → own.Apart (.locked h) →
    Occupied place h bytes m' ∧ own'.Fits place path? m' ∧ own'.Apart (.locked h)

theorem Passes.ofFair (fair : Fair place path? own m own' m')
    (content : Occupied place h bytes m → own.Fits place path? m → own.Apart (.locked h) →
      m'.files.content? h.node = some (.file bytes)) : Passes place h bytes path? own m own' m' := by
  intro occupied fits apart
  obtain ⟨sound, fits', others⟩ := fair occupied.sound fits
  obtain ⟨theirs, apart'⟩ := others (some place) _ occupied.fits apart
  exact ⟨⟨sound, theirs.1, theirs.2 rfl, content occupied fits apart⟩, fits', apart'⟩

theorem passesAllowed (place : Path) (h : Handle) (bytes : Bytes) (caller : Caller) (lockPath : Path) :
    Allowed caller lockPath (Passes place h bytes (some (caller.here.join lockPath.text))) := by
  have fair := fairAllowed place caller lockPath
  have same {own m own' m'} (fair : Fair place (some (caller.here.join lockPath.text)) own m own' m')
      (files : m'.files = m.files) :
      Passes place h bytes (some (caller.here.join lockPath.text)) own m own' m' :=
    .ofFair fair fun occupied _ _ => files ▸ occupied.content
  refine
    { idle := ?idle, trans := ?trans, enqueue := ?enqueue, leave := ?leave, openFile := ?openFile,
      tryLock := ?tryLock, write := ?write, close := ?close }
  case idle => exact fun own m => same (fair.idle own m) rfl
  case trans =>
    intro a b c m m' m'' first second occupied fits apart
    obtain ⟨occupied', fits', apart'⟩ := first occupied fits apart
    exact second occupied' fits' apart'
  case enqueue => exact fun registry directory m => same (fair.enqueue registry directory m) rfl
  case leave => exact fun ticket m => same (fair.leave ticket m) rfl
  case openFile =>
    refine fun m => .ofFair (fair.openFile m) fun occupied _ _ => ?_
    unfold Lock.openFile
    cases opens : m.files.openFile caller.here lockPath m.now with
    | error e => exact occupied.content
    | ok made => exact FileSystem.openFileContent opens occupied.content
  case tryLock => exact fun own m => same (fair.tryLock own m) rfl
  case write =>
    refine fun own command directory m => .ofFair (fair.write own command directory m) fun occupied fits apart => ?_
    have other : h.node ≠ own.node := fun node =>
      apart own rfl (congrArg some (occupied.sound.alone h occupied.locked own fits.1 node))
    unfold writeMetadata
    rw [LockTable.handleOf occupied.sound (occupied.sound.opened own fits.1)]
    simp only
    split
    · rw [FileSystem.contentOther _ other, occupied.content]
    · exact occupied.content
  case close => exact fun mine m => same (fair.close mine m) rfl

variable {rely : Machine → Machine → Prop} {caller : Caller} {registry : Nat} {directory : Path}
  {fileName command : String} {timeout : Duration}

theorem acquirePasses (others : ∀ m m', rely m m' → Respects place h m m')
    (occupied : Occupied place h bytes m) {o}
    (ends : Ends rely m (acquire caller registry directory fileName command timeout).run o m') :
    Occupied place h bytes m' := by
  cases ends with
  | look others₀ rest =>
    rename_i m₀
    let lockPath := caller.here.join ((lockDirectory caller directory m₀).join fileName).text
    let inv (own : Own) (m : Machine) : Prop :=
      Occupied place h bytes m ∧ own.Fits place (some lockPath) m ∧ own.Apart (.locked h)
    obtain ⟨-, obeys⟩ := acquireObeys registry directory fileName command timeout m₀ rfl
      (passesAllowed place h bytes caller _)
    have kept : Ensures rely (inv .nothing) _ (Kept inv) (inv .nothing) :=
      keptAtEnd obeys (fun holds moves => moves holds.1 holds.2.1 holds.2.2) fun holds others' =>
        ⟨holds.1.respected (others _ _ others'), (others _ _ others').fits _ _ holds.2.1, holds.2.2⟩
    have ended := kept ⟨occupied.respected (others _ _ others₀), trivial, Own.apartNothing _⟩ rest
    rcases o with _ | (e | g)
    · exact ended.1
    · exact ended.1
    · obtain ⟨node, holds, -⟩ := ended
      exact holds

theorem releasePasses {g : Guard} (occupied : Occupied place h bytes m) (other : g.handle ≠ h.number) :
    Occupied place h bytes (release g m) := by
  refine ⟨(LockTable.soundClose occupied.sound _).kept (LockTable.sameLeave _ _), ?_, occupied.leads,
    occupied.content⟩
  exact List.mem_filter.mpr ⟨occupied.locked, bne_iff_ne.mpr (Ne.symm other)⟩

theorem rivalFails {n : Nat} (occupied : Occupied place h bytes m) (isOpen : ⟨n, h.node⟩ ∈ m.locks.handles)
    (other : n ≠ h.number) : tryLock n m = (false, m) := by
  unfold tryLock
  rcases LockTable.tryLockCases occupied.sound isOpen with ⟨-, isLocked⟩ | same | ⟨-, free⟩
  · have same := occupied.sound.alone _ isLocked h occupied.locked rfl
    exact (other (congrArg Handle.number same)).elim
  · rw [same]
  · exact (free h occupied.locked rfl).elim

theorem Locking.rival {lockPath : Path} {n : Nat} {r : Except LockError Unit} {fs : FileSystem} {spot : FileSystem.Spot}
    (locking : Locking rely caller directory lockPath command timeout n m r m')
    (others : ∀ m m', rely m m' → Respects place h m m') (occupied : Occupied place h bytes m)
    (isOpen : ⟨n, h.node⟩ ∈ m.locks.handles) (other : n ≠ h.number)
    (located : fs.locate caller.here false lockPath = .ok spot) (here : caller.here.join lockPath.text = place) :
    r = .error .noDeadline ∨ r = .error (report lockPath bytes) := by
  let inv (m : Machine) : Prop := Occupied place h bytes m ∧ ⟨n, h.node⟩ ∈ m.locks.handles
  have stable (m m' : Machine) (holds : inv m) (others' : rely m m') : inv m' := by
    obtain ⟨isOpen', -⟩ := (others m m' others').fits (.opened ⟨n, h.node⟩) none ⟨holds.2, fun no => by cases no⟩
    exact ⟨holds.1.respected (others m m' others'), isOpen'⟩
  have tried {m₁ deadline r m₂} (others' : rely m m₁) (representable : m₁.deadline? timeout = some deadline)
      (tries : Ends rely m₁ (takeBy caller lockPath n deadline (timeout.totalNanos / interval + 2)).run
        (some r) m₂) : r = .error (report lockPath bytes) := by
    have enough : deadline ≤ m₁.clock + (timeout.totalNanos / interval + 2) * interval := by
      rw [Task.deadlineTime representable]
      exact Nat.add_le_add_left (triesReach timeout) _
    have ended : Tried inv caller lockPath n deadline r m₂ := takeByEnsures stable
      (fun m m' others => (‹∀ m m', rely m m' → Respects place h m m'› m m' others).clock)
      (fun m holds _ => by rwa [rivalFails holds.1 holds.2 other]) deadline _ enough (fun no => (Nat.succ_ne_zero _ no).elim)
      ⟨stable m m₁ ⟨occupied, isOpen⟩ others', Nat.le_refl _⟩ tries
    cases r with
    | ok done =>
      obtain ⟨m₃, holds, taken⟩ := ended
      rw [rivalFails holds.1 holds.2 other] at taken
      cases taken
    | error e =>
      obtain ⟨holds, -, rfl, -⟩ := ended
      have leads : m₂.files.leads (caller.here.join lockPath.text) = some h.node := here ▸ holds.1.leads
      rw [contentionReads (FileSystem.readAtLead located leads holds.1.content)]
  cases locking with
  | endless others' none => exact .inl rfl
  | refused others' representable tries => exact .inr (tried others' representable tries)
  | written others' representable tries others'' => cases tried others' representable tries

theorem Taking.rival {ticket : Nat} {r : Except LockError Guard}
    (taking : Taking rely caller directory fileName command timeout ticket m r m')
    (others : ∀ m m', rely m m' → Respects place h m m') (occupied : Occupied place h bytes m)
    (here : caller.here.join (directory.join fileName).text = place) :
    ∃ e, r = .error e ∧ ((∃ source, e = .openFile source) ∨ e = .noDeadline ∨
      e = report (directory.join fileName) bytes) := by
  have opened {m₁ m₂ : Machine} {n : Nat} (others' : rely m m₁)
      (opens : openFile caller (directory.join fileName) m₁ = (.ok n, m₂)) :
      Occupied place h bytes m₂ ∧ ⟨n, h.node⟩ ∈ m₂.locks.handles ∧ n ≠ h.number ∧
        ∃ spot, m₁.files.locate caller.here false (directory.join fileName) = .ok spot := by
    have before := occupied.respected (others m m₁ others')
    obtain ⟨after, fits, apart⟩ := (passesAllowed place h bytes caller (directory.join fileName)).openFile m₁
      before trivial (Own.apartNothing _)
    unfold Lock.openFile at opens after fits
    unfold Own.opening at fits apart
    cases made : m₁.files.openFile caller.here (directory.join fileName) m₁.now with
    | error e =>
      rw [made] at opens
      cases opens
    | ok result =>
      rw [made] at opens after fits apart
      obtain ⟨-, same⟩ := FileSystem.openFileAt (here ▸ before.leads) made
      cases opens
      refine ⟨after, same ▸ fits.1, fun number => ?_, FileSystem.openFileLocated made⟩
      refine apart _ rfl (congrArg some ?_)
      cases h
      cases number
      cases same
      rfl
  cases taking with
  | closed others' fails =>
    unfold Lock.openFile at fails
    split at fails
    · cases fails
      exact ⟨_, rfl, .inl ⟨_, rfl⟩⟩
    · cases fails
  | failed others' opens locking others'' =>
    obtain ⟨after, isOpen, other, spot, located⟩ := opened others' opens
    rcases locking.rival others after isOpen other located here with same | same
    · cases same
      exact ⟨_, rfl, .inr (.inl rfl)⟩
    · cases same
      exact ⟨_, rfl, .inr (.inr rfl)⟩
  | taken others' opens locking =>
    obtain ⟨after, isOpen, other, spot, located⟩ := opened others' opens
    rcases locking.rival others after isOpen other located here with same | same <;> cases same

theorem Course.rival {r : Except LockError Guard}
    (course : Course rely caller registry directory fileName command timeout m r m')
    (others : ∀ m m', rely m m' → Respects place h m m') (occupied : Occupied place h bytes m)
    (here : caller.here.join (directory.join fileName).text = place) :
    ∃ e, r = .error e ∧ ((∃ source, e = .openFile source) ∨ e = .noDeadline ∨
      e = report (directory.join fileName) bytes) := by
  have atTurn {m₁ queued m₂ : Machine} {ticket : Nat} (others₁ : rely m m₁)
      (queues : enqueue registry directory m₁ = (ticket, queued)) (waits : rely queued m₂) :
      Occupied place h bytes m₂ := by
    have moved := (passesAllowed place h bytes caller ⟨""⟩).enqueue registry directory m₁
      (occupied.respected (others _ _ others₁)) trivial (Own.apartNothing _)
    rw [queues] at moved
    exact moved.1.respected (others _ _ waits)
  cases course with
  | failed others₁ queues waits granted taking others₂ =>
    obtain ⟨e, same, told⟩ := taking.rival others (atTurn others₁ queues waits) here
    cases same
    exact ⟨_, rfl, told⟩
  | taken others₁ queues waits granted taking =>
    obtain ⟨e, same, -⟩ := taking.rival others (atTurn others₁ queues waits) here
    cases same

end Lock
end BuildReuse
