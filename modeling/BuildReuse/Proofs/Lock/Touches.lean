import BuildReuse.Proofs.FileSystem.Outline
import BuildReuse.Proofs.Lock.Sections

/-! What those who want a lock do to the files. They open the lock file, and the
one who has the lock writes into it. -/
namespace BuildReuse

open BuildReuse.Lock (Own Allowed Fair)
open BuildReuse.Task (Ends Ensures Obeys)

inductive Machine.Touches (place : Path) : Machine → Machine → Prop where
  | still {m m' : Machine} (files : m'.files = m.files) : Touches place m m'
  | opened {m m' : Machine} {here path : Path} {now : Int} {n : Nat}
      (leads : here.join path.text = place) (opens : m.files.openFile here path now = .ok (m'.files, n)) :
      Touches place m m'
  | written {m m' : Machine} {n : Nat} {bytes : Bytes} {now : Int}
      (leads : m.files.leads place = some n) (files : m'.files = m.files.writeNode n bytes now) :
      Touches place m m'
  | trans {m m' m'' : Machine} (h : Touches place m m') (k : Touches place m' m'') : Touches place m m''

def Directory.LocksAt (d : Directory) (place : Path) (m : Machine) : Prop :=
  ∀ m', m.Touches place m' →
    d.caller.here.join ((Lock.lockDirectory d.caller d.root m').join d.lockFileName).text = place

namespace Lock

def Touching (place : Path) (own : Own) (m : Machine) (own' : Own) (m' : Machine) : Prop :=
  m.locks.Sound → own.Fits place (some place) m →
    m.Touches place m' ∧ m'.locks.Sound ∧ own'.Fits place (some place) m'

variable {place : Path} {own own' : Own} {m m' : Machine}

theorem Touching.ofFair (touches : m.locks.Sound → own.Fits place (some place) m → m.Touches place m')
    (fair : Fair place (some place) own m own' m') : Touching place own m own' m' := by
  intro sound fits
  obtain ⟨sound', fits', -⟩ := fair sound fits
  exact ⟨touches sound fits, sound', fits'⟩

theorem touchingAllowed {caller : Caller} {lockPath : Path} (leads : caller.here.join lockPath.text = place) :
    Allowed caller lockPath (Touching place) := by
  have fair : Allowed caller lockPath (Fair place (some place)) := leads ▸ fairAllowed _ caller lockPath
  refine
    { idle := ?idle, trans := ?trans, enqueue := ?enqueue, leave := ?leave, openFile := ?openFile,
      tryLock := ?tryLock, write := ?write, close := ?close }
  case idle => exact fun own m => .ofFair (fun _ _ => .still rfl) (fair.idle own m)
  case trans =>
    intro a b c m m' m'' h k sound fits
    obtain ⟨touches, sound', fits'⟩ := h sound fits
    obtain ⟨touches', sound'', fits''⟩ := k sound' fits'
    exact ⟨touches.trans touches', sound'', fits''⟩
  case enqueue => exact fun registry directory m => .ofFair (fun _ _ => .still rfl) (fair.enqueue registry directory m)
  case leave => exact fun ticket m => .ofFair (fun _ _ => .still rfl) (fair.leave ticket m)
  case openFile =>
    refine fun m => .ofFair (fun _ _ => ?_) (fair.openFile m)
    cases opens : m.files.openFile caller.here lockPath m.now with
    | error e => exact .still (by simp only [openFile, opens])
    | ok made =>
      have files : (openFile caller lockPath m).2.files = made.1 := by simp only [openFile, opens]
      exact .opened leads (by rw [files]; exact opens)
  case tryLock => exact fun h m => .ofFair (fun _ _ => .still rfl) (fair.tryLock h m)
  case write =>
    refine fun h command directory m => .ofFair (fun sound fits => ?_) (fair.write h command directory m)
    unfold writeMetadata
    rw [LockTable.handleOf sound (sound.opened h fits.1)]
    simp only
    split
    · exact .written (fits.2 rfl) rfl
    · exact .still rfl
  case close => exact fun mine m => .ofFair (fun _ _ => .still rfl) (fair.close mine m)

def Beside (place : Path) (m m' : Machine) : Prop :=
  m.Touches place m' ∧ (m.locks.Sound → m'.locks.Sound) ∧
    ∀ own : Own, own.Fits place (some place) m → own.Fits place (some place) m'

theorem acquireKeeps {d : Directory} {command : String} (leads : d.LocksAt place m)
    (sound : m.locks.Sound) {o} (ends : Ends (Beside place) m (d.acquire command).run o m') :
    m.Touches place m' ∧ m'.locks.Sound ∧
      ∀ g, o = some (.ok g) → ∃ node, m'.files.leads place = some node := by
  let inv (own : Own) (m₁ : Machine) : Prop :=
    m.Touches place m₁ ∧ m₁.locks.Sound ∧ own.Fits place (some place) m₁
  have keeps : Ensures (Beside place) (inv .nothing) (d.acquire command).run (Kept inv) (inv .nothing) := by
    refine acquireEnsures (fun m₁ holds => touchingAllowed (leads m₁ holds.1)) ?_ ?_
    · intro own m₁ own' m₂ holds moves
      obtain ⟨touches, sound', fits'⟩ := moves holds.2.1 holds.2.2
      exact ⟨holds.1.trans touches, sound', fits'⟩
    · intro own m₁ m₂ holds others
      exact ⟨holds.1.trans others.1, others.2.1 holds.2.1, others.2.2 own holds.2.2⟩
  have ended := keeps ⟨.still rfl, sound, trivial⟩ ends
  rcases o with _ | (e | g)
  · exact ⟨ended.1, ended.2.1, nofun⟩
  · exact ⟨ended.1, ended.2.1, nofun⟩
  · obtain ⟨node, touches, sound', fits'⟩ := ended
    exact ⟨touches, sound', fun _ _ => ⟨node, fits'.2 rfl⟩⟩

theorem acquireTouches {d : Directory} {command : String} (leads : d.LocksAt place m)
    (sound : m.locks.Sound) {o} (ends : Ends (Beside place) m (d.acquire command).run o m') :
    m.Touches place m' := (acquireKeeps leads sound ends).1

end Lock

theorem Directory.withLockTouches {d : Directory} {command : String} {α : Type}
    {body : MachineJob PackageError α} {place : Path} {m m' : Machine} {o : Option (Except PackageError α)}
    (leads : d.LocksAt place m)
    (sound : m.locks.Sound) (ends : Ends (Lock.Beside place) m (d.withLock command body).run o m') :
    (∃ m₁ m₂, m.Touches place m₁ ∧ Ends (Lock.Beside place) m₁ body.run o m₂ ∧ m₂.Touches place m') ∨
      m.Touches place m' ∧ (o = none ∨ ∃ e, o = some (.error (.lock e))) := by
  rcases withLockEnds ends with ⟨guard, m₁, m₂, m₃, takes, works, others, rfl⟩ | ⟨e, rfl, takes⟩ | ⟨rfl, takes⟩
  · have between : m₂.Touches place m₃ := by
      rcases others with others | ⟨-, rfl⟩
      · exact others.1
      · exact .still rfl
    exact .inl ⟨m₁, m₂, Lock.acquireTouches leads sound takes, works, between.trans (.still rfl)⟩
  · exact .inr ⟨Lock.acquireTouches leads sound takes, .inr ⟨e, rfl⟩⟩
  · exact .inr ⟨Lock.acquireTouches leads sound takes, .inl rfl⟩

end BuildReuse
