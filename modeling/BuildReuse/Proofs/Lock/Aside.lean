import BuildReuse.Proofs.FileSystem.LockFile
import BuildReuse.Proofs.Task.Finishes

/-! A job under the lock while everybody else stands aside. They leave the files as they
are, so that the job works on what it finds when it has the lock. -/
namespace BuildReuse

open BuildReuse.Lock (Own)
open BuildReuse.Task (Ends)

namespace Lock

structure Aside (place : Path) (m m' : Machine) : Prop where
  files : m'.files = m.files
  sound : m.locks.Sound → m'.locks.Sound
  fits : ∀ own : Own, own.Fits place (some place) m → own.Fits place (some place) m'

variable {place : Path} {m m' : Machine}

theorem Aside.refl (m : Machine) : Aside place m m := ⟨rfl, id, fun _ => id⟩

theorem Aside.beside (h : Aside place m m') : Beside place m m' := ⟨.still h.files, h.sound, h.fits⟩

theorem asidePatient (place : Path) : Task.Patient (Aside place) where
  refl := .refl
  later m time := by
    refine ⟨{ m with clock := max m.clock time }, ⟨rfl, id, fun own fits => ?_⟩, Nat.le_max_right ..⟩
    cases own <;> exact fits

end Lock

namespace Directory

variable {d : Directory} {place : Path} {m m' : Machine} {T : Trail}

def lockPlace (d : Directory) (T : Trail) : Path := d.caller.here.join (T.path.join d.lockFileName).text

theorem locksAt (found : m.files.find d.caller.here d.root = .ok T) : d.LocksAt (d.lockPlace T) m := by
  intro m' touches
  have found' := FileSystem.findGrown touches.touched.grown found
  simp only [Lock.lockDirectory, FileSystem.canonicalize, found', Except.map, Except.toOption,
    Option.getD_some, lockPlace]

theorem locksAside {command : String} (leads : d.LocksAt place m) (sound : m.locks.Sound)
    (locks : d.Locks (Lock.Aside place) command m m') : m'.locks.Sound := by
  obtain ⟨guard, takes⟩ := locks
  exact (Lock.acquireKeeps leads sound (takes.mono fun _ _ => Lock.Aside.beside)).2.1

theorem withLockAside {command : String} {α : Type} {body : MachineJob PackageError α}
    {o : Option (Except PackageError α)} (leads : d.LocksAt place m) (sound : m.locks.Sound)
    (ends : Ends (Lock.Aside place) m (d.withLock command body).run o m') :
    (∃ looked left node, m.Touches place looked ∧ looked.locks.Sound ∧
      looked.files.leads place = some node ∧ Ends (Lock.Aside place) looked body.run o left ∧
      m'.files = left.files ∧ (left.locks.Sound → m'.locks.Sound)) ∨
      m.Touches place m' ∧ m'.locks.Sound ∧ (o = none ∨ ∃ e, o = some (.error (.lock e))) := by
  have keeps {o m'} (takes : Ends (Lock.Aside place) m (d.acquire command).run o m') :=
    Lock.acquireKeeps leads sound (takes.mono fun _ _ => Lock.Aside.beside)
  rcases withLockEnds ends with ⟨guard, looked, left, freed, takes, works, others, rfl⟩ | ⟨e, rfl, takes⟩ |
    ⟨rfl, takes⟩
  · obtain ⟨touches, sound', has⟩ := keeps takes
    obtain ⟨node, leads'⟩ := has guard rfl
    have between : freed.files = left.files ∧ (left.locks.Sound → freed.locks.Sound) := by
      rcases others with others | ⟨-, rfl⟩
      · exact ⟨others.files, others.sound⟩
      · exact ⟨rfl, id⟩
    refine .inl ⟨looked, left, node, touches, sound', leads', works, between.1, fun kept => ?_⟩
    exact (LockTable.soundClose (between.2 kept) _).kept (LockTable.sameLeave _ _)
  · obtain ⟨touches, sound', -⟩ := keeps takes
    exact .inr ⟨touches, sound', .inr ⟨e, rfl⟩⟩
  · obtain ⟨touches, sound', -⟩ := keeps takes
    exact .inr ⟨touches, sound', .inl rfl⟩

end Directory
end BuildReuse
