import BuildReuse.PackageError
import BuildReuse.Proofs.Lock.Acquire
import BuildReuse.Proofs.Task.Ends

/-! Critical sections. A job that needs the lock of its directory ends without it,
or does its work between the moment when it has the lock and the release. -/
namespace BuildReuse

open BuildReuse.Task (Ends Ensures)

variable {rely : Machine → Machine → Prop} {m m' : Machine}

namespace Lock

variable {move : Own → Machine → Own → Machine → Prop} {inv : Own → Machine → Prop}

def Kept (inv : Own → Machine → Prop) (r : Except LockError Guard) (m : Machine) : Prop :=
  match r with
  | .ok g => ∃ node, inv (.locked ⟨g.handle, node⟩) m
  | .error _ => inv .nothing m

theorem keptAtEnd {lockPath : Path} {t : Task Machine (Except LockError Guard)}
    (obeys : Task.Obeys move .nothing (Ended lockPath) .nothing t)
    (moves : ∀ {own m own' m'}, inv own m → move own m own' m' → inv own' m')
    (stable : ∀ {own m m'}, inv own m → rely m m' → inv own m') :
    Ensures rely (inv .nothing) t (Kept inv) (inv .nothing) := by
  refine (obeys.ensures moves stable).weaken (fun r m ended => ?_) fun _ => id
  cases r with
  | ok g =>
    obtain ⟨own, ⟨-, node, rfl⟩, holds⟩ := ended
    exact ⟨node, holds⟩
  | error e =>
    obtain ⟨own, rfl, holds⟩ := ended
    exact holds

theorem acquireEnsures {caller : Caller} {registry : Nat} {directory : Path} {fileName command : String}
    {timeout : Duration}
    (allowed : ∀ m, inv .nothing m →
      Allowed caller ((lockDirectory caller directory m).join fileName) move)
    (moves : ∀ {own m own' m'}, inv own m → move own m own' m' → inv own' m')
    (stable : ∀ {own m m'}, inv own m → rely m m' → inv own m') :
    Ensures rely (inv .nothing) (acquire caller registry directory fileName command timeout).run
      (Kept inv) (inv .nothing) := by
  intro m o m' holds ends
  cases ends with
  | look others rest =>
    rename_i m₁
    have holds₁ := stable holds others
    obtain ⟨-, obeys⟩ := acquireObeys registry directory fileName command timeout m₁ rfl (allowed m₁ holds₁)
    exact keptAtEnd obeys moves stable holds₁ rest

theorem rehearsalsAllowed (caller : Caller) (lockPath : Path) :
    Allowed caller lockPath fun _ m _ m' => m'.rehearsals = m.rehearsals where
  idle _ _ := rfl
  trans h k := k.trans h
  enqueue _ _ _ := rfl
  leave _ _ := rfl
  openFile m := by
    unfold Lock.openFile
    split <;> rfl
  tryLock _ _ := rfl
  write h command directory m := by
    unfold writeMetadata
    split
    · rfl
    · split <;> rfl
  close _ _ := rfl

theorem acquireRehearsals {caller : Caller} {registry : Nat} {directory : Path} {fileName command : String}
    {timeout : Duration} {o : Option (Except LockError Guard)}
    (others : ∀ m m', rely m m' → m'.rehearsals = m.rehearsals)
    (ends : Ends rely m (acquire caller registry directory fileName command timeout).run o m') :
    m'.rehearsals = m.rehearsals := by
  let inv (_ : Own) (m₁ : Machine) : Prop := m₁.rehearsals = m.rehearsals
  have keeps : Ensures rely (inv .nothing) (acquire caller registry directory fileName command timeout).run
      (Kept inv) (inv .nothing) :=
    acquireEnsures (fun _ _ => rehearsalsAllowed _ _) (fun holds same => same.trans holds)
      fun holds others' => (others _ _ others').trans holds
  have kept := keeps rfl ends
  rcases o with _ | (e | guard)
  · exact kept
  · exact kept
  · obtain ⟨node, same⟩ := kept
    exact same

end Lock

namespace Directory

variable {d : Directory} {command : String}

def Locks (rely : Machine → Machine → Prop) (d : Directory) (command : String) (m m' : Machine) : Prop :=
  ∃ guard, Ends rely m (d.acquire command).run (some (.ok guard)) m'

theorem withLockEnds {α : Type} {body : MachineJob PackageError α} {o : Option (Except PackageError α)}
    (ends : Ends rely m (d.withLock command body).run o m') :
    (∃ guard m₁ m₂ m₃, Ends rely m (d.acquire command).run (some (.ok guard)) m₁ ∧
      Ends rely m₁ body.run o m₂ ∧ (rely m₂ m₃ ∨ o = none ∧ m₃ = m₂) ∧ m' = Lock.release guard m₃) ∨
    (∃ e, o = some (.error (.lock e)) ∧ Ends rely m (d.acquire command).run (some (.error e)) m') ∨
    o = none ∧ Ends rely m (d.acquire command).run none m' := by
  rcases ends.jobBind with ⟨guard, m₁, takes, rest⟩ | ⟨e, rfl, takes⟩ | ⟨rfl, takes⟩
  · have takes' : Ends rely m (d.acquire command).run (some (.ok guard)) m₁ := by
      rcases takes.bind with ⟨r, m₂, first, second⟩ | ⟨no, -⟩
      · cases r <;> cases second
        exact first
      · cases no
    left
    rcases Ends.ensuring rest with ⟨m₂, m₃, works, others, same⟩ | ⟨rfl, m₂, works, same⟩
    · exact ⟨guard, m₁, m₂, m₃, takes', works, .inl others, same⟩
    · exact ⟨guard, m₁, m₂, m₂, takes', works, .inr ⟨rfl, rfl⟩, same⟩
  · right; left
    rcases takes.bind with ⟨r, m₂, first, second⟩ | ⟨no, -⟩
    · cases r <;> cases second
      exact ⟨_, rfl, first⟩
    · cases no
  · right; right
    rcases takes.bind with ⟨r, m₂, first, second⟩ | ⟨-, first⟩
    · cases second
    · exact ⟨rfl, first⟩

theorem withLockOf {α : Type} {body : MachineJob PackageError α} {r : Except PackageError α} {m₁ m₂ : Machine}
    (refl : ∀ m, rely m m) (locks : d.Locks rely command m m₁) (works : Ends rely m₁ body.run (some r) m₂) :
    ∃ m', Ends rely m (d.withLock command body).run (some r) m' := by
  obtain ⟨guard, takes⟩ := locks
  have takes' : Ends rely m (Job.mapError PackageError.lock (d.acquire command)).run (some (.ok guard)) m₁ :=
    takes.andThen .done
  exact ⟨_, takes'.andThen (works.thenEnsured (refl m₂))⟩

theorem withLockFails {α : Type} {body : MachineJob PackageError α} {e : LockError}
    (fails : Ends rely m (d.acquire command).run (some (.error e)) m') :
    Ends rely m (d.withLock command body).run (some (.error (.lock e))) m' := by
  have fails' : Ends rely m (Job.mapError PackageError.lock (d.acquire command)).run
      (some (.error (.lock e))) m' := fails.andThen .done
  exact fails'.andThen .done

end Directory
end BuildReuse
