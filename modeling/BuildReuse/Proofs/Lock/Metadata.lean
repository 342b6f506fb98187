import BuildReuse.Proofs.Json.Record
import BuildReuse.Proofs.Lock.Occupied
import BuildReuse.Proofs.Task.Turned

/-! What the holder of a lock has written is read back, by the holder and by those who wait in
vain, whatever stood in the lock file before. -/
namespace BuildReuse

namespace LockMetadata

open Json (Written)

variable {d : LockMetadata}

theorem metadataWritten (version : d.version < 0x100000000) (pid : d.pid < 0x100000000)
    (started : d.startedAt < 0x10000000000000000) :
    Written record.read (Json.print .lines 0 d.toJson) d :=
  Json.Record.objectWritten
    (.next rfl rfl (Json.Field.written (Json.natWritten .lines 1 version) ..)
      (.next rfl rfl (Json.Field.written (Json.natWritten .lines 1 pid) ..)
        (.next rfl rfl (Json.Field.written (Json.natWritten .lines 1 started) ..)
          (.next rfl rfl (Json.Field.written (Json.textWritten d.command) ..)
            (.next rfl rfl (Json.Field.written (Json.textWritten d.directory.text) ..) .done))))) rfl

theorem ofTextPrinted (version : d.version < 0x100000000) (pid : d.pid < 0x100000000)
    (started : d.startedAt < 0x10000000000000000) : ofText d.text = .ok d := by
  rw [ofText, text, Json.render, String.toList_ofList]
  exact Json.readDocumentWhole (metadataWritten version pid started)

end LockMetadata

namespace Lock

open BuildReuse.Task (Ends Ensures)

variable {place : Path} {h : Handle} {m m' : Machine}

inductive Meanwhile (place : Path) (h : Handle) (m : Machine) : Machine → Prop where
  | refl : Meanwhile place h m m
  | others {m₁ m₂ : Machine} (first : Meanwhile place h m m₁) (last : Respects place h m₁ m₂) :
      Meanwhile place h m m₂
  | attempt {m₁ m₂ : Machine} {caller registry directory fileName command timeout o}
      (first : Meanwhile place h m m₁)
      (last : Ends (Respects place h) m₁ (acquire caller registry directory fileName command timeout).run o m₂) :
      Meanwhile place h m m₂
  | release {m₁ : Machine} {g : Guard} (first : Meanwhile place h m m₁) (other : g.handle ≠ h.number) :
      Meanwhile place h m (release g m₁)

theorem Meanwhile.occupied {bytes : Bytes} (meanwhile : Meanwhile place h m m')
    (occupied : Occupied place h bytes m) : Occupied place h bytes m' := by
  induction meanwhile with
  | refl => exact occupied
  | others first last ih => exact ih.respected last
  | attempt first last ih => exact acquirePasses (fun _ _ => id) ih last
  | release first other ih => exact releasePasses ih other

theorem Respects.refl (m : Machine) : Respects place h m m :=
  ⟨⟨id, fun _ _ => id, Nat.le_refl _⟩, fun _ => rfl⟩

theorem readOccupied {g : Guard} {node : Nat} {d : LockMetadata}
    (occupied : Occupied place ⟨g.handle, node⟩ (bytesOf d.text) m) (prints : LockMetadata.ofText d.text = .ok d) :
    readMetadata g m = .ok d := by
  have handle := LockTable.handleOf occupied.sound (occupied.sound.opened _ occupied.locked)
  have content := occupied.content
  simp only at handle content
  simp only [readMetadata, handle, FileSystem.readNode, content, bind, Except.bind, FileSystem.textOfBytes,
    prints]

variable {rely : Machine → Machine → Prop} {caller : Caller} {registry : Nat} {directory : Path}
  {fileName command : String} {timeout : Duration} {g : Guard}

theorem Course.writes (course : Course rely caller registry directory fileName command timeout m (.ok g) m') :
    ∃ m₁, writeMetadata caller g.handle command directory m₁ = (.ok (), m') := by
  have writes {directory lockPath : Path} {n : Nat} {m r} (last : Locking rely caller directory lockPath command timeout n m r m')
      (ok : r = .ok ()) : ∃ m₁, writeMetadata caller n command directory m₁ = (.ok (), m') := by
    cases last with
    | endless others none => cases ok
    | refused others ends tries => cases ok
    | written others ends tries others' => exact ⟨_, Prod.ext ok rfl⟩
  cases course with
  | taken others queues waits granted taking =>
    cases taking with
    | taken others' opens locking => exact writes locking rfl

theorem acquireFits (others : ∀ m m', rely m m' → Fellows place m m')
    (here : ∀ m₀, rely m m₀ →
      caller.here.join ((lockDirectory caller directory m₀).join fileName).text = place)
    (sound : m.locks.Sound)
    (ends : Ends rely m (acquire caller registry directory fileName command timeout).run (some (.ok g)) m') :
    m'.locks.Sound ∧ ∃ node, (Own.locked ⟨g.handle, node⟩).Fits place (some place) m' := by
  cases ends with
  | look looks rest =>
    rename_i m₀
    let inv (own : Own) (m : Machine) : Prop := m.locks.Sound ∧ own.Fits place (some place) m
    have allowed := fairAllowed place caller ((lockDirectory caller directory m₀).join fileName)
    rw [here m₀ looks] at allowed
    obtain ⟨-, obeys⟩ := acquireObeys registry directory fileName command timeout m₀ rfl allowed
    have moves {own m own' m'} (holds : inv own m) (moves : Fair place (some place) own m own' m') : inv own' m' := by
      obtain ⟨sound', fits', -⟩ := moves holds.1 holds.2
      exact ⟨sound', fits'⟩
    have stable {own m m'} (holds : inv own m) (others' : rely m m') : inv own m' :=
      ⟨(others _ _ others').sound holds.1, (others _ _ others').fits _ _ holds.2⟩
    obtain ⟨node, sound', fits'⟩ := keptAtEnd obeys moves stable ⟨(others _ _ looks).sound sound, trivial⟩ rest
    exact ⟨sound', node, fits'⟩

theorem writtenOccupied {node : Nat} {directory : Path} {m₁ : Machine} (sound : m'.locks.Sound)
    (fits : (Own.locked ⟨g.handle, node⟩).Fits place (some place) m')
    (last : writeMetadata caller g.handle command directory m₁ = (.ok (), m')) :
    m₁.now = m'.now - Machine.tick ∧ Occupied place ⟨g.handle, node⟩
      (bytesOf (LockMetadata.text ⟨1, caller.pid, (m₁.now / 1000000000).toNat, command, directory⟩)) m' := by
  obtain ⟨locked, leads⟩ := fits
  have handle := LockTable.handleOf sound (sound.opened _ locked)
  unfold writeMetadata at last
  split at last
  · cases last
  · rename_i h found
    split at last
    · rename_i isFile
      cases last
      obtain rfl : h = ⟨g.handle, node⟩ := Option.some.inj (found.symm.trans handle)
      refine ⟨?_, sound, locked, leads rfl, ?_⟩
      · simp only [Machine.now]
        omega
      · rw [FileSystem.contentWriteNode, if_pos ⟨rfl, isFile⟩]
    · cases last

/-- Behind a successful attempt, the lock file holds the metadata of that attempt and nothing
else. Whatever happens until the release, who reads through the guard gets it, and whoever else
tries to lock the file and ends does not get the lock, but is told the command, the number of
the program and the time; only the file may refuse to be opened or the deadline to be computed. -/
theorem metadataExact (others : ∀ m m', rely m m' → Fellows place m m')
    (here : ∀ m₀, rely m m₀ →
      caller.here.join ((lockDirectory caller directory m₀).join fileName).text = place)
    (sound : m.locks.Sound) (pid : caller.pid < 0x100000000)
    (era : m'.now < 0x10000000000000000 * 1000000000)
    (ends : Ends rely m (acquire caller registry directory fileName command timeout).run (some (.ok g)) m') :
    ∃ (m₀ : Machine) (node : Nat) (d : LockMetadata), rely m m₀ ∧
      d = ⟨1, caller.pid, ((m'.now - Machine.tick) / 1000000000).toNat, command, lockDirectory caller directory m₀⟩ ∧
      m'.files.content? node = some (.file (bytesOf d.text)) ∧
      ∀ ⦃m''⦄, Meanwhile place ⟨g.handle, node⟩ m' m'' →
        readMetadata g m'' = .ok d ∧
        ∀ ⦃rival registry₁ directory₁ fileName₁ command₁ timeout₁ r m₁⦄,
          Ends (Respects place ⟨g.handle, node⟩) m''
            (acquire rival registry₁ directory₁ fileName₁ command₁ timeout₁).run (some r) m₁ →
          ∃ m₂, Respects place ⟨g.handle, node⟩ m'' m₂ ∧
            (rival.here.join ((lockDirectory rival directory₁ m₂).join fileName₁).text = place →
              ∃ e, r = .error e ∧ ((∃ source, e = .openFile source) ∨ e = .noDeadline ∨
                e = .contention command caller.pid d.startedAt
                  ((lockDirectory rival directory₁ m₂).join fileName₁))) := by
  obtain ⟨sound', node, fits⟩ := acquireFits others here sound ends
  obtain ⟨m₀, looks, course⟩ := courseOfEnds ends
  obtain ⟨m₁, last⟩ := course.writes
  obtain ⟨time, occupied⟩ := writtenOccupied sound' fits last
  rw [time] at occupied
  let d : LockMetadata :=
    ⟨1, caller.pid, ((m'.now - Machine.tick) / 1000000000).toNat, command, lockDirectory caller directory m₀⟩
  have recent : d.startedAt < 0x10000000000000000 := by
    have least : (0 : Int) ≤ m₁.now := by
      simp only [Machine.now]
      omega
    simp only [d]
    omega
  have printed : LockMetadata.ofText d.text = .ok d := LockMetadata.ofTextPrinted (show 1 < _ by decide) pid recent
  refine ⟨m₀, node, d, looks, rfl, occupied.content, fun m'' meanwhile => ?_⟩
  have still := meanwhile.occupied occupied
  refine ⟨readOccupied still printed, fun rival registry₁ directory₁ fileName₁ command₁ timeout₁ r m₃ ends' => ?_⟩
  obtain ⟨m₂, respects, course'⟩ := courseOfEnds ends'
  refine ⟨m₂, respects, fun same => ?_⟩
  have spelled : LockMetadata.ofBytes? (bytesOf d.text) = some d := by
    simp only [LockMetadata.ofBytes?, FileSystem.textOfBytes, Except.toOption, Option.bind_some, printed]
  have reported (lockPath : Path) : report lockPath (bytesOf d.text) =
      .contention command caller.pid d.startedAt lockPath := by
    rw [report, spelled]
  rw [← reported]
  exact course'.rival (fun _ _ => id) (still.respected respects) same

def quotedCommand : String := "run \"all\"\n\\é"

def formerlyLocked : Machine where
  files := ⟨#[⟨.directory [("lock", 1)], 0o755, 0⟩, ⟨.file (List.replicate 300 0xff), 0o644, 0⟩]⟩
  locks := .empty
  clock := 0
  epoch := 1700000000000000000
  rehearsals := []
  agenda := []

def rootAcquire (pid registry : Nat) (command : String) (timeout : Duration) : MachineJob LockError Guard :=
  acquire ⟨⟨"/"⟩, pid⟩ registry ⟨"."⟩ "lock" command timeout

theorem formerBytesGone : ∃ m' node m'',
    Ends Eq formerlyLocked (rootAcquire 7 0 quotedCommand .zero).run (some (.ok ⟨1, 2, ⟨"/lock"⟩⟩)) m' ∧
    readMetadata ⟨1, 2, ⟨"/lock"⟩⟩ m' = .ok ⟨1, 7, 1700000000, quotedCommand, ⟨"/"⟩⟩ ∧
    Ends (Respects ⟨"/lock"⟩ ⟨2, node⟩) m' (rootAcquire 8 1 "late" .zero).run
      (some (.error (.contention quotedCommand 7 1700000000 ⟨"/lock"⟩))) m'' := by
  have first : ((rootAcquire 7 0 quotedCommand .zero).run.poll formerlyLocked).2.value? =
      some (.ok ⟨1, 2, ⟨"/lock"⟩⟩) := by decide +kernel
  have second : ((rootAcquire 8 1 "late" .zero).run.poll
      ((rootAcquire 7 0 quotedCommand .zero).run.poll formerlyLocked).1).2.value? =
      some (.error (.contention quotedCommand 7 1700000000 ⟨"/lock"⟩)) := by decide +kernel
  have time : ((rootAcquire 7 0 quotedCommand .zero).run.poll formerlyLocked).1.now = 1700000000000002000 := by
    decide +kernel
  have root : lockDirectory ⟨⟨"/"⟩, 7⟩ ⟨"."⟩ formerlyLocked = ⟨"/"⟩ := by decide +kernel
  have ends : Ends Eq formerlyLocked (rootAcquire 7 0 quotedCommand .zero).run _ _ := Ends.ofValue (fun _ => rfl) first
  have fellows : ∀ m m' : Machine, m = m' → Fellows ⟨"/lock"⟩ m m' := by
    rintro m _ rfl
    exact (Respects.refl (h := ⟨0, 0⟩) m).toFellows
  obtain ⟨m₀, node, d, rfl, rfl, -, held⟩ := metadataExact fellows
    (by rintro _ rfl; rw [root]; decide +kernel) .empty (by decide) (by rw [time]; decide) ends
  obtain ⟨reads, -⟩ := held .refl
  rw [time, root] at reads
  exact ⟨_, node, _, ends, reads, Ends.ofValue Respects.refl second⟩

end Lock
end BuildReuse
