import BuildReuse.Proofs.BuildLog.HalfWritten
import BuildReuse.Proofs.Task.Turned

/-! A build log that its tool has written to the end. Loading gives back its results in
their order, and refuses a log of another version by that version. -/
namespace BuildReuse.BuildLog

open Json (Layout)

def recorded (layout : Layout) (document : BuildLog) : Bytes := bytesOf (document.toJson.render layout)

variable {layout : Layout} {document : BuildLog} {here log : Path} {timeout : Duration} {m : Machine}

theorem documentLarge (large : 0x100000000 ≤ document.version) :
    ofText (document.toJson.render layout) = .error .malformed := by
  have refused (rest : List Char) (stops : Json.Stops rest) :
      Json.readNat 0x100000000 (Json.print layout 1 (.number document.version) ++ rest) = .error .malformed :=
    (Json.readNatDigits stops).trans (if_neg (Nat.not_lt_of_le large))
  have whole : record.read (document.toJson.print layout 0) = .error .malformed := by
    refine Json.Record.objectRefused rfl (fun input => ?_) fun rest stops => ?_
    · simp only [Json.field, Json.readNat, Json.skipSpaceTwice]
    · simp only [Json.field, refused rest stops, Except.map]
  rw [ofText, Json.render, String.toList_ofList, Json.readDocument, whole]
  rfl

theorem readFileLarge {fs : FileSystem} (large : 0x100000000 ≤ document.version)
    (content : fs.readBytes here log = .ok (recorded layout document)) :
    readFile fs here log = .error (.fatal (.parse log .malformed)) := by
  rw [recorded] at content
  simp only [readFile, FileSystem.readTextOf content, FileSystem.textOfBytes, documentLarge large]

def answerOf (log : Path) : Except Fault BuildLog → Except Error (List BuildResult)
  | .ok document => resultsOf log document
  | .error fault => .error fault.error

def Ready (contents : Bytes) (here log : Path) (timeout : Duration) (m : Machine) : Prop :=
  m.files.readBytes here log = .ok contents ∧ m.deadline? timeout ≠ none

structure Loads (contents : Bytes) (here log : Path) (timeout : Duration)
    (answer : Except Error (List BuildResult)) : Prop where
  turn : ∀ m, Ready contents here log timeout m →
    Task.poll m (load here log timeout).run = (m, .done answer)
  among : ∀ rely m r m', (∀ m m', Ready contents here log timeout m → rely m m' → Ready contents here log timeout m') →
    Ready contents here log timeout m → Task.Ends rely m (load here log timeout).run (some r) m' → r = answer

section

variable {contents : Bytes} {found : Except Fault BuildLog}
  (reads : ∀ fs : FileSystem, fs.readBytes here log = .ok contents → readFile fs here log = found)
  (final : ∀ fault, found = .error fault → fault.retryable = false)
include reads final

theorem runLoad (ready : Ready contents here log timeout m) :
    Task.run m (load here log timeout).run = (m, .done (answerOf log found)) := by
  have attempts : Task.run m (Task.get fun m => readFile m.files here log) = (m, .done found) := by
    rw [← reads m.files ready.1]
    rfl
  have awaited := Task.runWhenAvailable final ready.2 attempts
  cases found with
  | ok document => exact (Task.runJob (Task.runMapError awaited)).trans rfl
  | error fault => exact (Task.runBind (Task.runBind awaited)).trans rfl

theorem loadEnsures {rely : Machine → Machine → Prop}
    (stable : ∀ m m', Ready contents here log timeout m → rely m m' → Ready contents here log timeout m') :
    Task.Ensures rely (Ready contents here log timeout) (load here log timeout).run
      (fun r _ => r = answerOf log found) (Ready contents here log timeout) := by
  have once : Task.Ensures rely (Ready contents here log timeout) (Task.get fun m => readFile m.files here log)
      (fun r m => Ready contents here log timeout m ∧ r = found) (Ready contents here log timeout) :=
    .get fun m m' ready others => ⟨stable m m' ready others, reads m'.files (stable m m' ready others).1⟩
  have tries := Task.whenAvailableEnsures timeout stable
    (fun _ m m' holds others => ⟨stable m m' holds.1 others, holds.2⟩) once
    (fun fault m (_ : Fault.retryable fault = true) holds => holds.1)
  have renamed : Task.Ensures rely (Ready contents here log timeout)
      (Job.mapError errorOf (whenAvailable timeout Fault.retryable
        (Task.get fun m => readFile m.files here log))).run
      (fun r _ => r = found.mapError Fault.error) (Ready contents here log timeout) := by
    refine .mapError (tries.weaken (fun r m holds => ?_) fun _ => id)
    rcases r with (_ | fault) | document
    · exact (holds.1.2 holds.2).elim
    · rw [← holds.2]
      rfl
    · rw [← holds.2]
      rfl
  refine renamed.jobBind (fun document => .done fun m holds => ?_) fun e m holds => ?_
  · cases found with
    | ok document' =>
      cases holds
      rfl
    | error fault => cases holds
  · cases found with
    | ok document' => cases holds
    | error fault =>
      cases holds
      rfl

theorem loadsAnswer : Loads contents here log timeout (answerOf log found) where
  turn _ ready := Task.pollOfRun (runLoad reads final ready)
  among _ _ _ _ stable ready ends := loadEnsures reads final stable ready ends

end

/-- Of a whole log that is of the current version loading gives all results in their order. A log
of another version is refused by its version, or, where that is beyond 32 bits, as a document
that cannot be understood. -/
theorem recordedLoads (layout : Layout) (results : List BuildResult) (here log : Path) (timeout : Duration) :
    Loads (recorded layout (ofResults results)) here log timeout (.ok results) ∧
    ∀ version, version ≠ 1 →
      (version < 0x100000000 →
        Loads (recorded layout ⟨version, results⟩) here log timeout (.error (.unsupportedVersion log version))) ∧
      (0x100000000 ≤ version →
        Loads (recorded layout ⟨version, results⟩) here log timeout (.error (.parse log .malformed))) := by
  have whole (document : BuildLog) (small : document.version < 0x100000000) :
      Loads (recorded layout document) here log timeout (resultsOf log document) :=
    loadsAnswer (fun fs => readFileDocument small) nofun
  refine ⟨whole (ofResults results) (show currentVersion < _ by decide),
    fun version other => ⟨fun small => ?_, fun large => ?_⟩⟩
  · have refused : resultsOf log ⟨version, results⟩ = .error (.unsupportedVersion log version) := if_neg other
    rw [← refused]
    exact whole ⟨version, results⟩ small
  · have refused : Loads (recorded layout ⟨version, results⟩) here log timeout
        (answerOf log (.error (.fatal (.parse log .malformed)))) := by
      refine loadsAnswer (fun fs => readFileLarge large) fun fault same => ?_
      cases same
      rfl
    exact refused

theorem holdingReady (document : BuildLog) :
    Ready (recorded .lines document) ⟨"/"⟩ appLog ⟨1, 0, by decide, by decide⟩ (holding (recorded .lines document) 0) :=
  ⟨rfl, by simp [Machine.deadline?, holding, Duration.totalNanos]⟩

theorem accentLoaded :
    Task.poll (holding (recorded .lines (ofResults accented)) 0) (load ⟨"/"⟩ appLog ⟨1, 0, by decide, by decide⟩).run =
      (holding (recorded .lines (ofResults accented)) 0, .done (.ok accented)) ∧
    Task.poll (holding (recorded .lines ⟨2, accented⟩) 0) (load ⟨"/"⟩ appLog ⟨1, 0, by decide, by decide⟩).run =
      (holding (recorded .lines ⟨2, accented⟩) 0, .done (.error (.unsupportedVersion appLog 2))) ∧
    Task.poll (holding (recorded .lines ⟨0x100000000, accented⟩) 0)
        (load ⟨"/"⟩ appLog ⟨1, 0, by decide, by decide⟩).run =
      (holding (recorded .lines ⟨0x100000000, accented⟩) 0, .done (.error (.parse appLog .malformed))) := by
  obtain ⟨current, others⟩ := recordedLoads .lines accented ⟨"/"⟩ appLog ⟨1, 0, by decide, by decide⟩
  exact ⟨current.turn _ (holdingReady _), ((others 2 (by decide)).1 (by decide)).turn _ (holdingReady _),
    ((others 0x100000000 (by decide)).2 (by decide)).turn _ (holdingReady _)⟩

theorem runEndless (endless : m.deadline? timeout = none) :
    Task.run m (load here log timeout).run = (m, .done (.error .noDeadline)) := by
  have reads : Task.run m (Task.get fun m => Timed.deadline? m timeout) = (m, .done none) := by
    rw [← endless]
    rfl
  have awaited : Task.run m (whenAvailable timeout Fault.retryable
      (Task.get fun m => readFile m.files here log)).run = (m, .done (.error .noDeadline)) := Task.runBind reads
  exact (Task.runBind (Task.runBind awaited)).trans rfl

theorem longVersionUntold :
    ((holding (recorded .lines ⟨0x100000000, accented⟩) 0).files.readBytes ⟨"/"⟩ appLog =
        .ok (recorded .lines ⟨0x100000000, accented⟩) ∧
      Task.poll (holding (recorded .lines ⟨0x100000000, accented⟩) 0)
          (load ⟨"/"⟩ appLog ⟨1, 0, by decide, by decide⟩).run =
        (holding (recorded .lines ⟨0x100000000, accented⟩) 0, .done (.error (.parse appLog .malformed)))) ∧
    (holding (recorded .lines (ofResults accented)) 0).files.readBytes ⟨"/"⟩ appLog =
        .ok (recorded .lines (ofResults accented)) ∧
      Task.poll (holding (recorded .lines (ofResults accented)) 0)
          (load ⟨"/"⟩ appLog ⟨0xFFFFFFFFFFFFFFFF, 0, by decide, by decide⟩).run =
        (holding (recorded .lines (ofResults accented)) 0, .done (.error .noDeadline)) := by
  have large (fs : FileSystem) : fs.readBytes ⟨"/"⟩ appLog = .ok (recorded .lines ⟨0x100000000, accented⟩) →
      readFile fs ⟨"/"⟩ appLog = .error (.fatal (.parse appLog .malformed)) := readFileLarge (Nat.le_refl _)
  have final (fault : Fault) (same : (.error (.fatal (.parse appLog .malformed)) : Except Fault BuildLog) = .error fault) :
      fault.retryable = false := by
    cases same
    rfl
  have endless : (holding (recorded .lines (ofResults accented)) 0).deadline?
      ⟨0xFFFFFFFFFFFFFFFF, 0, by decide, by decide⟩ = none := by
    simp [Machine.deadline?, holding, Duration.totalNanos]
  exact ⟨⟨rfl, Task.pollOfRun (runLoad large final (holdingReady _))⟩, rfl, Task.pollOfRun (runEndless endless)⟩

end BuildReuse.BuildLog
