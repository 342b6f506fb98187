import BuildReuse.BuildLog.Load
import BuildReuse.Proofs.FileSystem.Stored
import BuildReuse.Proofs.Json.Record
import BuildReuse.Proofs.Task.Deadline
import BuildReuse.Proofs.Task.Finishes

/-! A build log that its tool has not yet written to the end. Wherever the document stops,
be it inside a character, reading fails for the time being, and loading goes on until the
document is whole or the time is over. -/
namespace BuildReuse

open Json (Written Layout)

namespace BuildResult

variable (layout : Layout)

theorem pathWritten (depth : Nat) (p : Path) : Written readPath (Json.print layout depth (.text p.text)) p :=
  (Json.textWritten p.text).map Path.mk

theorem pathsWritten (depth : Nat) (ps : List Path) :
    Written (Json.readList readPath) (Json.print layout depth (pathsJson ps)) ps :=
  Json.listWritten layout depth (pathWritten layout) ps

theorem membersFill (depth : Nat) (r : BuildResult) : Json.Record.Fills record layout depth [] record.draft r.members
    ⟨some r.projectFile, some r.succeeded, r.sources, r.inputs, r.references⟩ :=
  .next rfl rfl (Json.Field.written (pathWritten layout depth r.projectFile) ..)
    (.next rfl rfl (Json.Field.written (Json.boolWritten layout depth r.succeeded) ..)
      (.next rfl rfl (Json.Field.written (pathsWritten layout depth r.sources) ..)
        (.next rfl rfl (Json.Field.written (pathsWritten layout depth r.inputs) ..)
          (.next rfl rfl (Json.Field.written (pathsWritten layout depth r.references) ..) .done))))

theorem resultWritten (depth : Nat) (r : BuildResult) :
    Written record.read (Json.print layout depth r.toJson) r :=
  Json.Record.objectWritten (membersFill layout (depth + 1) r) rfl

end BuildResult

namespace BuildLog

theorem membersFill (layout : Layout) (depth : Nat) {log : BuildLog} (small : log.version < 0x100000000) :
    Json.Record.Fills record layout depth [] record.draft
      [("version", .number log.version), ("projects", .list (log.results.map BuildResult.toJson))]
      ⟨some log.version, log.results⟩ :=
  .next rfl rfl (Json.Field.written (Json.natWritten layout depth small) ..)
    (.next rfl rfl (Json.Field.written
      (Json.listWritten layout depth (BuildResult.resultWritten layout) log.results) ..) .done)

def written (layout : Layout) (results : List BuildResult) : Bytes :=
  bytesOf ((ofResults results).toJson.render layout)

variable {layout : Layout} {results : List BuildResult} {part : Bytes}

theorem writtenEncode (layout : Layout) (results : List BuildResult) :
    written layout results = Utf8.encode ((ofResults results).toJson.print layout 0) := by
  rw [written, bytesOf, Json.render, String.toList_ofList]

theorem documentWhole {log : BuildLog} (small : log.version < 0x100000000) :
    ofText (log.toJson.render layout) = .ok log := by
  rw [ofText, Json.render, String.toList_ofList]
  exact Json.readDocumentWhole (Json.Record.objectWritten (membersFill layout 1 small) rfl)

theorem textCut (cut : Cut part (written layout results)) : FileSystem.textOf part = .error .notText ∨
    ∃ text, FileSystem.textOf part = .ok text ∧ ofText text = .error .truncated := by
  rw [writtenEncode] at cut
  rcases Utf8.decodeCut cut with broken | ⟨cs, read, cut⟩
  · left
    rw [FileSystem.textOf, broken]
  · refine .inr ⟨String.ofList cs, by rw [FileSystem.textOf, read], ?_⟩
    have small : (ofResults results).version < 0x100000000 := show currentVersion < _ by decide
    have short := Json.Record.objectCut (membersFill layout 1 small) cut
    rw [ofText, String.toList_ofList, Json.readDocument, short]
    rfl

def Unended (log : Path) (e : Error) : Prop := e = .read log .notText ∨ e = .parse log .truncated

variable {fs : FileSystem} {here log : Path}

theorem readFileDocument {document : BuildLog} (small : document.version < 0x100000000)
    (content : fs.readBytes here log = .ok (bytesOf (document.toJson.render layout))) :
    readFile fs here log = .ok document := by
  simp only [readFile, FileSystem.readTextOf content, FileSystem.textOfBytes, documentWhole small]

theorem readFileWhole (content : fs.readBytes here log = .ok (written layout results)) :
    readFile fs here log = .ok (ofResults results) :=
  readFileDocument (show currentVersion < _ by decide) content

theorem readFileCut (cut : Cut part (written layout results)) (content : fs.readBytes here log = .ok part) :
    ∃ fault, readFile fs here log = .error fault ∧ fault.retryable = true ∧ Unended log fault.error := by
  rcases textCut cut with broken | ⟨text, decoded, short⟩
  · refine ⟨.busy (.read log .notText), ?_, rfl, .inl rfl⟩
    rw [readFile, FileSystem.readTextOf content, broken]
    rfl
  · refine ⟨.busy (.parse log .truncated), ?_, rfl, .inr rfl⟩
    rw [readFile, FileSystem.readTextOf content, decoded]
    simp only [short]

def Holds (contents : Bytes → Prop) (here log : Path) (m : Machine) : Prop :=
  ∃ bytes, contents bytes ∧ m.files.readBytes here log = .ok bytes

def Attempted (layout : Layout) (results : List BuildResult) (contents : Bytes → Prop) (log : Path) :
    Except Fault BuildLog → Prop
  | .ok document => document = ofResults results ∧ contents (written layout results)
  | .error fault => fault.retryable = true ∧ Unended log fault.error

theorem readFileAttempted {contents : Bytes → Prop}
    (parts : ∀ bytes, contents bytes → bytes <+: written layout results) {m : Machine}
    (holds : Holds contents here log m) : Attempted layout results contents log (readFile m.files here log) := by
  obtain ⟨bytes, allowed, content⟩ := holds
  by_cases whole : bytes = written layout results
  · subst whole
    rw [readFileWhole content]
    exact ⟨rfl, allowed⟩
  · obtain ⟨fault, failed, passing, unended⟩ := readFileCut ⟨parts bytes allowed, whole⟩ content
    rw [failed]
    exact ⟨passing, unended⟩

def GivenUp (log : Path) (timeout : Duration) (start : Nat) (m : Machine) (e : Error) : Prop :=
  (Unended log e ∧ start + timeout.totalNanos ≤ m.clock) ∨ (e = .noDeadline ∧ m.deadline? timeout = none)

variable {rely : Machine → Machine → Prop} {contents : Bytes → Prop}

theorem loadLasts (timeout : Duration) (parts : ∀ bytes, contents bytes → bytes <+: written layout results)
    (forward : ∀ m m', rely m m' → m.clock ≤ m'.clock)
    (stable : ∀ m m', Holds contents here log m → rely m m' → Holds contents here log m') (start : Nat) :
    Task.Ensures rely (Task.Since (Holds contents here log) start) (load here log timeout).run
      (fun r m => match r with
        | .ok loaded => loaded = results ∧ contents (written layout results)
        | .error e => GivenUp log timeout start m e)
      (Holds contents here log) := by
  have once (time : Nat) : Task.Ensures rely (Task.Since (Holds contents here log) time)
      (Task.get fun m => readFile m.files here log)
      (fun r => Task.Since (fun m => Holds contents here log m ∧ Attempted layout results contents log r) time)
      (Holds contents here log) := by
    refine .get fun m m' holds others => ?_
    obtain ⟨holds, late⟩ := Task.sinceStable stable forward time m m' holds others
    exact ⟨⟨holds, readFileAttempted parts holds⟩, late⟩
  have tries := Task.whenAvailableLasts timeout stable forward
    (fun _ m m' holds others => ⟨stable m m' holds.1 others, holds.2⟩) once
    (fun e m (_ : Fault.retryable e = true) holds => holds.1) start
  have renamed : Task.Ensures rely (Task.Since (Holds contents here log) start)
      (Job.mapError errorOf (whenAvailable timeout Fault.retryable
        (Task.get fun m => readFile m.files here log))).run
      (fun r m => match r with
        | .ok document => document = ofResults results ∧ contents (written layout results)
        | .error e => GivenUp log timeout start m e)
      (Holds contents here log) := by
    refine .mapError (tries.weaken (fun r m holds => ?_) fun _ => id)
    rcases r with (_ | fault) | document
    · exact .inr ⟨rfl, holds.2⟩
    · obtain ⟨⟨-, passing, unended⟩, late⟩ := holds
      exact .inl ⟨unended, late passing⟩
    · exact holds.2
  refine renamed.jobBind (fun document => .done fun m holds => ?_) fun e m holds => holds
  obtain ⟨rfl, whole⟩ := holds
  exact ⟨rfl, whole⟩

theorem loadCompleted (refl : ∀ m, rely m m) {timeout : Duration} {m m₁ : Machine} {deadline : Nat}
    (representable : m.deadline? timeout = some deadline) (positive : 0 < timeout.totalNanos)
    (cut : Cut part (written layout results)) (content : m.files.readBytes here log = .ok part)
    (others : rely m m₁) (late : m.clock + Retry.interval ≤ m₁.clock)
    (whole : m₁.files.readBytes here log = .ok (written layout results)) :
    Task.Ends rely m (load here log timeout).run (some (.ok results)) m₁ := by
  obtain ⟨fault, failed, passing, -⟩ := readFileCut cut content
  have early : m.clock < deadline := by
    rw [Task.deadlineTime representable]
    omega
  have short : Task.Ends rely m (Task.get fun m => readFile m.files here log) (some (.error fault)) m :=
    failed ▸ .look (refl m) .done
  have found : Task.Ends rely m₁ (Task.get fun m => readFile m.files here log)
      (some (.ok (ofResults results))) m₁ := readFileWhole whole ▸ .look (refl m₁) .done
  have tries : Task.Ends rely m (Retry.attemptUntil deadline Fault.retryable
      (Task.get fun m => readFile m.files here log) 0) (some (.ok (ofResults results))) m₁ :=
    short.attemptAgain (refl m) passing (Nat.zero_le _) early (.sleeps refl others late)
      found.attemptSucceeds
  have reads : Task.Ends rely m (Task.get fun m => Timed.deadline? m timeout) (some (some deadline)) m :=
    representable ▸ .look (refl m) .done
  have awaited : Task.Ends rely m (whenAvailable timeout Fault.retryable
      (Task.get fun m => readFile m.files here log)).run (some (.ok (ofResults results))) m₁ :=
    reads.andThen (tries.andThen .done)
  have renamed : Task.Ends rely m (Job.mapError errorOf (whenAvailable timeout Fault.retryable
      (Task.get fun m => readFile m.files here log))).run (some (.ok (ofResults results))) m₁ :=
    awaited.andThen .done
  exact renamed.andThen .done

/-- A log that stops before the end of its document can be neither read nor found faulty.
While it stays so, loading does not end before the time is over; and if it may come to hold
the whole document, loading yields all results or goes on for as long. -/
theorem halfWrittenRetried (layout : Layout) (results : List BuildResult) (here log : Path) :
    (∀ fs part, Cut part (written layout results) → fs.readBytes here log = .ok part →
      ∃ fault, readFile fs here log = .error fault ∧ fault.retryable = true ∧ Unended log fault.error) ∧
    ∀ rely timeout m r m', (∀ m m', rely m m' → m.clock ≤ m'.clock) →
      Task.Ends rely m (load here log timeout).run (some r) m' →
      (Holds (Cut · (written layout results)) here log m →
        (∀ m m', Holds (Cut · (written layout results)) here log m → rely m m' →
          Holds (Cut · (written layout results)) here log m') →
        ∃ e, r = .error e ∧ GivenUp log timeout m.clock m' e) ∧
      (Holds (· <+: written layout results) here log m →
        (∀ m m', Holds (· <+: written layout results) here log m → rely m m' →
          Holds (· <+: written layout results) here log m') →
        r = .ok results ∨ ∃ e, r = .error e ∧ GivenUp log timeout m.clock m' e) := by
  refine ⟨fun fs part cut content => readFileCut cut content,
    fun rely timeout m r m' forward ends => ⟨fun holds stays => ?_, fun holds stays => ?_⟩⟩
  · have ended := loadLasts timeout (fun bytes cut => cut.1) forward stays m.clock ⟨holds, Nat.le_refl _⟩ ends
    cases r with
    | ok loaded => exact (ended.2.2 rfl).elim
    | error e => exact ⟨e, rfl, ended⟩
  · have ended := loadLasts timeout (fun bytes => id) forward stays m.clock ⟨holds, Nat.le_refl _⟩ ends
    cases r with
    | ok loaded => exact .inl (congrArg Except.ok ended.1)
    | error e => exact .inr ⟨e, rfl, ended⟩

def accented : List BuildResult := [⟨⟨"/é.kproj"⟩, true, [⟨"a\n.k"⟩], [⟨"a\n.k"⟩], []⟩]

def appLog : Path := ⟨"/app.buildlog"⟩

def holding (content : Bytes) (time : Nat) : Machine where
  files := ⟨#[⟨.directory [("app.buildlog", 1)], 0o755, 0⟩, ⟨.file content, 0o644, 0⟩]⟩
  locks := .empty
  clock := time
  epoch := 0
  rehearsals := []
  agenda := []

def Writes (contents : Bytes → Prop) (m m' : Machine) : Prop :=
  m.clock ≤ m'.clock ∧ (Holds contents ⟨"/"⟩ appLog m → Holds contents ⟨"/"⟩ appLog m')

theorem writesPatient (contents : Bytes → Prop) : Task.Patient (Writes contents) where
  refl _ := ⟨Nat.le_refl _, id⟩
  later m time := ⟨{ m with clock := max m.clock time }, ⟨Nat.le_max_left .., id⟩, Nat.le_max_right ..⟩

theorem accentCut :
    (∃ fault, readFile (holding ((written .lines accented).take 70) 0).files ⟨"/"⟩ appLog = .error fault ∧
      fault.retryable = true ∧ Unended appLog fault.error) ∧
    (∃ e m', Task.Ends (Writes (Cut · (written .lines accented)))
        (holding ((written .lines accented).take 70) 0) (load ⟨"/"⟩ appLog ⟨1, 0, by decide, by decide⟩).run
        (some (.error e)) m' ∧
      GivenUp appLog ⟨1, 0, by decide, by decide⟩ 0 m' e) ∧
    ∃ r m', Task.Ends (Writes (· <+: written .lines accented))
        (holding ((written .lines accented).take 70) 0) (load ⟨"/"⟩ appLog ⟨1, 0, by decide, by decide⟩).run
        (some r) m' ∧
      (r = .ok accented ∨ ∃ e, r = .error e ∧ GivenUp appLog ⟨1, 0, by decide, by decide⟩ 0 m' e) ∧
      m'.clock < 1000000000 := by
  have content (bytes : Bytes) (time : Nat) : (holding bytes time).files.readBytes ⟨"/"⟩ appLog = .ok bytes := rfl
  have long : 70 < (written .lines accented).length := by
    rw [writtenEncode]
    decide +kernel
  have cut : Cut ((written .lines accented).take 70) (written .lines accented) := by
    refine ⟨List.take_prefix .., fun same => ?_⟩
    have length := congrArg List.length same
    rw [List.length_take] at length
    omega
  obtain ⟨reads, loads⟩ := halfWrittenRetried .lines accented ⟨"/"⟩ appLog
  refine ⟨reads _ _ cut (content _ 0), ?_, ?_⟩
  · have patient := writesPatient (Cut · (written .lines accented))
    have finishes : Task.Finishes _ (load ⟨"/"⟩ appLog ⟨1, 0, by decide, by decide⟩).run :=
      (patient.whenAvailable (.get patient.refl _) _ _).mapError.jobBind fun _ => .done _
    obtain ⟨r, m', ends⟩ := finishes (holding ((written .lines accented).take 70) 0)
    obtain ⟨e, rfl, givenUp⟩ := (loads _ _ _ r m' (fun _ _ writes => writes.1) ends).1
      ⟨_, cut, content _ 0⟩ fun _ _ holds writes => writes.2 holds
    exact ⟨e, m', ends, givenUp⟩
  · have soon : Writes (· <+: written .lines accented) (holding ((written .lines accented).take 70) 0)
        (holding (written .lines accented) 100000000) :=
      ⟨Nat.zero_le _, fun _ => ⟨_, List.prefix_rfl, content _ _⟩⟩
    have representable (bytes : Bytes) :
        (holding bytes 0).deadline? ⟨1, 0, by decide, by decide⟩ = some 1000000000 := by
      simp [Machine.deadline?, holding, Duration.totalNanos]
    have ends := loadCompleted (writesPatient _).refl
      (representable _) (by decide) cut (content _ 0) soon (by decide) (content _ _)
    exact ⟨_, _, ends, (loads _ _ _ _ _ (fun _ _ writes => writes.1) ends).2 ⟨_, cut.1, content _ 0⟩
      fun _ _ holds writes => writes.2 holds, by decide⟩

end BuildLog
end BuildReuse
