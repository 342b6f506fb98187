import BuildReuse.Proofs.Cache.Look
import BuildReuse.Proofs.Task.Finishes

/-! Cache checks and status reports come to their end, since they wait for nothing but
time. -/
namespace BuildReuse.Cache

open BuildReuse.Task (Finishes Patient)

variable {rely : Machine → Machine → Prop} (patient : Patient rely)
include patient

theorem changeFinishes (f : FileSystem → Int → Except IoError FileSystem) :
    Finishes rely (changeFiles f).run := Finishes.update patient.refl _

theorem judgeFinishes (t : Target) (config : Config) (log : Option Path) :
    Finishes rely (judge t config log).run := by
  cases log with
  | none => exact .done _
  | some log =>
    have reads := patient.whenAvailable (Finishes.get patient.refl fun m => BuildLog.readFile m.files t.here log)
      config.logReadyTimeout BuildLog.Fault.retryable
    have loads : Finishes rely (BuildLog.load t.here log config.logReadyTimeout).run :=
      reads.mapError.jobBind fun document => .done _
    exact loads.mapError.jobBind fun results => (Finishes.get patient.refl _).lift

theorem latestFinishes (t : Target) (config : Config) : Finishes rely (latest t config).run :=
  Finishes.get patient.refl _

theorem lookFinishes (t : Target) (config : Config) : Finishes rely (look t config).run :=
  (latestFinishes patient t config).jobBind fun _ => (judgeFinishes patient t config _).jobBind fun _ => .done _

theorem removeLogFinishes (t : Target) (config : Config) (log : Path) :
    Finishes rely (removeLog t config log).run := by
  have removes := patient.whenAvailable (changeFinishes patient fun fs _ => fs.removeFile t.directory.caller.here log)
    config.logReadyTimeout IoError.transient
  refine Finishes.mapError (removes.bind fun r => ?_)
  rcases r with (_ | e) | done
  · exact .done _
  · exact .done _
  · exact .done _

theorem removeTreesFinishes (t : Target) (paths : List Path) : Finishes rely (removeTrees t paths).run := by
  induction paths with
  | nil => exact .done _
  | cons path rest ih =>
    exact (changeFinishes patient _).mapError.jobBind fun _ => (Finishes.yield patient.refl).lift.jobBind fun _ => ih

theorem removeIntermediateFinishes (t : Target) (names : List String) :
    Finishes rely (removeIntermediate t names).run := by
  induction names with
  | nil => exact .done _
  | cons name rest ih =>
    have finds : Finishes rely (Job.check fun m : Machine =>
        (t.directory.directoriesNamed name m.files).mapError PackageError.io).run := Finishes.get patient.refl _
    exact finds.jobBind fun found =>
      (removeTreesFinishes patient t found).jobBind fun _ => ih.jobBind fun _ => .done _

theorem checkFinishes (t : Target) (config : Config) : Finishes rely (check t config).run := by
  refine (lookFinishes patient t config).jobBind fun seen => ?_
  obtain ⟨log, v⟩ := seen
  have clears : Finishes rely (do
      let _ ← removeIntermediate t config.intermediateDirs
      pure none : MachineJob PackageError (Option BuildResult)).run :=
    (removeIntermediateFinishes patient t _).jobBind fun _ => .done _
  cases v with
  | reusable r => exact .done _
  | _ =>
    cases log with
    | none => exact clears
    | some log => exact (removeLogFinishes patient t config log).jobBind fun _ => clears

end BuildReuse.Cache
