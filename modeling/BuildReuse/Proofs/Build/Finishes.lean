import BuildReuse.Proofs.Build.Course
import BuildReuse.Proofs.Cache.Finishes
import BuildReuse.Proofs.Cache.Miss

/-! Builds come to their end if their tools do, and rehearsed tools do. -/
namespace BuildReuse.Build

open BuildReuse.Task (Finishes Patient)

variable {t : Target} {tool : BuildTool} {config : Config}

theorem alonePatient : Patient Alone where
  refl := Alone.refl
  later m time := ⟨{ m with clock := max m.clock time }, ⟨rfl, rfl⟩, Nat.le_max_right ..⟩

theorem settleFinishes (t : Target) (output : ToolOutput) : Finishes Alone (settle t output).run := by
  have yields : Finishes Alone (Job.yield : MachineJob BuildError Unit).run :=
    (Finishes.yield alonePatient.refl).lift
  unfold settle
  split
  · have removes := (Cache.changeFinishes alonePatient fun fs _ => fs.removeFile t.here t.sentinel)
    have clears : Finishes Alone (Job.mapError (BuildError.sentinel t.sentinel) <| tryCatch
        (changeFiles fun fs _ => fs.removeFile t.here t.sentinel)
        fun e => if e.kind = .notFound then pure () else throw e).run := by
      refine (removes.tryCatch fun e => ?_).mapError
      split <;> exact .done _
    exact clears.jobBind fun _ => yields
  · have writes : Finishes Alone (writeSentinel t output.diagnostics).run :=
      (Cache.changeFinishes alonePatient _).mapError.jobBind fun _ => yields
    exact writes.jobBind fun _ => .done _

theorem collectFinishes (t : Target) (config : Config) : Finishes Alone (collect t config).run := by
  refine (Cache.latestFinishes alonePatient t config).jobBind fun log => ?_
  cases log with
  | none => exact .done _
  | some log =>
    have reads := alonePatient.whenAvailable (Finishes.get Alone.refl fun m => BuildLog.readFile m.files t.here log.path)
      config.logReadyTimeout BuildLog.Fault.retryable
    have loads : Finishes Alone (BuildLog.load t.here log.path config.logReadyTimeout).run :=
      reads.mapError.jobBind fun document => .done _
    refine loads.mapError.jobBind fun results => ?_
    have decides : Finishes Alone (decideOn t log.path results).run := by
      unfold decideOn
      split
      · exact .done _
      · refine (Finishes.get Alone.refl _).lift.jobBind fun selected => ?_
        cases selected with
        | none => exact .done _
        | some r =>
          dsimp only
          split <;> exact .done _
    exact decides

theorem underLockFinishes (t : Target) (config : Config)
    (finishes : ∀ request, Finishes Alone (tool request).run) :
    Finishes Alone (underLock t tool config).run := by
  refine (Cache.lookFinishes alonePatient t config).jobBind fun seen => ?_
  cases reuse : seen.2.isReusable with
  | true =>
    obtain ⟨log, v⟩ := seen
    cases v with
    | reusable r => exact .done _
    | _ => cases reuse
  | false =>
    rw [proceedMiss reuse, runToolSettles]
    have runs : Finishes Alone (do
        let request ← Job.get fun m => request t config m.files
        let output ← tool request
        settle t output : MachineJob BuildError Unit).run :=
      (Finishes.get Alone.refl _).lift.jobBind fun request =>
        (finishes request).jobBind fun output => settleFinishes t output
    exact runs.mapError.jobBind fun _ => collectFinishes t config

theorem yieldsFinishes (turns : Nat) : Finishes Alone (BuildTool.yields turns).run := by
  induction turns with
  | zero => exact .done _
  | succ turns ih =>
    have once : Finishes Alone (Job.yield : MachineJob BuildError Unit).run :=
      (Finishes.yield Alone.refl).lift
    exact once.jobBind fun _ => ih

theorem rehearsedFinishes (caller : Caller) (number : Nat) (request : ToolRequest) :
    Finishes Alone (BuildTool.rehearsed caller number request).run := by
  have modifies {f : Machine → Machine} : Finishes Alone (Job.lift (Task.modify f) : MachineJob BuildError Unit).run :=
    Finishes.lift fun m => ⟨(), f m, .look (Alone.refl m) (.put .done)⟩
  have acts : Finishes Alone (Job.get fun m : Machine => ((m.rehearsals[number]?).map Rehearsal.next).getD {} :
      MachineJob BuildError Act).run := (Finishes.get Alone.refl _).lift
  refine acts.jobBind fun act => modifies.jobBind fun _ => (yieldsFinishes act.turns).jobBind fun _ => ?_
  by_cases missing : act.missing = true
  · rw [if_pos missing]
    exact .done _
  · rw [if_neg missing]
    exact modifies.jobBind fun _ => .done _

end BuildReuse.Build
