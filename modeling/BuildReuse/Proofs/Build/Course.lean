import BuildReuse.Build.Run
import BuildReuse.Proofs.Cache.Look

/-! The course of a build under the lock: the look at the newest log, then either
its result or one call of the tool with what is made of its output. -/
namespace BuildReuse

open BuildReuse.Task (Ends Ensures whenAvailableEnsures)

structure Call where
  request : ToolRequest
  before : Machine
  outcome : Option (Except BuildError ToolOutput)
  after : Machine

namespace Call

def Succeeded (c : Call) : Prop := ∃ output, c.outcome = some (.ok output) ∧ output.success = true

end Call

namespace Build

def settle (t : Target) (output : ToolOutput) : MachineJob BuildError Unit := do
  if output.success then clearSentinel t
  else
    writeSentinel t output.diagnostics
    throw (.toolFailed t.name output.exitCode t.sentinel output.diagnostics)

theorem runToolSettles (t : Target) (tool : BuildTool) (config : Config) :
    runTool t tool config = (do
      let request ← Job.get fun m => request t config m.files
      let output ← tool request
      settle t output) := rfl

def finish (t : Target) (config : Config) : Except BuildError ToolOutput →
    MachineJob PackageError BuildResult
  | .error e => throw (.buildFailed e)
  | .ok output => do
    Job.mapError .buildFailed (settle t output)
    collect t config

def decideOn (t : Target) (log : Path) (results : List BuildResult) : MachineJob PackageError BuildResult := do
  if results.isEmpty then throw (.buildFailed (.emptyBuildLog log))
  match ← Job.get fun m => BuildResult.select m.files t.here t.projectFile results with
  | none => throw (.buildFailed (.noMatchingResult t.name))
  | some r => if r.succeeded then pure r else throw (.buildFailed (.unsuccessful t.name))

def proceed (t : Target) (tool : BuildTool) (config : Config) : Verdict →
    MachineJob PackageError BuildResult
  | .reusable r => pure r
  | _ => do
    Job.mapError .buildFailed (runTool t tool config)
    collect t config

theorem proceedMiss {t : Target} {tool : BuildTool} {config : Config} {v : Verdict}
    (miss : v.isReusable = false) : proceed t tool config v = (do
      Job.mapError .buildFailed (runTool t tool config)
      collect t config) := by
  cases v with
  | reusable r => cases miss
  | _ => rfl

def underLock (t : Target) (tool : BuildTool) (config : Config) : MachineJob PackageError BuildResult := do
  let seen ← Cache.look t config
  proceed t tool config seen.2

theorem buildUnderLock (t : Target) (tool : BuildTool) (config : Config) :
    build t tool config none = t.directory.withLock "build" (underLock t tool config) := by
  simp only [build, underLock, Cache.look, bind_assoc, pure_bind]
  refine congrArg (t.directory.withLock "build") (bind_congr fun log => bind_congr fun v => ?_)
  cases v <;> rfl

inductive Course (rely : Machine → Machine → Prop) (t : Target) (tool : BuildTool) (config : Config) :
    Machine → List Call → Option (Except PackageError BuildResult) → Machine → Prop where
  | dropped {m m'} (looks : Ends rely m (Cache.look t config).run none m') :
      Course rely t tool config m [] none m'
  | failed {m e m'} (looks : Ends rely m (Cache.look t config).run (some (.error e)) m') :
      Course rely t tool config m [] (some (.error e)) m'
  | reused {m log r m'} (looks : Ends rely m (Cache.look t config).run (some (.ok (log, .reusable r))) m') :
      Course rely t tool config m [] (some (.ok r)) m'
  | stopped {m seen m₁ m₂ m'}
      (looks : Ends rely m (Cache.look t config).run (some (.ok seen)) m₁)
      (miss : seen.2.isReusable = false) (others : rely m₁ m₂)
      (calls : Ends rely m₂ (tool (request t config m₂.files)).run none m') :
      Course rely t tool config m [⟨request t config m₂.files, m₂, none, m'⟩] none m'
  | called {m seen m₁ m₂ r m₃ o m'}
      (looks : Ends rely m (Cache.look t config).run (some (.ok seen)) m₁)
      (miss : seen.2.isReusable = false) (others : rely m₁ m₂)
      (calls : Ends rely m₂ (tool (request t config m₂.files)).run (some r) m₃)
      (rest : Ends rely m₃ (finish t config r).run o m') :
      Course rely t tool config m [⟨request t config m₂.files, m₂, some r, m₃⟩] o m'

variable {rely : Machine → Machine → Prop} {t : Target} {tool : BuildTool} {config : Config}

theorem missEnds {m o m'} :
    Ends rely m (do
      Job.mapError PackageError.buildFailed (runTool t tool config)
      collect t config : MachineJob PackageError BuildResult).run o m' ↔
    ∃ m₂, rely m m₂ ∧
      (o = none ∧ Ends rely m₂ (tool (request t config m₂.files)).run none m' ∨
        ∃ r m₃, Ends rely m₂ (tool (request t config m₂.files)).run (some r) m₃ ∧
          Ends rely m₃ (finish t config r).run o m') := by
  have whole : (do
      Job.mapError PackageError.buildFailed (runTool t tool config)
      collect t config : MachineJob PackageError BuildResult).run =
      .look fun m => (tool (request t config m.files)).run.bind fun r => (finish t config r).run := by
    change Task.look (fun m =>
      ((Task.bind (Task.bind (tool (request t config m.files)).run _) _).bind _)) = _
    simp only [Task.bindBind]
    congr 1
    funext m
    congr 1
    funext r
    cases r with
    | ok output => exact (Task.bindBind _ _ _).symm
    | error e => rfl
  rw [whole]
  constructor
  · intro ends
    cases ends with
    | look others rest =>
      refine ⟨_, others, ?_⟩
      rcases rest.bind with ⟨r, m₃, calls, rest⟩ | dropped
      · exact .inr ⟨r, m₃, calls, rest⟩
      · exact .inl dropped
  · rintro ⟨m₂, others, ⟨rfl, dropped⟩ | ⟨r, m₃, calls, rest⟩⟩
    · exact .look others dropped.dropped
    · exact .look others (calls.andThen rest)

theorem course {m o m'} : Ends rely m (underLock t tool config).run o m' ↔
    ∃ calls, Course rely t tool config m calls o m' := by
  constructor
  · intro ends
    rcases ends.jobBind with ⟨⟨log, v⟩, m₁, looks, rest⟩ | ⟨e, rfl, looks⟩ | ⟨rfl, looks⟩
    · cases reuse : v.isReusable with
      | true =>
        cases v with
        | reusable r =>
          cases rest
          exact ⟨[], .reused looks⟩
        | _ => cases reuse
      | false =>
        rw [proceedMiss reuse] at rest
        obtain ⟨m₂, others, ⟨rfl, calls⟩ | ⟨r, m₃, calls, rest⟩⟩ := missEnds.mp rest
        · exact ⟨_, .stopped looks reuse others calls⟩
        · exact ⟨_, .called looks reuse others calls rest⟩
    · exact ⟨[], .failed looks⟩
    · exact ⟨[], .dropped looks⟩
  · rintro ⟨calls, course⟩
    cases course with
    | dropped looks => exact looks.dropped
    | failed looks => exact looks.andThen .done
    | reused looks => exact looks.andThen .done
    | stopped looks miss others calls =>
      refine looks.andThen (show Ends rely _ (proceed t tool config _).run none m' from ?_)
      rw [proceedMiss miss]
      exact missEnds.mpr ⟨_, others, .inl ⟨rfl, calls⟩⟩
    | called looks miss others calls rest =>
      refine looks.andThen (show Ends rely _ (proceed t tool config _).run o m' from ?_)
      rw [proceedMiss miss]
      exact missEnds.mpr ⟨_, others, .inr ⟨_, _, calls, rest⟩⟩

variable {inv : Machine → Prop}

theorem loadKeeps (stable : ∀ m m', inv m → rely m m' → inv m') (log : Path) (timeout : Duration) :
    Ensures rely inv (Job.mapError PackageError.buildLog (BuildLog.load t.here log timeout)).run
      (fun _ => inv) inv := by
  have reads : Ensures rely inv (Task.get fun m => BuildLog.readFile m.files t.here log)
      (fun _ => inv) inv := .get stable
  have tries := whenAvailableEnsures timeout stable (fun _ => stable) reads
    fun e m (_ : BuildLog.Fault.retryable e = true) => id
  have renamed : Ensures rely inv
      (Job.mapError BuildLog.errorOf (whenAvailable timeout BuildLog.Fault.retryable
        (Task.get fun m => BuildLog.readFile m.files t.here log))).run (fun _ => inv) inv := by
    refine .mapError (tries.weaken (fun r m holds => ?_) fun _ => id)
    rcases r with (_ | fault) | document
    · exact holds.1
    · exact holds
    · exact holds
  exact .mapError (renamed.jobBind (fun document => .done fun _ => id) fun _ _ => id)

theorem collectKeeps (stable : ∀ m m', inv m → rely m m' → inv m') :
    Ensures rely inv (collect t config).run (fun _ => inv) inv := by
  have finds : Ensures rely inv (Cache.latest t config).run (fun _ => inv) inv := .get stable
  refine finds.jobBind (fun log => ?_) fun _ _ => id
  cases log with
  | none => exact .done fun _ => id
  | some log =>
    refine (loadKeeps stable log.path config.logReadyTimeout).jobBind (fun results => ?_) fun _ _ => id
    by_cases empty : results.isEmpty = true
    · rw [if_pos empty]
      exact .done fun _ => id
    · rw [if_neg empty]
      have selects : Ensures rely inv
          (Job.get fun m => BuildResult.select m.files t.here t.projectFile results :
            MachineJob PackageError (Option BuildResult)).run (fun _ => inv) inv := .lift (.get stable)
      refine selects.jobBind (fun selected => ?_) fun _ _ => id
      cases selected with
      | none => exact .done fun _ => id
      | some r =>
        by_cases done : r.succeeded = true
        · simp only [done, if_true]
          exact .done fun _ => id
        · simp only [done]
          exact .done fun _ => id

theorem clearEnsures {before after : Machine → Prop} (stable : ∀ m m', after m → rely m m' → after m')
    (removes : Ensures rely before (changeFiles fun fs _ => fs.removeFile t.here t.sentinel).run
      (fun _ => after) after) : Ensures rely before (clearSentinel t).run (fun _ => after) after := by
  have clears : Ensures rely before (Job.mapError (BuildError.sentinel t.sentinel) <| tryCatch
      (changeFiles fun fs _ => fs.removeFile t.here t.sentinel)
      fun e => if e.kind = .notFound then pure () else throw e).run (fun _ => after) after := by
    refine .mapError (removes.tryCatch (fun _ _ => id) fun e => ?_)
    split
    · exact .done fun _ => id
    · exact .done fun _ => id
  have yields : Ensures rely after (Job.yield : MachineJob BuildError Unit).run (fun _ => after) after :=
    .lift (.wait stable stable)
  exact clears.jobBind (fun _ => yields) fun _ _ => id

def app : Target where
  directory := ⟨⟨"/"⟩, ⟨⟨"/"⟩, 1⟩, 0, ".kiln-lock", .ofMillis 1000⟩
  projectFile := ⟨"/app.kproj"⟩
  name := "app.kproj"
  sentinel := ⟨"/.kiln-builderror"⟩

def logNaming (path : String) : Bytes :=
  bytesOf ("[1,[[\"" ++ path ++ "\",true,[\"a\"],[\"a\"]]]]")

def resultNaming (path : String) : BuildResult := ⟨⟨path⟩, true, [⟨"a"⟩], [⟨"a"⟩], []⟩

def emptyLog : Bytes := bytesOf "[1]"

def writesLog (path : String) : Act where
  placements := [⟨⟨"/app.kproj"⟩, [], none, none⟩, ⟨⟨"/c.buildlog"⟩, logNaming path, none, none⟩]
  output := ⟨some 0, "", ""⟩

end Build
end BuildReuse
