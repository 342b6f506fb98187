import BuildReuse.Proofs.Build.Course
import BuildReuse.Proofs.Cache.Miss

/-! The build behind a cache check that found nothing, of a package that is alone
with its directory. The build judges the newest of the logs that the check has
left. If that one can be reused, the build takes its result and no tool runs. -/
namespace BuildReuse

open BuildReuse.Task (Ends Ensures)

def Machine.asked (m : Machine) (number : Nat) : List ToolRequest :=
  ((m.rehearsals[number]?).map Rehearsal.requests).getD []

def BuildTool.Notes (number : Nat) (tool : BuildTool) : Prop :=
  ∀ ⦃request m r m'⦄, number < m.rehearsals.length → Ends Alone m (tool request).run (some r) m' →
    m'.asked number = m.asked number ++ [request]

def Quiet (q : List Rehearsal) (m : Machine) : Prop := m.rehearsals = q

variable {t : Target} {tool : BuildTool} {config : Config} {q : List Rehearsal}

theorem quietStable : ∀ m m', Quiet q m → Alone m m' → Quiet q m' :=
  fun _ _ holds alone => alone.rehearsals.trans holds

theorem quietLock {d : Directory} {command : String} {m m' : Machine}
    (locks : d.Locks Alone command m m') : m'.rehearsals = m.rehearsals := by
  obtain ⟨guard, ends⟩ := locks
  exact Lock.acquireRehearsals (fun _ _ alone => alone.rehearsals) ends

namespace BuildTool

theorem notedNotes {number : Nat}
    (keeps : ∀ ⦃request m r m'⦄, Ends Alone m (tool request).run (some r) m' →
      m'.asked number = m.asked number) : Notes number (noted number tool) := by
  intro request m r m' room ends
  rcases ends.jobBind with ⟨done, m₁, notes, calls⟩ | ⟨e, -, notes⟩ | ⟨no, -⟩
  · have asked : m₁.asked number = m.asked number ++ [request] := by
      cases notes with
      | look others rest =>
        cases rest with
        | put rest =>
          cases rest
          simp [Machine.asked, others.rehearsals, List.getElem?_modify_eq, List.getElem?_eq_getElem room,
            Rehearsal.ask]
    rw [keeps calls, asked]
  · cases notes with
    | look others rest =>
      cases rest with
      | put rest => cases rest
  · cases no

theorem yieldsQuiet (turns : Nat) :
    Ensures Alone (Quiet q) (yields turns).run (fun _ => Quiet q) (Quiet q) := by
  induction turns with
  | zero => exact .done fun _ => id
  | succ turns ih =>
    have once : Ensures Alone (Quiet q) (Job.yield : MachineJob BuildError Unit).run (fun _ => Quiet q)
        (Quiet q) := .lift (.wait quietStable quietStable)
    exact once.jobBind (fun _ => ih) fun _ _ => id

theorem placeQuiet {here : Path} {p : Placement} {m m' : Machine} (placed : m.place here p = .ok m') :
    m'.rehearsals = m.rehearsals := by
  unfold Machine.place Machine.withFiles at placed
  cases written : m.files.writeFile here p.path p.bytes m.now with
  | error e => simp [written, Except.map, bind, Except.bind] at placed
  | ok fs =>
    simp only [written, Except.map, bind, Except.bind] at placed
    split at placed
    · cases placed
    · cases placed
      rfl

theorem performQuiet (caller : Caller) (act : Act) :
    Ensures Alone (Quiet q) (perform caller act).run (fun _ => Quiet q) (Quiet q) := by
  have places (placements : List Placement) (m : Machine) :
      (placements.foldl (fun m p => (m.place caller.here p).toOption.getD m) m).rehearsals =
        m.rehearsals := by
    induction placements generalizing m with
    | nil => rfl
    | cons p rest ih =>
      rw [List.foldl_cons, ih]
      cases placed : m.place caller.here p with
      | error e => rfl
      | ok m' => exact placeQuiet placed
  have acts : Ensures Alone (Quiet q) (do
      Job.lift (Task.modify fun m =>
        act.placements.foldl (fun m p => (m.place caller.here p).toOption.getD m) m)
      pure act.output : MachineJob BuildError ToolOutput).run (fun _ => Quiet q) (Quiet q) := by
    intro m o m' holds ends
    cases ends with
    | look others rest =>
      cases rest with
      | put rest =>
        cases rest
        exact (places _ _).trans (quietStable m _ holds others)
  refine (yieldsQuiet act.turns).jobBind (fun _ => ?_) fun _ _ => id
  by_cases missing : act.missing = true
  · rw [if_pos missing]
    exact .done fun _ => id
  · rw [if_neg missing]
    exact acts

theorem performNotes (caller : Caller) (act : Act) (number : Nat) :
    Notes number (noted number fun _ => perform caller act) := by
  refine notedNotes fun request m r m' performs => ?_
  have quiet : m'.rehearsals = m.rehearsals := performQuiet caller act rfl performs
  rw [Machine.asked, quiet, Machine.asked]

theorem rehearsedNotes (caller : Caller) (number : Nat) : Notes number (rehearsed caller number) := by
  intro request m r m' room ends
  rcases ends.jobBind with ⟨act, m₁, reads, calls⟩ | ⟨e, -, reads⟩ | ⟨no, -⟩
  · have quiet : m₁.rehearsals = m.rehearsals := by
      cases reads with
      | look others rest =>
        cases rest
        exact others.rehearsals
    rw [performNotes caller act number (quiet ▸ room) calls, Machine.asked, quiet, Machine.asked]
  · cases reads with
    | look others rest => cases rest
  · cases no

end BuildTool

namespace Build

theorem settleQuiet (output : ToolOutput) :
    Ensures Alone (Quiet q) (settle t output).run (fun _ => Quiet q) (Quiet q) := by
  have changes (f : FileSystem → Int → Except IoError FileSystem) :
      Ensures Alone (Quiet q) (changeFiles f).run (fun _ => Quiet q) (Quiet q) :=
    Task.changeFilesEnsures (fun m m₁ _ holds others _ => quietStable m m₁ holds others)
      fun m m₁ _ holds others _ => quietStable m m₁ holds others
  unfold settle
  split
  · exact clearEnsures quietStable (changes _)
  · have written : Ensures Alone (Quiet q) (Job.mapError (BuildError.sentinel t.sentinel)
        (changeFiles fun fs now => fs.writeFile t.here t.sentinel (bytesOf output.diagnostics) now)).run
        (fun _ => Quiet q) (Quiet q) := .mapError (changes _)
    have writes : Ensures Alone (Quiet q) (writeSentinel t output.diagnostics).run (fun _ => Quiet q)
        (Quiet q) := written.jobBind (fun _ => .lift (.wait quietStable quietStable)) fun _ _ => id
    exact writes.jobBind (fun _ => .done fun _ => id) fun _ _ => id

theorem finishQuiet (r : Except BuildError ToolOutput) :
    Ensures Alone (Quiet q) (finish t config r).run (fun _ => Quiet q) (Quiet q) := by
  cases r with
  | error e => exact .done fun _ => id
  | ok output =>
    have settles : Ensures Alone (Quiet q) (Job.mapError PackageError.buildFailed (settle t output)).run
        (fun _ => Quiet q) (Quiet q) := .mapError (settleQuiet output)
    exact settles.jobBind (fun _ => collectKeeps quietStable) fun _ _ => id

theorem lookAlone {m m' : Machine} {r : Except PackageError (Option Path × Verdict)}
    (looks : Ends Alone m (Cache.look t config).run (some r) m') :
    m'.files = m.files ∧ m'.rehearsals = m.rehearsals ∧
      (r = Cache.outlook t config m.files ∨ r = .error (.buildLog .noDeadline)) := by
  have stable := (Cache.aloneUndisturbed m.rehearsals).finds m.files
  have alike : ∀ m', Cache.Finds m.files (fun m' => m'.rehearsals = m.rehearsals) m' →
      Cache.Alike t config m.files m'.files := fun m' found => found.1.symm ▸ .refl t config m.files
  have sees := Cache.lookEnsures stable alike
  obtain ⟨⟨files, quiet⟩, saw | ⟨late, -⟩⟩ := sees ⟨rfl, rfl⟩ looks
  · exact ⟨files, quiet, .inl saw⟩
  · exact ⟨files, quiet, .inr late⟩

theorem courseAlone {m m' : Machine} {calls : List Call} {r : BuildResult}
    (course : Course Alone t tool config m calls (some (.ok r)) m') :
    ∃ log v, Cache.outlook t config m.files = .ok (log, v) ∧
      (v = .reusable r ∧ calls = [] ∨
        v.isReusable = false ∧ ∃ call, calls = [call] ∧ call.request = request t config m.files) := by
  cases course with
  | reused looks =>
    obtain ⟨-, -, saw | no⟩ := lookAlone looks
    · exact ⟨_, _, saw.symm, .inl ⟨rfl, rfl⟩⟩
    · cases no
  | called looks miss others calls rest =>
    obtain ⟨files, -, saw | no⟩ := lookAlone looks
    · exact ⟨_, _, saw.symm, .inr ⟨miss, _, rfl, by rw [others.files, files]⟩⟩
    · cases no

theorem courseAsked {m m' : Machine} {calls : List Call} {r : Except PackageError BuildResult}
    {number : Nat} (notes : tool.Notes number) (room : number < m.rehearsals.length)
    (course : Course Alone t tool config m calls (some r) m') :
    m'.asked number = m.asked number ++ calls.map Call.request := by
  have still {m m' : Machine} (quiet : m'.rehearsals = m.rehearsals) : m'.asked number = m.asked number := by
    rw [Machine.asked, quiet, Machine.asked]
  cases course with
  | failed looks => simpa using still (lookAlone looks).2.1
  | reused looks => simpa using still (lookAlone looks).2.1
  | called looks miss others calls rest =>
    have before := others.rehearsals.trans (lookAlone looks).2.1
    have noted := notes (before ▸ room) calls
    have after := still (finishQuiet _ rfl rest)
    rw [after, noted, still before, List.map_singleton]

/-- Behind a check that found nothing, the newest of the logs that are left
decides: it is reused, or the tool is called exactly once. -/
theorem rebuildAfterMiss {m m₁ m₂ : Machine} {r : BuildResult}
    (missed : Ends Alone m (Cache.loadResultOrClean t config).run (some (.ok none)) m₁)
    (built : Ends Alone m₁ (build t tool config none).run (some (.ok r)) m₂) :
    ∃ looked log v locked left v' calls ended,
      t.directory.Locks Alone "cache-check" m looked ∧
      Cache.outlook t config looked.files = .ok (log, v) ∧ v.isReusable = false ∧
      m₁.files = Cache.cleaned t config log looked.files ∧
      t.directory.Locks Alone "build" m₁ locked ∧
      Cache.outlook t config locked.files = .ok (left, v') ∧
      Course Alone t tool config locked calls (some (.ok r)) ended ∧
      (v' = .reusable r ∧ calls = [] ∨
        v'.isReusable = false ∧ ∃ call, calls = [call] ∧ call.request = request t config locked.files) ∧
      ∀ number, tool.Notes number → number < m.rehearsals.length →
        m₂.asked number = m.asked number ++ calls.map Call.request := by
  rw [Cache.checkUnderLock] at missed
  rw [buildUnderLock] at built
  rcases Directory.withLockEnds missed with ⟨guard, looked, left, freed, locks, checks, others | ⟨no, -⟩, rfl⟩ |
    ⟨e, no, -⟩ | ⟨no, -⟩
  case inr.inl | inr.inr | inl.inr => cases no
  rcases Directory.withLockEnds built with ⟨guard', locked, ended, freed', locks', builds, others' | ⟨no, -⟩, rfl⟩ |
    ⟨e, no, -⟩ | ⟨no, -⟩
  case inr.inl | inr.inr | inl.inr => cases no
  obtain ⟨log, v, saw, miss, files, quiet⟩ := Cache.checkMisses checks
  obtain ⟨calls, course⟩ := Build.course.mp builds
  obtain ⟨log', v', saw', decided⟩ := courseAlone course
  refine ⟨looked, log, v, locked, log', v', calls, ended, ⟨guard, locks⟩, saw, miss,
    others.files.trans files, ⟨guard', locks'⟩, saw', course, decided, fun number notes room => ?_⟩
  have before : locked.rehearsals = m.rehearsals := calc
    locked.rehearsals = (Lock.release guard freed).rehearsals := quietLock ⟨guard', locks'⟩
    _ = left.rehearsals := others.rehearsals
    _ = looked.rehearsals := quiet
    _ = m.rehearsals := quietLock ⟨guard, locks⟩
  have noted := courseAsked notes (before ▸ room) course
  have after : freed'.rehearsals = ended.rehearsals := others'.rehearsals
  simpa only [Machine.asked, Lock.release, Lock.leave, Lock.close, before, after] using noted

def twoLogs (older : Bytes) : Machine where
  files := ⟨#[⟨.directory [("app.kproj", 1), ("a.buildlog", 2), ("b.buildlog", 3)], 0o755, 0⟩,
    ⟨.file [], 0o644, 0⟩, ⟨.file older, 0o644, 1⟩, ⟨.file emptyLog, 0o644, 2⟩]⟩
  locks := .empty
  clock := 0
  epoch := 0
  rehearsals := [.ofActs [writesLog "/app.kproj"]]
  agenda := []

def appTool : BuildTool := .rehearsed app.directory.caller 0

def checkTurn (m : Machine) := (Cache.loadResultOrClean app .default).run.poll m

def buildTurn (m : Machine) := (build app appTool .default none).run.poll (checkTurn m).1

def lastTurn (m : Machine) := (buildTurn m).2.poll (buildTurn m).1

theorem checkedTwoLogs (older : Bytes)
    (found : (checkTurn (twoLogs older)).2.value? = some (.ok none)) :
    Ends Alone (twoLogs older) (Cache.loadResultOrClean app .default).run (some (.ok none))
      (checkTurn (twoLogs older)).1 :=
  .ofValue Alone.refl found

theorem bothLogsStale : ∃ m₁ m₂ locked left v,
    Ends Alone (twoLogs emptyLog) (Cache.loadResultOrClean app .default).run (some (.ok none)) m₁ ∧
    Ends Alone m₁ (build app appTool .default none).run (some (.ok (resultNaming "/app.kproj"))) m₂ ∧
    app.directory.Locks Alone "build" m₁ locked ∧
    Cache.outlook app .default locked.files = .ok (left, v) ∧ v.isReusable = false ∧
    m₂.asked 0 = [request app .default locked.files] := by
  have missed := checkedTwoLogs emptyLog (by decide +kernel)
  have built : Ends Alone (checkTurn (twoLogs emptyLog)).1 (build app appTool .default none).run
      (some (.ok (resultNaming "/app.kproj"))) (lastTurn (twoLogs emptyLog)).1 :=
    .ofPoll Alone.refl (.ofValue Alone.refl (by decide +kernel))
  obtain ⟨-, -, -, locked, left, v, calls, -, -, -, -, -, locks, saw, -, decided, asked⟩ :=
    rebuildAfterMiss missed built
  have noted := asked 0 (BuildTool.rehearsedNotes _ 0) (by decide)
  have before : (twoLogs emptyLog).asked 0 = [] := rfl
  rw [before, List.nil_append] at noted
  rcases decided with ⟨-, rfl⟩ | ⟨miss, call, rfl, same⟩
  · have once : ((lastTurn (twoLogs emptyLog)).1.asked 0).length = 1 := by decide +kernel
    rw [noted] at once
    cases once
  · exact ⟨_, _, locked, left, v, missed, built, locks, saw, miss, by rw [noted, ← same]; rfl⟩

theorem olderLogReused : ∃ m₁ m₂,
    Ends Alone (twoLogs (logNaming "/app.kproj")) (Cache.loadResultOrClean app .default).run (some (.ok none)) m₁ ∧
    Ends Alone m₁ (build app appTool .default none).run (some (.ok (resultNaming "/app.kproj"))) m₂ ∧
    appTool.Notes 0 ∧ 0 < (twoLogs (logNaming "/app.kproj")).rehearsals.length ∧ m₂.asked 0 = [] :=
  ⟨_, _, checkedTwoLogs (logNaming "/app.kproj") (by decide +kernel), .ofValue Alone.refl (by decide +kernel),
    BuildTool.rehearsedNotes _ 0, by decide, by decide +kernel⟩

end Build
end BuildReuse
