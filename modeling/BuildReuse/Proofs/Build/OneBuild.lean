import BuildReuse.Proofs.Build.Course
import BuildReuse.Proofs.Cache.Stands

/-! Many packages on one directory. They have the lock one after the other, for a
cache check or for a build, in any order and as often as they like, while the others
may touch the lock file. The first call of a tool that leaves a log to stand is the
last call. -/
namespace BuildReuse

open BuildReuse.Cache (Stands Withstands)
open BuildReuse.Task (Ends Ensures)

structure Visit where
  target : Target
  calls : List Call
  outcome : Option (Except PackageError (Option BuildResult))
  after : Machine

namespace Visit

inductive Happens (place : Path) (config : Config) (m : Machine) : Visit → Prop where
  | check {t o m'} (ends : Ends (Machine.Touches place) m (Cache.check t config).run o m') :
      Happens place config m ⟨t, [], o, m'⟩
  | build {t tool calls o m'}
      (course : Build.Course (Machine.Touches place) t tool config m calls o m') :
      Happens place config m ⟨t, calls, o.map fun r => r.map some, m'⟩

def Takes (config : Config) (r : BuildResult) (v : Visit) : Prop :=
  v.outcome = none ∨ v.outcome = some (.ok (some r)) ∨
    v.outcome = some (.error (.buildLog .noDeadline)) ∧
      v.after.deadline? config.logReadyTimeout = none

end Visit

inductive Visits (place : Path) (config : Config) (packages : List Target) :
    Machine → List Visit → Machine → Prop where
  | none {m} : Visits place config packages m [] m
  | next {m m₁ v visits m'} (others : Machine.Touches place m m₁) (member : v.target ∈ packages)
      (happens : v.Happens place config m₁) (rest : Visits place config packages v.after visits m') :
      Visits place config packages m (v :: visits) m'

variable {place : Path} {config : Config} {packages : List Target} {node : Nat} {log : Path}
  {result : Target → BuildResult} {t : Target} {m m' : Machine}

theorem checkStands (member : t ∈ packages) {o}
    (stands : Stands packages config place node log result m.files)
    (ends : Ends (Machine.Touches place) m (Cache.check t config).run o m') :
    Stands packages config place node log result m'.files ∧
      (Visit.mk t [] o m').Takes config (result t) := by
  rcases ends.jobBind with ⟨seen, m₁, looks, rest⟩ | ⟨e, rfl, looks⟩ | ⟨rfl, looks⟩
  · obtain ⟨after, saw | ⟨no, -⟩⟩ := Cache.standsLook member stands looks
    · cases saw
      cases rest
      exact ⟨after, .inr (.inl rfl)⟩
    · cases no
  · obtain ⟨after, no | ⟨late, clock⟩⟩ := Cache.standsLook member stands looks
    · cases no
    · cases late
      exact ⟨after, .inr (.inr ⟨rfl, clock⟩)⟩
  · exact ⟨Cache.standsLook member stands looks, .inl rfl⟩

theorem courseStands (member : t ∈ packages) {tool : BuildTool} {calls : List Call} {o}
    (stands : Stands packages config place node log result m.files)
    (course : Build.Course (Machine.Touches place) t tool config m calls o m') :
    calls = [] ∧ Stands packages config place node log result m'.files ∧
      (Visit.mk t calls (o.map fun r => r.map some) m').Takes config (result t) := by
  cases course with
  | dropped looks => exact ⟨rfl, Cache.standsLook member stands looks, .inl rfl⟩
  | failed looks =>
    obtain ⟨after, no | ⟨late, clock⟩⟩ := Cache.standsLook member stands looks
    · cases no
    · cases late
      exact ⟨rfl, after, .inr (.inr ⟨rfl, clock⟩)⟩
  | reused looks =>
    obtain ⟨after, saw | ⟨no, -⟩⟩ := Cache.standsLook member stands looks
    · cases saw
      exact ⟨rfl, after, .inr (.inl rfl)⟩
    · cases no
  | stopped looks miss others calls =>
    obtain ⟨after, saw | ⟨no, -⟩⟩ := Cache.standsLook member stands looks
    · cases saw
      cases miss
    · cases no
  | called looks miss others calls rest =>
    obtain ⟨after, saw | ⟨no, -⟩⟩ := Cache.standsLook member stands looks
    · cases saw
      cases miss
    · cases no

theorem Visit.Happens.takes {v : Visit} (member : v.target ∈ packages)
    (stands : Stands packages config place node log result m.files) (happens : v.Happens place config m) :
    v.calls = [] ∧ Stands packages config place node log result v.after.files ∧
      v.Takes config (result v.target) := by
  cases happens with
  | check ends => exact ⟨rfl, checkStands member stands ends⟩
  | build course => exact courseStands member stands course

theorem Visits.takes {visits : List Visit} (run : Visits place config packages m visits m')
    (stands : Stands packages config place node log result m.files) :
    ∀ v ∈ visits, v.calls = [] ∧ Stands packages config place node log result v.after.files ∧
      v.Takes config (result v.target) := by
  induction run with
  | none => simp
  | next others member happens rest ih =>
    have takes := happens.takes member (stands.touched others).1
    intro v isVisit
    rcases List.mem_cons.mp isVisit with rfl | later
    · exact takes
    · exact ih takes.2.1 v later

theorem Visits.split {v : Visit} {later : List Visit} : ∀ {earlier m},
    Visits place config packages m (earlier ++ v :: later) m' →
      ∃ m₁, v.target ∈ packages ∧ v.Happens place config m₁ ∧
        Visits place config packages v.after later m'
  | [], _, .next _ member happens rest => ⟨_, member, happens, rest⟩
  | _ :: _, _, .next _ _ _ rest => rest.split

theorem finishStands {output : ToolOutput} (success : output.success = true) :
    Ensures (Machine.Touches place)
      (fun m => Withstands t packages config place node log result m.files)
      (Build.finish t config (.ok output)).run
      (fun _ m => Stands packages config place node log result m.files)
      fun m => Stands packages config place node log result m.files := by
  let before (m : Machine) : Prop := Withstands t packages config place node log result m.files
  let after (m : Machine) : Prop := Stands packages config place node log result m.files
  have stable : ∀ m m', after m → m.Touches place m' → after m' :=
    fun _ _ stands touches => (stands.touched touches).1
  have removes : Ensures (Machine.Touches place) before
      (changeFiles fun fs _ => fs.removeFile t.here t.sentinel).run (fun _ => after) after :=
    Task.changeFilesEnsures (fun m m₁ fs stands others gone => (stands.touched others).2 gone)
      fun m m₁ e stands others _ => (stands.touched others).1
  have settles : Ensures (Machine.Touches place) before
      (Job.mapError PackageError.buildFailed (Build.settle t output)).run (fun _ => after) after := by
    unfold Build.settle
    rw [if_pos success]
    exact .mapError (Build.clearEnsures stable removes)
  exact settles.jobBind (fun _ => Build.collectKeeps stable) fun _ _ => id

theorem callStands {v : Visit} {c : Call} (happens : v.Happens place config m) (called : c ∈ v.calls)
    (succeeded : c.Succeeded)
    (left : Withstands v.target packages config place node log result c.after.files) :
    v.calls = [c] ∧ Stands packages config place node log result v.after.files := by
  obtain ⟨output, ended, success⟩ := succeeded
  cases happens with
  | check ends => cases called
  | build course =>
    cases course with
    | dropped => cases called
    | failed => cases called
    | reused => cases called
    | stopped =>
      cases List.mem_singleton.mp called
      cases ended
    | called looks miss others calls rest =>
      cases List.mem_singleton.mp called
      cases ended
      have finishes := finishStands success left rest
      refine ⟨rfl, ?_⟩
      split at finishes
      · exact finishes
      · exact finishes

/-- Once a call has left a log to stand, no tool is called any more, the log goes on
to stand, and every visit takes its result. -/
theorem oneBuild {earlier later : List Visit} {v : Visit} {c : Call}
    (visits : Visits place config packages m (earlier ++ v :: later) m') (called : c ∈ v.calls)
    (succeeded : c.Succeeded)
    (left : Withstands v.target packages config place node log result c.after.files) :
    v.calls = [c] ∧ Stands packages config place node log result v.after.files ∧
      ∀ w ∈ later, w.calls = [] ∧ Stands packages config place node log result w.after.files ∧
        w.Takes config (result w.target) := by
  obtain ⟨m₁, -, happens, rest⟩ := visits.split
  obtain ⟨single, stands⟩ := callStands happens called succeeded left
  exact ⟨single, stands, rest.takes stands⟩

namespace Build

def lookTurn (t : Target) (config : Config) (m : Machine) := (Cache.look t config).run.poll m

def callTurn (t : Target) (tool : BuildTool) (config : Config) (m : Machine) :=
  (tool (request t config (lookTurn t config m).1.files)).run.poll (lookTurn t config m).1

def finishTurn (t : Target) (tool : BuildTool) (config : Config) (output : ToolOutput) (m : Machine) :=
  (finish t config (.ok output)).run.poll (callTurn t tool config m).1

def closingTurn (t : Target) (tool : BuildTool) (config : Config) (output : ToolOutput) (m : Machine) :=
  (finishTurn t tool config output m).2.poll (finishTurn t tool config output m).1

def callOf (t : Target) (tool : BuildTool) (config : Config) (output : ToolOutput) (m : Machine) : Call :=
  ⟨request t config (lookTurn t config m).1.files, (lookTurn t config m).1, some (.ok output),
    (callTurn t tool config m).1⟩

theorem courseTurns {rely : Machine → Machine → Prop} {tool : BuildTool} {output : ToolOutput}
    {o : Except PackageError BuildResult} {seen} (refl : ∀ m, rely m m)
    (looks : (lookTurn t config m).2.value? = some (.ok seen)) (miss : seen.2.isReusable = false)
    (calls : (callTurn t tool config m).2.value? = some (.ok output))
    (rest : (closingTurn t tool config output m).2.value? = some o) :
    Course rely t tool config m [callOf t tool config output m] (some o) (closingTurn t tool config output m).1 :=
  .called (.ofValue refl looks) miss (refl _) (.ofValue refl calls) (.ofPoll refl (.ofValue refl rest))

end Build

def buildVisit (t : Target) (tool : BuildTool) (config : Config) (output : ToolOutput)
    (o : Except PackageError BuildResult) (m : Machine) : Visit :=
  ⟨t, [Build.callOf t tool config output m], some (o.map some),
    (Build.closingTurn t tool config output m).1⟩

theorem buildVisitHappens {tool : BuildTool} {output : ToolOutput} {o : Except PackageError BuildResult}
    {seen}
    (looks : (Build.lookTurn t config m).2.value? = some (.ok seen)) (miss : seen.2.isReusable = false)
    (calls : (Build.callTurn t tool config m).2.value? = some (.ok output))
    (rest : (Build.closingTurn t tool config output m).2.value? = some o) :
    (buildVisit t tool config output o m).Happens place config m :=
  .build (Build.courseTurns (fun _ => .still rfl) looks miss calls rest)

def checkVisit (t : Target) (config : Config) (o : Except PackageError (Option BuildResult))
    (m : Machine) : Visit :=
  ⟨t, [], some o, ((Cache.check t config).run.poll m).1⟩

theorem checkVisitHappens {o : Except PackageError (Option BuildResult)}
    (ends : ((Cache.check t config).run.poll m).2.value? = some o) :
    (checkVisit t config o m).Happens place config m :=
  .check (.ofValue (fun _ => .still rfl) ends)

open Build (app emptyLog logNaming resultNaming writesLog)

def rootOf (names : List String) (contents : List Content) : Machine where
  files := ⟨((⟨.directory (names.zip (List.range' 1 names.length)), 0o755, 0⟩ : Node) ::
    contents.map fun content => ⟨content, 0o644, 0⟩).toArray⟩
  locks := .empty
  clock := 0
  epoch := 0
  rehearsals := []
  agenda := []

def lockedRoot : Machine := rootOf [".kiln-lock"] [.file []]

def toolNaming (path : String) : BuildTool :=
  fun _ => BuildTool.perform app.directory.caller (writesLog path)

def naming (path : String) (t : Target) (config : Config) (o : Except PackageError BuildResult)
    (m : Machine) : Visit :=
  buildVisit t (toolNaming path) config (writesLog path).output o m

def callNaming (path : String) (t : Target) (config : Config) (m : Machine) : Call :=
  Build.callOf t (toolNaming path) config (writesLog path).output m

def mate : Target :=
  { app with directory := { app.directory with caller := ⟨⟨"/"⟩, 2⟩, registry := 1 } }

theorem mateTakes : ∃ v w c, Visits ⟨"/.kiln-lock"⟩ .default [app, mate] lockedRoot [v, w] w.after ∧
    v.calls = [c] ∧ c.Succeeded ∧ w.target = mate ∧ w.calls = [] ∧
    w.outcome = some (.ok (some (resultNaming "/app.kproj"))) := by
  let v := naming "/app.kproj" app .default (.ok (resultNaming "/app.kproj")) lockedRoot
  let w := checkVisit mate .default (.ok (some (resultNaming "/app.kproj"))) v.after
  let c := callNaming "/app.kproj" app .default lockedRoot
  have looks : (Build.lookTurn app .default lockedRoot).2.value? = some (.ok (none, .noBuildLog)) := by
    decide +kernel
  have first : v.Happens ⟨"/.kiln-lock"⟩ .default lockedRoot :=
    buildVisitHappens looks rfl (by decide +kernel) (by decide +kernel)
  have second : w.Happens ⟨"/.kiln-lock"⟩ .default v.after := checkVisitHappens (by decide +kernel)
  have visits : Visits ⟨"/.kiln-lock"⟩ .default [app, mate] lockedRoot ([] ++ v :: [w]) w.after :=
    .next (.still rfl) List.mem_cons_self first
      (.next (.still rfl) (List.mem_cons_of_mem _ List.mem_cons_self) second .none)
  have left : Withstands v.target [app, mate] .default ⟨"/.kiln-lock"⟩ 1 ⟨"/c.buildlog"⟩
      (fun _ => resultNaming "/app.kproj") c.after.files := by
    refine ⟨⟨by decide +kernel, ?_, by decide +kernel⟩, fun fs' removed => ?_⟩
    · have logs : ∀ t ∈ [app, mate],
          t.directory.filesWithExtension Config.default.logExtension c.after.files =
            .ok [⟨"/c.buildlog"⟩] := by decide +kernel
      have others : ∀ t ∈ [app, mate], ∀ log ∈ [Path.mk "/c.buildlog"],
          (c.after.files.find t.here log).toOption.map Trail.node ≠ some 1 := by decide +kernel
      exact fun t member => Cache.apartOf (logs t member) (others t member)
    · have absent : c.after.files.removeFile v.target.here v.target.sentinel = .error (.host .noEntry) := by
        decide +kernel
      cases absent.symm.trans removed
  have succeeded : c.Succeeded := ⟨_, rfl, rfl⟩
  obtain ⟨single, -, takes⟩ := oneBuild visits List.mem_cons_self succeeded left
  exact ⟨v, w, c, visits, single, succeeded, rfl, (takes w List.mem_cons_self).1, rfl⟩

def linkedRoot : Machine := rootOf [".kiln-lock", "c.buildlog"] [.link "c.buildlog", .file emptyLog]

def endless : Config := { Config.default with logReadyTimeout := .ofMillis 9223372036854775808000 }

def Forgets (config : Config) (t : Target) (m : Machine)
    (o : Except PackageError (Option BuildResult)) : Prop :=
  ∃ v w c log r, Visits ⟨"/.kiln-lock"⟩ config [t] m [v, w] w.after ∧ v.calls = [c] ∧ c.Succeeded ∧
    Cache.outlook t config c.after.files = .ok (some log, .reusable r) ∧ w.outcome = some o

theorem forgets {r : BuildResult} {path : String} {config : Config} {t : Target} {m m₁ : Machine} {seen}
    {o : Except PackageError BuildResult} {o' : Except PackageError (Option BuildResult)}
    (looks : (Build.lookTurn t config m).2.value? = some (.ok seen)) (miss : seen.2.isReusable = false)
    (calls : (Build.callTurn t (toolNaming path) config m).2.value? = some (.ok (writesLog path).output))
    (rest : (Build.closingTurn t (toolNaming path) config (writesLog path).output m).2.value? = some o)
    (left : Cache.outlook t config (callNaming path t config m).after.files =
      .ok (some ⟨"/c.buildlog"⟩, .reusable r))
    (touched : (naming path t config o m).after.Touches ⟨"/.kiln-lock"⟩ m₁)
    (checks : ((Cache.check t config).run.poll m₁).2.value? = some o') : Forgets config t m o' := by
  refine ⟨naming path t config o m, checkVisit t config o' m₁, callNaming path t config m, _, r, ?_, rfl,
    ⟨_, rfl, rfl⟩, left, rfl⟩
  exact .next (.still rfl) List.mem_cons_self (buildVisitHappens looks miss calls rest)
    (.next touched List.mem_cons_self (checkVisitHappens checks) .none)

theorem linkedLogForgotten : Forgets .default app linkedRoot (.ok none) := by
  let after : Machine :=
    (naming "/app.kproj" app .default (.ok (resultNaming "/app.kproj")) linkedRoot).after
  let metadata : LockMetadata := ⟨1, 1, 0, "b", ⟨"/"⟩⟩
  let m₁ : Machine := { after with files := after.files.writeNode 2 (bytesOf metadata.text) 0 }
  have looks : (Build.lookTurn app .default linkedRoot).2.value? =
      some (.ok (some ⟨"/c.buildlog"⟩, .noMatchingProject)) := by decide +kernel
  have touched : after.Touches ⟨"/.kiln-lock"⟩ m₁ := .written (by decide +kernel) rfl
  have left : Cache.outlook app .default (callNaming "/app.kproj" app .default linkedRoot).after.files =
      .ok (some ⟨"/c.buildlog"⟩, .reusable (resultNaming "/app.kproj")) := by decide +kernel
  exact forgets looks rfl (by decide +kernel) (by decide +kernel) left touched (by decide +kernel)

theorem endlessLogForgotten : Forgets endless app lockedRoot (.error (.buildLog .noDeadline)) := by
  have looks : (Build.lookTurn app endless lockedRoot).2.value? = some (.ok (none, .noBuildLog)) := by
    decide +kernel
  have rest : (Build.closingTurn app (toolNaming "/app.kproj") endless (writesLog "/app.kproj").output
      lockedRoot).2.value? = some (.error (.buildLog .noDeadline)) := by decide +kernel
  have left : Cache.outlook app endless (callNaming "/app.kproj" app endless lockedRoot).after.files =
      .ok (some ⟨"/c.buildlog"⟩, .reusable (resultNaming "/app.kproj")) := by decide +kernel
  exact forgets looks rfl (by decide +kernel) rest left (.still rfl) (by decide +kernel)

def sentry : Target := { app with sentinel := ⟨"/app.kproj"⟩ }

def sentryConfig : Config := { Config.default with sentinelFileName := "app.kproj" }

/-- Even a good call may be lost. Where the sentinel is the project file, a log that
finds the project by its place is of no use once the sentinel was cleared: the check
removes it, and the tool is called again. -/
theorem goodCallLost : (∃ v w u c d log r log' r',
      Visits ⟨"/.kiln-lock"⟩ sentryConfig [sentry] lockedRoot [v, w, u] u.after ∧
      (v.calls = [c] ∧ c.Succeeded ∧
        Cache.outlook sentry sentryConfig c.after.files = .ok (some log, .reusable r)) ∧
      w.outcome = some (.ok none) ∧ Cache.newestIn sentry sentryConfig w.after.files = .ok none ∧
      (u.calls = [d] ∧ d.Succeeded ∧
        Cache.outlook sentry sentryConfig d.after.files = .ok (some log', .reusable r'))) ∧
    Forgets endless app lockedRoot (.error (.buildLog .noDeadline)) ∧
    Forgets .default app linkedRoot (.ok none) := by
  refine ⟨?_, endlessLogForgotten, linkedLogForgotten⟩
  let lost : Except PackageError BuildResult := .error (.buildFailed (.noMatchingResult "app.kproj"))
  let v := naming "app.kproj" sentry sentryConfig lost lockedRoot
  let w := checkVisit sentry sentryConfig (.ok none) v.after
  let u := naming "app.kproj" sentry sentryConfig lost w.after
  have looks : (Build.lookTurn sentry sentryConfig lockedRoot).2.value? = some (.ok (none, .noBuildLog)) := by
    decide +kernel
  have looks' : (Build.lookTurn sentry sentryConfig w.after).2.value? = some (.ok (none, .noBuildLog)) := by
    decide +kernel
  let c := callNaming "app.kproj" sentry sentryConfig lockedRoot
  let d := callNaming "app.kproj" sentry sentryConfig w.after
  have left : Cache.outlook sentry sentryConfig c.after.files =
      .ok (some ⟨"/c.buildlog"⟩, .reusable (resultNaming "app.kproj")) := by decide +kernel
  have left' : Cache.outlook sentry sentryConfig d.after.files =
      .ok (some ⟨"/c.buildlog"⟩, .reusable (resultNaming "app.kproj")) := by decide +kernel
  have removed : Cache.newestIn sentry sentryConfig w.after.files = .ok none := by decide +kernel
  have first : v.Happens ⟨"/.kiln-lock"⟩ sentryConfig lockedRoot :=
    buildVisitHappens looks rfl (by decide +kernel) (by decide +kernel)
  have second : w.Happens ⟨"/.kiln-lock"⟩ sentryConfig v.after := checkVisitHappens (by decide +kernel)
  have third : u.Happens ⟨"/.kiln-lock"⟩ sentryConfig w.after :=
    buildVisitHappens looks' rfl (by decide +kernel) (by decide +kernel)
  have visits : Visits ⟨"/.kiln-lock"⟩ sentryConfig [sentry] lockedRoot [v, w, u] u.after :=
    .next (.still rfl) List.mem_cons_self first (.next (.still rfl) List.mem_cons_self second
      (.next (.still rfl) List.mem_cons_self third .none))
  exact ⟨v, w, u, c, d, _, _, _, _, visits, ⟨rfl, ⟨_, rfl, rfl⟩, left⟩, rfl, removed, rfl,
    ⟨_, rfl, rfl⟩, left'⟩

end BuildReuse
