import BuildReuse.Proofs.Build.OneBuild
import BuildReuse.Proofs.Cache.Spared

/-! The history of the sentinel. Packages build and check, and the directory is cleaned and reported on, in
any order. The last call of a tool that has ended, or a later clean, decides whether the sentinel is
there and what it holds. A file is changed at once, and nothing of an operation that was dropped is
done later. -/
namespace BuildReuse

open BuildReuse.Task (Ends Ensures)

namespace Sentinel

inductive Event where
  | finished (output : ToolOutput)
  | cleaned
  deriving DecidableEq

def Event.note : Event → Option String
  | finished output => if output.success then none else some output.diagnostics
  | cleaned => none

def noteAfter (note : Option String) (events : List Event) : Option String :=
  (events.getLast?.map Event.note).getD note

theorem noteAfterAppend (note : Option String) (earlier later : List Event) :
    noteAfter note (earlier ++ later) = noteAfter (noteAfter note earlier) later := by
  unfold noteAfter
  rw [List.getLast?_append]
  cases later.getLast? <;> rfl

theorem noteAfterNone (events : List Event) : noteAfter none events = events.getLast?.bind Event.note := by
  unfold noteAfter
  cases events.getLast? <;> rfl

theorem Event.noteFailure {event : Event} {text : String} :
    event.note = some text ↔
      ∃ output, event = .finished output ∧ output.exitCode ≠ some 0 ∧ output.diagnostics = text := by
  cases event with
  | cleaned => simp [note]
  | finished output =>
    have failure : output.success = false ↔ output.exitCode ≠ some 0 := by simp [ToolOutput.success]
    cases success : output.success with
    | true => simp_all [note]
    | false => simp_all [note]

def eventOf? : Option (Except BuildError ToolOutput) → Option Event
  | some (.ok output) => some (.finished output)
  | _ => none

def callEvents (calls : List Call) : List Event := calls.filterMap fun c => eventOf? c.outcome

def cleanEvents : Option (Except PackageError (List Path)) → List Event
  | some (.error _) => []
  | _ => [.cleaned]

end Sentinel

open Sentinel (Event noteAfter callEvents cleanEvents)

variable {T : Trail} {config : Config} {place : Path} {note : Option String} {t : Target} {m m' : Machine}

namespace Build

section

variable (top : TopLevel T config) (seated : t.Seated T config)
include top seated

theorem sentinelWritten (text : String) : Leaves T config place note (some text) (writeSentinel t text) := by
  have writes : Leaves T config place note (some text)
      (changeFiles fun fs now => fs.writeFile t.here t.sentinel (bytesOf text) now) := by
    rw [seated.sentinelPath]
    refine Task.changeFilesEnsures (fun m m₁ fs marked others wrote => ?_) fun m m₁ e marked others failed => ?_
    · obtain ⟨fs', wrote', marked'⟩ := (others note marked).written top.isName t.here text m₁.now
      cases wrote'.symm.trans wrote
      exact marked'
    · obtain ⟨fs', wrote, -⟩ := (others note marked).written top.isName t.here text m₁.now
      cases wrote.symm.trans failed
  have renamed : Leaves T config place note (some text) (Job.mapError (BuildError.sentinel t.sentinel)
      (changeFiles fun fs now => fs.writeFile t.here t.sentinel (bytesOf text) now)) := .mapError writes
  exact renamed.jobBind (fun _ => yieldSpared) fun _ _ => id

theorem settleMarks (output : ToolOutput) :
    Leaves T config place note (Event.finished output).note (settle t output) := by
  unfold settle
  cases success : output.success with
  | true =>
    simp only [Event.note, success, if_true]
    exact clearEnsures sparesStable
      ((Cache.sentinelCleared top seated _).weaken (fun _ _ holds => holds.1) fun _ => id)
  | false =>
    simp only [Event.note, success]
    exact (sentinelWritten top seated output.diagnostics).jobBind (fun _ => .done fun _ => id) fun _ _ => id

theorem finishMarks (r : Except BuildError ToolOutput) (request : ToolRequest) (before after : Machine) :
    Leaves T config place note (noteAfter note (callEvents [⟨request, before, some r, after⟩])) (finish t config r) := by
  cases r with
  | error e => exact .done fun _ => id
  | ok output =>
    have settles : Leaves T config place note (Event.finished output).note
        (Job.mapError PackageError.buildFailed (settle t output)) := .mapError (settleMarks top seated output)
    exact settles.jobBind (fun _ => collectKeeps sparesStable) fun _ _ => id

theorem lookMarks {o} (marked : Marked T config place note m)
    (looks : Ends (Spares T config place) m (Cache.look t config).run o m') : Marked T config place note m' := by
  have keeps := Cache.lookKeeps top seated marked looks
  cases o with
  | none => exact keeps
  | some seen => exact keeps.1

theorem courseMarks {tool : BuildTool} {calls : List Call} {o} (marked : Marked T config place note m)
    (course : Course (Spares T config place) t tool config m calls o m')
    (spare : ∀ c ∈ calls, Spares T config place c.before c.after) :
    Marked T config place (noteAfter note (callEvents calls)) m' := by
  cases course with
  | dropped looks => exact lookMarks top seated marked looks
  | failed looks => exact lookMarks top seated marked looks
  | reused looks => exact lookMarks top seated marked looks
  | stopped looks miss others ends =>
    have before := others note (lookMarks top seated marked looks)
    exact spare _ List.mem_cons_self note before
  | @called seen m₁ m₂ r m₃ _ _ looks miss others ends rest =>
    have before := others note (lookMarks top seated marked looks)
    have after := spare _ List.mem_cons_self note before
    exact (finishMarks top seated r (request t config m₂.files) m₂ m₃).ends after rest

end

def Sparing (T : Trail) (config : Config) (place : Path) (tool : BuildTool) : Prop :=
  ∀ request m o m', Ends (Spares T config place) m (tool request).run o m' → Spares T config place m m'

theorem Course.spare {tool : BuildTool} {calls : List Call} {o} (sparing : Sparing T config place tool)
    (course : Course (Spares T config place) t tool config m calls o m') :
    ∀ c ∈ calls, Spares T config place c.before c.after := by
  cases course with
  | dropped | failed | reused => simp
  | stopped looks miss others ends =>
    intro c member
    cases List.mem_singleton.mp member
    exact sparing _ _ _ _ ends
  | called looks miss others ends rest =>
    intro c member
    cases List.mem_singleton.mp member
    exact sparing _ _ _ _ ends

end Build

namespace Sentinel

structure Work where
  target : Target
  events : List Event
  after : Machine

inductive Work.Happens (T : Trail) (config : Config) (place : Path) (m : Machine) : Work → Prop where
  | check {t o m'} (ends : Ends (Spares T config place) m (Cache.check t config).run o m') :
      Happens T config place m ⟨t, [], m'⟩
  | build {t tool calls o m'} (course : Build.Course (Spares T config place) t tool config m calls o m')
      (spare : ∀ c ∈ calls, Spares T config place c.before c.after) :
      Happens T config place m ⟨t, callEvents calls, m'⟩
  | passed {t tool r o m'} (ends : Ends (Spares T config place) m (Build.build t tool config (some r)).run o m') :
      Happens T config place m ⟨t, [], m'⟩
  | report {t o m'} (ends : Ends (Spares T config place) m (Cache.survey t config).run o m') :
      Happens T config place m ⟨t, [], m'⟩
  | swept {t o m'} (ends : Ends (Spares T config place) m (Cache.sweep t config).run o m')
      (early : ∀ swept, o ≠ some (.ok swept)) : Happens T config place m ⟨t, [], m'⟩
  | clean {t swept m₁ o m'} (sweeps : Ends (Spares T config place) m (Cache.sweep t config).run (some (.ok swept)) m₁)
      (clears : Ends (Spares T config place) m₁ (Cache.removeSentinel t).run o m') :
      Happens T config place m ⟨t, cleanEvents o, m'⟩

inductive History (T : Trail) (config : Config) (place : Path) (packages : List Target) :
    Machine → List Work → Machine → Prop where
  | others {m m' : Machine} (spares : Spares T config place m m') : History T config place packages m [] m'
  | next {m m₁ m' : Machine} {w : Work} {works : List Work} (spares : Spares T config place m m₁)
      (member : w.target ∈ packages) (happens : w.Happens T config place m₁)
      (rest : History T config place packages w.after works m') :
      History T config place packages m (w :: works) m'

def last? (works : List Work) : Option Event := (works.flatMap Work.events).getLast?

variable {packages : List Target} {w : Work} {works : List Work}

theorem History.append {more : List Work} {m'' : Machine} (history : History T config place packages m works m')
    (rest : History T config place packages m' more m'') : History T config place packages m (works ++ more) m'' := by
  induction history with
  | others spares =>
    cases rest with
    | others after => exact .others (sparesTrans spares after)
    | next after member happens rest => exact .next (sparesTrans spares after) member happens rest
  | next spares member happens _ ih => exact .next spares member happens (ih rest)

theorem workMarks (top : TopLevel T config) (seated : w.target.Seated T config)
    (marked : Marked T config place note m) (happens : w.Happens T config place m) :
    Marked T config place (noteAfter note w.events) w.after := by
  cases happens with
  | check ends => exact (Cache.checkKeeps top seated).ends marked ends
  | build course spare => exact Build.courseMarks top seated marked course spare
  | passed ends =>
    cases ends
    exact marked
  | @report t o m' ends =>
    have keeps := Cache.surveyTells top seated marked ends
    cases o with
    | none => exact keeps
    | some s => exact keeps.1
  | swept ends early => exact (Cache.sweepKeeps top seated).ends marked ends
  | @clean t gone m₁ o m' sweeps clears =>
    have swept := (Cache.sweepKeeps top seated).ends marked sweeps
    have clears := Cache.removeSentinelClears top seated swept clears
    rcases o with _ | (e | removed)
    · exact clears
    · exact (clears.2 e rfl).elim
    · exact clears.1

theorem historyMarks (top : TopLevel T config) (seated : ∀ t ∈ packages, t.Seated T config)
    (history : History T config place packages m works m') :
    ∀ note, Marked T config place note m → Marked T config place (noteAfter note (works.flatMap Work.events)) m' := by
  induction history with
  | others spares => exact spares
  | @next m m₁ w works m' spares member happens rest ih =>
    intro note marked
    have after := workMarks top (seated _ member) (spares note marked) happens
    rw [List.flatMap_cons, noteAfterAppend]
    exact ih _ after

theorem besideSpares (top : TopLevel T config) (m m' : Machine) (beside : Lock.Beside place m m') :
    Spares T config place m m' := Machine.Touches.spares top beside.1

theorem lockedHistory {command : String} {α : Type} {body : MachineJob PackageError α} {o}
    {P : List Event → Machine → Prop} (top : TopLevel T config) (member : t ∈ packages)
    (leads : t.directory.LocksAt place m) (sound : m.locks.Sound)
    (ends : Ends (Lock.Beside place) m (t.directory.withLock command body).run o m')
    (happens : ∀ m₁ m₂, Ends (Spares T config place) m₁ body.run o m₂ →
      ∃ es, P es m₂ ∧ (Work.mk t es m₂).Happens T config place m₁) :
    (∃ w, P w.events w.after ∧ History T config place packages m [w] m') ∨
      History T config place packages m [] m' ∧ (o = none ∨ ∃ e, o = some (.error (.lock e))) := by
  rcases Directory.withLockTouches leads sound ends with ⟨m₁, m₂, before, works, after⟩ | ⟨touches, unlocked⟩
  · obtain ⟨es, are, done⟩ := happens m₁ m₂ (works.mono (besideSpares top))
    exact .inl ⟨⟨t, es, m₂⟩, are, .next (Machine.Touches.spares top before) member done
      (.others (Machine.Touches.spares top after))⟩
  · exact .inr ⟨.others (Machine.Touches.spares top touches), unlocked⟩

structure GoesOn (T : Trail) (config : Config) (place : Path) (packages : List Target) (t : Target) (m : Machine)
    (works : List Work) (m' : Machine) : Prop where
  check : ∀ o m'', Ends (Lock.Beside place) m' (Cache.loadResultOrClean t config).run o m'' →
    ∃ more, History T config place packages m (works ++ more) m'' ∧ more.flatMap Work.events = []
  build : ∀ tool cached o m'', Build.Sparing T config place tool →
    Ends (Lock.Beside place) m' (Build.build t tool config cached).run o m'' →
    ∃ more, History T config place packages m (works ++ more) m'' ∧ ∀ w ∈ more, ∃ m₁ calls,
      Build.Course (Spares T config place) t tool config m₁ calls o w.after ∧ w.events = callEvents calls
  inspect : ∀ o m'', Ends (Lock.Beside place) m' (Cache.inspect t config).run o m'' →
    ∃ more, History T config place packages m (works ++ more) m'' ∧ more.flatMap Work.events = []
  clean : ∀ o m'', Ends (Lock.Beside place) m' (Cache.clean t config).run o m'' →
    ∃ more, History T config place packages m (works ++ more) m'' ∧
      ∀ removed, o = some (.ok removed) → more.flatMap Work.events = [.cleaned]

section

variable (top : TopLevel T config) (member : t ∈ packages) (leads : t.directory.LocksAt place m)
  (sound : m.locks.Sound)
include top member leads sound

theorem quietHistory {command : String} {α : Type} {body : MachineJob PackageError α} {o}
    (ends : Ends (Lock.Beside place) m (t.directory.withLock command body).run o m')
    (happens : ∀ m₁ m₂, Ends (Spares T config place) m₁ body.run o m₂ → (Work.mk t [] m₂).Happens T config place m₁) :
    ∃ works, History T config place packages m works m' ∧ works.flatMap Work.events = [] := by
  rcases lockedHistory (P := fun es _ => es = []) top member leads sound ends
    fun m₁ m₂ works => ⟨[], rfl, happens m₁ m₂ works⟩ with ⟨w, none, history⟩ | ⟨history, -⟩
  · exact ⟨_, history, by simp [none]⟩
  · exact ⟨_, history, rfl⟩

theorem buildHistory {tool : BuildTool} {o} (sparing : Build.Sparing T config place tool) :
    ∀ cached, Ends (Lock.Beside place) m (Build.build t tool config cached).run o m' →
      ∃ works, History T config place packages m works m' ∧ ∀ w ∈ works, ∃ m₁ calls,
        Build.Course (Spares T config place) t tool config m₁ calls o w.after ∧ w.events = callEvents calls
  | some r, ends => by
    cases ends
    exact ⟨[], .others (sparesRefl m), by simp⟩
  | none, ends => by
    have happens : ∀ m₁ m₂, Ends (Spares T config place) m₁ (Build.underLock t tool config).run o m₂ →
        ∃ es, (∃ m₁ calls, Build.Course (Spares T config place) t tool config m₁ calls o m₂ ∧ es = callEvents calls) ∧
          (Work.mk t es m₂).Happens T config place m₁ := by
      intro m₁ m₂ works
      obtain ⟨calls, course⟩ := Build.course.mp works
      exact ⟨_, ⟨m₁, calls, course, rfl⟩, .build course (course.spare sparing)⟩
    rw [Build.buildUnderLock] at ends
    rcases lockedHistory top member leads sound ends happens with ⟨w, built, history⟩ | ⟨history, -⟩
    · exact ⟨_, history, by simpa using built⟩
    · exact ⟨_, history, by simp⟩

theorem cleanHistory {o} (ends : Ends (Lock.Beside place) m (Cache.clean t config).run o m') :
    ∃ works, History T config place packages m works m' ∧
      ∀ removed, o = some (.ok removed) → works.flatMap Work.events = [.cleaned] := by
  have happens : ∀ m₁ m₂, Ends (Spares T config place) m₁ (Cache.scour t config).run o m₂ →
      ∃ es, (∀ removed, o = some (.ok removed) → es = [.cleaned]) ∧ (Work.mk t es m₂).Happens T config place m₁ := by
    intro m₁ m₂ works
    rcases works.jobBind with ⟨swept, m₃, sweeps, rest⟩ | ⟨e, rfl, sweeps⟩ | ⟨rfl, sweeps⟩
    · rcases rest.jobBind with ⟨gone, m₄, clears, rest⟩ | ⟨e, rfl, clears⟩ | ⟨rfl, clears⟩
      · cases rest
        exact ⟨_, fun _ _ => rfl, .clean sweeps clears⟩
      · exact ⟨_, nofun, .clean sweeps clears⟩
      · exact ⟨_, nofun, .clean sweeps clears⟩
    · exact ⟨_, nofun, .swept sweeps nofun⟩
    · exact ⟨_, nofun, .swept sweeps nofun⟩
  rw [Cache.cleanUnderLock] at ends
  rcases lockedHistory top member leads sound ends happens with ⟨w, cleans, history⟩ | ⟨history, unlocked⟩
  · exact ⟨_, history, fun removed same => by simp [cleans removed same]⟩
  · refine ⟨_, history, ?_⟩
    rintro removed rfl
    simp at unlocked

end

theorem goesOn (top : TopLevel T config) (member : t ∈ packages) (leads : t.directory.LocksAt place m')
    (sound : m'.locks.Sound) (history : History T config place packages m works m') :
    GoesOn T config place packages t m works m' := by
  constructor
  case check =>
    intro o m'' ends
    rw [Cache.checkUnderLock] at ends
    obtain ⟨more, rest, quiet⟩ := quietHistory top member leads sound ends fun _ _ => .check
    exact ⟨more, history.append rest, quiet⟩
  case build =>
    intro tool cached o m'' sparing ends
    obtain ⟨more, rest, built⟩ := buildHistory top member leads sound sparing cached ends
    exact ⟨more, history.append rest, built⟩
  case inspect =>
    intro o m'' ends
    rw [Cache.inspectUnderLock] at ends
    obtain ⟨more, rest, quiet⟩ := quietHistory top member leads sound ends fun _ _ => .report
    exact ⟨more, history.append rest, quiet⟩
  case clean =>
    intro o m'' ends
    obtain ⟨more, rest, cleans⟩ := cleanHistory top member leads sound ends
    exact ⟨more, history.append rest, cleans⟩

theorem lastNote (works : List Work) :
    noteAfter none (works.flatMap Work.events) = (last? works).bind Event.note := noteAfterNone _

/-- The sentinel is there if and only if the last event was a call that did not end with exit code zero. Then it
holds the diagnostics of that call, and a report tells them. What was done without an event left it as it was. And
so it is after each operation. -/
theorem sentinelHistory (top : TopLevel T config) (seated : ∀ t ∈ packages, t.Seated T config)
    (locks : ∀ t ∈ packages, t.directory.lockPlace T = place)
    (absent : Marked T config place none m) (history : History T config place packages m works m') :
    (∀ t ∈ packages,
      (m'.files.present t.here t.sentinel = true ↔
        ∃ output, last? works = some (.finished output) ∧ output.exitCode ≠ some 0) ∧
      (∀ output, last? works = some (.finished output) → output.exitCode ≠ some 0 →
        m'.files.readBytes t.here t.sentinel = .ok (bytesOf output.diagnostics)) ∧
      (m'.locks.Sound → GoesOn T config place packages t m works m' ∧
        ∀ s m'', Ends (Lock.Beside place) m' (Cache.inspect t config).run (some (.ok s)) m'' →
          s.lastBuildError = (last? works).bind Event.note)) ∧
    ∀ w : Work, w.target ∈ packages → w.Happens T config place m' → w.events = [] →
      Spares T config place m' w.after := by
  have marked := historyMarks top seated history none absent
  rw [lastNote] at marked
  refine ⟨fun t member => ?_, fun w member happens none note before => ?quiet⟩
  case quiet =>
    have after := workMarks top (seated _ member) before happens
    rwa [none] at after
  have own := seated t member
  have leads : t.directory.LocksAt place m' := locks t member ▸ Directory.locksAt (own.found marked)
  refine ⟨?there, ?holds, fun sound => ⟨goesOn top member leads sound history, ?tells⟩⟩
  case there =>
    rw [own.sentinelPath]
    cases noted : (last? works).bind Event.note with
    | none =>
      rw [noted] at marked
      have missing := marked.readsNone top.isName t.here
      rw [FileSystem.present, missing]
      refine ⟨fun found => by simp [Except.isOk, Except.toBool] at found, ?_⟩
      rintro ⟨output, last, failure⟩
      rw [last, Option.bind_some, Event.noteFailure.mpr ⟨output, rfl, failure, rfl⟩] at noted
      cases noted
    | some text =>
      rw [noted] at marked
      obtain ⟨event, last, told⟩ := Option.bind_eq_some_iff.mp noted
      obtain ⟨output, rfl, failure, -⟩ := Event.noteFailure.mp told
      exact ⟨fun _ => ⟨output, last, failure⟩, fun _ => (marked.readsText top.isName t.here).1⟩
  case holds =>
    intro output last failure
    rw [last, Option.bind_some, Event.noteFailure.mpr ⟨output, rfl, failure, rfl⟩] at marked
    rw [own.sentinelPath]
    exact (marked.readsText top.isName t.here).2
  case tells =>
    intro s m'' ends
    rw [Cache.inspectUnderLock] at ends
    rcases Directory.withLockTouches leads sound ends with ⟨m₁, m₂, before, works, -⟩ | ⟨-, no | ⟨e, no⟩⟩
    · have tells := Cache.surveyTells top own (Machine.Touches.spares top before _ marked)
        (works.mono (besideSpares top))
      exact tells.2 s rfl
    · cases no
    · cases no

open Build (app)

theorem defaultTop : TopLevel [] .default where
  straight A suffix differ := (differ (List.suffix_nil.mp suffix)).elim
  isName := by decide +kernel
  noLog := by decide +kernel
  noTree := by decide +kernel

theorem appSeated : app.Seated [] .default := ⟨by decide +kernel, by decide +kernel⟩

theorem lockedRootUnmarked : Marked [] .default ⟨"/.kiln-lock"⟩ none lockedRoot where
  tidy := FileSystem.tidyOf (by decide +kernel)
  found here := by
    rw [FileSystem.findAbsolute (by decide +kernel) here ⟨"/"⟩]
    decide +kernel
  reached here := by
    rw [FileSystem.locateAbsolute (by decide +kernel) here ⟨"/"⟩]
    exact ⟨.absent [] ".kiln-builderror", by decide +kernel⟩
  entry := .none rfl rfl
  apart := by
    have lock : lockedRoot.files.walk false FileSystem.linkLimit [] (FileSystem.stepsOf ⟨"/.kiln-lock"⟩) =
        .ok (.present [(".kiln-lock", 1)]) := by decide +kernel
    intro spot walked
    cases lock.symm.trans walked
    exact nofun

def broken : ToolOutput := ⟨some 1, "", "broken"⟩

def brokenTool : BuildTool := fun _ => pure broken

def brokenBuild (m : Machine) : Work :=
  ⟨app, callEvents [Build.callOf app brokenTool .default broken m],
    (Build.closingTurn app brokenTool .default broken m).1⟩

def sweepTurn (m : Machine) := (Cache.sweep app .default).run.poll m

def clearTurn (m : Machine) := (Cache.removeSentinel app).run.poll (sweepTurn m).1

def lastTurn (m : Machine) := (clearTurn m).2.poll (clearTurn m).1

def appClean (m : Machine) : Work :=
  ⟨app, cleanEvents (some (.ok [app.sentinel])), (lastTurn m).1⟩

theorem brokenThenCleaned : ∃ v w : Work,
    History [] .default ⟨"/.kiln-lock"⟩ [app] lockedRoot [v] v.after ∧
    v.after.files.readBytes app.here app.sentinel = .ok (bytesOf "broken") ∧
    (∃ s m', Ends (Lock.Beside ⟨"/.kiln-lock"⟩) v.after (Cache.inspect app .default).run (some (.ok s)) m' ∧
      s.lastBuildError = some "broken") ∧
    History [] .default ⟨"/.kiln-lock"⟩ [app] lockedRoot [v, w] w.after ∧
    w.after.files.present app.here app.sentinel = false := by
  let v := brokenBuild lockedRoot
  let w := appClean v.after
  have seated : ∀ t ∈ [app], t.Seated [] .default := fun t member => by
    cases List.mem_singleton.mp member
    exact appSeated
  have looks : (Build.lookTurn app .default lockedRoot).2.value? = some (.ok (none, .noBuildLog)) := by decide +kernel
  have calls : (Build.callTurn app brokenTool .default lockedRoot).2.value? = some (.ok broken) := by decide +kernel
  have fails : (Build.closingTurn app brokenTool .default broken lockedRoot).2.value? =
      some (.error (.buildFailed (.toolFailed "app.kproj" (some 1) app.sentinel "broken"))) := by decide +kernel
  have spare : ∀ c ∈ [Build.callOf app brokenTool .default broken lockedRoot],
      Spares [] .default ⟨"/.kiln-lock"⟩ c.before c.after := fun c member => by
    cases List.mem_singleton.mp member
    exact sparesRefl _
  have builds : v.Happens [] .default ⟨"/.kiln-lock"⟩ lockedRoot :=
    .build (Build.courseTurns sparesRefl looks rfl calls fails) spare
  have sweeps : (sweepTurn v.after).2.value? = some (.ok []) := by decide +kernel
  have clears : (lastTurn v.after).2.value? = some (.ok [app.sentinel]) := by decide +kernel
  have cleans : w.Happens [] .default ⟨"/.kiln-lock"⟩ v.after :=
    .clean (.ofValue sparesRefl sweeps) (.ofPoll sparesRefl (.ofValue sparesRefl clears))
  have once : History [] .default ⟨"/.kiln-lock"⟩ [app] lockedRoot [v] v.after :=
    .next (sparesRefl _) List.mem_cons_self builds (.others (sparesRefl _))
  have twice : History [] .default ⟨"/.kiln-lock"⟩ [app] lockedRoot [v, w] w.after :=
    .next (sparesRefl _) List.mem_cons_self builds
      (.next (sparesRefl _) List.mem_cons_self cleans (.others (sparesRefl _)))
  have locks : ∀ t ∈ [app], t.directory.lockPlace [] = ⟨"/.kiln-lock"⟩ := by decide +kernel
  have sound : v.after.locks.Sound := by
    have free : v.after.locks = .empty := by decide +kernel
    rw [free]
    exact .empty
  have reported : (Cache.reportTurn v.after).2.value? =
      some (.ok ⟨"app.kproj", none, .noBuildLog, some "broken"⟩) := by decide +kernel
  have alone (m : Machine) : Lock.Beside ⟨"/.kiln-lock"⟩ m m := ⟨.still rfl, id, fun _ => id⟩
  have inspects := Ends.ofValue alone reported
  obtain ⟨-, holds, tells⟩ := (sentinelHistory defaultTop seated locks lockedRootUnmarked once).1 app List.mem_cons_self
  obtain ⟨there, -⟩ := (sentinelHistory defaultTop seated locks lockedRootUnmarked twice).1 app List.mem_cons_self
  refine ⟨v, w, once, holds broken rfl (by decide), ⟨_, _, inspects, (tells sound).2 _ _ inspects⟩, twice, ?_⟩
  refine Bool.eq_false_iff.mpr fun present => ?_
  obtain ⟨output, last, -⟩ := there.mp present
  cases last

def linkedSentinel : Machine := rootOf [".kiln-lock"] [.link ".kiln-builderror"]

theorem linkedSentinelMade :
    (app.sentinel ≠ app.directory.file Config.default.lockFileName ∧
      app.sentinel = app.directory.file Config.default.sentinelFileName ∧
      app.sentinel.hasExtension Config.default.logExtension = false ∧
      Config.default.sentinelFileName ∉ Config.default.intermediateDirs) ∧
    linkedSentinel.files.present app.here app.sentinel = false ∧
    ∃ s m', Ends (Lock.Beside ⟨"/.kiln-lock"⟩) linkedSentinel (Cache.inspect app .default).run (some (.ok s)) m' ∧
      s.lastBuildError.isSome = true ∧ m'.files.present app.here app.sentinel = true := by
  let after := (Cache.reportTurn linkedSentinel).1
  have reported : (Cache.reportTurn linkedSentinel).2.value? =
        some (.ok ⟨"app.kproj", none, .noBuildLog, app.lastBuildError after.files⟩) ∧
      (app.lastBuildError after.files).isSome = true ∧ after.files.present app.here app.sentinel = true := by
    decide +kernel
  obtain ⟨ends, told, there⟩ := reported
  have alone (m : Machine) : Lock.Beside ⟨"/.kiln-lock"⟩ m m := ⟨.still rfl, id, fun _ => id⟩
  exact ⟨by decide +kernel, by decide +kernel, _, after, .ofValue alone ends, told, there⟩

end Sentinel
end BuildReuse
