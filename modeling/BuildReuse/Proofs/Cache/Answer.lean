import BuildReuse.Proofs.Cache.Look
import BuildReuse.Proofs.FileSystem.Outline

/-! The answer of a cache check, as the files tell it: the result that is reused, or what
is left when the newest log and the intermediate output are cleared away. -/
namespace BuildReuse

open BuildReuse.Task (Ends Ensures)

namespace Cache

def logCleared (t : Target) (fs : FileSystem) : Option Path → Except PackageError FileSystem
  | none => .ok fs
  | some log =>
    match fs.removeFile t.here log with
    | .ok fs => .ok fs
    | .error e => if e.kind == .notFound then .ok fs else .error (.io e)

def treesCleared (t : Target) : List Path → FileSystem → Except PackageError FileSystem
  | [], fs => .ok fs
  | path :: rest, fs =>
    match fs.removeTree t.here path with
    | .ok fs => treesCleared t rest fs
    | .error e => .error (.io e)

def intermediateCleared (t : Target) : List String → FileSystem → Except PackageError FileSystem
  | [], fs => .ok fs
  | name :: rest, fs =>
    match t.directory.directoriesNamed name fs with
    | .error e => .error (.io e)
    | .ok found =>
      match treesCleared t found fs with
      | .error e => .error e
      | .ok fs => intermediateCleared t rest fs

def cleared (t : Target) (config : Config) (log : Option Path) (fs : FileSystem) :
    Except PackageError FileSystem :=
  match logCleared t fs log with
  | .error e => .error e
  | .ok fs => intermediateCleared t config.intermediateDirs fs

inductive Answers (t : Target) (config : Config) (fs : FileSystem) :
    Except PackageError (Option BuildResult) → Machine → Prop where
  | failed {e m} (saw : outlook t config fs = .error e) (files : m.files = fs) :
      Answers t config fs (.error e) m
  | reused {log r m} (saw : outlook t config fs = .ok (log, .reusable r)) (files : m.files = fs) :
      Answers t config fs (.ok (some r)) m
  | missed {log v m} (saw : outlook t config fs = .ok (log, v)) (miss : v.isReusable = false)
      (left : cleared t config log fs = .ok m.files) : Answers t config fs (.ok none) m
  | stuck {log v e m} (saw : outlook t config fs = .ok (log, v)) (miss : v.isReusable = false)
      (left : cleared t config log fs = .error e) : Answers t config fs (.error e) m
  | unread {m : Machine} (late : m.deadline? config.logReadyTimeout = none) (files : m.files = fs) :
      Answers t config fs (.error (.buildLog .noDeadline)) m
  | unremoved {log v} {m : Machine} (saw : outlook t config fs = .ok (log, v)) (miss : v.isReusable = false)
      (late : m.deadline? config.logReadyTimeout = none) (files : m.files = fs) :
      Answers t config fs (.error .noDeadline) m

structure Undisturbed (rely : Machine → Machine → Prop) (also : Machine → Prop) : Prop where
  files : ∀ ⦃m m'⦄, rely m m' → m'.files = m.files
  kept : ∀ ⦃m m'⦄, also m → rely m m' → also m'
  moved : ∀ ⦃m⦄ (fs : FileSystem) (clock : Nat), also m → also { m with files := fs, clock := clock }

def Finds (fs : FileSystem) (also : Machine → Prop) (m : Machine) : Prop := m.files = fs ∧ also m

variable {rely : Machine → Machine → Prop} {also : Machine → Prop} {t : Target} {config : Config}
  {fs : FileSystem}

theorem Undisturbed.finds (alone : Undisturbed rely also) (fs : FileSystem) :
    ∀ m m', Finds fs also m → rely m m' → Finds fs also m' :=
  fun _ _ holds others => ⟨(alone.files others).trans holds.1, alone.kept holds.2 others⟩

def Tried (f : FileSystem → Except IoError FileSystem) (fs : FileSystem) (also : Machine → Prop)
    (r : Except IoError Unit) (m : Machine) : Prop :=
  match r with
  | .ok () => f fs = .ok m.files ∧ also m
  | .error e => f fs = .error e ∧ Finds fs also m

def Clears {α : Type} (left : Except PackageError FileSystem) (also : Machine → Prop)
    (r : Except PackageError α) (m : Machine) : Prop :=
  also m ∧ match r with
  | .ok _ => left = .ok m.files
  | .error e => left = .error e

section

variable (alone : Undisturbed rely also)
include alone

theorem triedStable (f : FileSystem → Except IoError FileSystem) :
    ∀ r m m', Tried f fs also r m → rely m m' → Tried f fs also r m' := by
  intro r m m' holds others
  cases r with
  | ok done => exact ⟨alone.files others ▸ holds.1, alone.kept holds.2 others⟩
  | error e => exact ⟨holds.1, alone.finds fs m m' holds.2 others⟩

theorem triedEnsures (f : FileSystem → Except IoError FileSystem) (quit : Machine → Prop) :
    Ensures rely (Finds fs also) (changeFiles fun fs _ => f fs).run (Tried f fs also) quit := by
  refine Task.changeFilesEnsures (fun m m₁ fs' holds others changed => ?_) fun m m₁ e holds others failed => ?_
  · have now := alone.finds fs m m₁ holds others
    rw [now.1] at changed
    exact ⟨changed, alone.moved fs' _ now.2⟩
  · have now := alone.finds fs m m₁ holds others
    rw [now.1] at failed
    exact ⟨failed, now⟩

theorem logClears (log : Path) :
    Ensures rely (Finds fs also) (removeLog t config log).run
      (fun r m => Clears (logCleared t fs (some log)) also r m ∨
        r = .error .noDeadline ∧ m.deadline? config.logReadyTimeout = none ∧ Finds fs also m)
      fun _ => True := by
  have tries := Task.whenAvailableEnsures config.logReadyTimeout (alone.finds fs)
    (triedStable alone fun fs => fs.removeFile t.here log)
    (triedEnsures alone (fun fs => fs.removeFile t.here log) (Finds fs also))
    fun e m (_ : IoError.transient e = true) holds => holds.2
  refine .mapError (Ensures.bind (tries.weaken (fun _ _ => id) fun _ _ => trivial) fun r => ?_)
  rcases r with (_ | e) | done
  · exact .done fun m holds => .inr ⟨rfl, holds.2, holds.1⟩
  · refine .done fun m holds => .inl ?_
    obtain ⟨failed, files, rest⟩ := holds
    simp only at failed
    split
    · rename_i gone
      exact ⟨rest, by simp only [Except.mapError, logCleared, failed, gone, if_true, files]⟩
    · rename_i other
      exact ⟨rest, by simp only [Except.mapError, PackageError.ofRemoval, logCleared, failed, other,
        Bool.false_eq_true, if_false]⟩
  · refine .done fun m holds => .inl ?_
    obtain ⟨removed, rest⟩ := holds
    simp only at removed
    exact ⟨rest, by simp only [Except.mapError, logCleared, removed]⟩

theorem treesClear (paths : List Path) : ∀ fs : FileSystem,
    Ensures rely (Finds fs also) (removeTrees t paths).run (Clears (treesCleared t paths fs) also)
      fun _ => True := by
  induction paths with
  | nil => exact fun fs => .done fun m holds => ⟨holds.2, by rw [treesCleared, holds.1]⟩
  | cons path rest ih =>
    intro fs
    let remove (fs : FileSystem) := fs.removeTree t.here path
    have removes : Ensures rely (Finds fs also)
        (Job.mapError PackageError.io (changeFiles fun fs _ => remove fs)).run
        (fun r m => match r with
          | .ok _ => Tried remove fs also (.ok ()) m
          | .error e => ∃ e', e = .io e' ∧ Tried remove fs also (.error e') m) fun _ => True := by
      refine .mapError ((triedEnsures alone remove _).weaken (fun r m holds => ?_) fun _ => id)
      cases r with
      | ok done => exact holds
      | error e => exact ⟨e, rfl, holds⟩
    refine removes.jobBind (fun done => ?_) fun e m holds => ?_
    · intro m o m' holds
      have removed : fs.removeTree t.here path = .ok m.files := holds.1
      have yields : Ensures rely (Finds m.files also) (Job.yield : MachineJob PackageError Unit).run
          (fun r m' => r = .ok () ∧ Finds m.files also m') fun _ => True :=
        .lift (.wait (fun m₁ m₂ holds others => ⟨rfl, alone.finds m.files m₁ m₂ holds others⟩)
          fun _ _ _ _ => trivial)
      have whole : treesCleared t (path :: rest) fs = treesCleared t rest m.files := by
        rw [treesCleared, removed]
      rw [whole]
      refine yields.jobBind (fun done m o m' holds => ih _ holds.2) (fun e m holds => ?_) ⟨rfl, holds.2⟩
      cases holds.1
    · obtain ⟨e', rfl, failed, files, rest⟩ := holds
      have failed : fs.removeTree t.here path = .error e' := failed
      exact ⟨rest, by rw [treesCleared, failed]⟩

theorem intermediateClears (names : List String) : ∀ fs : FileSystem,
    Ensures rely (Finds fs also) (removeIntermediate t names).run
      (Clears (intermediateCleared t names fs) also) fun _ => True := by
  induction names with
  | nil => exact fun fs => .done fun m holds => ⟨holds.2, by rw [intermediateCleared, holds.1]⟩
  | cons name rest ih =>
    intro fs
    have finds : Ensures rely (Finds fs also)
        (Job.check fun m => (t.directory.directoriesNamed name m.files).mapError PackageError.io).run
        (fun r m => Finds fs also m ∧ r = (t.directory.directoriesNamed name fs).mapError .io)
        fun _ => True :=
      .get fun m m' holds others =>
        ⟨alone.finds fs m m' holds others, by rw [(alone.finds fs m m' holds others).1]⟩
    refine finds.jobBind (fun found m o m' holds => ?_) fun e m holds => ?_
    · have named : t.directory.directoriesNamed name fs = .ok found := by
        cases listed : t.directory.directoriesNamed name fs with
        | error e => simp [listed, Except.mapError] at holds
        | ok names => simpa [listed, Except.mapError] using holds.2.symm
      refine (treesClear alone found fs).jobBind (fun done m o m' holds => ?_) (fun e m holds => ?_) holds.1
      · obtain ⟨rest', left⟩ := holds
        have whole : intermediateCleared t (name :: rest) fs = intermediateCleared t rest m.files := by
          rw [intermediateCleared, named]
          simp only [left]
        rw [whole]
        refine (ih m.files).jobBind (fun others => ?_) (fun e m holds => ?_) ⟨rfl, rest'⟩
        · exact .done fun m holds => holds
        · exact holds
      · obtain ⟨rest', left⟩ := holds
        exact ⟨rest', by rw [intermediateCleared, named]; simp only [left]⟩
    · obtain ⟨⟨files, rest'⟩, failed⟩ := holds
      refine ⟨rest', ?_⟩
      cases listed : t.directory.directoriesNamed name fs with
      | error e' =>
        rw [intermediateCleared, listed]
        simp only [listed, Except.mapError, Except.error.injEq] at failed
        rw [failed]
      | ok names => simp [listed, Except.mapError] at failed

theorem missAnswers {log : Option Path} {v : Verdict} (saw : outlook t config fs = .ok (log, v))
    (miss : v.isReusable = false) :
    Ensures rely (Finds fs also) (conclude t config log v).run
      (fun r m => Answers t config fs r m ∧ also m) fun _ => True := by
  let rest : MachineJob PackageError (Option BuildResult) := do
    let _ ← removeIntermediate t config.intermediateDirs
    pure none
  have clears (fs' : FileSystem) (first : logCleared t fs log = .ok fs') :
      Ensures rely (Finds fs' also) rest.run (fun r m => Answers t config fs r m ∧ also m) fun _ => True := by
    have left : cleared t config log fs = intermediateCleared t config.intermediateDirs fs' := by
      rw [cleared, first]
    refine (intermediateClears alone _ fs').jobBind (fun others => .done fun m holds => ?_) fun e m holds => ?_
    · exact ⟨.missed saw miss (left.trans holds.2), holds.1⟩
    · exact ⟨.stuck saw miss (left.trans holds.2), holds.1⟩
  rw [concludeMiss miss]
  cases log with
  | none => exact clears fs rfl
  | some log =>
    refine (logClears alone log).jobBind (fun done m o m' holds => ?_) fun e m holds => ?_
    · rcases holds with ⟨rest', left⟩ | ⟨no, -⟩
      · exact clears m.files left ⟨rfl, rest'⟩
      · cases no
    · rcases holds with ⟨rest', left⟩ | ⟨no, late, files, rest'⟩
      · exact ⟨.stuck saw miss (by rw [cleared, left]), rest'⟩
      · cases no
        exact ⟨.unremoved saw miss late files, rest'⟩

theorem checkAnswers (fs : FileSystem) :
    Ensures rely (Finds fs also) (check t config).run (fun r m => Answers t config fs r m ∧ also m)
      fun _ => True := by
  have alike : ∀ m, Finds fs also m → Alike t config fs m.files :=
    fun m found => found.1.symm ▸ .refl t config fs
  have looks := lookEnsures (alone.finds fs) alike
  refine (looks.weaken (fun _ _ => id) fun _ _ => trivial).jobBind (fun seen m o m' holds => ?_) fun e m holds => ?_
  · obtain ⟨log, v⟩ := seen
    obtain ⟨found, saw | ⟨no, -⟩⟩ := holds
    · cases reuse : v.isReusable with
      | true =>
        cases v with
        | reusable r =>
          have reuses : Ensures rely (Finds fs also) (conclude t config log (.reusable r)).run
              (fun r m => Answers t config fs r m ∧ also m) fun _ => True :=
            .done fun m found => ⟨.reused saw.symm found.1, found.2⟩
          exact reuses found
        | _ => cases reuse
      | false => exact missAnswers alone saw.symm reuse found
    · cases no
  · obtain ⟨found, saw | ⟨failed, late⟩⟩ := holds
    · exact ⟨.failed saw.symm found.1, found.2⟩
    · cases failed
      exact ⟨.unread late found.1, found.2⟩

end

theorem treesFail {e : PackageError} (paths : List Path) : ∀ {fs : FileSystem},
    treesCleared t paths fs = .error e → ∃ e', e = .io e' := by
  induction paths with
  | nil => exact nofun
  | cons path rest ih =>
    intro fs fails
    rw [treesCleared] at fails
    split at fails
    · exact ih fails
    · cases fails
      exact ⟨_, rfl⟩

theorem intermediateFails {e : PackageError} (names : List String) : ∀ {fs : FileSystem},
    intermediateCleared t names fs = .error e → ∃ e', e = .io e' := by
  induction names with
  | nil => exact nofun
  | cons name rest ih =>
    intro fs fails
    rw [intermediateCleared] at fails
    split at fails
    · cases fails
      exact ⟨_, rfl⟩
    · split at fails
      · rename_i trees
        cases fails
        exact treesFail _ trees
      · exact ih fails

theorem clearedFails {log : Option Path} {e : PackageError} (fails : cleared t config log fs = .error e) :
    ∃ e', e = .io e' := by
  rw [cleared] at fails
  split at fails
  · rename_i first
    cases fails
    cases log with
    | none => cases first
    | some log =>
      rw [logCleared] at first
      split at first
      · cases first
      · split at first
        · cases first
        · cases first
          exact ⟨_, rfl⟩
  · exact intermediateFails _ fails

theorem answersUnlocked {e : LockError} {m : Machine} : ¬ Answers t config fs (.error (.lock e)) m := by
  intro answers
  cases answers with
  | failed saw files =>
    obtain ⟨e', no⟩ := outlookFails saw
    cases no
  | stuck saw miss cleared =>
    obtain ⟨e', no⟩ := clearedFails cleared
    cases no

structure Answered {α : Type} (ended : Except PackageError α) : Prop where
  locked : ∀ e, ended ≠ .error (.lock e)
  read : ended ≠ .error (.buildLog .noDeadline)
  removed : ended ≠ .error .noDeadline

def answerOf (left : Option Path → Except PackageError FileSystem) :
    Except PackageError (Option Path × Verdict) → Except PackageError (Option BuildResult)
  | .error e => .error e
  | .ok (_, .reusable r) => .ok (some r)
  | .ok (log, _) => (left log).map fun _ => none

theorem answerMissed {left : Option Path → Except PackageError FileSystem} {log : Option Path} {v : Verdict}
    (miss : v.isReusable = false) : answerOf left (.ok (log, v)) = (left log).map fun _ => none := by
  cases v with
  | reusable r => cases miss
  | _ => rfl

def answerIn (t : Target) (config : Config) (fs : FileSystem) : Except PackageError (Option BuildResult) :=
  answerOf (fun log => cleared t config log fs) (outlook t config fs)

theorem answersIn {r : Except PackageError (Option BuildResult)} {m : Machine} (answers : Answers t config fs r m)
    (answered : Answered r) : r = answerIn t config fs := by
  unfold answerIn
  cases answers with
  | failed saw files => rw [saw, answerOf]
  | reused saw files => rw [saw, answerOf]
  | missed saw miss left =>
    rw [saw, answerMissed miss, left]
    rfl
  | stuck saw miss left =>
    rw [saw, answerMissed miss, left]
    rfl
  | unread => exact (answered.read rfl).elim
  | unremoved => exact (answered.removed rfl).elim

theorem logClearedWriteNode (log : Option Path) (n : Nat) (bytes : Bytes) (now : Int) :
    logCleared t (fs.writeNode n bytes now) log = (logCleared t fs log).map fun fs => fs.writeNode n bytes now := by
  cases log with
  | none => rfl
  | some log =>
    rw [logCleared, logCleared, FileSystem.removeFileWriteNode]
    cases fs.removeFile t.here log with
    | ok fs' => rfl
    | error e =>
      simp only [Except.map]
      split <;> rfl

theorem treesClearedWriteNode (n : Nat) (bytes : Bytes) (now : Int) (paths : List Path) : ∀ fs : FileSystem,
    treesCleared t paths (fs.writeNode n bytes now) =
      (treesCleared t paths fs).map fun fs => fs.writeNode n bytes now := by
  induction paths with
  | nil => exact fun _ => rfl
  | cons path rest ih =>
    intro fs
    rw [treesCleared, treesCleared, FileSystem.removeTreeWriteNode]
    cases fs.removeTree t.here path with
    | error e => rfl
    | ok fs' => exact ih fs'

theorem intermediateClearedWriteNode (n : Nat) (bytes : Bytes) (now : Int) (names : List String) :
    ∀ fs : FileSystem, intermediateCleared t names (fs.writeNode n bytes now) =
      (intermediateCleared t names fs).map fun fs => fs.writeNode n bytes now := by
  induction names with
  | nil => exact fun _ => rfl
  | cons name rest ih =>
    intro fs
    have same := FileSystem.outlineWriteNode fs n bytes now
    have listed : t.directory.directoriesNamed name (fs.writeNode n bytes now) =
        t.directory.directoriesNamed name fs := by
      simp only [Directory.directoriesNamed, FileSystem.directoriesNamedOutline same]
    rw [intermediateCleared, intermediateCleared, listed]
    cases t.directory.directoriesNamed name fs with
    | error e => rfl
    | ok found =>
      simp only [treesClearedWriteNode]
      cases treesCleared t found fs with
      | error e => rfl
      | ok fs' => exact ih fs'

theorem clearedWriteNode (log : Option Path) (n : Nat) (bytes : Bytes) (now : Int) :
    cleared t config log (fs.writeNode n bytes now) =
      (cleared t config log fs).map fun fs => fs.writeNode n bytes now := by
  rw [cleared, cleared, logClearedWriteNode]
  cases logCleared t fs log with
  | error e => rfl
  | ok fs' => exact intermediateClearedWriteNode n bytes now _ fs'

end Cache
end BuildReuse
