import BuildReuse.Proofs.Cache.Answer
import BuildReuse.Proofs.Lock.Sections

/-! A package alone with its directory: what a cache check leaves when it finds
nothing to reuse. It takes away the newest log only. -/
namespace BuildReuse

open BuildReuse.Task (Ends Ensures)

structure Alone (m m' : Machine) : Prop where
  files : m'.files = m.files
  rehearsals : m'.rehearsals = m.rehearsals

theorem Alone.refl (m : Machine) : Alone m m := ⟨rfl, rfl⟩

namespace Cache

def logRemoved (t : Target) (log : Option Path) (fs : FileSystem) : FileSystem :=
  match log with
  | some log => (fs.removeFile t.here log).toOption.getD fs
  | none => fs

def treesRemoved (t : Target) : List Path → FileSystem → FileSystem
  | [], fs => fs
  | path :: rest, fs => treesRemoved t rest ((fs.removeTree t.here path).toOption.getD fs)

def intermediateRemoved (t : Target) : List String → FileSystem → FileSystem
  | [], fs => fs
  | name :: rest, fs =>
    intermediateRemoved t rest
      (treesRemoved t ((t.directory.directoriesNamed name fs).toOption.getD []) fs)

def cleaned (t : Target) (config : Config) (log : Option Path) (fs : FileSystem) : FileSystem :=
  intermediateRemoved t config.intermediateDirs (logRemoved t log fs)

variable {t : Target} {config : Config} {fs : FileSystem}

theorem treesClearedRemoved (paths : List Path) : ∀ {fs fs' : FileSystem},
    treesCleared t paths fs = .ok fs' → fs' = treesRemoved t paths fs := by
  induction paths with
  | nil =>
    intro fs fs' clears
    cases clears
    rfl
  | cons path rest ih =>
    intro fs fs' clears
    rw [treesCleared] at clears
    split at clears
    · rename_i fs₁ removed
      rw [treesRemoved, removed]
      exact ih clears
    · cases clears

theorem intermediateClearedRemoved (names : List String) : ∀ {fs fs' : FileSystem},
    intermediateCleared t names fs = .ok fs' → fs' = intermediateRemoved t names fs := by
  induction names with
  | nil =>
    intro fs fs' clears
    cases clears
    rfl
  | cons name rest ih =>
    intro fs fs' clears
    rw [intermediateCleared] at clears
    split at clears
    · cases clears
    · rename_i found listed
      split at clears
      · cases clears
      · rename_i fs₁ trees
        rw [intermediateRemoved, listed, Except.toOption, Option.getD_some, ← treesClearedRemoved found trees]
        exact ih clears

theorem clearedCleaned {log : Option Path} {fs' : FileSystem} (clears : cleared t config log fs = .ok fs') :
    fs' = cleaned t config log fs := by
  rw [cleared] at clears
  split at clears
  · cases clears
  · rename_i fs₁ first
    have removed : fs₁ = logRemoved t log fs := by
      cases log with
      | none =>
        cases first
        rfl
      | some log =>
        rw [logCleared] at first
        rw [logRemoved]
        split at first
        · rename_i fs₂ gone
          cases first
          rw [gone]
          rfl
        · rename_i e failed
          split at first
          · cases first
            rw [failed]
            rfl
          · cases first
    rw [cleaned, ← removed]
    exact intermediateClearedRemoved _ clears

theorem aloneUndisturbed (q : List Rehearsal) : Undisturbed Alone fun m => m.rehearsals = q where
  files _ _ others := others.files
  kept _ _ holds others := others.rehearsals.trans holds
  moved _ _ _ holds := holds

theorem checkMisses {m m' : Machine}
    (ends : Ends Alone m (check t config).run (some (.ok none)) m') :
    ∃ log v, outlook t config m.files = .ok (log, v) ∧ v.isReusable = false ∧
      m'.files = cleaned t config log m.files ∧ m'.rehearsals = m.rehearsals := by
  obtain ⟨answer, quiet⟩ := checkAnswers (aloneUndisturbed m.rehearsals) m.files ⟨rfl, rfl⟩ ends
  cases answer with
  | missed saw miss left => exact ⟨_, _, saw, miss, clearedCleaned left, quiet⟩

end Cache

end BuildReuse
