import BuildReuse.Proofs.Cache.Stands
import BuildReuse.Proofs.Cache.Answer
import BuildReuse.Proofs.FileSystem.Listing
import Mathlib.Data.List.Nodup

/-! What a check that finds nothing to reuse takes away: from the directory of the project
the newest log and the directories of intermediate output, and nothing else. -/
namespace BuildReuse

namespace Cache

open FileSystem

variable {t : Target} {config : Config} {fs fs' : FileSystem} {T : Trail} {log : Path} {es : List (String × Nat)}

theorem logEntry {logs : List Path} (found : fs.find t.here t.root = .ok T)
    (listed : t.directory.filesWithExtension config.logExtension fs = .ok logs) :
    ∃ es, fs.content? T.node = some (.directory es) ∧ ∀ log ∈ logs,
      ∃ e ∈ es, fs.isFile e.2 = true ∧ log = t.directory.file e.1 ∧ log.hasExtension config.logExtension := by
  obtain ⟨es, at?⟩ := Directory.listedIn found listed
  refine ⟨es, at?, fun log isLog => ?_⟩
  cases (Directory.listedAt found at? _).symm.trans listed
  obtain ⟨name, isName, rfl⟩ := List.mem_map.mp isLog
  obtain ⟨e, member, rfl, file, extended⟩ := Directory.namesMem.mp isName
  exact ⟨e, member, file, rfl, extended⟩

def discards (t : Target) (config : Config) (log : Option Path) (fs : FileSystem) (e : String × Nat) : Bool :=
  log == some (t.directory.file e.1) || config.intermediateDirs.contains e.1 && fs.isDirectory e.2

theorem logClearedWithout {log : Option Path} (tidy : fs.Tidy) (found : fs.find t.here t.root = .ok T)
    (newest : newestIn t config fs = .ok log) (at? : fs.content? T.node = some (.directory es)) :
    logCleared t fs log = .ok (fs.without T.node fun e => log == some (t.directory.file e.1)) := by
  cases log with
  | none => exact congrArg Except.ok (withoutNone at? fun _ _ => rfl).symm
  | some log =>
    obtain ⟨logs, trail, listed, isLog, there⟩ := newestListed newest
    obtain ⟨es', at', entry⟩ := logEntry found listed
    cases at?.symm.trans at'
    obtain ⟨e, member, file, rfl, -⟩ := entry log isLog
    have noDirectory : fs.isDirectory e.2 = false := by
      obtain ⟨bytes, content⟩ := isFileIff.mp file
      rw [isDirectory, content]
    have removed := removeFileEntry tidy found at? member noDirectory there
    have removed : fs.removeFile t.here (t.directory.file e.1) = _ := removed
    rw [logCleared, removed]
    refine congrArg Except.ok (withoutCongr at? fun e' member' => ?_)
    by_cases same : e'.1 = e.1
    · simp [same]
    · have other : t.directory.file e.1 ≠ t.directory.file e'.1 := fun h =>
        same (Path.joinInjective (tidy.named at? e member) (tidy.named at? e' member') h).symm
      simp [same, other]

theorem namedAtMostOnce (name : String) (p : String × Nat → Bool) (distinct : (es.map Prod.fst).Nodup) :
    (∀ e ∈ es, (p e && e.1 == name) = false) ∧ es.filter (fun e => p e && e.1 == name) = [] ∨
      ∃ e ∈ es, e.1 = name ∧ p e = true ∧ es.filter (fun e => p e && e.1 == name) = [e] := by
  cases selected : es.filter fun e => p e && e.1 == name with
  | nil => exact .inl ⟨fun e member => by simpa using List.filter_eq_nil_iff.mp selected e member, rfl⟩
  | cons e rest =>
    have named : ∀ e' ∈ e :: rest, e' ∈ es ∧ p e' = true ∧ e'.1 = name := by
      intro e' member
      rw [← selected] at member
      simpa using List.mem_filter.mp member
    have once : ((e :: rest).map Prod.fst).Nodup := by
      rw [← selected]
      exact distinct.sublist (List.filter_sublist.map _)
    have alone : rest = [] := by
      cases rest with
      | nil => rfl
      | cons e' rest =>
        rw [List.map_cons, List.map_cons, List.nodup_cons] at once
        have same : e.1 = e'.1 := (named e (by simp)).2.2.trans (named e' (by simp)).2.2.symm
        exact (once.1 (by simp [same])).elim
    obtain ⟨member, holds, same⟩ := named e List.mem_cons_self
    exact .inr ⟨e, member, same, holds, by rw [alone]⟩

theorem treesAt (found : fs.find t.here t.root = .ok T) (at? : fs.content? T.node = some (.directory es))
    (name : String) : t.directory.directoriesNamed name fs =
      .ok (((es.filter fun e => fs.isDirectory e.2 && e.1 == name).map Prod.fst).map t.directory.file) := by
  have there : fs.find t.directory.caller.here t.directory.root = .ok T := found
  have isDirectory : fs.isDirectory T.node = true := isDirectoryIff.mpr ⟨es, at?⟩
  have entries : fs.entries T.node = es := by simp [FileSystem.entries, at?]
  simp only [Directory.directoriesNamed, FileSystem.directoriesNamed, there, bind, Except.bind, Except.map,
    isDirectory, entries, if_true]

theorem treesListed {name : String} {found : List Path} (parent : ∀ T', fs.find t.here t.root = .ok T' → T' = T)
    (at? : fs.content? T.node = some (.directory es))
    (listed : t.directory.directoriesNamed name fs = .ok found) :
    fs.find t.here t.root = .ok T ∧
      found = ((es.filter fun e => fs.isDirectory e.2 && e.1 == name).map Prod.fst).map t.directory.file := by
  cases there : fs.find t.here t.root with
  | error e =>
    have there : fs.find t.directory.caller.here t.directory.root = .error e := there
    simp [Directory.directoriesNamed, FileSystem.directoriesNamed, there, bind, Except.bind, Except.map] at listed
  | ok T' =>
    obtain rfl := parent T' there
    exact ⟨rfl, Except.ok.inj (listed.symm.trans (treesAt there at? name))⟩

theorem onlyFound {root : Path} {here : Path} (tidy : fs.Tidy) (found : fs.find here root = .ok T)
    (at? : fs.content? T.node = some (.directory es)) (gone : String × Nat → Bool) (T' : Trail)
    (found' : (fs.without T.node gone).find here root = .ok T') : T' = T := by
  have whole := findGrown (grownWithout tidy at?) found'
  exact Except.ok.inj (whole.symm.trans found)

theorem treesClearedWithout {name : String} {found : List Path} (tidy : fs.Tidy)
    (parent : ∀ T', fs.find t.here t.root = .ok T' → T' = T) (at? : fs.content? T.node = some (.directory es))
    (listed : t.directory.directoriesNamed name fs = .ok found) (clears : treesCleared t found fs = .ok fs') :
    fs' = fs.without T.node fun e => e.1 == name && fs.isDirectory e.2 := by
  obtain ⟨there, named⟩ := treesListed parent at? listed
  rcases namedAtMostOnce name (fun e => fs.isDirectory e.2) (tidy.distinct at?) with
    ⟨none, selected⟩ | ⟨e, member, same, directory, selected⟩
  · rw [selected] at named
    subst named
    cases clears
    exact (withoutNone at? fun e member => by rw [Bool.and_comm, none e member]).symm
  · rw [selected] at named
    subst named
    rw [List.map_cons, List.map_cons, treesCleared] at clears
    split at clears
    · rename_i fs₁ removed
      cases clears
      rw [removeTreeEntry tidy there at? member removed]
      refine withoutCongr at? fun e' member' => ?_
      by_cases other : e'.1 = e.1
      · obtain rfl := sameEntry (tidy.distinct at?) member member' other
        simp [same, directory]
      · simp [other, ← same]
    · cases clears

theorem intermediateClearedWithout (tidy : fs.Tidy) (found : fs.find t.here t.root = .ok T)
    (at? : fs.content? T.node = some (.directory es)) (names : List String) :
    ∀ {gone : String × Nat → Bool} {fs'}, intermediateCleared t names (fs.without T.node gone) = .ok fs' →
      fs' = fs.without T.node fun e => gone e || names.contains e.1 && fs.isDirectory e.2 := by
  induction names with
  | nil =>
    intro gone fs' clears
    cases clears
    exact withoutCongr at? fun e _ => by simp
  | cons name rest ih =>
    intro gone fs' clears
    rw [intermediateCleared] at clears
    split at clears
    · cases clears
    · rename_i listed
      split at clears
      · cases clears
      · rename_i fs₁ trees
        have parent := onlyFound tidy found at? gone
        have removed := treesClearedWithout (tidyWithout tidy at?) parent (contentLeft at? gone) listed trees
        rw [withoutTwice] at removed
        rw [removed] at clears
        rw [ih clears]
        refine withoutCongr at? fun e _ => ?_
        simp only [isDirectoryWithout at?, List.contains_cons]
        cases gone e <;> cases fs.isDirectory e.2 <;> simp

theorem clearedWithout {log : Option Path} (tidy : fs.Tidy) (found : fs.find t.here t.root = .ok T)
    (newest : newestIn t config fs = .ok log) (at? : fs.content? T.node = some (.directory es))
    (clears : cleared t config log fs = .ok fs') :
    fs' = fs.without T.node (discards t config log fs) := by
  rw [cleared, logClearedWithout tidy found newest at?] at clears
  exact intermediateClearedWithout tidy found at? _ clears

end Cache
end BuildReuse
