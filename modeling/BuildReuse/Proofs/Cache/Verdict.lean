import BuildReuse.Proofs.BuildLog.HalfWritten
import BuildReuse.Proofs.Cache.Decided
import BuildReuse.Proofs.FileSystem.Outline
import Mathlib.Logic.Relation

/-! The verdict on a log with results of many projects. The first result that names the project
file decides; what a log tells about other projects, and what stands behind that result, does
not. -/
namespace BuildReuse

open Relation (ReflTransGen)

namespace BuildResult

inductive Names (fs : FileSystem) (here file : Path) (r : BuildResult) : Prop where
  | spelled (same : r.projectFile.components = file.components) : Names fs here file r
  | placed {p q : Path} (recorded : fs.canonicalize here r.projectFile = .ok p)
      (wanted : fs.canonicalize here file = .ok q) (same : p.components = q.components) : Names fs here file r

inductive Edit (own : BuildResult → Bool) : List BuildResult → List BuildResult → Prop where
  | insert (before after : List BuildResult) {r : BuildResult} (other : own r = false) :
      Edit own (before ++ after) (before ++ r :: after)
  | remove (before after : List BuildResult) {r : BuildResult} (other : own r = false) :
      Edit own (before ++ r :: after) (before ++ after)
  | permute {results results' : List BuildResult} (perm : results.Perm results')
      (order : results.filter own = results'.filter own) : Edit own results results'
  | behind (before after after' : List BuildResult) {r : BuildResult} (found : own r = true) :
      Edit own (before ++ r :: after) (before ++ r :: after')

variable {own : BuildResult → Bool} {fs fs' : FileSystem} {here file : Path} {r : BuildResult}
  {results results' : List BuildResult}

theorem matchesIff : r.matchesFile fs here file = true ↔ Names fs here file r := by
  rw [matchesFile, Bool.or_eq_true]
  constructor
  · rintro (same | same)
    · exact .spelled (by simpa [Path.same] using same)
    · split at same
      · next p q recorded wanted => exact .placed recorded wanted (by simpa [Path.same] using same)
      · cases same
  · rintro (same | ⟨recorded, wanted, same⟩)
    · exact .inl (by simpa [Path.same] using same)
    · right
      rw [recorded, wanted]
      simpa [Path.same] using same

theorem foundAfter (before after : List BuildResult) (other : own r = false) :
    (before ++ r :: after).find? own = (before ++ after).find? own := by
  rw [List.find?_append, List.find?_append, List.find?_cons_of_neg (by simp [other])]

theorem foundEdited (edit : Edit own results results') : results.find? own = results'.find? own := by
  cases edit with
  | insert before after other => exact (foundAfter before after other).symm
  | remove before after other => exact foundAfter before after other
  | permute perm order => rw [← List.head?_filter, order, List.head?_filter]
  | behind before after after' found =>
    rw [List.find?_append, List.find?_append, List.find?_cons_of_pos found, List.find?_cons_of_pos found]

instance : Std.Symm (Edit own) where
  symm results results' edit := by
    cases edit with
    | insert before after other => exact .remove before after other
    | remove before after other => exact .insert before after other
    | permute perm order => exact .permute perm.symm order.symm
    | behind before after after' found => exact .behind before after' after found

theorem editsReduce (own : BuildResult → Bool) (results : List BuildResult) :
    ReflTransGen (Edit own) results (results.find? own).toList := by
  induction results with
  | nil => exact .refl
  | cons r results ih =>
    cases mine : own r with
    | true =>
      rw [List.find?_cons_of_pos mine]
      exact .single (.behind [] results [] mine)
    | false =>
      rw [List.find?_cons_of_neg (by simp [mine])]
      exact .head (.remove [] results mine) ih

theorem editsIff : ReflTransGen (Edit own) results results' ↔ results.find? own = results'.find? own := by
  constructor
  · intro edits
    induction edits with
    | refl => rfl
    | tail _ edit ih => exact ih.trans (foundEdited edit)
  · intro same
    have back : ReflTransGen (Edit own) (results'.find? own).toList results' :=
      symm (editsReduce own results')
    rw [← same] at back
    exact (editsReduce own results).trans back

theorem matchesOutline (same : fs.SameOutline fs') : matchesFile fs' here file = matchesFile fs here file := by
  funext r
  simp only [matchesFile, FileSystem.canonicalizeOutline same]

end BuildResult

namespace Verdict

open BuildResult (Names Edit matchesFile)

inductive Judges (r : BuildResult) : Verdict → Prop where
  | reusable (succeeded : r.succeeded = true) (sources : r.sources ≠ []) (inputs : r.inputs ≠ []) :
      Judges r (.reusable r)
  | buildFailed (failed : r.succeeded = false) : Judges r .buildFailed
  | noCompile (succeeded : r.succeeded = true) (idle : r.sources = [] ∨ r.inputs = []) : Judges r .noCompile

variable {fs fs' : FileSystem} {t : Target} {r : BuildResult} {results results' : List BuildResult}

theorem ofSelectedJudges (r : BuildResult) : Judges r (ofSelected (some r)) := by
  rw [ofSelected]
  by_cases reuse : r.reusable = true
  · rw [if_pos reuse]
    obtain ⟨succeeded, sources, inputs⟩ := (Cache.reusableIff r).mp reuse
    exact .reusable succeeded sources inputs
  rw [if_neg reuse]
  cases succeeded : r.succeeded with
  | false => exact .buildFailed succeeded
  | true =>
    refine .noCompile succeeded ?_
    by_contra busy
    rw [not_or] at busy
    exact reuse ((Cache.reusableIff r).mpr ⟨succeeded, busy⟩)

theorem ofSelectedNone {selected : Option BuildResult} :
    ofSelected selected = .noMatchingProject ↔ selected = none := by
  cases selected with
  | none => simp [ofSelected]
  | some r =>
    have judges := ofSelectedJudges r
    constructor
    · intro no
      rw [no] at judges
      cases judges
    · intro no
      cases no

theorem ofResultsEdited (edits : ReflTransGen (Edit (matchesFile fs t.here t.projectFile)) results results') :
    ofResults fs t results' = ofResults fs t results := by
  simp only [ofResults, BuildResult.select, BuildResult.editsIff.mp edits]

theorem ofResultsNone : ofResults fs t results = .noMatchingProject ↔
    ∀ r ∈ results, ¬ Names fs t.here t.projectFile r := by
  rw [ofResults, ofSelectedNone, BuildResult.selectNone]
  simp only [← BuildResult.matchesIff, Bool.not_eq_true]

theorem ofResultsFirst {before after : List BuildResult}
    (others : ∀ b ∈ before, ¬ Names fs t.here t.projectFile b) (named : Names fs t.here t.projectFile r) :
    ofResults fs t (before ++ r :: after) = ofSelected (some r) := by
  have selected : BuildResult.select fs t.here t.projectFile (before ++ r :: after) = some r :=
    List.find?_eq_some_iff_append.mpr ⟨BuildResult.matchesIff.mpr named, before, after, rfl,
      fun b earlier => by simpa using mt BuildResult.matchesIff.mp (others b earlier)⟩
  rw [ofResults, selected]

theorem verdictInEdited {log : Path} {document document' : BuildLog} (same : fs.SameOutline fs')
    (read : BuildLog.readFile fs t.here log = .ok document)
    (read' : BuildLog.readFile fs' t.here log = .ok document') (version : document'.version = document.version)
    (edits : ReflTransGen (Edit (matchesFile fs t.here t.projectFile)) document.results document'.results) :
    Cache.verdictIn t (some log) fs' = Cache.verdictIn t (some log) fs := by
  have judged : ofResults fs' t document'.results = ofResults fs t document.results := by
    simp only [ofResults, BuildResult.select, BuildResult.matchesOutline same, BuildResult.editsIff.mp edits]
  simp only [Cache.verdictIn, Cache.resultsIn, read, read', BuildLog.resultsRead, BuildLog.resultsOf, version]
  by_cases current : document.version = BuildLog.currentVersion
  · simp only [if_pos current, Except.mapError, Except.map, judged]
  · simp only [if_neg current, Except.mapError, Except.map]

/-- Edits cannot be seen in the verdict, be it on results or on the log that records them. They
lead wherever the first result that names the project file is the same. -/
theorem othersUninvolved (fs : FileSystem) (t : Target) :
    (∀ r, matchesFile fs t.here t.projectFile r = true ↔ Names fs t.here t.projectFile r) ∧
    (∀ results results', ReflTransGen (Edit (matchesFile fs t.here t.projectFile)) results results' ↔
      BuildResult.select fs t.here t.projectFile results = BuildResult.select fs t.here t.projectFile results') ∧
    (∀ results results', ReflTransGen (Edit (matchesFile fs t.here t.projectFile)) results results' →
      ofResults fs t results' = ofResults fs t results) ∧
    (∀ results, ofResults fs t results = .noMatchingProject ↔ ∀ r ∈ results, ¬ Names fs t.here t.projectFile r) ∧
    (∀ before r after, (∀ b ∈ before, ¬ Names fs t.here t.projectFile b) → Names fs t.here t.projectFile r →
      ofResults fs t (before ++ r :: after) = ofResults fs t [r] ∧
      Judges r (ofResults fs t (before ++ r :: after))) ∧
    ∀ fs' log document document', fs.SameOutline fs' → BuildLog.readFile fs t.here log = .ok document →
      BuildLog.readFile fs' t.here log = .ok document' → document'.version = document.version →
      ReflTransGen (Edit (matchesFile fs t.here t.projectFile)) document.results document'.results →
        Cache.verdictIn t (some log) fs' = Cache.verdictIn t (some log) fs := by
  refine ⟨fun r => BuildResult.matchesIff, fun _ _ => BuildResult.editsIff, fun _ _ => ofResultsEdited,
    fun _ => ofResultsNone, ?_, fun _ _ _ _ same read read' => verdictInEdited same read read'⟩
  intro before r after others named
  have alone : ofResults fs t [r] = ofSelected (some r) := ofResultsFirst (List.forall_mem_nil _) named
  rw [alone, ofResultsFirst others named]
  exact ⟨rfl, ofSelectedJudges r⟩

open Build (app resultNaming)

def other : BuildResult := resultNaming "/other.kproj"

def linked : BuildResult := resultNaming "/sub/../link.kproj"

def failed : BuildResult := ⟨⟨"/app.kproj"⟩, false, [], [], []⟩

def logged (results : List BuildResult) : FileSystem := ⟨#[
  ⟨.directory [("app.kproj", 1), ("link.kproj", 2), ("c.buildlog", 3), ("sub", 4)], 0o755, 0⟩,
  ⟨.file [], 0o644, 0⟩, ⟨.link "app.kproj", 0o777, 0⟩,
  ⟨.file (BuildLog.written .compact results), 0o644, 0⟩, ⟨.directory [], 0o755, 0⟩]⟩

theorem loggedReads (results : List BuildResult) :
    BuildLog.readFile (logged results) app.here ⟨"/c.buildlog"⟩ = .ok (BuildLog.ofResults results) :=
  BuildLog.readFileWhole rfl

theorem linkedDecides :
    ReflTransGen (Edit (matchesFile (logged [other, linked, failed]) app.here app.projectFile))
      [other, linked, failed] [linked, other] ∧
    ofResults (logged [other, linked, failed]) app [linked, other] = .reusable linked ∧
    Cache.verdictIn app (some ⟨"/c.buildlog"⟩) (logged [linked, other]) =
      Cache.verdictIn app (some ⟨"/c.buildlog"⟩) (logged [other, linked, failed]) := by
  let own := matchesFile (logged [other, linked, failed]) app.here app.projectFile
  have foreign : own other = false := by decide +kernel
  have found : own linked = true := by decide +kernel
  have edits : ReflTransGen (Edit own) [other, linked, failed] [linked, other] :=
    (ReflTransGen.single (.behind [other] [failed] [] found)).tail
      (.permute (.swap linked other []) (by simp [foreign, found]))
  obtain ⟨names, -, edited, -, first, logs⟩ := othersUninvolved (logged [other, linked, failed]) app
  have others : ∀ b ∈ [other], ¬ Names (logged [other, linked, failed]) app.here app.projectFile b := by
    intro b among named
    rw [List.mem_singleton.mp among, ← names, show matchesFile _ _ _ other = false from foreign] at named
    cases named
  have outline : (logged [other, linked, failed]).SameOutline (logged [linked, other]) :=
    FileSystem.outlineWriteNode (logged [other, linked, failed]) 3 (BuildLog.written .compact [linked, other]) 0
  refine ⟨edits, ?_, logs _ _ _ _ outline (loggedReads _) (loggedReads _) rfl edits⟩
  rw [edited _ _ edits]
  have decides : Judges linked (ofResults _ app [other, linked, failed]) :=
    (first [other] linked [failed] others ((names linked).mp found)).2
  generalize ofResults _ app [other, linked, failed] = verdict at decides ⊢
  cases decides with
  | reusable => rfl
  | buildFailed broken => cases broken
  | noCompile _ idle => rcases idle with none | none <;> cases none

end Verdict
end BuildReuse
