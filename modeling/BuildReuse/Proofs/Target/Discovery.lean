import BuildReuse.Proofs.FileSystem.Listing
import BuildReuse.Target
import Mathlib.Data.List.TakeWhile

/-! Which project a directory is for. A name that is given counts without a look at the
directory; without one there has to be exactly one file of the project extension, and if there
are more, all of them are told. -/
namespace BuildReuse

structure Trimmed (name given : String) : Prop where
  around : ∃ before after, name.toList = before ++ given.toList ++ after ∧
    ∀ c, c ∈ before ∨ c ∈ after → Text.isBlank c = true
  first : ∀ c, given.toList.head? = some c → Text.isBlank c = false
  last : ∀ c, given.toList.getLast? = some c → Text.isBlank c = false

namespace Text

theorem dropWhileFirst (text : List Char) :
    ∀ c, (text.dropWhile isBlank).head? = some c → isBlank c = false := by
  intro c first
  have found := List.head?_dropWhile_not isBlank text
  rw [first] at found
  exact Bool.eq_false_iff.mpr (by simpa using found)

theorem trimFirst (text : List Char) : ∀ c, (trim text).head? = some c → isBlank c = false := by
  intro c first
  refine dropWhileFirst text c ?_
  have prefixed : trim text <+: text.dropWhile isBlank := by
    have suffix := List.dropWhile_suffix isBlank (l := (text.dropWhile isBlank).reverse)
    simpa [trim] using List.reverse_prefix.mpr suffix
  obtain ⟨behind, whole⟩ := prefixed
  rw [← whole, List.head?_append, first]
  rfl

theorem trimLast (text : List Char) : ∀ c, (trim text).getLast? = some c → isBlank c = false := by
  intro c last
  rw [trim, List.getLast?_reverse] at last
  exact dropWhileFirst _ c last

theorem trimAround (text : List Char) : ∃ before after, text = before ++ trim text ++ after ∧
    ∀ c, c ∈ before ∨ c ∈ after → isBlank c = true := by
  let inner := text.dropWhile isBlank
  refine ⟨text.takeWhile isBlank, (inner.reverse.takeWhile isBlank).reverse, ?_, fun c member => ?_⟩
  · have behind : trim text ++ (inner.reverse.takeWhile isBlank).reverse = inner := by
      rw [trim, ← List.reverse_append, List.takeWhile_append_dropWhile, List.reverse_reverse]
    rw [List.append_assoc, behind, List.takeWhile_append_dropWhile]
  · rcases member with before | after
    · exact List.mem_takeWhile_imp before
    · exact List.mem_takeWhile_imp (List.mem_reverse.mp after)

theorem trimBlank {text : List Char} : trim text = [] ↔ ∀ c ∈ text, isBlank c = true := by
  constructor
  · intro empty c member
    obtain ⟨before, after, whole, blank⟩ := trimAround text
    rw [empty, List.append_nil] at whole
    rw [whole] at member
    exact blank c (List.mem_append.mp member)
  · intro blank
    have none : text.dropWhile isBlank = [] := List.dropWhile_eq_nil_iff.mpr blank
    rw [trim, none]
    rfl

end Text

namespace Target

variable {d : Directory} {config : Config} {name : String} {names : List String} {fs fs' : FileSystem}

theorem givenOf (name : String) : givenName? (some name) =
    if Text.trim name.toList = [] then none else some (String.ofList (Text.trim name.toList)) := by
  rw [givenName?, Option.map_some, Option.filter_some]
  by_cases empty : Text.trim name.toList = []
  · rw [if_pos empty, empty]
    rfl
  · have filled : (String.ofList (Text.trim name.toList)).isEmpty = false := by
      rw [Bool.eq_false_iff]
      simpa using empty
    rw [if_neg empty, filled]
    rfl

theorem givenBlank {given : Option String}
    (blank : ∀ name, given = some name → ∀ c ∈ name.toList, Text.isBlank c = true) : givenName? given = none := by
  cases given with
  | none => rfl
  | some name => rw [givenOf, if_pos (Text.trimBlank.mpr (blank name rfl))]

theorem givenTrimmed (filled : ∃ c ∈ name.toList, Text.isBlank c = false) :
    ∃ given, Trimmed name given ∧ givenName? (some name) = some given := by
  have left : Text.trim name.toList ≠ [] := by
    intro empty
    obtain ⟨c, member, plain⟩ := filled
    rw [Text.trimBlank.mp empty c member] at plain
    cases plain
  refine ⟨String.ofList (Text.trim name.toList), ⟨?_, ?_, ?_⟩, by rw [givenOf, if_neg left]⟩
  all_goals rw [String.toList_ofList]
  · exact Text.trimAround name.toList
  · exact Text.trimFirst name.toList
  · exact Text.trimLast name.toList

theorem findGiven {given : String} {name? : Option String} (isGiven : givenName? name? = some given) :
    ∃ t, t.directory = d ∧ t.projectFile = d.root.join given ∧ ∀ fs, find d name? config fs = .ok t := by
  have finds (fs : FileSystem) : find d name? config fs =
      .ok ⟨d, d.file given, ((d.file given).fileName?.or d.root.fileName?).getD "", d.file config.sentinelFileName⟩ := by
    rw [find, projectFileIn, isGiven]
    rfl
  exact ⟨_, rfl, rfl, finds⟩

structure Discovered (d : Directory) (extension : String) (fs : FileSystem) (es : List (String × Nat))
    (result : Except ProjectError Target) : Prop where
  one : ∀ path, (∃ t, result = .ok t ∧ t.directory = d ∧ t.projectFile = path) ↔
    ∃ name, path = d.root.join name ∧ ∀ other, HasFile fs es extension other ↔ other = name
  missing : result = .error (.noProjectFile d.root extension) ↔ ∀ name, ¬ HasFile fs es extension name
  several : (∃ files, result = .error (.ambiguousProjectFile d.root extension files)) ↔
    ∃ name other, HasFile fs es extension name ∧ HasFile fs es extension other ∧ name ≠ other
  candidates : ∀ files, result = .error (.ambiguousProjectFile d.root extension files) →
    ∃ names, files = names.map d.root.join ∧ Directory.Lists fs es extension names

section

variable {given : Option String} (ungiven : givenName? given = none) {extension : String} {es : List (String × Nat)}
include ungiven

theorem findNone (listed : d.filesWithExtension config.projectExtension fs = .ok []) :
    find d given config fs = .error (.noProjectFile d.root config.projectExtension) := by
  rw [find, projectFileIn, ungiven, singleProjectFile, listed]
  rfl

theorem findOne {file : Path} (listed : d.filesWithExtension config.projectExtension fs = .ok [file]) :
    ∃ t, find d given config fs = .ok t ∧ t.directory = d ∧ t.projectFile = file := by
  rw [find, projectFileIn, ungiven, singleProjectFile, listed]
  exact ⟨_, rfl, rfl, rfl⟩

theorem findSeveral {first second : Path} {rest : List Path}
    (listed : d.filesWithExtension config.projectExtension fs = .ok (first :: second :: rest)) :
    find d given config fs =
      .error (.ambiguousProjectFile d.root config.projectExtension (first :: second :: rest)) := by
  rw [find, projectFileIn, ungiven, singleProjectFile, listed]
  rfl

theorem discoveredOf (listed : d.filesWithExtension config.projectExtension fs = .ok (names.map d.file))
    (lists : Directory.Lists fs es config.projectExtension names) :
    Discovered d config.projectExtension fs es (find d given config fs) := by
  match names with
  | [] =>
    have found := findNone ungiven listed
    constructor
    all_goals simp only [found, ← lists.members]
    case one => simp
    case missing => simp
    case several => simp
    case candidates => simp
  | [name] =>
    obtain ⟨t, found, directory, file⟩ := findOne ungiven listed
    constructor
    all_goals simp only [found, ← lists.members, List.mem_singleton]
    case one =>
      refine fun path => ⟨?_, ?_⟩
      · rintro ⟨_, same, -, rfl⟩
        cases same
        exact ⟨name, file, fun other => Iff.rfl⟩
      · rintro ⟨only, rfl, alone⟩
        obtain rfl := (alone name).mp rfl
        exact ⟨t, rfl, directory, file⟩
    case missing => simp
    case several => simp
    case candidates => simp
  | first :: second :: rest =>
    have found := findSeveral ungiven listed
    have differ : first ≠ second := by
      have less : bytesOf first < bytesOf second := List.rel_of_pairwise_cons lists.ascending List.mem_cons_self
      rintro rfl
      exact List.lt_irrefl _ less
    have here : first ∈ first :: second :: rest := List.mem_cons_self
    have there : second ∈ first :: second :: rest := List.mem_cons_of_mem _ List.mem_cons_self
    constructor
    all_goals simp only [found, ← lists.members]
    case one =>
      refine fun path => ⟨nofun, ?_⟩
      rintro ⟨only, -, alone⟩
      exact (differ (((alone first).mp here).trans ((alone second).mp there).symm)).elim
    case missing => exact ⟨nofun, fun missing => (missing first here).elim⟩
    case several => exact ⟨fun _ => ⟨first, second, here, there, differ⟩, fun _ => ⟨_, rfl⟩⟩
    case candidates =>
      intro files same
      cases same
      exact ⟨first :: second :: rest, rfl, lists⟩

end

theorem projectDiscovered (d : Directory) (config : Config) :
    (∀ name : String, (∃ c ∈ name.toList, Text.isBlank c = false) →
      ∃ given t, Trimmed name given ∧ t.directory = d ∧ t.projectFile = d.root.join given ∧
        ∀ fs, find d (some name) config fs = .ok t) ∧
    ∀ name? : Option String, (∀ name, name? = some name → ∀ c ∈ name.toList, Text.isBlank c = true) →
      ∀ fs T es, fs.Tidy → fs.find d.caller.here d.root = .ok T → fs.content? T.node = some (.directory es) →
        Discovered d config.projectExtension fs es (find d name? config fs) ∧
        ∀ fs' T' es', fs'.Tidy → fs'.find d.caller.here d.root = .ok T' →
          fs'.content? T'.node = some (.directory es') →
          (∀ name, HasFile fs es config.projectExtension name ↔ HasFile fs' es' config.projectExtension name) →
            find d name? config fs' = find d name? config fs := by
  constructor
  · intro name filled
    obtain ⟨given, trimmed, isGiven⟩ := givenTrimmed filled
    obtain ⟨t, directory, file, finds⟩ := findGiven isGiven
    exact ⟨given, t, trimmed, directory, file, finds⟩
  · intro name? blank fs T es tidy found at?
    have ungiven := givenBlank blank
    obtain ⟨names, listed, lists⟩ := Directory.listed tidy found at? config.projectExtension
    refine ⟨discoveredOf ungiven listed lists, fun fs' T' es' tidy' found' at' same => ?_⟩
    obtain ⟨names', listed', lists'⟩ := Directory.listed tidy' found' at' config.projectExtension
    obtain rfl := lists.unique lists' same
    rw [find, projectFileIn, ungiven, singleProjectFile, listed', find, projectFileIn, ungiven, singleProjectFile,
      listed]

def mixedEntries : List (String × Nat) :=
  [("b.kproj", 1), ("a.kproj", 1), (".kproj", 1), ("d.kproj", 2), ("l.kproj", 3), ("a.kproj.txt", 1)]

def mixed : FileSystem :=
  ⟨#[⟨.directory mixedEntries, 0o755, 0⟩, ⟨.file [], 0o644, 0⟩, ⟨.directory [], 0o755, 0⟩, ⟨.link "a.kproj", 0o777, 0⟩]⟩

def top : Directory := ⟨⟨"/"⟩, ⟨⟨"/"⟩, 1⟩, 0, "lock", .zero⟩

theorem bothCandidatesTold :
    find top none .default mixed =
      .error (.ambiguousProjectFile ⟨"/"⟩ "kproj" [⟨"/a.kproj"⟩, ⟨"/b.kproj"⟩]) ∧
    Discovered top "kproj" mixed mixedEntries (find top none .default mixed) ∧
    ∃ given t, Trimmed " x.kproj\u2003" given ∧ t.directory = top ∧ t.projectFile = top.root.join given ∧
      ∀ fs, find top (some " x.kproj\u2003") .default fs = .ok t := by
  have discovered := projectDiscovered top .default
  have tidy : mixed.Tidy := FileSystem.tidyOf (by decide +kernel)
  have found : mixed.find ⟨"/"⟩ ⟨"/"⟩ = .ok [] := by decide +kernel
  refine ⟨by decide +kernel, ?_, discovered.1 _ ⟨'x', by decide, by decide⟩⟩
  exact (discovered.2 none nofun mixed [] mixedEntries tidy found rfl).1

end Target
end BuildReuse
