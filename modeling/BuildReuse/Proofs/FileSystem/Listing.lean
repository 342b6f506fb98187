import BuildReuse.Directory
import BuildReuse.Proofs.FileSystem.Tidy
import BuildReuse.Proofs.Text.ByteOrder

/-! What a directory offers under an extension: its regular files whose names end in a dot and
the extension, with something in front. They are listed once each, by the bytes of their names,
in whatever order the entries stand. -/
namespace BuildReuse

namespace FileSystem

theorem insertNamePerm (name : String) (names : List String) : (insertName name names).Perm (name :: names) := by
  induction names with
  | nil => exact .refl _
  | cons first rest ih =>
    rw [insertName]
    split
    · exact .refl _
    · exact (ih.cons first).trans (.swap name first rest)

theorem sortNamesPerm (names : List String) : (sortNames names).Perm names := by
  induction names with
  | nil => exact .refl _
  | cons first rest ih =>
    have whole : sortNames (first :: rest) = insertName first (sortNames rest) := rfl
    rw [whole]
    exact (insertNamePerm first _).trans (ih.cons first)

theorem insertNameMem {name x : String} {names : List String} :
    x ∈ insertName name names ↔ x = name ∨ x ∈ names :=
  (insertNamePerm name names).mem_iff.trans List.mem_cons

theorem sortNamesMem {x : String} {names : List String} : x ∈ sortNames names ↔ x ∈ names :=
  (sortNamesPerm names).mem_iff

theorem insertNameAscends {name : String} {names : List String} (ascends : names.Pairwise (· ≤ ·)) :
    (insertName name names).Pairwise (· ≤ ·) := by
  induction names with
  | nil => exact List.pairwise_singleton _ _
  | cons first rest ih =>
    obtain ⟨least, rest'⟩ := List.pairwise_cons.mp ascends
    rw [insertName]
    split
    case isTrue before =>
      refine List.pairwise_cons.mpr ⟨fun x member => ?_, ascends⟩
      rcases List.mem_cons.mp member with rfl | later
      · exact before
      · exact le_trans before (least x later)
    case isFalse behind =>
      refine List.pairwise_cons.mpr ⟨fun x member => ?_, ih rest'⟩
      rcases insertNameMem.mp member with rfl | later
      · exact le_of_not_ge behind
      · exact least x later

theorem sortNamesAscend (names : List String) : (sortNames names).Pairwise (· ≤ ·) := by
  induction names with
  | nil => exact .nil
  | cons first rest ih => exact insertNameAscends ih

end FileSystem

def Extended (extension name : String) : Prop :=
  ∃ stem, stem ≠ [] ∧ name.toList = stem ++ '.' :: extension.toList ∧ '.' ∉ extension.toList

namespace Path

variable {p : Path} {name extension : String}

theorem extensionOfSplit {stem last : List Char} (split : name.toList = stem ++ '.' :: last) (whole : '.' ∉ last) :
    extensionOfName? name = if stem = [] then none else some (String.ofList last) := by
  have tail : (name.toList.reverse.takeWhile (· != '.')).reverse = last := by
    have plain : ∀ c ∈ last.reverse, (c != '.') = true := by
      intro c member
      refine bne_iff_ne.mpr ?_
      rintro rfl
      exact whole (List.mem_reverse.mp member)
    rw [split, List.reverse_append, List.reverse_cons, List.append_assoc, List.singleton_append,
      List.takeWhile_append_of_pos plain, List.takeWhile_cons_of_neg (by decide), List.append_nil,
      List.reverse_reverse]
  have dotted : name.toList.contains '.' = true := by simp [split]
  have alone : name.toList = '.' :: last ↔ stem = [] := by
    rw [split, ← List.nil_append ('.' :: last), ← List.append_assoc, List.append_nil]
    exact List.append_left_inj _
  simp only [extensionOfName?, tail, dotted, Bool.true_and, bne_iff_ne, ne_eq, alone, ite_not]

theorem extensionOfNameIff : extensionOfName? name = some extension ↔ Extended extension name := by
  constructor
  case mpr =>
    rintro ⟨stem, filled, split, whole⟩
    rw [extensionOfSplit split whole, if_neg filled, String.ofList_toList]
  case mp =>
    intro found
    by_cases dotted : '.' ∈ name.toList
    · obtain ⟨last, stem, reversed, whole⟩ := List.eq_append_cons_of_mem (List.mem_reverse.mpr dotted)
      have split : name.toList = stem.reverse ++ '.' :: last.reverse := by
        rw [← List.reverse_reverse name.toList, reversed]
        simp
      rw [extensionOfSplit split (by simpa using whole)] at found
      split at found
      case isTrue => cases found
      case isFalse filled =>
        obtain rfl := Option.some.inj found
        refine ⟨stem.reverse, filled, ?_, ?_⟩
        · rw [String.toList_ofList]
          exact split
        · rw [String.toList_ofList]
          simpa using whole
    · simp [extensionOfName?, dotted] at found

theorem fileNameJoin (filled : p.text ≠ "") (isName : IsName name) : (p.join name).fileName? = some name := by
  have named : [name].filterMap componentOf? = [.name name] := componentsNamed (by simpa using isName)
  have last : (p.join name).components.getLast? = some (.name name) := by
    rw [components, piecesJoin filled isName, List.filterMap_append, named]
    split
    · rw [← List.cons_append, List.getLast?_concat]
    · split
      · rw [← List.cons_append, List.getLast?_concat]
      · exact List.getLast?_concat
  rw [fileName?, last]

theorem joinHasExtension (filled : p.text ≠ "") (isName : IsName name) :
    (p.join name).hasExtension extension = true ↔ Extended extension name := by
  rw [hasExtension, beq_iff_eq, extension?, fileNameJoin filled isName]
  exact extensionOfNameIff

theorem joinLess {name' : String} (isName : IsName name) (isName' : IsName name') :
    (p.join name).text < (p.join name').text ↔ name < name' := by
  rw [String.lt_iff_toList_lt, joinRelative (nameRelative isName), joinRelative (nameRelative isName'),
    Utf8.appendLess, String.lt_iff_toList_lt]

end Path

def HasFile (fs : FileSystem) (es : List (String × Nat)) (extension name : String) : Prop :=
  ∃ n, (name, n) ∈ es ∧ fs.isFile n = true ∧ Extended extension name

namespace Directory

open FileSystem

variable {d : Directory} {fs fs' : FileSystem} {T T' : Trail} {es es' : List (String × Nat)} {extension : String}

def namesWith (d : Directory) (extension : String) (fs : FileSystem) (es : List (String × Nat)) : List String :=
  (sortNames ((es.filter fun e => fs.isFile e.2).map Prod.fst)).filter fun name =>
    (d.file name).hasExtension extension

theorem namesMem {name : String} : name ∈ d.namesWith extension fs es ↔
    ∃ e ∈ es, e.1 = name ∧ fs.isFile e.2 = true ∧ (d.file e.1).hasExtension extension = true := by
  rw [namesWith, List.mem_filter, sortNamesMem, List.mem_map]
  constructor
  · rintro ⟨⟨e, inside, rfl⟩, extended⟩
    obtain ⟨member, file⟩ := List.mem_filter.mp inside
    exact ⟨e, member, rfl, file, extended⟩
  · rintro ⟨e, member, rfl, file, extended⟩
    exact ⟨⟨e, List.mem_filter.mpr ⟨member, file⟩, rfl⟩, extended⟩

theorem namesDistinct (distinct : (es.map Prod.fst).Nodup) : (d.namesWith extension fs es).Nodup :=
  ((sortNamesPerm _).nodup_iff.mpr (distinct.sublist (List.filter_sublist.map _))).filter _

theorem namesAscend (distinct : (es.map Prod.fst).Nodup) :
    (d.namesWith extension fs es).Pairwise fun a b => bytesOf a < bytesOf b := by
  have upTo : (d.namesWith extension fs es).Pairwise (· ≤ ·) := (sortNamesAscend _).filter _
  exact upTo.imp₂ (fun a b upTo differ => bytesLess.mpr (lt_of_le_of_ne upTo differ)) (namesDistinct distinct)

section

variable (found : fs.find d.caller.here d.root = .ok T)
include found

theorem listedIn {files : List Path} (listed : d.filesWithExtension extension fs = .ok files) :
    ∃ es, fs.content? T.node = some (.directory es) := by
  rw [filesWithExtension, Directory.files, regularFiles, found] at listed
  simp only [bind, Except.bind] at listed
  split at listed
  case isTrue directory => exact isDirectoryIff.mp directory
  case isFalse => cases listed

variable (at? : fs.content? T.node = some (.directory es))
include at?

theorem listedAt (extension : String) :
    d.filesWithExtension extension fs = .ok ((d.namesWith extension fs es).map d.file) := by
  have isDirectory : fs.isDirectory T.node = true := isDirectoryIff.mpr ⟨es, at?⟩
  have entries : fs.entries T.node = es := by simp [FileSystem.entries, at?]
  simp only [filesWithExtension, files, regularFiles, found, bind, Except.bind, Except.map,
    isDirectory, if_true, entries, List.filter_map]
  rfl

end

structure Lists (fs : FileSystem) (es : List (String × Nat)) (extension : String) (names : List String) : Prop where
  ascending : names.Pairwise fun a b => bytesOf a < bytesOf b
  members : ∀ name, name ∈ names ↔ HasFile fs es extension name

theorem listed (tidy : fs.Tidy) (found : fs.find d.caller.here d.root = .ok T)
    (at? : fs.content? T.node = some (.directory es)) (extension : String) :
    ∃ names, d.filesWithExtension extension fs = .ok (names.map d.file) ∧ Lists fs es extension names := by
  have filled : d.root.text ≠ "" := (findPieces found).1
  refine ⟨_, listedAt found at? extension, namesAscend (tidy.distinct at?), fun name => namesMem.trans ?_⟩
  constructor
  · rintro ⟨e, member, rfl, file, extended⟩
    exact ⟨e.2, member, file, (Path.joinHasExtension filled (tidy.named at? e member)).mp extended⟩
  · rintro ⟨n, member, file, extended⟩
    exact ⟨(name, n), member, rfl, file, (Path.joinHasExtension filled (tidy.named at? _ member)).mpr extended⟩

theorem Lists.unique {names names' : List String} (lists : Lists fs es extension names)
    (lists' : Lists fs' es' extension names')
    (same : ∀ name, HasFile fs es extension name ↔ HasFile fs' es' extension name) : names = names' := by
  have distinct {names : List String} (ascending : names.Pairwise fun a b => bytesOf a < bytesOf b) : names.Nodup :=
    ascending.imp fun less => by rintro rfl; exact List.lt_irrefl _ less
  have perm : names.Perm names' :=
    (List.perm_ext_iff_of_nodup (distinct lists.ascending) (distinct lists'.ascending)).mpr fun name =>
      (lists.members name).trans ((same name).trans (lists'.members name).symm)
  exact perm.eq_of_pairwise (fun _ _ _ _ less less' => (List.lt_asymm less less').elim)
    lists.ascending lists'.ascending

end Directory
end BuildReuse
