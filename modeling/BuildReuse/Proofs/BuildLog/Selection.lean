import BuildReuse.Proofs.BuildLog.Newest
import BuildReuse.Proofs.FileSystem.Listing
import BuildReuse.Proofs.FileSystem.Removed

/-! Which log of a directory counts: of the regular files with the extension of logs, those left
out whose path is too long to be looked up, the last one by time and then by the bytes of its name. -/
namespace BuildReuse.BuildLog

open FileSystem

variable {fs : FileSystem} {T : Trail} {es : List (String × Nat)} {root : Path} {extension : String}

structure HasLog (fs : FileSystem) (es : List (String × Nat)) (root : Path) (extension name : String)
    (time : Int) : Prop where
  file : ∃ n, (name, n) ∈ es ∧ fs.isFile n = true ∧ fs.nodes[n]?.map Node.modified = some time
  extended : Extended extension name
  legible : Legible (root.join name)
  short : name.utf8ByteSize ≤ nameLimit

inductive Selected (logs : String → Int → Prop) (root : Path) : Option Artifact → Prop where
  | none (empty : ∀ name time, ¬ logs name time) : Selected logs root none
  | last {name time} (isLog : logs name time) (greatest : ∀ other time', logs other time' → other ≠ name →
      time' < time ∨ time' = time ∧ bytesOf other < bytesOf name) : Selected logs root (some ⟨root.join name, time⟩)

theorem Selected.unique {logs : String → Int → Prop}
    (timed : ∀ name time time', logs name time → logs name time' → time = time') {answer answer' : Option Artifact}
    (selected : Selected logs root answer) (selected' : Selected logs root answer') :
    answer = answer' := by
  cases selected with
  | none empty =>
    cases selected' with
    | none => rfl
    | last isLog greatest => exact (empty _ _ isLog).elim
  | @last name time isLog greatest =>
    cases selected' with
    | none empty => exact (empty _ _ isLog).elim
    | @last name' time' isLog' greatest' =>
      by_cases same : name = name'
      · subst same
        rw [timed name time time' isLog isLog']
      · have behind := greatest name' time' isLog' (Ne.symm same)
        have before := greatest' name time isLog same
        rcases behind with less | ⟨rfl, less⟩
        · rcases before with less' | ⟨rfl, -⟩ <;> omega
        · rcases before with less' | ⟨-, less'⟩
          · omega
          · exact (List.lt_asymm less less').elim

section

variable {name : String} {time : Int} (tidy : fs.Tidy) (at? : fs.content? T.node = some (.directory es))
include tidy at?

theorem HasLog.isName (log : HasLog fs es root extension name time) : IsName name := by
  obtain ⟨n, member, -⟩ := log.file
  exact tidy.named at? _ member

theorem HasLog.timed {time' : Int} (log : HasLog fs es root extension name time)
    (log' : HasLog fs es root extension name time') : time = time' := by
  obtain ⟨n, member, -, dated⟩ := log.file
  obtain ⟨n', member', -, dated'⟩ := log'.file
  cases sameEntry (tidy.distinct at?) member member' rfl
  exact Option.some.inj (dated.symm.trans dated')

variable {d : Directory} (found : fs.find d.caller.here d.root = .ok T)
include found

theorem foundFile {e : String × Nat} (member : e ∈ es) (file : fs.isFile e.2 = true) {T' : Trail} :
    fs.find d.caller.here (d.root.join e.1) = .ok T' ↔
      Legible (d.root.join e.1) ∧ e.1.utf8ByteSize ≤ nameLimit ∧ T' = e :: T := by
  have isName := tidy.named at? e member
  have named := lookupOfMem (tidy.distinct at?) member
  have noLink (target : String) : fs.content? e.2 ≠ some (.link target) := by
    obtain ⟨bytes, content⟩ := isFileIff.mp file
    rw [content]
    nofun
  constructor
  · intro there
    have located := findLocate.mp there
    obtain ⟨k, last⟩ := locateChild found isName located
    have legible := locateLegible located
    have short := nameShort isName last
    exact ⟨legible, short, Except.ok.inj (there.symm.trans (findEntry found at? isName named noLink legible short))⟩
  · rintro ⟨legible, short, rfl⟩
    exact findEntry found at? isName named noLink legible short

theorem artifactIff {e : String × Nat} (member : e ∈ es) (file : fs.isFile e.2 = true) {a : Artifact} :
    artifact? fs d.caller.here (d.file e.1) = some a ↔
      (Legible (d.root.join e.1) ∧ e.1.utf8ByteSize ≤ nameLimit) ∧
        ∃ time, fs.nodes[e.2]?.map Node.modified = some time ∧ a = ⟨d.root.join e.1, time⟩ := by
  rw [artifactForm]
  cases there : fs.find d.caller.here (d.file e.1) with
  | error =>
    refine ⟨nofun, fun ⟨⟨legible, short⟩, _⟩ => ?_⟩
    cases there.symm.trans ((foundFile tidy at? found member file).mpr ⟨legible, short, rfl⟩)
  | ok T' =>
    obtain ⟨legible, short, rfl⟩ := (foundFile tidy at? found member file).mp there
    simp only [Except.toOption, Option.map_some, Option.bind_some, Trail.node, Option.map_eq_some_iff]
    constructor
    · rintro ⟨node, stands, rfl⟩
      exact ⟨⟨legible, short⟩, node.modified, ⟨node, stands, rfl⟩, rfl⟩
    · rintro ⟨-, -, ⟨node, stands, rfl⟩, rfl⟩
      exact ⟨node, stands, rfl⟩

theorem artifactMem {a : Artifact} :
    a ∈ ((d.namesWith extension fs es).map d.file).filterMap (artifact? fs d.caller.here) ↔
      ∃ name time, a = ⟨d.root.join name, time⟩ ∧ HasLog fs es d.root extension name time := by
  have filled : d.root.text ≠ "" := (findPieces found).1
  have extended {e : String × Nat} (member : e ∈ es) :
      (d.file e.1).hasExtension extension = true ↔ Extended extension e.1 :=
    Path.joinHasExtension filled (tidy.named at? e member)
  rw [List.mem_filterMap]
  constructor
  · rintro ⟨path, inside, made⟩
    obtain ⟨name, isName, rfl⟩ := List.mem_map.mp inside
    obtain ⟨e, member, rfl, file, extension⟩ := Directory.namesMem.mp isName
    obtain ⟨⟨legible, short⟩, time, dated, rfl⟩ := (artifactIff tidy at? found member file).mp made
    exact ⟨e.1, time, rfl, ⟨e.2, member, file, dated⟩, (extended member).mp extension, legible, short⟩
  · rintro ⟨name, time, rfl, log⟩
    obtain ⟨n, member, file, dated⟩ := log.file
    have listed : name ∈ d.namesWith extension fs es :=
      Directory.namesMem.mpr ⟨_, member, rfl, file, (extended member).mpr log.extended⟩
    exact ⟨d.file name, List.mem_map_of_mem listed, (artifactIff tidy at? found member file).mpr
      ⟨⟨log.legible, log.short⟩, time, dated, rfl⟩⟩

theorem selectedLatest (extension : String) : ∃ answer, latest d extension fs = .ok answer ∧
    Selected (HasLog fs es d.root extension) d.root answer := by
  refine ⟨_, by rw [latest, Directory.listedAt found at?], ?_⟩
  cases isNewest : newest (((d.namesWith extension fs es).map d.file).filterMap (artifact? fs d.caller.here)) with
  | none =>
    have empty := newestNone.mp isNewest
    refine .none fun name time log => ?_
    have inside := (artifactMem tidy at? found).mpr ⟨name, time, rfl, log⟩
    rw [empty] at inside
    cases inside
  | some a =>
    obtain ⟨name, time, rfl, log⟩ := (artifactMem tidy at? found).mp (newestMember isNewest)
    refine .last log fun other time' log' differ => ?_
    have inside := (artifactMem tidy at? found).mpr ⟨other, time', rfl, log'⟩
    rcases newerIff.mp (newestGreatest isNewest _ inside) with older | ⟨same, upTo⟩
    · exact .inl older
    · refine .inr ⟨same, bytesLess.mpr (lt_of_le_of_ne (le_of_not_gt fun behind => ?_) differ)⟩
      exact absurd ((Path.joinLess (log.isName tidy at?) (log'.isName tidy at?)).mpr behind) (not_lt.mpr upTo)

end

/-- The newest log is the last one by time, then by the bytes of its name, and there is none just if there
is no log. No order of the entries counts, and nothing beside the logs. -/
theorem latestSelected {d : Directory} (extension : String) (tidy : fs.Tidy)
    (found : fs.find d.caller.here d.root = .ok T) (at? : fs.content? T.node = some (.directory es)) :
    (∃ answer, latest d extension fs = .ok answer) ∧
    (∀ answer, latest d extension fs = .ok answer ↔ Selected (HasLog fs es d.root extension) d.root answer) ∧
    ∀ fs' T' es', fs'.Tidy → fs'.find d.caller.here d.root = .ok T' →
      fs'.content? T'.node = some (.directory es') →
      (∀ name time, HasLog fs es d.root extension name time ↔ HasLog fs' es' d.root extension name time) →
        latest d extension fs' = latest d extension fs := by
  obtain ⟨answer, given, selected⟩ := selectedLatest tidy at? found extension
  have timed (name : String) (time time' : Int) (log : HasLog fs es d.root extension name time)
      (log' : HasLog fs es d.root extension name time') : time = time' := log.timed tidy at? log'
  refine ⟨⟨answer, given⟩, fun answer' => ⟨fun given' => ?_, fun selected' => ?_⟩, ?_⟩
  · cases given.symm.trans given'
    exact selected
  · rw [given, selected.unique timed selected']
  · intro fs' T' es' tidy' found' at' same
    obtain ⟨answer', given', selected'⟩ := selectedLatest tidy' at' found' extension
    have logs : HasLog fs' es' d.root extension = HasLog fs es d.root extension := by
      funext name time
      exact propext (same name time).symm
    rw [logs] at selected'
    rw [given, given', selected.unique timed selected']

def shelved : List (String × Nat) :=
  [("b.buildlog", 1), ("z.txt", 4), ("old.buildlog", 3), (".buildlog", 4), ("d.buildlog", 5), ("a.buildlog", 2),
    ("l.buildlog", 6)]

def tidied : List (String × Nat) := [("old.buildlog", 3), ("a.buildlog", 2), ("b.buildlog", 1)]

def shelf (es : List (String × Nat)) : FileSystem :=
  ⟨#[⟨.directory es, 0o755, 0⟩, ⟨.file [], 0o644, 20⟩, ⟨.file [], 0o644, 20⟩, ⟨.file [], 0o644, 10⟩,
    ⟨.file [], 0o644, 90⟩, ⟨.directory [], 0o755, 90⟩, ⟨.link "a.buildlog", 0o777, 90⟩]⟩

def rooted : Directory := ⟨⟨"/"⟩, ⟨⟨"/"⟩, 1⟩, 0, "lock", .zero⟩

theorem shelfAlike (name : String) (time : Int) : HasLog (shelf shelved) shelved ⟨"/"⟩ "buildlog" name time ↔
    HasLog (shelf tidied) tidied ⟨"/"⟩ "buildlog" name time := by
  have kept : ∀ e ∈ shelved, (shelf shelved).isFile e.2 = true →
      Path.extensionOfName? e.1 = some "buildlog" → e ∈ tidied := by decide +kernel
  have stood : ∀ e ∈ tidied, e ∈ shelved := by decide
  have alike : ∀ e ∈ tidied, (shelf shelved).isFile e.2 = (shelf tidied).isFile e.2 ∧
      (shelf shelved).nodes[e.2]?.map Node.modified = (shelf tidied).nodes[e.2]?.map Node.modified := by decide +kernel
  constructor
  · rintro ⟨⟨n, member, file, dated⟩, extended, legible, short⟩
    have member' := kept _ member file (Path.extensionOfNameIff.mpr extended)
    obtain ⟨files, dates⟩ := alike _ member'
    exact ⟨⟨n, member', files ▸ file, dates ▸ dated⟩, extended, legible, short⟩
  · rintro ⟨⟨n, member, file, dated⟩, extended, legible, short⟩
    obtain ⟨files, dates⟩ := alike _ member
    exact ⟨⟨n, stood _ member, files ▸ file, dates ▸ dated⟩, extended, legible, short⟩

theorem lastOfEqualTimes :
    latest rooted "buildlog" (shelf shelved) = .ok (some ⟨⟨"/b.buildlog"⟩, 20⟩) ∧
    Selected (HasLog (shelf shelved) shelved ⟨"/"⟩ "buildlog") ⟨"/"⟩ (some ⟨⟨"/b.buildlog"⟩, 20⟩) ∧
    latest rooted "buildlog" (shelf tidied) = latest rooted "buildlog" (shelf shelved) := by
  have answered : latest rooted "buildlog" (shelf shelved) = .ok (some ⟨⟨"/b.buildlog"⟩, 20⟩) := by decide +kernel
  have tidy : (shelf shelved).Tidy := tidyOf (by decide +kernel)
  have tidy' : (shelf tidied).Tidy := tidyOf (by decide +kernel)
  have found : (shelf shelved).find rooted.caller.here rooted.root = .ok [] := by decide +kernel
  have found' : (shelf tidied).find rooted.caller.here rooted.root = .ok [] := by decide +kernel
  obtain ⟨-, selected, alike⟩ := latestSelected "buildlog" tidy found rfl
  exact ⟨answered, (selected _).mp answered, alike _ [] tidied tidy' found' rfl shelfAlike⟩

def longName : String := String.ofList (List.replicate 255 'd')

def longLog : String := String.ofList (List.replicate 246 'n' ++ ".buildlog".toList)

def deepNodes : List Node :=
  (List.range 15).map (fun i => ⟨.directory [(longName, i + 1)], 0o755, 0⟩) ++
    [⟨.directory [(longLog, 16)], 0o755, 0⟩, ⟨.file [], 0o644, 0⟩]

def deep : FileSystem := ⟨deepNodes.toArray⟩

def down : Nat → Trail
  | 0 => []
  | n + 1 => (longName, n + 1) :: down n

def lowest : Directory := ⟨(down 15).path, ⟨⟨"/"⟩, 1⟩, 0, "lock", .zero⟩

theorem nameOf {cs : List Char} (long : 2 < cs.length) (whole : '/' ∉ cs) : IsName (String.ofList cs) := by
  have other {text : String} (short : text.toList.length ≤ 2) : String.ofList cs ≠ text := by
    rintro rfl
    rw [String.toList_ofList] at short
    omega
  refine ⟨other (by decide), ?_, other (by decide), other (by decide)⟩
  rwa [String.toList_ofList]

theorem longNameIs : IsName longName := by
  refine nameOf (by rw [List.length_replicate]; decide) fun member => ?_
  cases List.eq_of_mem_replicate member

theorem longLogIs : IsName longLog := by
  refine nameOf (by rw [List.length_append, List.length_replicate]; decide) fun member => ?_
  rcases List.mem_append.mp member with before | last
  · cases List.eq_of_mem_replicate before
  · revert last
    decide

theorem deepTidy : deep.Tidy := by
  refine tidyOf fun node member => ?_
  have one {name : String} (isName : IsName name) {n : Nat} (inside : n < 17) :
      TidyContent 17 (.directory [(name, n)]) :=
    ⟨by simpa using ⟨isName, inside⟩, by simp⟩
  have size : deep.nodes.size = 17 := rfl
  rw [size]
  simp only [deep, deepNodes, List.mem_append, List.mem_map, List.mem_range] at member
  rcases member with ⟨i, less, rfl⟩ | last
  · exact one longNameIs (by omega)
  · rcases List.mem_pair.mp last with rfl | rfl
    · exact one longLogIs (by decide)
    · trivial

theorem deepDirectory {n : Nat} (less : n < 15) : deep.content? n = some (.directory [(longName, n + 1)]) := by
  rw [content?, deep, List.getElem?_toArray, deepNodes, List.getElem?_append_left (by simpa using less), List.getElem?_map,
    List.getElem?_range less]
  rfl

theorem deepChain : ∀ n ≤ 15, Chain deep (down n) := by
  intro n
  induction n with
  | zero => exact fun _ => .root
  | succ n ih =>
    intro upTo
    have directory : deep.content? n = some (.directory [(longName, n + 1)]) := deepDirectory upTo
    have node : (down n).node = n := by cases n <;> rfl
    rw [← node] at directory
    refine .entry (ih (by omega)) directory ?_
    rw [List.lookup_cons, beq_self_eq_true, node]

theorem downNames (n : Nat) : (down n).reverse.map Prod.fst = List.replicate n longName := by
  induction n with
  | zero => rfl
  | succ n ih => rw [down, List.reverse_cons, List.map_append, ih, List.replicate_succ']; rfl

theorem lowestText : lowest.root.text = "/" ++ "/".intercalate (List.replicate 15 longName) := by
  rw [lowest, Trail.path, downNames, Path.ofNames]

theorem slashedPlain {c : Char} (other : c ≠ '/') {name : String} (plain : c ∉ name.toList) (n : Nat) :
    c ∉ ("/".intercalate (List.replicate n name)).toList := by
  induction n with
  | zero => exact List.not_mem_nil
  | succ n ih =>
    cases n with
    | zero => simpa using plain
    | succ n =>
      rw [List.replicate_succ, List.replicate_succ, String.intercalate_cons_cons, ← List.replicate_succ,
        String.toList_append, String.toList_append]
      simp only [List.mem_append, plain, ih, or_false, false_or]
      simpa using other

theorem slashedSize (name : String) (n : Nat) :
    ("/".intercalate (List.replicate (n + 1) name)).utf8ByteSize = (n + 1) * (name.utf8ByteSize + 1) - 1 := by
  induction n with
  | zero => simp
  | succ n ih =>
    rw [List.replicate_succ, List.replicate_succ, String.intercalate_cons_cons, ← List.replicate_succ,
      String.utf8ByteSize_append, String.utf8ByteSize_append, ih]
    have slash : "/".utf8ByteSize = 1 := rfl
    rw [slash, Nat.succ_mul (n + 1), Nat.succ_mul n]
    omega

theorem slashedLast (name : String) (n : Nat) :
    ∃ before, "/".intercalate (List.replicate (n + 1) name) = before ++ name := by
  cases n with
  | zero => exact ⟨"", by simp⟩
  | succ n =>
    refine ⟨"/".intercalate (List.replicate (n + 1) name) ++ "/", ?_⟩
    rw [List.replicate_succ', String.intercalate_append_of_ne_nil (by simp) (by simp), String.intercalate_singleton]

theorem unended {before name : String} {c : Char} (last : name.toList.getLast? = some c) (other : c ≠ '/') :
    Path.endsInSlash ⟨before ++ name⟩ = false := by
  rw [Path.endsInSlash, String.toList_append, List.getLast?_append, last]
  simpa using other

theorem longEnd (n : Nat) : (String.ofList (List.replicate (n + 1) 'd')).toList.getLast? = some 'd' := by
  rw [String.toList_ofList, List.getLast?_replicate]
  exact if_neg n.succ_ne_zero

theorem lowestUnended : lowest.root.endsInSlash = false := by
  obtain ⟨before, whole⟩ := slashedLast longName 14
  have text : lowest.root = ⟨"/" ++ before ++ longName⟩ := by
    rw [String.append_assoc, ← whole, ← lowestText]
  rw [text]
  exact unended (longEnd 254) (by decide)

theorem lowestSize : lowest.root.text.utf8ByteSize = 3840 := by
  have name : longName.utf8ByteSize = 255 := by decide +kernel
  rw [lowestText, String.utf8ByteSize_append, slashedSize, name]
  rfl

theorem logSize : (lowest.root.join longLog).text.utf8ByteSize = 4096 := by
  have filled : lowest.root.text.isEmpty = false := by
    rw [Bool.eq_false_iff, ne_eq, String.isEmpty_iff_utf8ByteSize_eq_zero, lowestSize]
    decide
  have name : longLog.utf8ByteSize = 255 := by decide +kernel
  rw [Path.join, Path.nameRelative longLogIs, filled, lowestUnended]
  change (lowest.root.text ++ "/" ++ longLog).utf8ByteSize = 4096
  rw [String.utf8ByteSize_append, String.utf8ByteSize_append, lowestSize, name]
  rfl

theorem longPlain {c : Char} (other : c ≠ 'd') (n : Nat) : c ∉ (String.ofList (List.replicate n 'd')).toList := by
  rw [String.toList_ofList]
  exact fun member => other (List.eq_of_mem_replicate member)

theorem lowestPlain : '\x00' ∉ lowest.root.text.toList := by
  have name : '\x00' ∉ longName.toList := longPlain (by decide) 255
  have slashed := slashedPlain (by decide) name 15
  rw [lowestText, String.toList_append, List.mem_append]
  exact not_or.mpr ⟨by decide, slashed⟩

theorem lowestFound : deep.find lowest.caller.here lowest.root = .ok (down 15) := by
  have legible : Legible lowest.root :=
    ⟨lowestPlain, by rintro empty; simpa [empty] using lowestSize, by rw [lowestSize]; decide⟩
  have short : ∀ n, ∀ e ∈ down n, e.1.utf8ByteSize ≤ nameLimit := by
    intro n
    induction n with
    | zero => exact fun _ none => nomatch none
    | succ n ih =>
      have own : longName.utf8ByteSize ≤ nameLimit := by decide +kernel
      exact List.forall_mem_cons.mpr ⟨own, ih⟩
  have directory : deep.content? (down 15).node = some (.directory [(longLog, 16)]) := rfl
  exact (deepChain 15 (Nat.le_refl _)).find deepTidy legible (short 15) directory

theorem deepOverlooked : deep.Tidy ∧ deep.find lowest.caller.here lowest.root = .ok (down 15) ∧
    deep.content? (down 15).node = some (.directory [(longLog, 16)]) ∧
    HasFile deep [(longLog, 16)] "buildlog" longLog ∧ latest lowest "buildlog" deep = .ok none := by
  have file : HasFile deep [(longLog, 16)] "buildlog" longLog := by
    refine ⟨16, List.mem_singleton.mpr rfl, rfl, List.replicate 246 'n', List.cons_ne_nil _ _, ?_, by decide⟩
    exact String.toList_ofList
  refine ⟨deepTidy, lowestFound, rfl, file, ?_⟩
  obtain ⟨answer, given, selected⟩ := selectedLatest deepTidy rfl lowestFound "buildlog"
  cases selected with
  | none => exact given
  | @last name time log =>
    obtain ⟨n, member, -⟩ := log.file
    have isLog : name = longLog := congrArg Prod.fst (List.mem_singleton.mp member)
    have short := log.legible.short
    rw [isLog, logSize] at short
    exact absurd short (by decide)

end BuildReuse.BuildLog
