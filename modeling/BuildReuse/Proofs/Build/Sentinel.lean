import BuildReuse.Proofs.FileSystem.Removed
import BuildReuse.Proofs.FileSystem.Stored

/-! The sentinel of a directory: the text that it holds, if it is there. Whatever is done to
the lock file and to other entries of the directory leaves it as it is. -/
namespace BuildReuse

namespace FileSystem

inductive Entry (fs : FileSystem) (T : Trail) (name : String) : Option String → Prop where
  | none {es} (directory : fs.content? T.node = some (.directory es)) (missing : es.lookup name = none) :
      Entry fs T name none
  | file {es n text} (directory : fs.content? T.node = some (.directory es)) (named : es.lookup name = some n)
      (content : fs.content? n = some (.file (bytesOf text))) : Entry fs T name (some text)

def Spot.Beside (fs : FileSystem) (T : Trail) (name : String) : Spot → Prop
  | .present trail => (fs.entries T.node).lookup name ≠ some trail.node
  | .absent d step => d.node = T.node → step ≠ name

structure Noted (T : Trail) (name : String) (place : Path) (note : Option String) (fs : FileSystem) : Prop where
  tidy : fs.Tidy
  found : ∀ here, fs.find here T.path = .ok T
  reached : ∀ here, ∃ spot, fs.locate here false (T.path.join name) = .ok spot
  entry : fs.Entry T name note
  apart : ∀ spot, fs.walk false linkLimit [] (stepsOf place) = .ok spot → spot.Beside fs T name

variable {fs fs' : FileSystem} {T : Trail} {name other : String} {place : Path} {note note' : Option String}
  {text : String} {es : List (String × Nat)} {n : Nat}

theorem entriesAt {d : Nat} (at? : fs.content? d = some (.directory es)) : fs.entries d = es := by
  rw [entries, at?]

theorem Entry.directory (entry : fs.Entry T name note) : ∃ es, fs.content? T.node = some (.directory es) := by
  cases entry with
  | none directory missing => exact ⟨_, directory⟩
  | file directory named content => exact ⟨_, directory⟩

namespace Noted

theorem short (noted : Noted T name place note fs) (isName : IsName name) : name.utf8ByteSize ≤ nameLimit := by
  obtain ⟨spot, located⟩ := noted.reached ⟨"/"⟩
  obtain ⟨k, last⟩ := locateChild (noted.found _) isName located
  exact nameShort isName last

theorem locateMissing (noted : Noted T name place note fs) (isName : IsName name) {here : Path}
    (found : fs'.find here T.path = .ok T) (directory : fs'.content? T.node = some (.directory es))
    (missing : es.lookup name = none) (keepLink : Bool) :
    fs'.locate here keepLink (T.path.join name) = .ok (.absent T name) := by
  obtain ⟨spot, located⟩ := noted.reached here
  exact locateEntry found isName located fun _ =>
    .missing directory ⟨isName.notHere, isName.notUp, noted.short isName⟩ missing

theorem locateFile {bytes : Bytes} (noted : Noted T name place note fs) (isName : IsName name) {here : Path}
    (found : fs'.find here T.path = .ok T) (directory : fs'.content? T.node = some (.directory es))
    (named : es.lookup name = some n) (content : fs'.content? n = some (.file bytes)) (keepLink : Bool) :
    fs'.locate here keepLink (T.path.join name) = .ok (.present ((name, n) :: T)) := by
  obtain ⟨spot, located⟩ := noted.reached here
  exact locateEntry found isName located fun k =>
    entryWalks (e := (name, n)) directory isName (noted.short isName) named k
      (.inr fun target link => by cases content.symm.trans link)

theorem changed (noted : Noted T name place note fs) (isName : IsName name) (tidy : fs'.Tidy)
    (found : ∀ here, fs'.find here T.path = .ok T) (entry : fs'.Entry T name note')
    (apart : ∀ spot, fs'.walk false linkLimit [] (stepsOf place) = .ok spot → spot.Beside fs' T name) :
    Noted T name place note' fs' := by
  refine ⟨tidy, found, fun here => ?_, entry, apart⟩
  cases entry with
  | none directory missing => exact ⟨_, noted.locateMissing isName (found here) directory missing false⟩
  | file directory named content => exact ⟨_, noted.locateFile isName (found here) directory named content false⟩

theorem readsNone (noted : Noted T name place none fs) (isName : IsName name) (here : Path) :
    fs.find here (T.path.join name) = .error (.host .noEntry) := by
  cases noted.entry with
  | none directory missing =>
    have located := noted.locateMissing isName (noted.found here) directory missing false
    rw [find, located]
    rfl

theorem readsText (noted : Noted T name place (some text) fs) (isName : IsName name) (here : Path) :
    fs.present here (T.path.join name) = true ∧ fs.readBytes here (T.path.join name) = .ok (bytesOf text) := by
  cases noted.entry with
  | file directory named content =>
    have located := findLocate.mpr (noted.locateFile isName (noted.found here) directory named content false)
    refine ⟨by rw [present, located]; rfl, ?_⟩
    simp only [readBytes, located, bind, Except.bind, readNode, Trail.node, content]

theorem writeOther (noted : Noted T name place note fs) (isName : IsName name) (bytes : Bytes) (now : Int)
    (tidy : (fs.writeNode n bytes now).Tidy) (beside : (fs.entries T.node).lookup name ≠ some n) :
    Noted T name place note (fs.writeNode n bytes now) := by
  have same := outlineWriteNode fs n bytes now
  have still {d es} (directory : fs.content? d = some (.directory es)) :
      (fs.writeNode n bytes now).content? d = some (.directory es) := by
    rcases outlineCases same d with equal | ⟨old, new, file, -⟩
    · rw [equal, directory]
    · cases file.symm.trans directory
  refine noted.changed isName tidy (fun here => by rw [findOutline same, noted.found here]) ?_ fun spot walked => ?_
  · cases noted.entry with
    | none directory missing => exact .none (still directory) missing
    | file directory named content =>
      refine .file (still directory) named ?_
      rw [contentOther fs, content]
      rintro rfl
      exact beside (by rw [entriesAt directory, named])
  · rw [walkOutline same] at walked
    have apart := noted.apart spot walked
    cases spot with
    | present trail => rwa [Spot.Beside, entriesOutline same]
    | absent d step => exact apart

theorem makeOther {d : Trail} {step : String} (noted : Noted T name place note fs) (isName : IsName name)
    (absent : fs.walk false linkLimit [] (stepsOf place) = .ok (.absent d step)) (bytes : Bytes) (now : Int)
    (tidy : (fs.withFile d.node step bytes now).Tidy) :
    Noted T name place note (fs.withFile d.node step bytes now) := by
  obtain ⟨es, at?, missing⟩ := walkAbsent _ _ _ absent
  obtain ⟨grown, leads⟩ := madeLeads absent bytes now
  have beside : d.node = T.node → step ≠ name := noted.apart _ absent
  -- The directory has at most one entry more, which is another one.
  have same {es₀ : List (String × Nat)} (directory : fs.content? T.node = some (.directory es₀)) :
      ∃ es', (fs.withFile d.node step bytes now).content? T.node = some (.directory es') ∧
        es'.lookup name = es₀.lookup name := by
    by_cases here : T.node = d.node
    · cases at?.symm.trans (here ▸ directory)
      refine ⟨_, by rw [contentMade at? missing, if_pos here], ?_⟩
      have differ : (name == step) = false := beq_eq_false_iff_ne.mpr (Ne.symm (beside here.symm))
      rw [List.lookup_append, List.lookup_cons, differ]
      simp
    · refine ⟨_, ?_, rfl⟩
      rw [contentMade at? missing, if_neg here, if_neg (Nat.ne_of_lt (contentInside directory)), directory]
  have kept {n : Nat} {old : Bytes} (content : fs.content? n = some (.file old)) :
      (fs.withFile d.node step bytes now).content? n = some (.file old) := by
    have other : n ≠ d.node := by
      rintro rfl
      cases content.symm.trans at?
    rw [contentMade at? missing, if_neg other, if_neg (Nat.ne_of_lt (contentInside content)), content]
  refine noted.changed isName tidy (fun here => findGrown grown (noted.found here)) ?_ fun spot walked => ?_
  · cases noted.entry with
    | none directory none =>
      obtain ⟨es', directory', same⟩ := same directory
      exact .none directory' (same.trans none)
    | file directory named content =>
      obtain ⟨es', directory', same⟩ := same directory
      exact .file directory' (same.trans named) (kept content)
  · unfold FileSystem.leads at leads
    rw [walked] at leads
    cases spot with
    | absent d' step' => cases leads
    | present trail =>
      obtain ⟨es₀, directory⟩ := noted.entry.directory
      obtain ⟨es', directory', same⟩ := same directory
      rw [Spot.Beside, entriesAt directory', same, Option.some.inj leads]
      intro named
      exact Nat.lt_irrefl _ (noted.tidy.inside directory _ (lookupMem named))

theorem touched (noted : Noted T name place note fs) (isName : IsName name) (touched : Touched place fs fs') :
    Noted T name place note fs' := by
  have tidy := touched.tidy noted.tidy
  cases touched with
  | same => exact noted
  | @written n leads bytes now =>
    refine noted.writeOther isName bytes now tidy ?_
    unfold FileSystem.leads at leads
    split at leads
    · rename_i trail walked
      cases leads
      exact noted.apart _ walked
    · cases leads
  | made absent bytes now => exact noted.makeOther isName absent bytes now tidy

theorem withoutOther (noted : Noted T name place note fs) (isName : IsName name) (straight : Straight T)
    (differ : name ≠ other) : Noted T name place note (fs.without T.node fun e => e.1 == other) := by
  obtain ⟨es, at?⟩ := noted.entry.directory
  have content := contentWithout at? fun e => e.1 == other
  have directory : (fs.without T.node fun e => e.1 == other).content? T.node =
      some (.directory (es.filter fun e => !(e.1 == other))) := by rw [content, if_pos rfl]
  have same : (es.filter fun e => !(e.1 == other)).lookup name = es.lookup name := lookupFilter differ
  have grown : (fs.without T.node fun e => e.1 == other).Grown fs := grownWithout noted.tidy at?
  refine noted.changed isName (tidyWithout noted.tidy at?)
    (fun here => findWithout noted.tidy straight (noted.found here) at?) ?_ fun spot walked => ?_
  · cases noted.entry with
    | none directory' missing =>
      cases at?.symm.trans directory'
      exact .none directory (same.trans missing)
    | @file _ n _ directory' named file =>
      cases at?.symm.trans directory'
      have inner : n ≠ T.node := by
        rintro rfl
        cases at?.symm.trans file
      exact .file directory (same.trans named) (by rw [content, if_neg inner, file])
  · cases spot with
    | present trail =>
      have before := noted.apart _ (walkGrown grown (show fs.Reaches (.present trail) trail from rfl) _ _ _ walked)
      rw [Spot.Beside, entriesAt at?] at before
      rwa [Spot.Beside, entriesAt directory, same]
    | absent d step =>
      rintro here rfl
      obtain ⟨es', there, missing⟩ := walkAbsent _ _ _ walked
      rw [here, directory] at there
      cases there
      have none : ∀ es₀, fs.content? d.node = some (.directory es₀) → es₀.lookup step = none := by
        intro es₀ there
        cases at?.symm.trans (here ▸ there)
        exact same.symm.trans missing
      exact noted.apart _ ((walksOf _ _ _ walked).stillMissing grown rfl none).walk here rfl

theorem cleared (noted : Noted T name place (some text) fs) (isName : IsName name) (straight : Straight T)
    (here : Path) : ∃ fs', fs.removeFile here (T.path.join name) = .ok fs' ∧ Noted T name place none fs' := by
  cases noted.entry with
  | @file es n _ at? named file =>
    have noDirectory : fs.isDirectory n = false := by rw [isDirectory, file]
    have found := noted.found here
    have there := findLocate.mpr (noted.locateFile isName found at? named file false)
    refine ⟨_, removeFileEntry (e := (name, n)) noted.tidy found at? (lookupMem named) noDirectory there, ?_⟩
    have directory : (fs.without T.node fun e => e.1 == name).content? T.node =
        some (.directory (es.filter fun e => !(e.1 == name))) := contentLeft at? _
    have missing : (es.filter fun e => !(e.1 == name)).lookup name = none := lookupFiltered es name
    have grown : (fs.without T.node fun e => e.1 == name).Grown fs := grownWithout noted.tidy at?
    refine noted.changed isName (tidyWithout noted.tidy at?)
      (fun here => findWithout noted.tidy straight (noted.found here) at?) (.none directory missing) fun spot walked => ?_
    cases spot with
    | present trail =>
      rw [Spot.Beside, entriesAt directory, missing]
      exact Option.some_ne_none _ ∘ Eq.symm
    | absent d step =>
      rintro here rfl
      have noLink : ∀ target, fs.content? n ≠ some (.link target) := fun target link => by
        cases file.symm.trans link
      have reaches : fs.Reaches (.absent d step) ((step, n) :: d) := ⟨n, es, here ▸ at?, named, noLink, rfl⟩
      have before := noted.apart _ (walkGrown grown reaches _ _ _ walked)
      rw [Spot.Beside, entriesAt at?] at before
      exact before named

theorem clearNothing (noted : Noted T name place none fs) (isName : IsName name) (here : Path) :
    fs.removeFile here (T.path.join name) = .error (.host .noEntry) := by
  cases noted.entry with
  | none directory missing =>
    have located := noted.locateMissing isName (noted.found here) directory missing true
    have pieces : (T.path.join name).pieces.isEmpty = false := by
      rw [Path.piecesJoin (findPieces (noted.found here)).1 isName]
      simp
    unfold removeFile
    rw [if_neg (by simp [pieces]), Path.joinWithoutSlash isName, located]
    rfl

theorem overwritten {old : String} (noted : Noted T name place (some old) fs) (isName : IsName name) (here : Path)
    (text : String) (now : Int) :
    ∃ fs', fs.writeFile here (T.path.join name) (bytesOf text) now = .ok fs' ∧ Noted T name place (some text) fs' := by
  cases noted.entry with
  | @file es n _ at? named file =>
    have located := noted.locateFile isName (noted.found here) at? named file false
    have noDirectory : fs.isDirectory n = false := by rw [isDirectory, file]
    have isFile : fs.isFile n = true := by rw [FileSystem.isFile, file]
    have same := outlineWriteNode fs n (bytesOf text) now
    have tidy := (Touched.written (leadsOf (locateWalk located)) (bytesOf text) now).tidy noted.tidy
    have inner : T.node ≠ n := by
      rintro rfl
      cases at?.symm.trans file
    refine ⟨fs.writeNode n (bytesOf text) now, ?_, noted.changed isName tidy
      (fun here => by rw [findOutline same, noted.found here]) ?_ fun spot walked => ?_⟩
    · simp [writeFile, openFile, Path.joinUnended isName, located, noDirectory, bind, Except.bind, Trail.node]
    · exact .file (by rw [contentOther fs inner, at?]) named (by rw [contentWriteNode, if_pos ⟨rfl, isFile⟩])
    · rw [walkOutline same] at walked
      have apart := noted.apart spot walked
      cases spot with
      | present trail => rwa [Spot.Beside, entriesOutline same]
      | absent d step => exact apart

theorem made (noted : Noted T name place none fs) (isName : IsName name) (here : Path) (text : String) (now : Int) :
    ∃ fs', fs.writeFile here (T.path.join name) (bytesOf text) now = .ok fs' ∧ Noted T name place (some text) fs' := by
  cases noted.entry with
  | @none es at? missing =>
    have located := noted.locateMissing isName (noted.found here) at? missing false
    have tidy := (Touched.made (locateWalk located) (bytesOf text) now).tidy noted.tidy
    have grown : fs.Grown (fs.withFile T.node name (bytesOf text) now) := grownCreate at? missing nofun
    have directory : (fs.withFile T.node name (bytesOf text) now).content? T.node =
        some (.directory (es ++ [(name, fs.nodes.size)])) := by rw [contentMade at? missing, if_pos rfl]
    have named : (es ++ [(name, fs.nodes.size)]).lookup name = some fs.nodes.size := by
      rw [List.lookup_append, missing, List.lookup_cons_self]
      rfl
    refine ⟨fs.withFile T.node name (bytesOf text) now, ?_, noted.changed isName tidy
      (fun here => findGrown grown (noted.found here)) (.file directory named (contentNew at? missing))
      fun spot walked => ?_⟩
    · simp only [writeFile, openFile, Path.joinUnended isName, located, bind, Except.bind, Bool.false_eq_true, if_false]
      rw [writeNodeMade at?]
    · cases spot with
      | present trail =>
        rw [Spot.Beside, entriesAt directory, named]
        intro same
        obtain ⟨D, inside, before⟩ := walksNew at? missing noted.tidy (walksOf _ _ _ walked) rfl
          (Option.some.inj same).symm fun _ none => (List.not_mem_nil none).elim
        exact noted.apart _ before.walk inside rfl
      | absent d step =>
        rintro here rfl
        obtain ⟨es', there, none⟩ := walkAbsent _ _ _ walked
        rw [here, directory] at there
        cases there
        cases none.symm.trans named

theorem written (noted : Noted T name place note fs) (isName : IsName name) (here : Path) (text : String) (now : Int) :
    ∃ fs', fs.writeFile here (T.path.join name) (bytesOf text) now = .ok fs' ∧ Noted T name place (some text) fs' := by
  cases note with
  | none => exact noted.made isName here text now
  | some old => exact noted.overwritten isName here text now

end Noted
end FileSystem
end BuildReuse
