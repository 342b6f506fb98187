import BuildReuse.Proofs.FileSystem.Outline
import BuildReuse.Proofs.FileSystem.Removed

/-! Paths that lead nowhere once entries were taken away. A walk goes on as before or misses a
name, and a file that was removed by its path is neither removed nor read by it again. -/
namespace BuildReuse.FileSystem

variable {fs fs' : FileSystem} {here root path : Path} {T : Trail} {es : List (String × Nat)} {d n : Nat}
  {gone : String × Nat → Bool} {keepLink : Bool} {name : String}

theorem directoryWithout (tidy : fs.Tidy) (at? : fs.content? d = some (.directory es))
    (gone : String × Nat → Bool) {es' : List (String × Nat)} (directory : fs.content? n = some (.directory es')) :
    ∃ left, (fs.without d gone).content? n = some (.directory left) ∧
      ∀ name, left.lookup name = none ∨ left.lookup name = es'.lookup name := by
  rw [contentWithout at?]
  by_cases same : n = d
  · subst same
    cases at?.symm.trans directory
    refine ⟨_, if_pos rfl, fun name => ?_⟩
    cases found : (es.filter fun e => !gone e).lookup name with
    | none => exact .inl rfl
    | some k =>
      have member := (List.mem_filter.mp (lookupMem found)).1
      exact .inr (lookupOfMem (tidy.distinct at?) member).symm
  · exact ⟨es', by rw [if_neg same, directory], fun name => .inr rfl⟩

theorem isFileWithout (at? : fs.content? d = some (.directory es)) (n : Nat) :
    (fs.without d gone).isFile n = fs.isFile n := by
  rw [isFile, isFile, contentWithout at?]
  by_cases same : n = d
  · rw [if_pos same, same, at?]
  · rw [if_neg same]

def Missing (fs : FileSystem) (keepLink : Bool) (links : Nat) (trail : Trail) (steps : List String) : Prop :=
  fs.walk keepLink links trail steps = .error .noEntry ∨
    ∃ d name, fs.walk keepLink links trail steps = .ok (.absent d name)

theorem Missing.onward {links links' : Nat} {trail trail' : Trail} {steps steps' : List String}
    (same : fs.walk keepLink links trail steps = fs.walk keepLink links' trail' steps')
    (missing : fs.Missing keepLink links' trail' steps') : fs.Missing keepLink links trail steps := by
  unfold Missing
  rwa [same]

theorem missingEntry {links : Nat} {trail : Trail} {step : String} (rest : List String)
    (directory : fs.content? trail.node = some (.directory es))
    (inner : step ≠ "." ∧ step ≠ ".." ∧ step.utf8ByteSize ≤ nameLimit) (none : es.lookup step = none) :
    fs.Missing keepLink links trail (step :: rest) := by
  unfold Missing
  rw [walkMissing directory inner none]
  cases rest with
  | nil => exact .inr ⟨trail, step, rfl⟩
  | cons next rest => exact .inl rfl

theorem Walks.lost (tidy : fs.Tidy) (at? : fs.content? d = some (.directory es)) (gone : String × Nat → Bool)
    {links : Nat} {trail : Trail} {steps : List String} {spot : Spot} (h : Walks fs keepLink links trail steps spot) :
    Walks (fs.without d gone) keepLink links trail steps spot ∨
      (fs.without d gone).Missing keepLink links trail steps := by
  have grown : (fs.without d gone).Grown fs := grownWithout tidy at?
  induction h with
  | stop => exact .inl .stop
  | dot directory onward ih =>
    obtain ⟨left, directory', -⟩ := directoryWithout tidy at? gone directory
    rcases ih with same | missing
    · exact .inl (.dot directory' same)
    · exact .inr (missing.onward (walkDot directory'))
  | up directory onward ih =>
    obtain ⟨left, directory', -⟩ := directoryWithout tidy at? gone directory
    rcases ih with same | missing
    · exact .inl (.up directory' same)
    · exact .inr (missing.onward (walkUp directory'))
  | missing directory inner none =>
    obtain ⟨left, directory', names⟩ := directoryWithout tidy at? gone directory
    exact .inl (.missing directory' inner ((names _).elim id fun same => same.trans none))
  | kept directory inner named link keep =>
    obtain ⟨left, directory', names⟩ := directoryWithout tidy at? gone directory
    rcases names _ with none | same
    · exact .inr (missingEntry [] directory' inner none)
    · exact .inl (.kept directory' inner (same.trans named) ((grown.links ..).mp link) keep)
  | follow directory inner named link passes onward ih =>
    obtain ⟨left, directory', names⟩ := directoryWithout tidy at? gone directory
    rcases names _ with none | same
    · exact .inr (missingEntry _ directory' inner none)
    have named' := same.trans named
    have link' := (grown.links ..).mp link
    rcases ih with stays | missing
    · exact .inl (.follow directory' inner named' link' passes stays)
    · exact .inr (missing.onward (walkFollow directory' inner named' link' passes))
  | enter directory inner named noLink onward ih =>
    obtain ⟨left, directory', names⟩ := directoryWithout tidy at? gone directory
    rcases names _ with none | same
    · exact .inr (missingEntry _ directory' inner none)
    have named' := same.trans named
    have noLink' target := mt (grown.links ..).mpr (noLink target)
    rcases ih with stays | missing
    · exact .inl (.enter directory' inner named' noLink' stays)
    · exact .inr (missing.onward (walkEnter directory' inner named' noLink'))

theorem locateMissing {fs' : FileSystem} {keepLink' : Bool} {spot' : Spot}
    (h : fs'.locate here keepLink' path = .ok spot')
    (missing : fs.Missing keepLink linkLimit [] (stepsOf (here.join path.text))) :
    fs.locate here keepLink path = .error (.host .noEntry) ∨
      ∃ d name, fs.locate here keepLink path = .ok (.absent d name) := by
  unfold locate at h ⊢
  split at h
  · cases h
  split at h
  · cases h
  split at h
  · cases h
  rename_i plain filled short
  rw [if_neg plain, if_neg filled, if_neg short]
  rcases missing with lost | ⟨d, name, absent⟩
  · exact .inl (by rw [lost]; rfl)
  · exact .inr ⟨d, name, by rw [absent]; rfl⟩

theorem removedEntry (removed : fs.removeFile here path = .ok fs') : path.endsInSlash = false ∧ ∃ name n D,
    fs.locate here true path = .ok (.present ((name, n) :: D)) ∧ fs.isDirectory n = false ∧
      fs' = fs.without (Trail.node D) fun e => e.1 == name := by
  unfold removeFile at removed
  split at removed
  · cases removed
  cases located : fs.locate here true path.withoutFinalSlash with
  | error e => simp [located, bind, Except.bind] at removed
  | ok spot =>
    rw [located] at removed
    simp only [bind, Except.bind] at removed
    split at removed
    · cases removed
    · cases removed
    · rename_i name n D
      split at removed
      · cases removed
      rename_i noDirectory
      split at removed
      · cases removed
      rename_i unended
      have unended := Bool.eq_false_iff.mpr unended
      cases removed
      rw [Path.unendedWithoutSlash unended] at located
      exact ⟨unended, name, n, D, located, by simpa using noDirectory, rfl⟩

theorem removedChain (removed : fs.removeFile here path = .ok fs') : ∃ name n D es,
    Chain fs D ∧ fs.content? (Trail.node D) = some (.directory es) ∧ es.lookup name = some n ∧
      fs.isDirectory n = false ∧ fs' = fs.without (Trail.node D) fun e => e.1 == name := by
  obtain ⟨-, name, n, D, located, noDirectory, left⟩ := removedEntry removed
  have chain : Chain fs ((name, n) :: D) := (locateWalks located).2.chain .root
  cases chain with
  | entry above directory named => exact ⟨name, n, D, _, above, directory, named, noDirectory, left⟩

theorem removedMissing (tidy : fs.Tidy) (removed : fs.removeFile here path = .ok fs') :
    fs'.removeFile here path = .error (.host .noEntry) := by
  obtain ⟨unended, name, n, D, located, -, left⟩ := removedEntry removed
  obtain ⟨-, walks⟩ := locateWalks located
  have chain : Chain fs ((name, n) :: D) := walks.chain .root
  cases chain with
  | entry above at? named =>
    have content := contentWithout at? (fun e => e.1 == name) (Trail.node D)
    rw [if_pos rfl, ← left] at content
    have passed : (path.pieces.isEmpty && !path.text.isEmpty) = false := by
      unfold removeFile at removed
      split at removed
      · cases removed
      · rename_i passed
        exact Bool.eq_false_iff.mpr passed
    have missing : fs'.Missing true linkLimit [] (stepsOf (here.join path.text)) := by
      have lost := walks.lost tidy at? fun e => e.1 == name
      rw [← left] at lost
      refine lost.resolve_left fun stays => ?_
      have there : Chain fs' ((name, n) :: D) := stays.chain .root
      cases there with
      | entry above' at' named' =>
        cases content.symm.trans at'
        cases (lookupFiltered _ name).symm.trans named'
    unfold removeFile
    rw [if_neg (by simp [passed]), Path.unendedWithoutSlash unended]
    rcases locateMissing located missing with failed | ⟨d, name', absent⟩
    · rw [failed]
      rfl
    · rw [absent]
      rfl

theorem Walks.keepLast {links : Nat} {trail T : Trail} {steps : List String} {spot : Spot}
    (h : Walks fs false links trail steps spot) (leads : spot = .present T) :
    ∃ S, Walks fs true links trail steps (.present S) := by
  induction h with
  | stop => exact ⟨_, .stop⟩
  | dot directory onward ih =>
    obtain ⟨S, walks⟩ := ih leads
    exact ⟨S, .dot directory walks⟩
  | up directory onward ih =>
    obtain ⟨S, walks⟩ := ih leads
    exact ⟨S, .up directory walks⟩
  | missing directory inner none => cases leads
  | kept directory inner named link keep => cases keep
  | @follow links trail step rest spot es n target directory inner named link passes onward ih =>
    by_cases last : rest = []
    · subst last
      exact ⟨_, .kept directory inner named link rfl⟩
    · obtain ⟨S, walks⟩ := ih leads
      exact ⟨S, .follow directory inner named link (.inr last) walks⟩
  | enter directory inner named noLink onward ih =>
    obtain ⟨S, walks⟩ := ih leads
    exact ⟨S, .enter directory inner named noLink walks⟩

theorem endedDirectory (found : fs.find here path = .ok T) (ends : path.endsInSlash = true) :
    fs.isDirectory T.node = true := by
  obtain ⟨filled, walks⟩ := locateWalks (findLocate.mp found)
  rw [stepsOf, Path.joinedEnds filled, if_pos ends] at walks
  obtain ⟨k, T', -, last⟩ := walks.split (List.cons_ne_nil "." []) _ rfl
  cases last.stays rfl
  rcases last.atDirectory with none | directory
  · cases none
  · exact isDirectoryIff.mpr directory

theorem readMissing {e : IoError} (failed : fs.removeFile here path = .error e) (missing : e.kind = .notFound) :
    (fs.readText here path).toOption = none := by
  cases read : fs.readText here path with
  | error e' => rfl
  | ok text =>
    exfalso
    unfold readText readBytes at read
    cases found : fs.find here path with
    | error e' => simp [found, bind, Except.bind] at read
    | ok T =>
      simp only [found, bind, Except.bind] at read
      unfold removeFile at failed
      split at failed
      · cases failed
        cases missing
      cases ends : path.endsInSlash with
      | true =>
        obtain ⟨es, directory⟩ := isDirectoryIff.mp (endedDirectory found ends)
        simp [readNode, directory] at read
      | false =>
        obtain ⟨-, walks⟩ := locateWalks (findLocate.mp found)
        obtain ⟨S, kept⟩ := walks.keepLast rfl
        rw [Path.unendedWithoutSlash ends, locateOf (findLocate.mp found) kept] at failed
        simp only [bind, Except.bind] at failed
        split at failed
        · cases ‹Spot.present S = _›
        · cases failed
          cases missing
        · split at failed
          · cases failed
            cases missing
          split at failed
          · cases failed
            cases missing
          · cases failed

theorem Chain.spared (tidy : fs.Tidy) (at? : fs.content? d = some (.directory es))
    (files : ∀ e ∈ es, gone e = true → fs.isDirectory e.2 = false) {A : Trail} (chain : Chain fs A) :
    fs.isDirectory A.node = true → Chain (fs.without d gone) A := by
  induction chain with
  | root => exact fun _ => .root
  | @entry name n es' A above directory named ih =>
    intro isDirectory
    have above' := ih (isDirectoryIff.mpr ⟨_, directory⟩)
    by_cases same : A.node = d
    · subst same
      cases at?.symm.trans directory
      have content := contentWithout at? gone A.node
      rw [if_pos rfl] at content
      have member := lookupMem named
      have stays : gone (name, n) = false := by
        refine Bool.eq_false_iff.mpr fun isGone => ?_
        cases (files _ member isGone).symm.trans isDirectory
      have left : (name, n) ∈ es.filter fun e => !gone e := List.mem_filter.mpr ⟨member, by simp [stays]⟩
      exact .entry above' content (lookupOfMem ((tidyWithout tidy at?).distinct content) left)
    · refine .entry above' ?_ named
      rw [contentWithout at?, if_neg same]
      exact directory

theorem removedFound (tidy : fs.Tidy) (removed : fs.removeFile here path = .ok fs') {here' : Path}
    (found : fs.find here' T.path = .ok T) (directory : fs.isDirectory T.node = true) :
    fs'.find here' T.path = .ok T := by
  obtain ⟨name, n, D, es, -, at?, named, noDirectory, rfl⟩ := removedChain removed
  have files : ∀ e ∈ es, (e.1 == name) = true → fs.isDirectory e.2 = false := by
    intro e member same
    have there := lookupOfMem (tidy.distinct at?) member
    rw [beq_iff_eq.mp same, named] at there
    rwa [← Option.some.inj there]
  obtain ⟨left, at'⟩ := isDirectoryIff.mp ((isDirectoryWithout at? T.node).trans directory)
  exact findOfChain (tidyWithout tidy at?) found ((findChain found).spared tidy at? files directory) at'

theorem Walks.onward {last : List String} (some : last ≠ []) {links : Nat} {trail T : Trail} {steps : List String}
    {spot : Spot} (h : Walks fs false links trail steps spot) (leads : spot = .present T) :
    ∃ k, fs.walk keepLink links trail (steps ++ last) = fs.walk keepLink k T last := by
  induction h with
  | stop =>
    cases leads
    exact ⟨_, rfl⟩
  | dot directory onward ih =>
    obtain ⟨k, same⟩ := ih leads
    exact ⟨k, (walkDot directory).trans same⟩
  | up directory onward ih =>
    obtain ⟨k, same⟩ := ih leads
    exact ⟨k, (walkUp directory).trans same⟩
  | missing directory inner none => cases leads
  | kept directory inner named link keep => cases keep
  | follow directory inner named link passes onward ih =>
    obtain ⟨k, same⟩ := ih leads
    rw [List.append_assoc] at same
    exact ⟨k, (walkFollow directory inner named link (.inr (by simp [some]))).trans same⟩
  | enter directory inner named noLink onward ih =>
    obtain ⟨k, same⟩ := ih leads
    exact ⟨k, (walkEnter directory inner named noLink).trans same⟩

theorem entryThere {e : String × Nat} (tidy : fs.Tidy) (found : fs.find here root = .ok T)
    (at? : fs.content? T.node = some (.directory es)) (member : e ∈ es) {error : IoError}
    (failed : fs.removeFile here (root.join e.1) = .error error) : error.kind ≠ .notFound := by
  have isName := tidy.named at? e member
  obtain ⟨filled, way⟩ := findPieces found
  have pieces : (root.join e.1).pieces.isEmpty = false := by
    rw [Path.piecesJoin filled isName]
    simp
  have text : (root.join e.1).text.isEmpty = false := by
    simpa using Path.joinedFilled (p := root) (q := ⟨e.1⟩) isName.filled
  unfold removeFile at failed
  rw [if_neg (by simp [pieces]), Path.joinWithoutSlash isName] at failed
  cases located : fs.locate here true (root.join e.1) with
  | ok spot =>
    rw [locateKept tidy found at? member located] at failed
    simp only [bind, Except.bind] at failed
    split at failed
    · cases failed
      exact nofun
    split at failed
    · cases failed
      exact nofun
    · cases failed
  | error error' =>
    rw [located] at failed
    cases failed
    unfold locate at located
    split at located
    · cases located
      exact nofun
    rw [text, if_neg (by simp)] at located
    split at located
    · cases located
      exact nofun
    obtain ⟨k, onward⟩ : ∃ k, fs.walk true linkLimit [] ((here.join root.text).pieces ++ [e.1]) =
        fs.walk true k T [e.1] := way.onward (List.cons_ne_nil e.1 []) rfl
    rw [stepsOfChild filled isName, onward] at located
    by_cases short : e.1.utf8ByteSize ≤ nameLimit
    · rw [(entryWalks at? isName short (lookupOfMem (tidy.distinct at?) member) k (.inl rfl)).walk] at located
      cases located
    · rw [walkLong at? isName.notHere isName.notUp (Nat.lt_of_not_le short)] at located
      cases located
      exact nofun

theorem Chain.upper (chain : Chain fs T) (isDirectory : fs.isDirectory T.node = true) (U A : Trail)
    (whole : T = U ++ A) : Chain fs A ∧ fs.isDirectory A.node = true := by
  induction chain generalizing U with
  | root =>
    obtain ⟨rfl, rfl⟩ := List.append_eq_nil_iff.mp whole.symm
    exact ⟨.root, isDirectory⟩
  | @entry name n es T above directory named ih =>
    cases U with
    | nil =>
      cases whole
      exact ⟨.entry above directory named, isDirectory⟩
    | cons last U => exact ih (isDirectoryIff.mpr ⟨_, directory⟩) U (List.cons.inj whole).2

theorem Chain.down {step : String} {n : Nat} {A : Trail} {es' : List (String × Nat)} {rest : List Component}
    (chain : Chain fs T) (at? : fs.content? T.node = some (.directory es)) (none : es.lookup name = none)
    (way : Trail) (whole : T = way.reverse ++ A) (directory : fs.content? A.node = some (.directory es'))
    (there : es'.lookup step = some n) (same : .name step :: rest = (way.map Prod.fst ++ [name]).map .name) :
    ∃ before : Trail, T = before.reverse ++ ((step, n) :: A) ∧ fs.isDirectory n = true ∧
      rest = (before.map Prod.fst ++ [name]).map .name := by
  cases way with
  | nil =>
    cases whole
    cases at?.symm.trans directory
    cases same
    cases none.symm.trans there
  | cons first before =>
    obtain ⟨first, k⟩ := first
    obtain ⟨same, rest⟩ := List.cons.inj same
    cases same
    rw [List.reverse_cons, List.append_assoc, List.singleton_append] at whole
    obtain ⟨onward, isDirectory⟩ := chain.upper (isDirectoryIff.mpr ⟨_, at?⟩) _ _ whole
    cases onward with
    | entry above directory' there' =>
      cases directory.symm.trans directory'
      cases there.symm.trans there'
      exact ⟨before, whole, isDirectory, rest⟩

theorem Walks.aims (chain : Chain fs T) (at? : fs.content? T.node = some (.directory es))
    (none : es.lookup name = none) {links : Nat} {A : Trail} {steps : List String} {spot : Spot}
    (h : Walks fs true links A steps spot) : ∀ way : Trail, T = way.reverse ++ A →
      steps.filterMap Path.componentOf? = (way.map Prod.fst ++ [name]).map .name → ∀ S, spot ≠ .present S := by
  have named {step : String} (inner : step ≠ "." ∧ step ≠ ".." ∧ step.utf8ByteSize ≤ nameLimit) :
      Path.componentOf? step = some (.name step) := by
    rw [Path.componentOf?, if_neg inner.1, if_neg inner.2.1]
  induction h with
  | stop => exact fun way _ same => by simp at same
  | dot directory onward ih => exact fun way whole same => ih way whole same
  | up directory onward ih =>
    intro way whole same
    cases way with
    | nil => cases (List.cons.inj same).1
    | cons first before => cases (List.cons.inj same).1
  | missing directory inner missed => exact fun _ _ _ S same => by cases same
  | kept directory inner there link keep =>
    intro way whole same
    rw [List.filterMap_cons, named inner] at same
    obtain ⟨before, -, -, rest⟩ := chain.down at? none way whole directory there same
    simp at rest
  | follow directory inner there link passes onward ih =>
    intro way whole same
    rw [List.filterMap_cons, named inner] at same
    obtain ⟨before, -, isDirectory, -⟩ := chain.down at? none way whole directory there same
    simp [FileSystem.isDirectory, link] at isDirectory
  | enter directory inner there noLink onward ih =>
    intro way whole same
    rw [List.filterMap_cons, named inner] at same
    obtain ⟨before, whole', -, rest⟩ := chain.down at? none way whole directory there same
    exact ih before whole' rest

theorem childComponents (names : ∀ piece ∈ T.map Prod.fst, IsName piece) (isName : IsName name) :
    (T.path.join name).components = .root :: (T.reverse.map Prod.fst ++ [name]).map .name := by
  have filled : T.path.text ≠ "" := by simp [Trail.path, Path.ofNames]
  have absolute : (T.path.join name).isAbsolute = true :=
    (Path.absoluteJoin filled isName).trans (Path.ofNamesAbsolute _)
  have pieces : T.path.pieces = T.reverse.map Prod.fst :=
    Path.piecesOfNames fun piece member => names piece (by simpa using member)
  have each : ∀ piece ∈ T.reverse.map Prod.fst ++ [name], IsName piece := by
    intro piece member
    rcases List.mem_append.mp member with above | last
    · exact names piece (by simpa using above)
    · exact List.mem_singleton.mp last ▸ isName
  rw [Path.components, if_pos absolute, Path.piecesJoin filled isName, pieces, Path.componentsNamed each]

theorem rootedAbsolute {rest : List Component} (same : path.components = .root :: rest) :
    path.isAbsolute = true ∧ path.pieces.filterMap Path.componentOf? = rest := by
  have noRoot : path.pieces.filterMap Path.componentOf? ≠ .root :: rest := by
    intro same
    have member : Component.root ∈ path.pieces.filterMap Path.componentOf? := by simp [same]
    obtain ⟨piece, -, is⟩ := List.mem_filterMap.mp member
    unfold Path.componentOf? at is
    split at is
    · cases is
    split at is
    · cases is
    · cases is
  unfold Path.components at same
  split at same
  · exact ⟨‹_›, (List.cons.inj same).2⟩
  split at same
  · cases (List.cons.inj same).1
  · exact (noRoot same).elim

theorem removedElsewhere (tidy : fs.Tidy) (chain : Chain fs T) (at? : fs.content? T.node = some (.directory es))
    (isName : IsName name) (none : es.lookup name = none) (removed : fs.removeFile here path = .ok fs') :
    path.same (T.path.join name) = false := by
  refine Bool.eq_false_iff.mpr fun same => ?_
  rw [Path.same, beq_iff_eq, childComponents (chain.named tidy) isName] at same
  obtain ⟨absolute, components⟩ := rootedAbsolute same
  obtain ⟨unended, name', n, D, located, -⟩ := removedEntry removed
  have own : here.join path.text = path := if_pos absolute
  have walks := (locateWalks located).2
  rw [own, stepsOf, if_neg (by simp [unended])] at walks
  exact walks.aims chain at? none T.reverse (by simp) components _ rfl

theorem removeFileOutline (same : fs.SameOutline fs') {error : IoError}
    (failed : fs.removeFile here path = .error error) : fs'.removeFile here path = .error error := by
  have isDirectory : fs'.isDirectory = fs.isDirectory := funext (isDirectoryOutline same)
  unfold removeFile at failed ⊢
  split at failed
  · rwa [if_pos ‹_›]
  rw [if_neg ‹_›, locateOutline same]
  cases located : fs.locate here true path.withoutFinalSlash with
  | error e =>
    rw [located] at failed
    exact failed
  | ok spot =>
    rw [located] at failed
    simp only [bind, Except.bind, isDirectory] at failed ⊢
    split at failed
    · exact failed
    · exact failed
    · split at failed
      · rwa [if_pos ‹_›]
      rw [if_neg ‹_›]
      split at failed
      · rwa [if_pos ‹_›]
      · cases failed

end BuildReuse.FileSystem
