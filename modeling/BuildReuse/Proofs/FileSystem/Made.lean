import BuildReuse.Proofs.FileSystem.LockFile

/-! A file system with one file more. What led somewhere leads there still, and whatever
leads elsewhere than to the new file did so before. -/
namespace BuildReuse

namespace FileSystem

theorem insertNameComm (a b : String) (names : List String) :
    insertName a (insertName b names) = insertName b (insertName a names) := by
  induction names with
  | nil => grind [insertName]
  | cons first rest ih => grind [insertName]

theorem sortNamesAppend (names : List String) (name : String) :
    sortNames (names ++ [name]) = insertName name (sortNames names) := by
  induction names with
  | nil => rfl
  | cons first rest ih =>
    have whole (names : List String) : sortNames (first :: names) = insertName first (sortNames names) := rfl
    rw [List.cons_append, whole, ih, whole, insertNameComm]

theorem filterMapInserted {β : Type} {f : String → Option β} {name : String} (dropped : f name = none)
    (names : List String) : (insertName name names).filterMap f = names.filterMap f := by
  induction names with
  | nil => simp [insertName, dropped]
  | cons first rest ih =>
    rw [insertName]
    split
    · simp [dropped]
    · simp only [List.filterMap_cons, ih]

abbrev withFile (fs : FileSystem) (directory : Nat) (name : String) (bytes : Bytes) (now : Int) : FileSystem :=
  fs.create directory name ⟨.file bytes, 0o644, now⟩

variable {fs fs' : FileSystem} {keepLink : Bool}

section

variable {d : Nat} {name : String} {es : List (String × Nat)} {bytes : Bytes} {now : Int}
  (at? : fs.content? d = some (.directory es)) (missing : es.lookup name = none)
include at? missing

theorem contentMade (k : Nat) : (fs.withFile d name bytes now).content? k =
    if k = d then some (.directory (es ++ [(name, fs.nodes.size)]))
    else if k = fs.nodes.size then some (.file bytes) else fs.content? k := by
  have kept : es.filter (fun e => e.1 != name) = es := by
    refine List.filter_eq_self.mpr fun e member => ?_
    have other := List.lookup_eq_none_iff.mp missing e member
    simpa using Ne.symm (by simpa using other : name ≠ e.1)
  rw [contentCreate at?, kept]

theorem contentNew : (fs.withFile d name bytes now).content? fs.nodes.size = some (.file bytes) := by
  have other : fs.nodes.size ≠ d := Nat.ne_of_gt (contentInside at?)
  rw [contentMade at? missing, if_neg other, if_pos rfl]

theorem entriesMade {n : Nat} {es' : List (String × Nat)}
    (there : (fs.withFile d name bytes now).content? n = some (.directory es')) :
    n = d ∧ es' = es ++ [(name, fs.nodes.size)] ∨ fs.content? n = some (.directory es') := by
  rw [contentMade at? missing] at there
  split at there
  · rename_i same
    cases there
    exact .inl ⟨same, rfl⟩
  · split at there
    · cases there
    · exact .inr there

theorem lookupMade {n : Nat} {es' : List (String × Nat)}
    (there : (fs.withFile d name bytes now).content? n = some (.directory es')) :
    ∃ old, fs.content? n = some (.directory old) ∧
      ∀ ⦃step k⦄, es'.lookup step = some k → k ≠ fs.nodes.size → old.lookup step = some k := by
  rcases entriesMade at? missing there with ⟨rfl, rfl⟩ | old
  · refine ⟨es, at?, fun step k named elsewhere => ?_⟩
    rw [List.lookup_append, Option.or_eq_some_iff] at named
    rcases named with old | ⟨-, new⟩
    · exact old
    · rw [List.lookup_cons] at new
      split at new
      · exact (elsewhere (Option.some.inj new).symm).elim
      · cases new
  · exact ⟨es', old, fun _ _ named _ => named⟩

theorem tidyMade (tidy : fs.Tidy) (isName : IsName name) :
    (fs.withFile d name bytes now).Tidy := by
  have size : (fs.withFile d name bytes now).nodes.size = fs.nodes.size + 1 := by
    simp [create, enter, update, add]
  constructor
  case named =>
    intro n es' there e member
    rcases entriesMade at? missing there with ⟨rfl, rfl⟩ | old
    · rcases List.mem_append.mp member with old | new
      · exact tidy.named at? e old
      · rw [List.mem_singleton.mp new]
        exact isName
    · exact tidy.named old e member
  case inside =>
    intro n es' there e member
    rw [size]
    rcases entriesMade at? missing there with ⟨rfl, rfl⟩ | old
    · rcases List.mem_append.mp member with old | new
      · exact Nat.lt_succ_of_lt (tidy.inside at? e old)
      · rw [List.mem_singleton.mp new]
        exact Nat.lt_succ_self _
    · exact Nat.lt_succ_of_lt (tidy.inside old e member)
  case distinct =>
    intro n es' there
    rcases entriesMade at? missing there with ⟨rfl, rfl⟩ | old
    · rw [List.map_append, List.nodup_append]
      refine ⟨tidy.distinct at?, by simp, fun key member key' new => ?_⟩
      obtain ⟨e, inside, rfl⟩ := List.mem_map.mp member
      rw [List.mem_singleton.mp new]
      have other := List.lookup_eq_none_iff.mp missing e inside
      simpa using Ne.symm (by simpa using other : name ≠ e.1)
    · exact tidy.distinct old

theorem walksMade {links : Nat} {trail T : Trail} {steps : List String} {spot : Spot}
    (h : Walks (fs.withFile d name bytes now) keepLink links trail steps spot)
    (ends : spot = .present T) (elsewhere : T.node ≠ fs.nodes.size) :
    Walks fs keepLink links trail steps spot := by
  have grown : fs.Grown (fs.withFile d name bytes now) := grownCreate at? missing nofun
  have links := grown.links
  have file : (fs.withFile d name bytes now).content? fs.nodes.size = some (.file bytes) := contentNew at? missing
  induction h with
  | stop => exact .stop
  | dot directory onward ih =>
    obtain ⟨old, directory', -⟩ := lookupMade at? missing directory
    exact .dot directory' (ih ends)
  | up directory onward ih =>
    obtain ⟨old, directory', -⟩ := lookupMade at? missing directory
    exact .up directory' (ih ends)
  | missing directory inner none => cases ends
  | kept directory inner named link keep =>
    cases ends
    obtain ⟨old, directory', named'⟩ := lookupMade at? missing directory
    exact .kept directory' inner (named' named elsewhere) ((links ..).mp link) keep
  | @follow _ _ _ _ _ _ n _ directory inner named link passes onward ih =>
    obtain ⟨old, directory', named'⟩ := lookupMade at? missing directory
    have other : n ≠ fs.nodes.size := by
      rintro rfl
      cases file.symm.trans link
    exact .follow directory' inner (named' named other) ((links ..).mp link) passes (ih ends)
  | @enter _ _ _ _ _ n _ directory inner named noLink onward ih =>
    obtain ⟨old, directory', named'⟩ := lookupMade at? missing directory
    have other : n ≠ fs.nodes.size := by
      rintro rfl
      rcases onward.atDirectory with rfl | ⟨es', inside⟩
      · cases onward
        cases ends
        exact elsewhere rfl
      · cases file.symm.trans inside
    exact .enter directory' inner (named' named other)
      (fun target link => noLink target ((links ..).mpr link)) (ih ends)

theorem walksNew (tidy : fs.Tidy) {links : Nat} {trail T : Trail} {steps : List String} {spot : Spot}
    (h : Walks (fs.withFile d name bytes now) false links trail steps spot)
    (ends : spot = .present T) (new : T.node = fs.nodes.size) :
    (∀ e ∈ trail, e.2 ≠ fs.nodes.size) → ∃ D : Trail, D.node = d ∧ Walks fs false links trail steps (.absent D name) := by
  have grown : fs.Grown (fs.withFile d name bytes now) := grownCreate at? missing nofun
  have links := grown.links
  have file : (fs.withFile d name bytes now).content? fs.nodes.size = some (.file bytes) := contentNew at? missing
  have unnamed {n es'} {step : String} (there : fs.content? n = some (.directory es'))
      (named : es'.lookup step = some fs.nodes.size) : False :=
    Nat.lt_irrefl _ (tidy.inside there _ (lookupMem named))
  induction h with
  | stop =>
    intro old
    cases ends
    cases T with
    | nil =>
      have empty : 0 = fs.nodes.size := new
      exact absurd (contentInside at?) (empty ▸ Nat.not_lt_zero d)
    | cons e rest => exact absurd new (old e List.mem_cons_self)
  | dot directory onward ih =>
    intro old
    obtain ⟨before, directory', -⟩ := lookupMade at? missing directory
    obtain ⟨D, same, walks⟩ := ih ends old
    exact ⟨D, same, .dot directory' walks⟩
  | up directory onward ih =>
    intro old
    obtain ⟨before, directory', -⟩ := lookupMade at? missing directory
    obtain ⟨D, same, walks⟩ := ih ends fun e member => old e (List.mem_of_mem_tail member)
    exact ⟨D, same, .up directory' walks⟩
  | missing directory inner none => cases ends
  | kept directory inner named link keep => cases keep
  | @follow _ _ _ _ _ _ n _ directory inner named link passes onward ih =>
    intro old
    obtain ⟨before, directory', named'⟩ := lookupMade at? missing directory
    have other : n ≠ fs.nodes.size := by
      rintro rfl
      cases file.symm.trans link
    obtain ⟨D, same, walks⟩ := ih ends (by
      split
      · exact fun _ none => nomatch none
      · exact old)
    exact ⟨D, same, .follow directory' inner (named' named other) ((links ..).mp link) passes walks⟩
  | @enter _ step rest _ es' n trail directory inner named noLink onward ih =>
    intro old
    by_cases other : n = fs.nodes.size
    · subst other
      have last : rest = [] := by
        rcases onward.atDirectory with none | ⟨_, inside⟩
        · exact none
        · cases file.symm.trans inside
      subst last
      rcases entriesMade at? missing directory with ⟨same, rfl⟩ | before
      · rw [List.lookup_append, Option.or_eq_some_iff] at named
        rcases named with before | ⟨none, now⟩
        · exact (unnamed at? before).elim
        · have isName : step = name := by
            by_contra differ
            rw [List.lookup_cons, beq_eq_false_iff_ne.mpr differ] at now
            cases now
          subst isName
          exact ⟨trail, same, .missing (same ▸ at?) inner none⟩
      · exact (unnamed before named).elim
    · obtain ⟨before, directory', named'⟩ := lookupMade at? missing directory
      obtain ⟨D, same, walks⟩ := ih ends (List.forall_mem_cons.mpr ⟨other, old⟩)
      exact ⟨D, same, .enter directory' inner (named' named other)
        (fun target link => noLink target ((links ..).mpr link)) walks⟩

theorem findMade {here path : Path} {T : Trail}
    (found : (fs.withFile d name bytes now).find here path = .ok T)
    (elsewhere : T.node ≠ fs.nodes.size) : fs.find here path = .ok T := by
  have located := findLocate.mp found
  exact findLocate.mpr (locateOf located (walksMade at? missing (locateWalks located).2 rfl elsewhere))

theorem findBeside {here path : Path}
    (elsewhere : ∀ T, (fs.withFile d name bytes now).find here path = .ok T → T.node ≠ fs.nodes.size)
    (T : Trail) :
    (fs.withFile d name bytes now).find here path = .ok T ↔ fs.find here path = .ok T := by
  have grown : fs.Grown (fs.withFile d name bytes now) := grownCreate at? missing nofun
  exact ⟨fun after => findMade at? missing after (elsewhere T after), findGrown grown⟩

theorem findNew {here root : Path} {T trail : Trail} (found : fs.find here root = .ok T) (inside : T.node = d)
    (isName : IsName name) (there : (fs.withFile d name bytes now).find here (root.join name) = .ok trail) :
    trail.node = fs.nodes.size := by
  have grown : fs.Grown (fs.withFile d name bytes now) := grownCreate at? missing nofun
  obtain ⟨k, last⟩ := locateChild (findGrown grown found) isName (findLocate.mp there)
  have whole {es' n} (directory : (fs.withFile d name bytes now).content? T.node = some (.directory es'))
      (named : es'.lookup name = some n) : n = fs.nodes.size := by
    rw [contentMade at? missing, if_pos inside] at directory
    cases directory
    rw [List.lookup_append, missing] at named
    simpa using named.symm
  cases last with
  | dot directory onward => exact (isName.notHere rfl).elim
  | up directory onward => exact (isName.notUp rfl).elim
  | kept directory inner named link keep => cases keep
  | follow directory inner named link passes onward =>
    rw [whole directory named, contentNew at? missing] at link
    cases link
  | enter directory inner named noLink onward =>
    cases onward
    exact whole directory named

theorem readMade {n : Nat} (elsewhere : n ≠ fs.nodes.size) :
    (fs.withFile d name bytes now).readNode n = fs.readNode n := by
  rw [readNode, readNode, contentMade at? missing]
  by_cases same : n = d
  · rw [if_pos same, same, at?]
  · rw [if_neg same, if_neg elsewhere]

theorem isDirectoryMade (n : Nat) :
    (fs.withFile d name bytes now).isDirectory n = fs.isDirectory n := by
  rw [isDirectory, isDirectory, contentMade at? missing]
  by_cases same : n = d
  · rw [if_pos same, same, at?]
  · rw [if_neg same]
    by_cases new : n = fs.nodes.size
    · simp [new, content?]
    · rw [if_neg new]

theorem isFileMade {n : Nat} (elsewhere : n ≠ fs.nodes.size) :
    (fs.withFile d name bytes now).isFile n = fs.isFile n := by
  rw [isFile, isFile, contentMade at? missing]
  by_cases same : n = d
  · rw [if_pos same, same, at?]
  · rw [if_neg same, if_neg elsewhere]

theorem regularFilesMade {here root : Path} {T : Trail} (tidy : fs.Tidy) (found : fs.find here root = .ok T) :
    (fs.withFile d name bytes now).regularFiles here root = fs.regularFiles here root ∨
      T.node = d ∧ ∃ names, fs.regularFiles here root = .ok names ∧
        (fs.withFile d name bytes now).regularFiles here root = .ok (insertName name names) := by
  have grown : fs.Grown (fs.withFile d name bytes now) := grownCreate at? missing nofun
  unfold regularFiles
  rw [found, findGrown grown found]
  simp only [bind, Except.bind, isDirectoryMade at? missing]
  by_cases directory : fs.isDirectory T.node = true
  · rw [if_pos directory, if_pos directory]
    obtain ⟨es', there⟩ := isDirectoryIff.mp directory
    have listed : es'.filter (fun e => (fs.withFile d name bytes now).isFile e.2) =
        es'.filter fun e => fs.isFile e.2 :=
      List.filter_congr fun e member => isFileMade at? missing (Nat.ne_of_lt (tidy.inside there e member))
    by_cases same : T.node = d
    · cases at?.symm.trans (same ▸ there)
      have here : (fs.withFile d name bytes now).isFile fs.nodes.size = true :=
        isFileIff.mpr ⟨bytes, contentNew at? missing⟩
      refine .inr ⟨same, _, rfl, ?_⟩
      have whole : (fs.withFile d name bytes now).entries T.node = es ++ [(name, fs.nodes.size)] := by
        rw [entries, contentMade at? missing, if_pos same]
      have before : fs.entries T.node = es := by rw [entries, there]
      rw [whole, before, List.filter_append, List.map_append, listed]
      simp [here, sortNamesAppend]
    · have elsewhere : T.node ≠ fs.nodes.size := Nat.ne_of_lt (contentInside there)
      have whole : (fs.withFile d name bytes now).entries T.node = es' := by
        rw [entries, contentMade at? missing, if_neg same, if_neg elsewhere, there]
      have before : fs.entries T.node = es' := by rw [entries, there]
      rw [whole, before, listed]
      exact .inl rfl
  · rw [if_neg directory, if_neg directory]
    exact .inl rfl

end

theorem modifiedMade (fs : FileSystem) (d : Nat) (name : String) (node : Node) {n : Nat}
    (elsewhere : n ≠ fs.nodes.size) :
    ((fs.create d name node).nodes[n]?).map Node.modified = (fs.nodes[n]?).map Node.modified := by
  unfold create enter update add
  rw [Array.getElem?_modify, Array.getElem?_push, if_neg elsewhere]
  split
  · rw [Option.map_map]
    rfl
  · rfl

namespace Touched

variable {place : Path}

theorem tidy (h : Touched place fs fs') (tidy : fs.Tidy) : fs'.Tidy := by
  cases h with
  | same => exact tidy
  | @written n leads bytes now =>
    have size : (fs.writeNode n bytes now).nodes.size = fs.nodes.size := by simp [writeNode, update]
    have directory {k es} (there : (fs.writeNode n bytes now).content? k = some (.directory es)) :
        fs.content? k = some (.directory es) := by
      rw [contentWriteNode] at there
      split at there
      · cases there
      · exact there
    constructor
    case named => exact fun k es there => tidy.named (directory there)
    case inside => exact fun k es there => size ▸ tidy.inside (directory there)
    case distinct => exact fun k es there => tidy.distinct (directory there)
  | made absent bytes now =>
    obtain ⟨es, at?, missing⟩ := walkAbsent _ _ _ absent
    exact tidyMade at? missing tidy ((walksOf _ _ _ absent).missedName (fun _ => stepsOfWhole) rfl)

end Touched
end FileSystem
end BuildReuse
