import BuildReuse.Proofs.FileSystem.Grown

/-! Where paths lead does not depend on what the files hold, so that a write to one
file can be told from all that is found on the way to another. -/
namespace BuildReuse

def Content.outline : Content → Content
  | .file _ => .file []
  | other => other

namespace FileSystem

def SameOutline (fs fs' : FileSystem) : Prop :=
  ∀ n, (fs.content? n).map Content.outline = (fs'.content? n).map Content.outline

variable {fs fs' : FileSystem}

theorem SameOutline.symm (same : fs.SameOutline fs') : fs'.SameOutline fs := fun n => (same n).symm

theorem SameOutline.trans {fs'' : FileSystem} (same : fs.SameOutline fs') (same' : fs'.SameOutline fs'') :
    fs.SameOutline fs'' := fun n => (same n).trans (same' n)

theorem outlineCases (same : fs.SameOutline fs') (n : Nat) :
    fs'.content? n = fs.content? n ∨
      ∃ bytes bytes', fs.content? n = some (.file bytes) ∧ fs'.content? n = some (.file bytes') := by
  have here := same n
  cases at? : fs.content? n with
  | none =>
    rw [at?] at here
    left
    simpa using here.symm
  | some c =>
    cases at'? : fs'.content? n with
    | none => simp [at?, at'?] at here
    | some c' =>
      rw [at?, at'?, Option.map_some, Option.map_some, Option.some.injEq] at here
      cases c <;> cases c' <;> simp_all [Content.outline]

theorem outlineWriteNode (fs : FileSystem) (n : Nat) (bytes : Bytes) (now : Int) :
    fs.SameOutline (fs.writeNode n bytes now) := by
  intro k
  rw [contentWriteNode]
  split
  · rename_i hit
    obtain ⟨rfl, file⟩ := hit
    obtain ⟨old, at?⟩ := isFileIff.mp file
    simp [at?, Content.outline]
  · rfl

section

variable {keepLink : Bool} (same : fs.SameOutline fs')
include same

theorem isFileOutline (n : Nat) : fs'.isFile n = fs.isFile n := by
  rcases outlineCases same n with equal | ⟨bytes, bytes', at?, at'?⟩
  · rw [isFile, equal, isFile]
  · rw [isFile, at'?, isFile, at?]

theorem isDirectoryOutline (n : Nat) : fs'.isDirectory n = fs.isDirectory n := by
  rcases outlineCases same n with equal | ⟨bytes, bytes', at?, at'?⟩
  · rw [isDirectory, equal, isDirectory]
  · rw [isDirectory, at'?, isDirectory, at?]

theorem entriesOutline (n : Nat) : fs'.entries n = fs.entries n := by
  rcases outlineCases same n with equal | ⟨bytes, bytes', at?, at'?⟩
  · rw [entries, equal, entries]
  · rw [entries, at'?, entries, at?]

theorem walkViaOutline {onLink onLink' : Trail → String → List String → Except HostFault Spot}
    (links : ∀ trail target rest, onLink' trail target rest = onLink trail target rest) :
    ∀ steps trail, walkVia fs' keepLink onLink' trail steps = walkVia fs keepLink onLink trail steps := by
  intro steps
  induction steps with
  | nil => exact fun trail => rfl
  | cons step rest ih =>
    intro trail
    rw [walkVia, walkVia]
    rcases outlineCases same trail.node with here | ⟨bytes, bytes', at?, at'?⟩
    · rw [here]
      split
      · rename_i es directory
        split
        · exact ih trail
        split
        · exact ih trail.tail
        split
        · rfl
        split
        · rfl
        · rename_i n named
          rcases outlineCases same n with there | ⟨bytes, bytes', at?, at'?⟩
          · rw [there]
            split
            · split
              · rfl
              · exact links _ _ _
            · exact ih _
          · rw [at?, at'?]
            exact ih _
      · rfl
    · rw [at?, at'?]

theorem walkOutline (links : Nat) : ∀ trail steps,
    fs'.walk keepLink links trail steps = fs.walk keepLink links trail steps := by
  induction links with
  | zero => exact fun trail steps => walkViaOutline same (fun _ _ _ => rfl) steps trail
  | succ links ih => exact fun trail steps => walkViaOutline same (fun _ _ _ => ih _ _) steps trail

theorem locateOutline (here path : Path) :
    fs'.locate here keepLink path = fs.locate here keepLink path := by
  rw [locate, walkOutline same, locate]

theorem findOutline (here path : Path) : fs'.find here path = fs.find here path := by
  rw [find, locateOutline same, find]

theorem canonicalizeOutline (here path : Path) : fs'.canonicalize here path = fs.canonicalize here path := by
  rw [canonicalize, findOutline same, canonicalize]

theorem leadsOutline (place : Path) : fs'.leads place = fs.leads place := by
  rw [leads, walkOutline same, leads]

theorem regularFilesOutline (here path : Path) :
    fs'.regularFiles here path = fs.regularFiles here path := by
  have file : fs'.isFile = fs.isFile := funext (isFileOutline same)
  simp only [regularFiles, findOutline same, isDirectoryOutline same, entriesOutline same, file]

end

theorem nodeWriteNode (fs : FileSystem) {n k : Nat} (other : k ≠ n) (bytes : Bytes) (now : Int) :
    (fs.writeNode n bytes now).nodes[k]? = fs.nodes[k]? := by
  unfold writeNode update
  rw [Array.getElem?_modify, if_neg (Ne.symm other)]

theorem contentOther (fs : FileSystem) {n k : Nat} (other : k ≠ n) (bytes : Bytes) (now : Int) :
    (fs.writeNode n bytes now).content? k = fs.content? k := by
  rw [content?, nodeWriteNode fs other, content?]

theorem updateComm (fs : FileSystem) (n k : Nat) {f g : Node → Node} (swap : ∀ node, f (g node) = g (f node)) :
    (fs.update n f).update k g = (fs.update k g).update n f := by
  unfold update
  congr 1
  refine Array.ext_getElem? fun i => ?_
  simp only [Array.getElem?_modify]
  split
  · split
    · cases fs.nodes[i]? <;> simp [swap]
    · rfl
  · rfl

theorem leaveWriteNode (fs : FileSystem) (n d : Nat) (name : String) (bytes : Bytes) (now : Int) :
    (fs.writeNode n bytes now).leave d name = (fs.leave d name).writeNode n bytes now := by
  refine updateComm fs n d fun node => ?_
  cases shape : node.content <;> simp [shape]

theorem removeFileWriteNode (fs : FileSystem) (n : Nat) (bytes : Bytes) (now : Int) (here path : Path) :
    (fs.writeNode n bytes now).removeFile here path =
      (fs.removeFile here path).map fun fs => fs.writeNode n bytes now := by
  have same := outlineWriteNode fs n bytes now
  unfold removeFile
  split
  · rfl
  rw [locateOutline same]
  cases fs.locate here true path.withoutFinalSlash with
  | error e => rfl
  | ok spot =>
    cases spot with
    | absent d name => rfl
    | present trail =>
      cases trail with
      | nil => rfl
      | cons last d =>
        simp only [bind, Except.bind, isDirectoryOutline same, leaveWriteNode]
        split
        · rfl
        · split <;> rfl

theorem removeTreeWriteNode (fs : FileSystem) (n : Nat) (bytes : Bytes) (now : Int) (here path : Path) :
    (fs.writeNode n bytes now).removeTree here path =
      (fs.removeTree here path).map fun fs => fs.writeNode n bytes now := by
  have same := outlineWriteNode fs n bytes now
  unfold removeTree findKeepingLink
  rw [locateOutline same]
  cases fs.locate here true path with
  | error e => rfl
  | ok spot =>
    cases spot with
    | absent d name => rfl
    | present trail =>
      cases trail with
      | nil => rfl
      | cons last d =>
        simp only [bind, Except.bind, leaveWriteNode]
        rcases outlineCases same last.2 with there | ⟨old, new, before, after⟩
        · rw [there]
          split <;> rfl
        · rw [before, after]
          rfl

theorem directoriesNamedOutline (same : fs.SameOutline fs') (here path : Path) (name : String) :
    fs'.directoriesNamed here path name = fs.directoriesNamed here path name := by
  have directory : fs'.isDirectory = fs.isDirectory := funext (isDirectoryOutline same)
  simp only [directoriesNamed, findOutline same, directory, entriesOutline same]

theorem openFileAt {here path : Path} {now : Int} {n k : Nat}
    (leads : fs.leads (here.join path.text) = some n) (h : fs.openFile here path now = .ok (fs', k)) :
    fs' = fs ∧ k = n := by
  unfold openFile at h
  split at h
  · cases located : fs.locate here true path.withoutFinalSlash <;> simp [located, bind, Except.bind] at h
  cases located : fs.locate here false path with
  | error e => simp [located, bind, Except.bind] at h
  | ok spot =>
    simp only [located, bind, Except.bind] at h
    have found := locateWalk located
    rw [FileSystem.leads, found] at leads
    cases spot with
    | absent d name => cases leads
    | present trail =>
      cases leads
      simp only at h
      split at h
      · cases h
      · cases h
        exact ⟨rfl, rfl⟩

end FileSystem
end BuildReuse
