import BuildReuse.FileSystem.Files
import Mathlib.Tactic.Common

/-! File systems that only grow: files are written and made, and nothing is taken
away or turned into something else. A path that leads to a node goes on to lead
there. -/
namespace BuildReuse

inductive Content.Kept : Content → Content → Prop where
  | file (bytes bytes' : Bytes) : Kept (.file bytes) (.file bytes')
  | directory {es es' : List (String × Nat)}
      (names : ∀ ⦃name n⦄, es.lookup name = some n → es'.lookup name = some n) :
      Kept (.directory es) (.directory es')
  | link (target : String) : Kept (.link target) (.link target)
  | pipe : Kept .pipe .pipe

theorem Content.Kept.refl (c : Content) : c.Kept c := by
  cases c with
  | file bytes => exact .file bytes bytes
  | directory es => exact .directory fun _ _ h => h
  | link target => exact .link target
  | pipe => exact .pipe

namespace FileSystem

structure Grown (fs fs' : FileSystem) : Prop where
  kept : ∀ ⦃n c⦄, fs.content? n = some c → ∃ c', fs'.content? n = some c' ∧ c.Kept c'
  noLinks : ∀ ⦃n target⦄, fs.content? n = none → fs'.content? n ≠ some (.link target)

namespace Grown

variable {fs fs' fs'' : FileSystem}

theorem refl (fs : FileSystem) : fs.Grown fs :=
  ⟨fun _ c at? => ⟨c, at?, .refl c⟩, fun _ _ absent => by simp [absent]⟩

theorem links (h : fs.Grown fs') (n : Nat) (target : String) :
    fs'.content? n = some (.link target) ↔ fs.content? n = some (.link target) := by
  cases at? : fs.content? n with
  | none => simp [h.noLinks at?]
  | some c =>
    obtain ⟨c', at', kept⟩ := h.kept at?
    rw [at']
    cases kept <;> simp

theorem directory (h : fs.Grown fs') {n : Nat} {es} (at? : fs.content? n = some (.directory es)) :
    ∃ es', fs'.content? n = some (.directory es') ∧
      ∀ ⦃name m⦄, es.lookup name = some m → es'.lookup name = some m := by
  obtain ⟨_, at', kept⟩ := h.kept at?
  cases kept with
  | directory names => exact ⟨_, at', names⟩

end Grown

def Reaches (fs : FileSystem) : Spot → Trail → Prop
  | .present trail, t => t = trail
  | .absent d name, t => ∃ n es, fs.content? d.node = some (.directory es) ∧
      es.lookup name = some n ∧ (∀ target, fs.content? n ≠ some (.link target)) ∧ t = (name, n) :: d

variable {fs fs' : FileSystem} {keepLink : Bool}
  {onLink onLink' : Trail → String → List String → Except HostFault Spot}

theorem walkViaGrown (grown : fs.Grown fs') {spot : Spot} {t : Trail} (ends : fs'.Reaches spot t)
    (links : ∀ trail target rest, onLink trail target rest = .ok spot →
      onLink' trail target rest = .ok (.present t)) :
    ∀ steps trail, walkVia fs keepLink onLink trail steps = .ok spot →
      walkVia fs' keepLink onLink' trail steps = .ok (.present t) := by
  intro steps
  induction steps with
  | nil =>
    intro trail h
    simp only [walkVia, Except.ok.injEq] at h
    subst h
    rw [walkVia, show t = trail from ends]
  | cons step rest ih =>
    intro trail h
    rw [walkVia] at h
    split at h
    · rename_i es here
      obtain ⟨es', here', names⟩ := grown.directory here
      rw [walkVia, here']
      simp only
      split at h
      · rename_i dot
        rw [if_pos dot]
        exact ih trail h
      rename_i dot
      rw [if_neg dot]
      split at h
      · rename_i up
        rw [if_pos up]
        exact ih trail.tail h
      rename_i up
      rw [if_neg up]
      split at h
      · cases h
      rename_i short
      rw [if_neg short]
      split at h
      · split at h
        · rename_i last
          cases h
          obtain ⟨n, es'', at?, named, noLink, rfl⟩ := ends
          rw [here'] at at?
          cases at?
          rw [named]
          obtain rfl : rest = [] := List.isEmpty_iff.mp last
          simp only [walkVia]
        · cases h
      · rename_i n named
        rw [names named]
        simp only
        split at h
        · rename_i target link
          rw [(grown.links n target).mpr link]
          simp only
          split at h
          · rename_i last
            rw [if_pos last]
            cases h
            rw [show t = (step, n) :: trail from ends]
          · rename_i inner
            rw [if_neg inner]
            exact links _ _ _ h
        · rename_i noLink
          split
          · rename_i target link
            exact (noLink target ((grown.links n target).mp link)).elim
          · exact ih _ h
    · cases h

theorem walkGrown (grown : fs.Grown fs') {spot : Spot} {t : Trail} (ends : fs'.Reaches spot t)
    (links : Nat) : ∀ trail steps, walk fs keepLink links trail steps = .ok spot →
      walk fs' keepLink links trail steps = .ok (.present t) := by
  induction links with
  | zero => exact fun trail steps => walkViaGrown grown ends (fun _ _ _ h => by cases h) steps trail
  | succ links ih =>
    exact fun trail steps => walkViaGrown grown ends (fun _ _ _ => ih _ _) steps trail

theorem walkViaAbsent {d : Trail} {name : String}
    (links : ∀ trail target rest, onLink trail target rest = .ok (.absent d name) →
      ∃ es, fs.content? d.node = some (.directory es) ∧ es.lookup name = none) :
    ∀ steps trail, walkVia fs keepLink onLink trail steps = .ok (.absent d name) →
      ∃ es, fs.content? d.node = some (.directory es) ∧ es.lookup name = none := by
  intro steps
  induction steps with
  | nil => exact fun trail h => by cases h
  | cons step rest ih =>
    intro trail h
    rw [walkVia] at h
    split at h
    · rename_i es here
      split at h
      · exact ih _ h
      split at h
      · exact ih _ h
      split at h
      · cases h
      split at h
      · rename_i missing
        split at h
        · cases h
          exact ⟨es, here, missing⟩
        · cases h
      · split at h
        · split at h
          · cases h
          · exact links _ _ _ h
        · exact ih _ h
    · cases h

theorem walkAbsent {d : Trail} {name : String} (links : Nat) : ∀ trail steps,
    walk fs keepLink links trail steps = .ok (.absent d name) →
      ∃ es, fs.content? d.node = some (.directory es) ∧ es.lookup name = none := by
  induction links with
  | zero => exact fun trail steps => walkViaAbsent (fun _ _ _ h => by cases h) steps trail
  | succ links ih => exact fun trail steps => walkViaAbsent (fun _ _ _ => ih _ _) steps trail

theorem locateWalk {here path : Path} {spot : Spot} (h : fs.locate here keepLink path = .ok spot) :
    fs.walk keepLink linkLimit [] (stepsOf (here.join path.text)) = .ok spot := by
  unfold locate at h
  split at h
  · cases h
  split at h
  · cases h
  split at h
  · cases h
  generalize fs.walk keepLink linkLimit [] (stepsOf (here.join path.text)) = found at h ⊢
  cases found with
  | error e => cases h
  | ok s =>
    cases h
    rfl

theorem contentUpdate (fs : FileSystem) (n k : Nat) (f : Node → Node) :
    (fs.update n f).content? k =
      if n = k then (fs.nodes[k]?).map fun node => (f node).content else fs.content? k := by
  unfold content? update
  rw [Array.getElem?_modify]
  split <;> simp [Function.comp_def]

theorem contentAdd (fs : FileSystem) (node : Node) (k : Nat) :
    (fs.add node).content? k = if k = fs.nodes.size then some node.content else fs.content? k := by
  unfold content? add
  rw [Array.getElem?_push]
  split <;> rfl

theorem contentCreate {directory : Nat} {es : List (String × Nat)}
    (here : fs.content? directory = some (.directory es)) (name : String) (node : Node) (k : Nat) :
    (fs.create directory name node).content? k =
      if k = directory then
        some (.directory (es.filter (fun e => e.1 != name) ++ [(name, fs.nodes.size)]))
      else if k = fs.nodes.size then some node.content else fs.content? k := by
  have inside : directory ≠ fs.nodes.size := by
    rintro rfl
    simp [content?] at here
  unfold create enter
  rw [contentUpdate]
  by_cases same : k = directory
  · subst same
    have added : (fs.add node).content? k = some (.directory es) := by
      rw [contentAdd, if_neg inside, here]
    unfold content? at added
    cases at? : (fs.add node).nodes[k]? with
    | none => simp [at?] at added
    | some d =>
      simp only [at?, Option.map_some, Option.some.injEq] at added
      simp [added]
  · rw [if_neg (Ne.symm same), if_neg same, contentAdd]

theorem lookupFilter {es : List (String × Nat)} {name other : String} (differ : other ≠ name) :
    (es.filter fun e => e.1 != name).lookup other = es.lookup other := by
  induction es with
  | nil => rfl
  | cons e es ih =>
    obtain ⟨key, n⟩ := e
    by_cases hit : key = name
    · subst hit
      have past : (other == key) = false := beq_eq_false_iff_ne.mpr differ
      simpa [List.lookup_cons, past] using ih
    · simp only [List.filter_cons, bne_iff_ne, ne_eq, hit, not_false_eq_true, if_true, List.lookup_cons, ih]

theorem lookupFiltered (es : List (String × Nat)) (name : String) :
    (es.filter fun e => e.1 != name).lookup name = none := by
  induction es with
  | nil => rfl
  | cons e es ih =>
    obtain ⟨key, n⟩ := e
    by_cases hit : key = name
    · simpa only [List.filter_cons, hit, bne_self_eq_false, Bool.false_eq_true, if_false] using ih
    · have past : (name == key) = false := beq_eq_false_iff_ne.mpr (Ne.symm hit)
      simpa only [List.filter_cons, bne_iff_ne, ne_eq, hit, not_false_eq_true, if_true,
        List.lookup_cons, past] using ih

theorem lookupEntered (es : List (String × Nat)) (name other : String) (n : Nat) :
    (es.filter (fun e => e.1 != name) ++ [(name, n)]).lookup other =
      if other = name then some n else es.lookup other := by
  rw [List.lookup_append]
  by_cases same : other = name
  · subst same
    simp [lookupFiltered]
  · have past : (other == name) = false := beq_eq_false_iff_ne.mpr same
    simp [lookupFilter same, same, List.lookup_cons, past]

theorem contentInside {n : Nat} {c : Content} (at? : fs.content? n = some c) : n < fs.nodes.size := by
  by_contra outside
  simp [content?, Array.getElem?_eq_none (Nat.le_of_not_lt outside)] at at?

theorem isFileIff {n : Nat} : fs.isFile n = true ↔ ∃ bytes, fs.content? n = some (.file bytes) := by
  unfold isFile
  split <;> simp_all

theorem isDirectoryIff {n : Nat} : fs.isDirectory n = true ↔ ∃ es, fs.content? n = some (.directory es) := by
  unfold isDirectory
  split <;> simp_all

theorem grownCreate {directory : Nat} {es : List (String × Nat)} {name : String} {node : Node}
    (here : fs.content? directory = some (.directory es)) (missing : es.lookup name = none)
    (noLink : ∀ target, node.content ≠ .link target) : fs.Grown (fs.create directory name node) := by
  have now := contentCreate here name node
  constructor
  case kept =>
    intro n c at?
    rw [now]
    by_cases same : n = directory
    · subst same
      rw [here] at at?
      cases at?
      refine ⟨_, if_pos rfl, .directory fun other m old => ?_⟩
      have differ : other ≠ name := by
        rintro rfl
        simp [missing] at old
      rw [lookupEntered, if_neg differ, old]
    · have inside : n ≠ fs.nodes.size := Nat.ne_of_lt (contentInside at?)
      exact ⟨c, by rw [if_neg same, if_neg inside, at?], .refl c⟩
  case noLinks =>
    intro n target absent
    rw [now]
    split
    · simp
    · split
      · simpa using noLink target
      · simp [absent]

theorem contentWriteNode (fs : FileSystem) (n k : Nat) (bytes : Bytes) (now : Int) :
    (fs.writeNode n bytes now).content? k =
      if k = n ∧ fs.isFile n then some (.file bytes) else fs.content? k := by
  unfold writeNode
  rw [contentUpdate]
  by_cases same : k = n
  · subst same
    unfold isFile content?
    cases fs.nodes[k]? with
    | none => simp
    | some node => cases shape : node.content <;> simp [shape]
  · simp [same, Ne.symm same]

theorem grownWriteNode (fs : FileSystem) (n : Nat) (bytes : Bytes) (now : Int) :
    fs.Grown (fs.writeNode n bytes now) := by
  constructor
  case kept =>
    intro k c at?
    rw [contentWriteNode]
    by_cases hit : k = n ∧ fs.isFile n
    · obtain ⟨rfl, file⟩ := hit
      obtain ⟨old, file'⟩ := isFileIff.mp file
      cases at?.symm.trans file'
      exact ⟨_, if_pos ⟨rfl, file⟩, .file old bytes⟩
    · exact ⟨c, by rw [if_neg hit, at?], .refl c⟩
  case noLinks =>
    intro k target absent
    rw [contentWriteNode]
    split
    · simp
    · simp [absent]

def leads (fs : FileSystem) (place : Path) : Option Nat :=
  match fs.walk false linkLimit [] (stepsOf place) with
  | .ok (.present trail) => some trail.node
  | _ => none

theorem leadsOf {place : Path} {trail : Trail}
    (h : fs.walk false linkLimit [] (stepsOf place) = .ok (.present trail)) :
    fs.leads place = some trail.node := by
  rw [leads, h]

theorem leadsGrown (grown : fs.Grown fs') {place : Path} {n : Nat} (h : fs.leads place = some n) :
    fs'.leads place = some n := by
  unfold leads at h
  split at h
  · rename_i trail found
    cases h
    exact leadsOf (walkGrown grown (show fs'.Reaches (.present trail) trail from rfl) _ _ _ found)
  · cases h

theorem madeLeads {place : Path} {d : Trail} {name : String}
    (absent : fs.walk false linkLimit [] (stepsOf place) = .ok (.absent d name)) (bytes : Bytes) (now : Int) :
    fs.Grown (fs.create d.node name ⟨.file bytes, 0o644, now⟩) ∧
      (fs.create d.node name ⟨.file bytes, 0o644, now⟩).leads place = some fs.nodes.size := by
  obtain ⟨es, at?, missing⟩ := walkAbsent _ _ _ absent
  have now' := contentCreate at? name ⟨.file bytes, 0o644, now⟩
  have grown : fs.Grown (fs.create d.node name ⟨.file bytes, 0o644, now⟩) := grownCreate at? missing nofun
  have inside : fs.nodes.size ≠ d.node := Nat.ne_of_gt (contentInside at?)
  have ends : (fs.create d.node name ⟨.file bytes, 0o644, now⟩).Reaches (.absent d name)
      ((name, fs.nodes.size) :: d) := by
    refine ⟨fs.nodes.size, _, by rw [now', if_pos rfl], ?_, fun target => ?_, rfl⟩
    · rw [lookupEntered, if_pos rfl]
    · rw [now', if_neg inside, if_pos rfl]
      simp
  exact ⟨grown, leadsOf (walkGrown grown ends _ _ _ absent)⟩

theorem openFileLeads {here path : Path} {now : Int} {n : Nat}
    (h : fs.openFile here path now = .ok (fs', n)) :
    fs.Grown fs' ∧ fs'.leads (here.join path.text) = some n := by
  unfold openFile at h
  split at h
  · cases located : fs.locate here true path.withoutFinalSlash <;> simp [located, bind, Except.bind] at h
  cases located : fs.locate here false path with
  | error e => simp [located, bind, Except.bind] at h
  | ok spot =>
    simp only [located, bind, Except.bind] at h
    have found := locateWalk located
    cases spot with
    | present trail =>
      simp only at h
      split at h
      · cases h
      · cases h
        exact ⟨.refl fs, leadsOf found⟩
    | absent d name =>
      simp only [Except.ok.injEq, Prod.mk.injEq] at h
      obtain ⟨rfl, rfl⟩ := h
      exact madeLeads found [] now

end FileSystem
end BuildReuse
