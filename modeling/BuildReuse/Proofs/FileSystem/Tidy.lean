import BuildReuse.Proofs.FileSystem.Walks

/-! Directories in good order, and what it means to take entries away from one of them. -/
namespace BuildReuse.FileSystem

structure Tidy (fs : FileSystem) : Prop where
  named : ∀ ⦃n es⦄, fs.content? n = some (.directory es) → ∀ e ∈ es, IsName e.1
  inside : ∀ ⦃n es⦄, fs.content? n = some (.directory es) → ∀ e ∈ es, e.2 < fs.nodes.size
  distinct : ∀ ⦃n es⦄, fs.content? n = some (.directory es) → (es.map Prod.fst).Nodup

def TidyContent (size : Nat) : Content → Prop
  | .directory es => (∀ e ∈ es, IsName e.1 ∧ e.2 < size) ∧ (es.map Prod.fst).Nodup
  | _ => True

instance (size : Nat) (c : Content) : Decidable (TidyContent size c) := by
  unfold TidyContent
  split <;> infer_instance

theorem tidyOf {fs : FileSystem} (each : ∀ node ∈ fs.nodes.toList, TidyContent fs.nodes.size node.content) :
    fs.Tidy := by
  have entries {n es} (at? : fs.content? n = some (.directory es)) :
      (∀ e ∈ es, IsName e.1 ∧ e.2 < fs.nodes.size) ∧ (es.map Prod.fst).Nodup := by
    unfold content? at at?
    obtain ⟨node, there, content⟩ := Option.map_eq_some_iff.mp at?
    have here := each node (by simpa using Array.mem_of_getElem? there)
    rw [content] at here
    exact here
  constructor
  case named => exact fun n es at? e member => ((entries at?).1 e member).1
  case inside => exact fun n es at? e member => ((entries at?).1 e member).2
  case distinct => exact fun n es at? => (entries at?).2

variable {fs fs' : FileSystem} {here root path : Path} {T : Trail} {es : List (String × Nat)} {e : String × Nat}

theorem lookupMem {name : String} {n : Nat} (found : es.lookup name = some n) : (name, n) ∈ es := by
  induction es with
  | nil => cases found
  | cons first es ih =>
    obtain ⟨key, k⟩ := first
    rw [List.lookup_cons] at found
    split at found
    · rename_i same
      cases found
      rw [beq_iff_eq.mp same]
      exact List.mem_cons_self
    · exact List.mem_cons_of_mem _ (ih found)

theorem lookupOfMem (distinct : (es.map Prod.fst).Nodup) (member : e ∈ es) : es.lookup e.1 = some e.2 := by
  induction es with
  | nil => cases member
  | cons first es ih =>
    rw [List.map_cons, List.nodup_cons] at distinct
    rw [List.lookup_cons]
    rcases List.mem_cons.mp member with rfl | later
    · simp
    · have other : (e.1 == first.1) = false := by
        refine beq_eq_false_iff_ne.mpr fun same => distinct.1 ?_
        exact same ▸ List.mem_map_of_mem later
      rw [other]
      exact ih distinct.2 later

theorem sameEntry {e' : String × Nat} (distinct : (es.map Prod.fst).Nodup) (member : e ∈ es) (member' : e' ∈ es)
    (same : e'.1 = e.1) : e' = e := by
  have there := lookupOfMem distinct member'
  rw [same, lookupOfMem distinct member] at there
  exact Prod.ext same (Option.some.inj there).symm

theorem Chain.named (tidy : fs.Tidy) (chain : Chain fs T) : ∀ name ∈ T.map Prod.fst, IsName name := by
  induction chain with
  | root => simp
  | entry above directory named ih =>
    intro name member
    rcases List.mem_cons.mp member with rfl | later
    · exact tidy.named directory _ (lookupMem named)
    · exact ih name later

theorem Chain.pathUnique (tidy : fs.Tidy) {T' : Trail} (chain : Chain fs T) (chain' : Chain fs T')
    (same : T.path.same T'.path = true) : T = T' := by
  have names {T : Trail} (chain : Chain fs T) : T.path.components = .root :: (T.reverse.map Prod.fst).map .name :=
    Path.componentsOfNames fun name member => chain.named tidy name (by simpa using member)
  rw [Path.same, names chain, names chain', beq_iff_eq, List.cons.injEq] at same
  have reversed := List.map_injective_iff.mpr (fun a b h => Component.name.inj h) same.2
  rw [List.map_reverse, List.map_reverse, List.reverse_inj] at reversed
  exact chain.unique chain' reversed

def without (fs : FileSystem) (directory : Nat) (gone : String × Nat → Bool) : FileSystem :=
  fs.update directory fun d =>
    { d with content := match d.content with
      | .directory es => .directory (es.filter fun e => !gone e)
      | other => other }

variable {d : Nat} {gone gone' : String × Nat → Bool}

theorem contentWithout (at? : fs.content? d = some (.directory es)) (gone : String × Nat → Bool) (k : Nat) :
    (fs.without d gone).content? k =
      if k = d then some (.directory (es.filter fun e => !gone e)) else fs.content? k := by
  rw [without, contentUpdate]
  by_cases same : k = d
  · subst same
    rw [if_pos rfl, if_pos rfl]
    unfold content? at at?
    obtain ⟨node, there, content⟩ := Option.map_eq_some_iff.mp at?
    rw [there, Option.map_some, content]
  · rw [if_neg (Ne.symm same), if_neg same]

theorem contentLeft (at? : fs.content? d = some (.directory es)) (gone : String × Nat → Bool) :
    (fs.without d gone).content? d = some (.directory (es.filter fun e => !gone e)) := by
  rw [contentWithout at?, if_pos rfl]

theorem withoutNone (at? : fs.content? d = some (.directory es)) (none : ∀ e ∈ es, gone e = false) :
    fs.without d gone = fs := by
  have kept : es.filter (fun e => !gone e) = es := by
    rw [List.filter_eq_self]
    exact fun e member => by simp [none e member]
  unfold content? at at?
  obtain ⟨node, there, content⟩ := Option.map_eq_some_iff.mp at?
  unfold without update
  congr 1
  refine Array.ext_getElem? fun i => ?_
  rw [Array.getElem?_modify]
  split
  · rename_i same
    subst same
    obtain ⟨c, mode, modified⟩ := node
    cases content
    rw [there, Option.map_some]
    simp only [kept]
  · rfl

theorem withoutTwice (fs : FileSystem) (d : Nat) (gone gone' : String × Nat → Bool) :
    (fs.without d gone).without d gone' = fs.without d fun e => gone e || gone' e := by
  unfold without update
  congr 1
  refine Array.ext_getElem? fun i => ?_
  simp only [Array.getElem?_modify]
  split
  · cases fs.nodes[i]? with
    | none => rfl
    | some node => cases shape : node.content <;> simp [shape, List.filter_filter, Bool.and_comm]
  · rfl

theorem withoutCongr (at? : fs.content? d = some (.directory es)) (same : ∀ e ∈ es, gone e = gone' e) :
    fs.without d gone = fs.without d gone' := by
  have kept : es.filter (fun e => !gone e) = es.filter (fun e => !gone' e) :=
    List.filter_congr fun e member => by rw [same e member]
  unfold content? at at?
  obtain ⟨node, there, content⟩ := Option.map_eq_some_iff.mp at?
  unfold without update
  congr 1
  refine Array.ext_getElem? fun i => ?_
  simp only [Array.getElem?_modify]
  split
  · rename_i same
    subst same
    rw [there, Option.map_some, Option.map_some, content]
    simp only [kept]
  · rfl

theorem isDirectoryWithout (at? : fs.content? d = some (.directory es)) (n : Nat) :
    (fs.without d gone).isDirectory n = fs.isDirectory n := by
  rw [isDirectory, isDirectory, contentWithout at?]
  by_cases same : n = d
  · rw [if_pos same, same, at?]
  · rw [if_neg same]

theorem tidyWithout (tidy : fs.Tidy) (at? : fs.content? d = some (.directory es)) :
    (fs.without d gone).Tidy := by
  have size : (fs.without d gone).nodes.size = fs.nodes.size := by simp [without, update]
  have within {n es'} (there : (fs.without d gone).content? n = some (.directory es')) :
      ∃ es₀, fs.content? n = some (.directory es₀) ∧ es'.Sublist es₀ := by
    rw [contentWithout at?] at there
    split at there
    · rename_i same
      cases there
      exact ⟨es, same ▸ at?, List.filter_sublist⟩
    · exact ⟨es', there, List.Sublist.refl _⟩
  constructor
  case named =>
    intro n es' there e member
    obtain ⟨es₀, at₀, sub⟩ := within there
    exact tidy.named at₀ e (sub.subset member)
  case inside =>
    intro n es' there e member
    obtain ⟨es₀, at₀, sub⟩ := within there
    exact size ▸ tidy.inside at₀ e (sub.subset member)
  case distinct =>
    intro n es' there
    obtain ⟨es₀, at₀, sub⟩ := within there
    exact (tidy.distinct at₀).sublist (sub.map _)

theorem grownWithout (tidy : fs.Tidy) (at? : fs.content? d = some (.directory es)) :
    (fs.without d gone).Grown fs := by
  constructor
  case kept =>
    intro n c there
    rw [contentWithout at?] at there
    split at there
    · rename_i same
      cases there
      refine ⟨_, same ▸ at?, .directory fun name k named => ?_⟩
      have member := (List.mem_filter.mp (lookupMem named)).1
      exact lookupOfMem (tidy.distinct at?) member
    · exact ⟨c, there, .refl c⟩
  case noLinks =>
    intro n target absent link
    rw [contentWithout at?] at absent
    split at absent
    · cases absent
    · rw [absent] at link
      cases link

theorem entryWalks {keepLink : Bool} {n : Nat} (at? : fs.content? T.node = some (.directory es))
    (isName : IsName e.1) (short : e.1.utf8ByteSize ≤ nameLimit) (named : es.lookup e.1 = some n) (k : Nat)
    (ends : keepLink = true ∨ ∀ target, fs.content? n ≠ some (.link target)) :
    Walks fs keepLink k T [e.1] (.present ((e.1, n) :: T)) := by
  have inner := And.intro isName.notHere (And.intro isName.notUp short)
  by_cases link : ∃ target, fs.content? n = some (.link target)
  · obtain ⟨target, link⟩ := link
    rcases ends with keep | noLink
    · exact .kept at? inner named link keep
    · exact (noLink target link).elim
  · exact .enter at? inner named (fun target is => link ⟨target, is⟩) .stop

theorem nameShort {keepLink : Bool} {k : Nat} {name : String} {spot : Spot} (isName : IsName name)
    (h : Walks fs keepLink k T [name] spot) : name.utf8ByteSize ≤ nameLimit := by
  cases h with
  | dot directory onward => exact (isName.notHere rfl).elim
  | up directory onward => exact (isName.notUp rfl).elim
  | missing directory inner none => exact inner.2.2
  | kept directory inner named link keep => exact inner.2.2
  | follow directory inner named link passes onward => exact inner.2.2
  | enter directory inner named noLink onward => exact inner.2.2

theorem findEntry {n : Nat} (found : fs.find here root = .ok T) (at? : fs.content? T.node = some (.directory es))
    (isName : IsName e.1) (named : es.lookup e.1 = some n) (noLink : ∀ target, fs.content? n ≠ some (.link target))
    (legible : Legible (root.join e.1)) (short : e.1.utf8ByteSize ≤ nameLimit) :
    fs.find here (root.join e.1) = .ok ((e.1, n) :: T) := by
  obtain ⟨filled, way⟩ := findPieces found
  refine findLocate.mpr (legible.locate ?_)
  rw [stepsOfChild filled isName]
  exact way.append (List.cons_ne_nil e.1 [])
    (fun k => entryWalks at? isName short named k (.inr noLink)) rfl

theorem locateKept {keepLink : Bool} {spot : Spot} (tidy : fs.Tidy) (found : fs.find here root = .ok T)
    (at? : fs.content? T.node = some (.directory es)) (member : e ∈ es)
    (located : fs.locate here keepLink (root.join e.1) = .ok spot) :
    fs.locate here true (root.join e.1) = .ok (.present ((e.1, e.2) :: T)) := by
  have isName := tidy.named at? e member
  obtain ⟨k, last⟩ := locateChild found isName located
  have named := lookupOfMem (tidy.distinct at?) member
  exact locateEntry found isName located fun k =>
    entryWalks at? isName (nameShort isName last) named k (.inl rfl)

theorem removeFileEntry {T' : Trail} (tidy : fs.Tidy) (found : fs.find here root = .ok T)
    (at? : fs.content? T.node = some (.directory es)) (member : e ∈ es) (file : fs.isDirectory e.2 = false)
    (there : fs.find here (root.join e.1) = .ok T') :
    fs.removeFile here (root.join e.1) = .ok (fs.without T.node fun e' => e'.1 == e.1) := by
  have isName := tidy.named at? e member
  have located := locateKept tidy found at? member (findLocate.mp there)
  have pieces : (root.join e.1).pieces.isEmpty = false := by
    rw [Path.piecesJoin (findPieces found).1 isName]
    simp
  unfold removeFile
  rw [if_neg (by simp [pieces]), Path.joinWithoutSlash isName, located]
  simp only [bind, Except.bind, file, Bool.false_eq_true, if_false, Path.joinUnended isName]
  rfl

theorem removeTreeEntry (tidy : fs.Tidy) (found : fs.find here root = .ok T)
    (at? : fs.content? T.node = some (.directory es)) (member : e ∈ es)
    (removed : fs.removeTree here (root.join e.1) = .ok fs') :
    fs' = fs.without T.node fun e' => e'.1 == e.1 := by
  unfold removeTree findKeepingLink at removed
  cases located : fs.locate here true (root.join e.1) with
  | error error => simp [located, bind, Except.bind] at removed
  | ok spot =>
    have kept := locateKept tidy found at? member located
    rw [kept] at removed
    simp only [bind, Except.bind] at removed
    split at removed
    · cases removed
      rfl
    · cases removed
      rfl
    · cases removed

end BuildReuse.FileSystem
