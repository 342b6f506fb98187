import BuildReuse.Proofs.FileSystem.Grown
import BuildReuse.Proofs.FileSystem.Names

/-! Walks that lead somewhere, step by step. A path is walked to its parent and on to its
last piece. -/
namespace BuildReuse.FileSystem

inductive Walks (fs : FileSystem) (keepLink : Bool) : Nat → Trail → List String → Spot → Prop where
  | stop {links trail} : Walks fs keepLink links trail [] (.present trail)
  | dot {links trail rest spot es} (directory : fs.content? trail.node = some (.directory es))
      (onward : Walks fs keepLink links trail rest spot) : Walks fs keepLink links trail ("." :: rest) spot
  | up {links trail rest spot es} (directory : fs.content? trail.node = some (.directory es))
      (onward : Walks fs keepLink links trail.tail rest spot) : Walks fs keepLink links trail (".." :: rest) spot
  | missing {links trail step es} (directory : fs.content? trail.node = some (.directory es))
      (inner : step ≠ "." ∧ step ≠ ".." ∧ step.utf8ByteSize ≤ nameLimit) (none : es.lookup step = none) :
      Walks fs keepLink links trail [step] (.absent trail step)
  | kept {links trail step es n target} (directory : fs.content? trail.node = some (.directory es))
      (inner : step ≠ "." ∧ step ≠ ".." ∧ step.utf8ByteSize ≤ nameLimit) (named : es.lookup step = some n)
      (link : fs.content? n = some (.link target)) (keep : keepLink = true) :
      Walks fs keepLink links trail [step] (.present ((step, n) :: trail))
  | follow {links trail step rest spot es n target} (directory : fs.content? trail.node = some (.directory es))
      (inner : step ≠ "." ∧ step ≠ ".." ∧ step.utf8ByteSize ≤ nameLimit) (named : es.lookup step = some n)
      (link : fs.content? n = some (.link target)) (passes : keepLink = false ∨ rest ≠ [])
      (onward : Walks fs keepLink links (if (Path.mk target).isAbsolute then [] else trail)
        (stepsOf ⟨target⟩ ++ rest) spot) : Walks fs keepLink (links + 1) trail (step :: rest) spot
  | enter {links step rest spot es n} {trail : Trail} (directory : fs.content? trail.node = some (.directory es))
      (inner : step ≠ "." ∧ step ≠ ".." ∧ step.utf8ByteSize ≤ nameLimit) (named : es.lookup step = some n)
      (noLink : ∀ target, fs.content? n ≠ some (.link target))
      (onward : Walks fs keepLink links ((step, n) :: trail) rest spot) :
      Walks fs keepLink links trail (step :: rest) spot

variable {fs : FileSystem} {keepLink : Bool} {spot : Spot}

theorem walkViaWalks {onLink : Trail → String → List String → Except HostFault Spot} {links : Nat}
    (follow : ∀ trail target rest, onLink trail target rest = .ok spot → ∃ k, links = k + 1 ∧
      Walks fs keepLink k (if (Path.mk target).isAbsolute then [] else trail) (stepsOf ⟨target⟩ ++ rest) spot) :
    ∀ steps trail, walkVia fs keepLink onLink trail steps = .ok spot →
      Walks fs keepLink links trail steps spot := by
  intro steps
  induction steps with
  | nil =>
    intro trail h
    cases h
    exact .stop
  | cons step rest ih =>
    intro trail h
    rw [walkVia] at h
    split at h
    · rename_i es directory
      split at h
      · rename_i dot
        exact dot ▸ .dot directory (ih trail h)
      rename_i dot
      split at h
      · rename_i up
        exact up ▸ .up directory (ih trail.tail h)
      rename_i up
      split at h
      · cases h
      rename_i short
      have inner := And.intro dot (And.intro up (Nat.le_of_not_gt short))
      split at h
      · rename_i none
        split at h
        · rename_i last
          cases h
          obtain rfl : rest = [] := List.isEmpty_iff.mp last
          exact .missing directory inner none
        · cases h
      · rename_i n named
        split at h
        · rename_i target link
          split at h
          · rename_i last
            cases h
            rw [Bool.and_eq_true] at last
            obtain rfl : rest = [] := List.isEmpty_iff.mp last.2
            exact .kept directory inner named link last.1
          · rename_i passes
            obtain ⟨k, rfl, onward⟩ := follow _ _ _ h
            refine .follow directory inner named link ?_ onward
            cases keepLink with
            | false => exact .inl rfl
            | true => exact .inr (by simpa using passes)
        · rename_i noLink
          exact .enter directory inner named (fun target link => noLink target link) (ih _ h)
    · cases h

theorem walksOf (links : Nat) : ∀ trail steps, fs.walk keepLink links trail steps = .ok spot →
    Walks fs keepLink links trail steps spot := by
  induction links with
  | zero => exact fun trail steps => walkViaWalks (fun _ _ _ h => by cases h) steps trail
  | succ links ih => exact fun trail steps => walkViaWalks (fun _ _ _ h => ⟨links, rfl, ih _ _ h⟩) steps trail

section

variable {links n : Nat} {trail : Trail} {step target : String} {rest : List String} {es : List (String × Nat)}
  (directory : fs.content? trail.node = some (.directory es))
include directory

theorem walkDot : fs.walk keepLink links trail ("." :: rest) = fs.walk keepLink links trail rest := by
  cases links <;> simp [walk, walkVia, directory]

theorem walkUp : fs.walk keepLink links trail (".." :: rest) = fs.walk keepLink links trail.tail rest := by
  cases links <;> simp [walk, walkVia, directory]

theorem walkLong (notHere : step ≠ ".") (notUp : step ≠ "..") (long : nameLimit < step.utf8ByteSize) :
    fs.walk keepLink links trail (step :: rest) = .error .nameTooLong := by
  cases links <;> simp [walk, walkVia, directory, notHere, notUp, long]

variable (inner : step ≠ "." ∧ step ≠ ".." ∧ step.utf8ByteSize ≤ nameLimit)
include inner

theorem walkMissing (none : es.lookup step = none) : fs.walk keepLink links trail (step :: rest) =
    if rest.isEmpty then .ok (.absent trail step) else .error .noEntry := by
  cases links <;> simp [walk, walkVia, directory, inner, none, Nat.not_lt.mpr inner.2.2]

variable (named : es.lookup step = some n)
include named

theorem walkKept (link : fs.content? n = some (.link target)) :
    fs.walk true links trail [step] = .ok (.present ((step, n) :: trail)) := by
  cases links <;> simp [walk, walkVia, directory, inner, named, link, Nat.not_lt.mpr inner.2.2]

theorem walkFollow (link : fs.content? n = some (.link target)) (passes : keepLink = false ∨ rest ≠ []) :
    fs.walk keepLink (links + 1) trail (step :: rest) =
      fs.walk keepLink links (if (Path.mk target).isAbsolute then [] else trail) (stepsOf ⟨target⟩ ++ rest) := by
  have inside : (keepLink && rest.isEmpty) = false := by
    rcases passes with rfl | some
    · rfl
    · simp [some]
  simp [walk, walkVia, directory, inner, named, link, inside, Nat.not_lt.mpr inner.2.2]

theorem walkEnter (noLink : ∀ target, fs.content? n ≠ some (.link target)) :
    fs.walk keepLink links trail (step :: rest) = fs.walk keepLink links ((step, n) :: trail) rest := by
  have goes (onLink : Trail → String → List String → Except HostFault Spot) :
      walkVia fs keepLink onLink trail (step :: rest) = walkVia fs keepLink onLink ((step, n) :: trail) rest := by
    rw [walkVia, directory]
    simp only [inner, if_false, gt_iff_lt, Nat.not_lt.mpr inner.2.2, named]
  cases links with
  | zero => exact goes _
  | succ links => exact goes _

end

namespace Walks

variable {links : Nat} {trail T : Trail} {steps last : List String}

theorem walk (h : Walks fs keepLink links trail steps spot) : fs.walk keepLink links trail steps = .ok spot := by
  induction h with
  | @stop links trail => cases links <;> rfl
  | dot directory onward ih => rw [walkDot directory, ih]
  | up directory onward ih => rw [walkUp directory, ih]
  | missing directory inner none => exact walkMissing directory inner none
  | kept directory inner named link keep =>
    cases keep
    exact walkKept directory inner named link
  | follow directory inner named link passes onward ih => rw [walkFollow directory inner named link passes, ih]
  | enter directory inner named noLink onward ih => rw [walkEnter directory inner named noLink, ih]

theorem same {spot' : Spot} (h : Walks fs keepLink links trail steps spot)
    (h' : Walks fs keepLink links trail steps spot') : spot' = spot :=
  Except.ok.inj (h'.walk.symm.trans h.walk)

theorem split (some : last ≠ []) {whole : List String} (h : Walks fs keepLink links trail whole spot) :
    ∀ steps, whole = steps ++ last → ∃ k T, Walks fs false links trail steps (.present T) ∧
      Walks fs keepLink k T last spot := by
  have alone {step : String} {steps : List String} (h : [step] = steps ++ last) : steps = [] := by
    cases steps with
    | nil => rfl
    | cons first rest =>
      have inner := (List.cons.inj h).2
      exact (some (List.append_eq_nil_iff.mp inner.symm).2).elim
  have stopped {k : Nat} {trail : Trail} {whole : List String} {spot : Spot} (same : whole = [] ++ last)
      (h : Walks fs keepLink k trail whole spot) : ∃ k' T, Walks fs false k trail [] (.present T) ∧
        Walks fs keepLink k' T last spot :=
    ⟨k, trail, .stop, by rwa [same] at h⟩
  induction h with
  | stop =>
    intro steps same
    exact (some (List.append_eq_nil_iff.mp same.symm).2).elim
  | dot directory onward ih =>
    rintro (_ | ⟨step, steps⟩) same
    · exact stopped same (.dot directory onward)
    · cases same
      obtain ⟨k, T, first, second⟩ := ih steps rfl
      exact ⟨k, T, .dot directory first, second⟩
  | up directory onward ih =>
    rintro (_ | ⟨step, steps⟩) same
    · exact stopped same (.up directory onward)
    · cases same
      obtain ⟨k, T, first, second⟩ := ih steps rfl
      exact ⟨k, T, .up directory first, second⟩
  | missing directory inner none =>
    intro steps same
    obtain rfl := alone same
    exact stopped same (.missing directory inner none)
  | kept directory inner named link keep =>
    intro steps same
    obtain rfl := alone same
    exact stopped same (.kept directory inner named link keep)
  | follow directory inner named link passes onward ih =>
    rintro (_ | ⟨step, steps⟩) same
    · exact stopped same (.follow directory inner named link passes onward)
    · cases same
      obtain ⟨k, T, first, second⟩ := ih _ (List.append_assoc ..).symm
      exact ⟨k, T, .follow directory inner named link (.inl rfl) first, second⟩
  | enter directory inner named noLink onward ih =>
    rintro (_ | ⟨step, steps⟩) same
    · exact stopped same (.enter directory inner named noLink onward)
    · cases same
      obtain ⟨k, T, first, second⟩ := ih steps rfl
      exact ⟨k, T, .enter directory inner named noLink first, second⟩

theorem append (some : last ≠ []) (onward : ∀ k, Walks fs keepLink k T last spot) {end' : Spot}
    (h : Walks fs false links trail steps end') (leads : end' = .present T) :
    Walks fs keepLink links trail (steps ++ last) spot := by
  induction h with
  | stop =>
    cases leads
    exact onward _
  | dot directory first ih => exact .dot directory (ih leads)
  | up directory first ih => exact .up directory (ih leads)
  | missing directory inner none => cases leads
  | kept directory inner named link keep => cases keep
  | follow directory inner named link passes first ih =>
    have onward' := ih leads
    rw [List.append_assoc] at onward'
    exact .follow directory inner named link (.inr (by simp [some])) onward'
  | enter directory inner named noLink first ih => exact .enter directory inner named noLink (ih leads)

theorem atDirectory (h : Walks fs keepLink links trail steps spot) :
    steps = [] ∨ ∃ es, fs.content? trail.node = some (.directory es) := by
  cases h with
  | stop => exact .inl rfl
  | dot directory _ => exact .inr ⟨_, directory⟩
  | up directory _ => exact .inr ⟨_, directory⟩
  | missing directory _ _ => exact .inr ⟨_, directory⟩
  | kept directory _ _ _ _ => exact .inr ⟨_, directory⟩
  | follow directory _ _ _ _ _ => exact .inr ⟨_, directory⟩
  | enter directory _ _ _ _ => exact .inr ⟨_, directory⟩

theorem stays {step : String} (h : Walks fs keepLink links trail [step] spot) (dot : step = ".") :
    spot = .present trail := by
  cases h with
  | dot directory onward =>
    cases onward
    rfl
  | up directory onward => simp at dot
  | missing directory inner none => exact (inner.1 dot).elim
  | kept directory inner named link keep => exact (inner.1 dot).elim
  | follow directory inner named link passes onward => exact (inner.1 dot).elim
  | enter directory inner named noLink onward => exact (inner.1 dot).elim

end Walks

inductive Chain (fs : FileSystem) : Trail → Prop where
  | root : Chain fs []
  | entry {name n es} {T : Trail} (above : Chain fs T) (directory : fs.content? T.node = some (.directory es))
      (named : es.lookup name = some n) : Chain fs ((name, n) :: T)

def Spot.trail : Spot → Trail
  | .present T => T
  | .absent d _ => d

theorem Walks.chain {links : Nat} {trail : Trail} {steps : List String}
    (h : Walks fs keepLink links trail steps spot) : Chain fs trail → Chain fs spot.trail := by
  induction h with
  | stop => exact id
  | dot directory onward ih => exact ih
  | @up links trail rest spot es directory onward ih =>
    intro chain
    cases chain with
    | root => exact ih .root
    | entry above _ _ => exact ih above
  | missing directory inner none => exact id
  | kept directory inner named link keep => exact fun chain => .entry chain directory named
  | follow directory inner named link passes onward ih =>
    intro chain
    refine ih ?_
    split
    · exact .root
    · exact chain
  | enter directory inner named noLink onward ih => exact fun chain => ih (.entry chain directory named)

theorem Chain.unique {T T' : Trail} (h : Chain fs T) (h' : Chain fs T')
    (same : T.map Prod.fst = T'.map Prod.fst) : T = T' := by
  induction h generalizing T' with
  | root => exact (List.map_eq_nil_iff.mp same.symm).symm
  | entry above directory named ih =>
    cases h' with
    | root => cases same
    | entry above' directory' named' =>
      rw [List.map_cons, List.map_cons, List.cons.injEq] at same
      obtain ⟨rfl, names⟩ := same
      obtain rfl := ih above' names
      cases directory.symm.trans directory'
      cases named.symm.trans named'
      rfl

theorem stepsOfWhole {p : Path} {step : String} (member : step ∈ stepsOf p) :
    step ≠ "" ∧ '/' ∉ step.toList := by
  unfold stepsOf at member
  split at member
  · rcases List.mem_append.mp member with piece | dot
    · exact Path.piecesWhole piece
    · rw [List.mem_singleton.mp dot]
      decide
  · exact Path.piecesWhole member

theorem Walks.missedName {links : Nat} {trail d : Trail} {steps : List String} {spot : Spot} {name : String}
    (h : Walks fs keepLink links trail steps spot) (whole : ∀ step ∈ steps, step ≠ "" ∧ '/' ∉ step.toList)
    (misses : spot = .absent d name) : IsName name := by
  induction h with
  | stop => cases misses
  | dot directory onward ih => exact ih (fun step member => whole step (List.mem_cons_of_mem _ member)) misses
  | up directory onward ih => exact ih (fun step member => whole step (List.mem_cons_of_mem _ member)) misses
  | missing directory inner none =>
    cases misses
    obtain ⟨filled, plain⟩ := whole _ List.mem_cons_self
    exact ⟨filled, plain, inner.1, inner.2.1⟩
  | kept directory inner named link keep => cases misses
  | follow directory inner named link passes onward ih =>
    refine ih (fun step member => ?_) misses
    rcases List.mem_append.mp member with first | later
    · exact stepsOfWhole first
    · exact whole step (List.mem_cons_of_mem _ later)
  | enter directory inner named noLink onward ih =>
    exact ih (fun step member => whole step (List.mem_cons_of_mem _ member)) misses

variable {here root path : Path} {name : String} {T : Trail}

structure Legible (path : Path) : Prop where
  plain : '\x00' ∉ path.text.toList
  filled : path.text ≠ ""
  short : path.text.utf8ByteSize < pathLimit

theorem locateLegible (h : fs.locate here keepLink path = .ok spot) : Legible path := by
  unfold locate at h
  split at h
  · cases h
  split at h
  · cases h
  split at h
  · cases h
  rename_i plain filled short
  exact ⟨by simpa using plain, by simpa using filled, Nat.lt_of_not_ge short⟩

theorem Legible.locate (legible : Legible path)
    (walks : Walks fs keepLink linkLimit [] (stepsOf (here.join path.text)) spot) :
    fs.locate here keepLink path = .ok spot := by
  have plain : path.text.toList.contains '\x00' = false := by simpa using legible.plain
  have filled : path.text.isEmpty = false := by simpa using legible.filled
  rw [FileSystem.locate, plain, filled, if_neg (Nat.not_le.mpr legible.short), walks.walk]
  rfl

theorem locateWalks (h : fs.locate here keepLink path = .ok spot) :
    path.text ≠ "" ∧ Walks fs keepLink linkLimit [] (stepsOf (here.join path.text)) spot :=
  ⟨(locateLegible h).filled, walksOf _ _ _ (locateWalk h)⟩

theorem locateOf {fs' : FileSystem} {keepLink' : Bool} {spot' : Spot}
    (h : fs'.locate here keepLink' path = .ok spot')
    (walks : Walks fs keepLink linkLimit [] (stepsOf (here.join path.text)) spot) :
    fs.locate here keepLink path = .ok spot := (locateLegible h).locate walks

theorem findLocate : fs.find here path = .ok T ↔ fs.locate here false path = .ok (.present T) := by
  unfold find
  cases fs.locate here false path with
  | error e => simp [bind, Except.bind]
  | ok spot => cases spot <;> simp [bind, Except.bind]

theorem findGrown {fs' : FileSystem} (grown : fs.Grown fs') (h : fs.find here path = .ok T) :
    fs'.find here path = .ok T := by
  have located := findLocate.mp h
  have walk := walkGrown grown (show fs'.Reaches (.present T) T from rfl) _ _ _ (locateWalk located)
  exact findLocate.mpr (locateOf located (walksOf _ _ _ walk))

theorem findChain (h : fs.find here path = .ok T) : Chain fs T :=
  (locateWalks (findLocate.mp h)).2.chain .root

theorem findPieces (h : fs.find here root = .ok T) :
    root.text ≠ "" ∧ Walks fs false linkLimit [] (here.join root.text).pieces (.present T) := by
  obtain ⟨filled, walks⟩ := locateWalks (findLocate.mp h)
  refine ⟨filled, ?_⟩
  unfold stepsOf at walks
  split at walks
  · obtain ⟨k, T', first, last⟩ := walks.split (List.cons_ne_nil "." []) _ rfl
    cases last.stays rfl
    exact first
  · exact walks

theorem stepsOfChild (filled : root.text ≠ "") (isName : IsName name) :
    stepsOf (here.join (root.join name).text) = (here.join root.text).pieces ++ [name] := by
  have nonempty : (here.join root.text).text ≠ "" := Path.joinedFilled filled
  rw [Path.joinJoin filled isName, stepsOf, if_neg (by simp [Path.joinUnended isName]),
    Path.piecesJoin nonempty isName]

theorem locateChild (found : fs.find here root = .ok T) (isName : IsName name)
    (located : fs.locate here keepLink (root.join name) = .ok spot) :
    ∃ k, Walks fs keepLink k T [name] spot := by
  obtain ⟨filled, way⟩ := findPieces found
  have walks := (locateWalks located).2
  rw [stepsOfChild filled isName] at walks
  obtain ⟨k, T', first, last⟩ := walks.split (List.cons_ne_nil name []) _ rfl
  cases way.same first
  exact ⟨k, last⟩

theorem locateEntry {fs' : FileSystem} {keepLink' : Bool} {spot' : Spot} (found : fs.find here root = .ok T)
    (isName : IsName name) (located : fs'.locate here keepLink' (root.join name) = .ok spot')
    (last : ∀ k, Walks fs keepLink k T [name] spot) :
    fs.locate here keepLink (root.join name) = .ok spot := by
  obtain ⟨filled, way⟩ := findPieces found
  refine locateOf located ?_
  rw [stepsOfChild filled isName]
  exact way.append (List.cons_ne_nil name []) last rfl

end BuildReuse.FileSystem
