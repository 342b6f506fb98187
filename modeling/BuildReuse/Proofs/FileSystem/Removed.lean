import BuildReuse.Proofs.FileSystem.Made

/-! A directory that loses an entry. It is found at its canonical path as before, since the way
there comes by none of its own entries, and what was not there is still not there. -/
namespace BuildReuse

namespace FileSystem

variable {fs fs' : FileSystem} {here here' root path : Path} {T A : Trail} {es : List (String × Nat)}
  {keepLink : Bool} {name : String}

theorem locateAbsolute (absolute : path.isAbsolute = true) (here here' : Path) :
    fs.locate here keepLink path = fs.locate here' keepLink path := by
  have own (here : Path) : here.join path.text = path := if_pos absolute
  rw [locate, own, locate, own]

theorem findAbsolute (absolute : path.isAbsolute = true) (here here' : Path) :
    fs.find here path = fs.find here' path := by
  rw [find, locateAbsolute absolute here here', find]

def Straight (T : Trail) : Prop := ∀ A : Trail, A <:+ T → A ≠ T → A.node ≠ T.node

theorem Walks.shortNames {links : Nat} {trail : Trail} {steps : List String} {spot : Spot}
    (h : Walks fs keepLink links trail steps spot) :
    (∀ e ∈ trail, e.1.utf8ByteSize ≤ nameLimit) → ∀ e ∈ spot.trail, e.1.utf8ByteSize ≤ nameLimit := by
  induction h with
  | stop => exact id
  | dot directory onward ih => exact ih
  | up directory onward ih => exact fun short => ih fun e member => short e (List.mem_of_mem_tail member)
  | missing directory inner none => exact id
  | kept directory inner named link keep =>
    exact fun short => List.forall_mem_cons.mpr ⟨inner.2.2, short⟩
  | follow directory inner named link passes onward ih =>
    intro short
    refine ih ?_
    split
    · exact fun _ none => nomatch none
    · exact short
  | enter directory inner named noLink onward ih =>
    exact fun short => ih (List.forall_mem_cons.mpr ⟨inner.2.2, short⟩)

theorem Chain.walks (tidy : fs.Tidy) (chain : Chain fs T) :
    (∀ e ∈ T, e.1.utf8ByteSize ≤ nameLimit) → (∀ target, fs.content? T.node ≠ some (.link target)) →
    ∀ k, Walks fs false k [] (T.reverse.map Prod.fst) (.present T) := by
  induction chain with
  | root => exact fun _ _ _ => .stop
  | @entry name n es T above directory named ih =>
    intro short noLink k
    obtain ⟨own, before⟩ := List.forall_mem_cons.mp short
    have first := ih before (fun target link => by cases directory.symm.trans link) k
    have isName := tidy.named directory _ (lookupMem named)
    have last (k : Nat) : Walks fs false k T [name] (.present ((name, n) :: T)) :=
      entryWalks (e := (name, n)) directory isName own named k (.inr noLink)
    rw [List.reverse_cons, List.map_append]
    exact first.append (List.cons_ne_nil name []) last rfl

theorem Chain.find (tidy : fs.Tidy) (chain : Chain fs T) (legible : Legible T.path)
    (short : ∀ e ∈ T, e.1.utf8ByteSize ≤ nameLimit) (directory : fs.content? T.node = some (.directory es)) :
    fs.find here T.path = .ok T := by
  have way := chain.walks tidy short (fun target link => by cases directory.symm.trans link) linkLimit
  have names : ∀ name ∈ T.reverse.map Prod.fst, IsName name :=
    fun name member => chain.named tidy name (by simpa using member)
  have pieces : T.path.pieces = T.reverse.map Prod.fst := Path.piecesOfNames names
  have whole : here.join T.path.text = T.path := if_pos (Path.ofNamesAbsolute _)
  refine findLocate.mpr (legible.locate ?_)
  rw [whole, stepsOf, pieces]
  split
  · exact way.append (List.cons_ne_nil "." []) (fun _ => .dot directory .stop) rfl
  · exact way

theorem findOfChain (tidy : fs'.Tidy) (found : fs.find here T.path = .ok T) (chain : Chain fs' T)
    (directory : fs'.content? T.node = some (.directory es)) : fs'.find here T.path = .ok T := by
  have located := findLocate.mp found
  have short := (locateWalks located).2.shortNames (fun _ none => nomatch none)
  exact chain.find tidy (locateLegible located) short directory

variable {gone : String × Nat → Bool}

theorem Chain.without (straight : Straight T) (at? : fs.content? T.node = some (.directory es))
    (chain : Chain fs A) : A <:+ T → Chain (fs.without T.node gone) A := by
  induction chain with
  | root => exact fun _ => .root
  | @entry name n es' A above directory named ih =>
    intro within
    have below : A <:+ T := (List.suffix_cons (name, n) A).trans within
    have shorter : A ≠ T := by
      rintro rfl
      exact absurd within.length_le (by simp)
    refine .entry (ih below) ?_ named
    rw [contentWithout at?, if_neg (straight A below shorter)]
    exact directory

theorem findWithout (tidy : fs.Tidy) (straight : Straight T) (found : fs.find here T.path = .ok T)
    (at? : fs.content? T.node = some (.directory es)) :
    (fs.without T.node gone).find here T.path = .ok T := by
  exact findOfChain (tidyWithout tidy at?) found ((findChain found).without straight at? (List.suffix_refl T))
    (contentLeft at? gone)

theorem foundWithout (tidy : fs.Tidy) (straight : Straight T) (same : root = T.path)
    (found : fs.find here root = .ok T) (at? : fs.content? T.node = some (.directory es))
    (gone : String × Nat → Bool) : (fs.without T.node gone).find here root = .ok T := by
  subst same
  exact findWithout tidy straight found at?

theorem Walks.stillMissing (grown : fs.Grown fs') {links : Nat} {trail d : Trail} {steps : List String} {spot : Spot}
    (h : Walks fs keepLink links trail steps spot) (misses : spot = .absent d name)
    (none : ∀ es, fs'.content? d.node = some (.directory es) → es.lookup name = none) :
    Walks fs' keepLink links trail steps spot := by
  induction h with
  | stop => cases misses
  | dot directory onward ih =>
    obtain ⟨es', directory', -⟩ := grown.directory directory
    exact .dot directory' (ih misses)
  | up directory onward ih =>
    obtain ⟨es', directory', -⟩ := grown.directory directory
    exact .up directory' (ih misses)
  | missing directory inner _ =>
    cases misses
    obtain ⟨es', directory', -⟩ := grown.directory directory
    exact .missing directory' inner (none es' directory')
  | kept directory inner named link keep => cases misses
  | follow directory inner named link passes onward ih =>
    obtain ⟨es', directory', names⟩ := grown.directory directory
    exact .follow directory' inner (names named) ((grown.links ..).mpr link) passes (ih misses)
  | enter directory inner named noLink onward ih =>
    obtain ⟨es', directory', names⟩ := grown.directory directory
    exact .enter directory' inner (names named) (fun target link => noLink target ((grown.links ..).mp link))
      (ih misses)

theorem entryKept {k : Nat} {spot : Spot} (isName : IsName name) (h : Walks fs true k T [name] spot) :
    (∃ n, spot = .present ((name, n) :: T)) ∨ spot = .absent T name := by
  cases h with
  | dot directory onward => exact (isName.notHere rfl).elim
  | up directory onward => exact (isName.notUp rfl).elim
  | missing directory inner none => exact .inr rfl
  | kept directory inner named link keep => exact .inl ⟨_, rfl⟩
  | follow directory inner named link passes onward => simp at passes
  | enter directory inner named noLink onward =>
    cases onward
    exact .inl ⟨_, rfl⟩

theorem removeFileLeaves (found : fs.find here root = .ok T) (isName : IsName name)
    (removed : fs.removeFile here (root.join name) = .ok fs') : fs' = fs.without T.node fun e => e.1 == name := by
  unfold removeFile at removed
  split at removed
  · cases removed
  rw [Path.joinWithoutSlash isName] at removed
  cases located : fs.locate here true (root.join name) with
  | error e => simp [located, bind, Except.bind] at removed
  | ok spot =>
    obtain ⟨k, last⟩ := locateChild found isName located
    rw [located] at removed
    rcases entryKept isName last with ⟨n, rfl⟩ | rfl
    · simp only [bind, Except.bind] at removed
      split at removed
      · cases removed
      split at removed
      · cases removed
      exact (Except.ok.inj removed).symm
    · cases removed

theorem removeTreeLeaves (found : fs.find here root = .ok T) (isName : IsName name)
    (removed : fs.removeTree here (root.join name) = .ok fs') : fs' = fs.without T.node fun e => e.1 == name := by
  unfold removeTree findKeepingLink at removed
  cases located : fs.locate here true (root.join name) with
  | error e => simp [located, bind, Except.bind] at removed
  | ok spot =>
    obtain ⟨k, last⟩ := locateChild found isName located
    rw [located] at removed
    rcases entryKept isName last with ⟨n, rfl⟩ | rfl
    · simp only [bind, Except.bind] at removed
      split at removed
      · exact (Except.ok.inj removed).symm
      · exact (Except.ok.inj removed).symm
      · cases removed
    · cases removed

end FileSystem
end BuildReuse
