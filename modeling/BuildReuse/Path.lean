/-! Paths. The text of a path is kept as it was written, because messages and
documents show it; two paths name the same place without a look at the disk when
their components agree. Repeated slashes, a final slash and inner dots separate
components without being one. Paths are texts: names that are not UTF-8 are left
out. -/

namespace BuildReuse

inductive Component where
  | root
  | here
  | up
  | name (text : String)
  deriving DecidableEq, Repr

structure Path where
  text : String
  deriving DecidableEq, Repr, Inhabited

namespace Path

def pieces (p : Path) : List String :=
  ((p.text.toList.splitOnP (· == '/')).filter fun piece => !piece.isEmpty).map String.ofList

def isAbsolute (p : Path) : Bool := p.text.toList.head? == some '/'

def endsInSlash (p : Path) : Bool := p.text.toList.getLast? == some '/'

def withoutFinalSlash (p : Path) : Path :=
  ⟨String.ofList (p.text.toList.reverse.dropWhile (· == '/')).reverse⟩

def componentOf? (piece : String) : Option Component :=
  if piece = "." then none else if piece = ".." then some .up else some (.name piece)

def components (p : Path) : List Component :=
  if p.isAbsolute then .root :: p.pieces.filterMap componentOf?
  else if p.pieces.head? == some "." then .here :: p.pieces.filterMap componentOf?
  else p.pieces.filterMap componentOf?

def same (p q : Path) : Bool := p.components == q.components

def fileName? (p : Path) : Option String :=
  match p.components.getLast? with
  | some (.name n) => some n
  | _ => none

def extensionOfName? (name : String) : Option String :=
  let cs := name.toList
  let tail := (cs.reverse.takeWhile (· != '.')).reverse
  if cs.contains '.' && cs != '.' :: tail then some (String.ofList tail) else none

def extension? (p : Path) : Option String := p.fileName?.bind extensionOfName?

def hasExtension (extension : String) (p : Path) : Bool := p.extension? == some extension

def join (p : Path) (q : String) : Path :=
  if (Path.mk q).isAbsolute then ⟨q⟩
  else if p.text.isEmpty || p.endsInSlash then ⟨p.text ++ q⟩
  else ⟨p.text ++ "/" ++ q⟩

def ofNames (names : List String) : Path := ⟨"/" ++ "/".intercalate names⟩

def nameOrEmpty (p : Path) : String := p.fileName?.getD ""

theorem sameRefl (p : Path) : p.same p = true := by simp [same]

theorem sameComm (p q : Path) : p.same q = q.same p := by
  rw [Bool.eq_iff_iff]
  simp only [same, beq_iff_eq]
  exact eq_comm

theorem sameTrans {p q r : Path} (h : p.same q = true) (k : q.same r = true) :
    p.same r = true := by
  simp only [same, beq_iff_eq] at *
  exact h.trans k

end Path
end BuildReuse
