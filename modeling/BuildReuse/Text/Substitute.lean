/-! Substitution in a text: every occurrence of a pattern, found from left to
right and without overlap, gives way to another text. -/

namespace BuildReuse.Text

def occurs (pattern : List Char) : List Char → Bool
  | [] => pattern.isEmpty
  | c :: rest => pattern.isPrefixOf (c :: rest) || occurs pattern rest

def substituteAfter (pattern new : List Char) : Nat → List Char → List Char
  | _, [] => []
  | skip + 1, _ :: rest => substituteAfter pattern new skip rest
  | 0, c :: rest =>
    if pattern.isPrefixOf (c :: rest) then
      new ++ substituteAfter pattern new (pattern.length - 1) rest
    else c :: substituteAfter pattern new 0 rest

/-- Replaces each occurrence of the non-empty `pattern` by `new`; the inserted
text is not looked at again. -/
def substitute (pattern new text : List Char) : List Char :=
  substituteAfter pattern new 0 text

theorem substituteAbsent {pattern new text : List Char} (h : occurs pattern text = false) :
    substitute pattern new text = text := by
  unfold substitute
  induction text with
  | nil => rfl
  | cons c rest ih =>
    simp only [occurs, Bool.or_eq_false_iff] at h
    simp [substituteAfter, h.1, ih h.2]

end BuildReuse.Text
