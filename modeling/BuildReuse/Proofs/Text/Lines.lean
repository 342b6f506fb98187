import BuildReuse.Proofs.Text.Substitution
import BuildReuse.Text.Blank
import BuildReuse.Text.Lines

/-! The lines of a text, joined again. A line feed loses the carriage return right before it, and
the text loses the line feed that ends it; all else stays where it is. -/
namespace BuildReuse.Text

def returnFeed : List Char := ['\r', '\n']

def withoutLastFeed (text : List Char) : List Char :=
  if text.getLast? = some '\n' then text.dropLast else text

def unbroken (text : List Char) : List Char := text.filter fun c => c != '\r' && c != '\n'

variable {text rest : List Char} {c : Char}

theorem piecesExist (text : List Char) : ∃ piece pieces, text.splitOnP (· == '\n') = piece :: pieces :=
  List.exists_cons_of_ne_nil (List.splitOnP_ne_nil _ text)

theorem splitFeed (rest : List Char) : ('\n' :: rest).splitOnP (· == '\n') = [] :: rest.splitOnP (· == '\n') := by
  simp [List.splitOnP_cons_eq_if_modifyHead]

theorem splitOther (noFeed : c ≠ '\n') (rest : List Char) :
    (c :: rest).splitOnP (· == '\n') = (rest.splitOnP (· == '\n')).modifyHead (List.cons c) := by
  simp [List.splitOnP_cons_eq_if_modifyHead, noFeed]

theorem dropReturnCons (c d : Char) (line : List Char) :
    dropReturn (c :: d :: line) = c :: dropReturn (d :: line) := by
  simp only [dropReturn, List.getLast?_cons_cons, List.dropLast_cons_cons]
  split <;> rfl

theorem linesFeed (rest : List Char) : lines ('\n' :: rest) = [] :: lines rest := by
  obtain ⟨piece, pieces, split⟩ := piecesExist rest
  rw [lines, lines, splitFeed, split]
  rfl

theorem linesReturnFeed (rest : List Char) : lines (returnFeed ++ rest) = [] :: lines rest := by
  obtain ⟨piece, pieces, split⟩ := piecesExist rest
  rw [lines, lines, returnFeed, List.cons_append, splitOther (by decide), List.cons_append, List.nil_append,
    splitFeed, split]
  rfl

theorem linesOther (other : ¬ returnFeed <+: c :: rest) (noFeed : c ≠ '\n') :
    lines (c :: rest) = (c :: (lines rest).headD []) :: (lines rest).tail := by
  cases rest with
  | nil => simp [lines, splitOther noFeed, linesOfPieces]
  | cons d rest =>
    obtain ⟨piece, pieces, split⟩ := piecesExist rest
    by_cases feed : d = '\n'
    · subst feed
      have noReturn : c ≠ '\r' := by
        rintro rfl
        exact other (List.prefix_append returnFeed rest)
      rw [linesFeed, lines, splitOther noFeed, splitFeed, lines, split]
      simp [linesOfPieces, dropReturn, noReturn]
    · rw [lines, lines, splitOther noFeed, splitOther feed, split, List.modifyHead_cons, List.modifyHead_cons]
      cases pieces with
      | nil => rfl
      | cons next pieces => rw [linesOfPieces, linesOfPieces, dropReturnCons, List.headD_cons, List.tail_cons]

theorem linesNone : lines text = [] ↔ text = [] := by
  refine ⟨fun none => ?_, fun empty => by rw [empty]; rfl⟩
  cases text with
  | nil => rfl
  | cons c rest =>
    by_cases feed : c = '\n'
    · rw [feed, linesFeed] at none
      cases none
    by_cases other : returnFeed <+: c :: rest
    · obtain ⟨behind, whole⟩ := other
      rw [← whole, linesReturnFeed] at none
      cases none
    · rw [linesOther other feed] at none
      cases none

theorem joinBehindFeed (rest : List Char) :
    joinLines ([] :: lines rest) = if rest = [] then [] else '\n' :: joinLines (lines rest) := by
  cases shape : lines rest with
  | nil => simp [linesNone.mp shape, joinLines]
  | cons line others =>
    have some : rest ≠ [] := fun empty => by simp [linesNone.mpr empty] at shape
    simp [joinLines, some]

theorem joinBehindOther (c : Char) (ls : List (List Char)) :
    joinLines ((c :: ls.headD []) :: ls.tail) = c :: joinLines ls := by
  match ls with
  | [] => rfl
  | [line] => simp [joinLines]
  | line :: next :: others => simp [joinLines]

theorem lastFeedCons (c : Char) (text : List Char) :
    withoutLastFeed (c :: text) = if text = [] ∧ c = '\n' then [] else c :: withoutLastFeed text := by
  cases text with
  | nil => by_cases feed : c = '\n' <;> simp [withoutLastFeed, feed]
  | cons d text =>
    simp only [withoutLastFeed, List.getLast?_cons_cons, List.dropLast_cons_cons]
    split <;> simp

theorem substituteNone : substitute returnFeed ['\n'] text = [] ↔ text = [] := by
  induction text using scanned (show returnFeed ≠ [] by decide) with
  | done => simp [substitute, substituteAfter]
  | found rest ih =>
    rw [substituteFound (by decide)]
    simp [returnFeed]
  | other c rest other ih => simp [substituteOther other]

theorem joinedLines (text : List Char) :
    joinLines (lines text) = withoutLastFeed (substitute returnFeed ['\n'] text) := by
  induction text using scanned (show returnFeed ≠ [] by decide) with
  | done => rfl
  | found rest ih =>
    rw [linesReturnFeed, joinBehindFeed, substituteFound (by decide), List.singleton_append, lastFeedCons, ih]
    simp [substituteNone]
  | other c rest other ih =>
    rw [substituteOther other, lastFeedCons, ← ih]
    by_cases feed : c = '\n'
    · rw [feed, linesFeed, joinBehindFeed]
      simp [substituteNone]
    · rw [linesOther other feed, joinBehindOther, if_neg fun last => feed last.2]

theorem unbrokenSubstitute (text : List Char) :
    unbroken (substitute returnFeed ['\n'] text) = unbroken text := by
  induction text using scanned (show returnFeed ≠ [] by decide) with
  | done => rfl
  | found rest ih =>
    rw [substituteFound (by decide), unbroken, List.filter_append, unbroken, List.filter_append]
    exact congrArg ([] ++ ·) ih
  | other c rest other ih =>
    simp only [unbroken] at ih ⊢
    rw [substituteOther other, List.filter_cons, List.filter_cons, ih]

theorem unbrokenLastFeed (text : List Char) : unbroken (withoutLastFeed text) = unbroken text := by
  unfold withoutLastFeed
  split
  · next last =>
    obtain ⟨front, rfl⟩ := List.getLast?_eq_some_iff.mp last
    simp [unbroken]
  · rfl

theorem unbrokenJoined (text : List Char) : unbroken (joinLines (lines text)) = unbroken text := by
  rw [joinedLines, unbrokenLastFeed, unbrokenSubstitute]

theorem blankUnbroken : blank (unbroken text) = true ↔ blank text = true := by
  simp only [blank, List.all_eq_true]
  constructor
  · intro solid c inside
    by_cases back : c = '\r'
    · rw [back]
      decide
    by_cases feed : c = '\n'
    · rw [feed]
      decide
    · exact solid c (List.mem_filter.mpr ⟨inside, by simp [back, feed]⟩)
  · exact fun all c inside => all c (List.mem_filter.mp inside).1

theorem blankJoined (text : List Char) : blank (joinLines (lines text)) = true ↔ blank text = true := by
  rw [← blankUnbroken, unbrokenJoined, blankUnbroken]

end BuildReuse.Text
