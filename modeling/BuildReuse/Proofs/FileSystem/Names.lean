import BuildReuse.FileSystem.Resolve
import Mathlib.Data.List.Basic

/-! The names of directory entries, and the paths that they make up. A name is a piece
of a path by itself, so the canonical path of a node tells the names on the way to it. -/
namespace BuildReuse

structure IsName (name : String) : Prop where
  filled : name ≠ ""
  whole : '/' ∉ name.toList
  notHere : name ≠ "."
  notUp : name ≠ ".."

instance (name : String) : Decidable (IsName name) :=
  decidable_of_iff (name ≠ "" ∧ '/' ∉ name.toList ∧ name ≠ "." ∧ name ≠ "..")
    ⟨fun ⟨filled, whole, notHere, notUp⟩ => ⟨filled, whole, notHere, notUp⟩,
      fun isName => ⟨isName.filled, isName.whole, isName.notHere, isName.notUp⟩⟩

namespace Path

variable {p q : Path} {name : String}

theorem splitName (isName : IsName name) : name.toList.splitOnP (· == '/') = [name.toList] := by
  refine List.splitOnP_eq_singleton fun c inside => beq_eq_false_iff_ne.mpr ?_
  rintro rfl
  exact isName.whole inside

theorem nameRelative (isName : IsName name) : (Path.mk name).isAbsolute = false := by
  unfold isAbsolute
  cases first : name.toList with
  | nil => rfl
  | cons c rest =>
    have other : c ≠ '/' := fun same => isName.whole (by simp [first, same])
    simp [other]

def slash (p : Path) : List Char := if p.text.isEmpty || p.endsInSlash then [] else ['/']

theorem joinRelative (relative : (Path.mk name).isAbsolute = false) :
    (p.join name).text.toList = p.text.toList ++ p.slash ++ name.toList := by
  unfold join slash
  rw [if_neg (by simp [relative])]
  split <;> simp

theorem piecesJoin (filled : p.text ≠ "") (isName : IsName name) :
    (p.join name).pieces = p.pieces ++ [name] := by
  have some : name.toList.isEmpty = false := by simpa using isName.filled
  unfold pieces
  rw [joinRelative (nameRelative isName), slash]
  by_cases ends : p.endsInSlash
  · obtain ⟨before, text⟩ : ∃ before, p.text.toList = before ++ ['/'] := by
      rw [endsInSlash, beq_iff_eq, List.getLast?_eq_some_iff] at ends
      exact ends
    rw [if_pos (by simp [ends]), text, List.append_nil, List.append_assoc, List.singleton_append,
      List.splitOnP_append_cons _ _ (by decide), List.splitOnP_append_cons _ _ (by decide)]
    simp [splitName isName, some]
  · rw [if_neg (by simp [filled, ends]), List.append_assoc, List.singleton_append,
      List.splitOnP_append_cons _ _ (by decide)]
    simp [splitName isName, some]

theorem joinUnended (isName : IsName name) : (p.join name).endsInSlash = false := by
  rw [endsInSlash, joinRelative (nameRelative isName), List.getLast?_append]
  cases last : name.toList.getLast? with
  | none => exact (isName.filled (by simpa using last)).elim
  | some c =>
    have other : c ≠ '/' := by
      rintro rfl
      exact isName.whole (List.mem_of_getLast? last)
    simp [other]

theorem unendedWithoutSlash (unended : p.endsInSlash = false) : p.withoutFinalSlash = p := by
  have text : p.text.toList.reverse.dropWhile (· == '/') = p.text.toList.reverse := by
    rw [endsInSlash, ← List.head?_reverse] at unended
    cases whole : p.text.toList.reverse with
    | nil => rfl
    | cons c rest =>
      have other : (c == '/') = false := by simpa [whole] using unended
      rw [List.dropWhile_cons, other]
      rfl
  rw [withoutFinalSlash, text, List.reverse_reverse, String.ofList_toList]

theorem joinWithoutSlash (isName : IsName name) : (p.join name).withoutFinalSlash = p.join name :=
  unendedWithoutSlash (joinUnended isName)

theorem absoluteJoin (filled : q.text ≠ "") (isName : IsName name) :
    (q.join name).isAbsolute = q.isAbsolute := by
  rw [isAbsolute, joinRelative (nameRelative isName), isAbsolute]
  cases text : q.text.toList with
  | nil => exact (filled (by simpa using text)).elim
  | cons c rest => rfl

theorem joinedFilled (filled : q.text ≠ "") : (p.join q.text).text ≠ "" := by
  unfold join
  split
  · exact filled
  · split <;> simp [filled]

theorem joinedEnds (filled : q.text ≠ "") : (p.join q.text).endsInSlash = q.endsInSlash := by
  cases absolute : q.isAbsolute with
  | true =>
    have own : p.join q.text = q := by rw [join, if_pos absolute]
    rw [own]
  | false =>
    have text := joinRelative (p := p) absolute
    cases last : q.text.toList.getLast? with
    | none => exact (filled (by simpa using last)).elim
    | some c =>
      rw [endsInSlash, text, List.getLast?_append, endsInSlash, last]
      rfl

theorem slashJoin (filled : q.text ≠ "") : (p.join q.text).slash = q.slash := by
  have nonempty : (p.join q.text).text ≠ "" := joinedFilled filled
  simp [slash, joinedEnds filled, nonempty, filled]

theorem joinJoin (filled : q.text ≠ "") (isName : IsName name) :
    p.join (q.join name).text = (p.join q.text).join name := by
  have sameAbsolute := absoluteJoin filled isName
  cases absolute : q.isAbsolute with
  | true =>
    have own {x : Path} (h : x.isAbsolute = true) : p.join x.text = x := by rw [join, if_pos h]
    rw [own (sameAbsolute.trans absolute), own absolute]
  | false =>
    have relative : (Path.mk (q.join name).text).isAbsolute = false := sameAbsolute.trans absolute
    have text : (p.join (q.join name).text).text.toList = ((p.join q.text).join name).text.toList := by
      rw [joinRelative relative, joinRelative (nameRelative isName),
        joinRelative (nameRelative isName), joinRelative absolute, slashJoin filled]
      simp only [List.append_assoc]
    exact congrArg Path.mk (String.toList_injective text)

theorem joinInjective (isName : IsName name) {name' : String} (isName' : IsName name')
    (same : p.join name = p.join name') : name = name' := by
  have text := congrArg (fun x => x.text.toList) same
  simp only [joinRelative (nameRelative isName), joinRelative (nameRelative isName')] at text
  exact String.toList_injective (List.append_cancel_left text)

theorem ofNamesAbsolute (names : List String) : (ofNames names).isAbsolute = true := by
  simp [isAbsolute, ofNames]

theorem piecesOfNames {names : List String} (areNames : ∀ name ∈ names, IsName name) :
    (Path.ofNames names).pieces = names := by
  have slashFree : ∀ piece ∈ names.map String.toList, '/' ∉ piece := by
    simpa using fun name member => (areNames name member).whole
  have kept : (names.map String.toList).filter (fun piece => !piece.isEmpty) = names.map String.toList := by
    rw [List.filter_eq_self]
    simpa using fun name member => (areNames name member).filled
  have text : (Path.ofNames names).text.toList = [] ++ '/' :: ['/'].intercalate (names.map String.toList) := by
    simp [ofNames]
  rw [pieces, text, List.splitOnP_append_cons _ _ (by decide), List.splitOnP_nil]
  by_cases none : names = []
  · subst none
    rfl
  · have split := List.splitOn_intercalate '/' slashFree (by simpa using none)
    rw [List.splitOn] at split
    rw [split, List.singleton_append, List.filter_cons_of_neg (by simp), kept, List.map_map]
    simp [Function.comp_def]

theorem componentsNamed {names : List String} (areNames : ∀ name ∈ names, IsName name) :
    names.filterMap componentOf? = names.map .name := by
  rw [← List.filterMap_eq_map]
  refine List.filterMap_congr fun name member => ?_
  rw [componentOf?, if_neg (areNames name member).notHere, if_neg (areNames name member).notUp]
  rfl

theorem componentsOfNames {names : List String} (areNames : ∀ name ∈ names, IsName name) :
    (Path.ofNames names).components = .root :: names.map .name := by
  rw [components, if_pos (ofNamesAbsolute names), piecesOfNames areNames, componentsNamed areNames]

theorem splitPieces (text : List Char) : ∀ piece ∈ text.splitOnP (· == '/'), '/' ∉ piece := by
  induction text with
  | nil => simp [List.splitOnP_nil]
  | cons c rest ih =>
    rw [List.splitOnP_cons_eq_if_modifyHead]
    split
    · intro piece member
      rcases List.mem_cons.mp member with rfl | later
      · exact List.not_mem_nil
      · exact ih piece later
    · rename_i other
      obtain ⟨first, more, pieces⟩ := List.exists_cons_of_ne_nil (List.splitOnP_ne_nil (· == '/') rest)
      rw [pieces] at ih ⊢
      intro piece member
      rw [List.modifyHead_cons] at member
      rcases List.mem_cons.mp member with rfl | later
      · have fresh := ih first List.mem_cons_self
        have differ : '/' ≠ c := fun same => other (beq_iff_eq.mpr same.symm)
        simp [differ, fresh]
      · exact ih piece (List.mem_cons_of_mem _ later)

theorem piecesWhole {p : Path} {piece : String} (member : piece ∈ p.pieces) :
    piece ≠ "" ∧ '/' ∉ piece.toList := by
  unfold pieces at member
  obtain ⟨chars, kept, rfl⟩ := List.mem_map.mp member
  obtain ⟨member, filled⟩ := List.mem_filter.mp kept
  refine ⟨?_, by simpa using splitPieces _ chars member⟩
  simpa using filled

end Path
end BuildReuse
