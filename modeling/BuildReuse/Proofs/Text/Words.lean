import Mathlib.Data.List.TakeWhile
import BuildReuse.Text.Blank

/-! The words of a text are its longest runs without a blank: before each of them and behind the
last one there are only blanks, and right behind each of them a blank or the end of the text. -/
namespace BuildReuse.Text

inductive Worded : List Char → List (List Char) → Prop where
  | done {space} (gap : blank space = true) : Worded space []
  | next {space word rest words} (gap : blank space = true) (some : word ≠ [])
      (solid : ∀ c ∈ word, isBlank c = false) (ends : ∀ c ∈ rest.head?, isBlank c = true)
      (onward : Worded rest words) : Worded (space ++ word ++ rest) (word :: words)

variable {c : Char} {text word rest : List Char} {ws : List (List Char)}

theorem wordsSplit (gap : isBlank c = true) (text rest : List Char) :
    words (text ++ c :: rest) = words text ++ words rest := by
  simp only [words, List.splitOnP_append_cons text rest gap, List.filter_append]

theorem wordsBehind (gap : isBlank c = true) (text : List Char) : words (c :: text) = words text := by
  rw [← List.nil_append (c :: text), wordsSplit gap]
  simp [words]

theorem wordsSpaced {space : List Char} (gap : blank space = true) (text : List Char) :
    words (space ++ text) = words text := by
  induction space with
  | nil => rfl
  | cons c space ih =>
    have both : isBlank c = true ∧ blank space = true := by simpa [blank] using gap
    rw [List.cons_append, wordsBehind both.1, ih both.2]

theorem wordsWhole (some : word ≠ []) (solid : ∀ c ∈ word, isBlank c = false) : words word = [word] := by
  simp [words, List.splitOnP_eq_singleton solid, some]

theorem wordsNext (some : word ≠ []) (solid : ∀ c ∈ word, isBlank c = false)
    (ends : ∀ c ∈ rest.head?, isBlank c = true) : words (word ++ rest) = word :: words rest := by
  cases rest with
  | nil =>
    rw [List.append_nil, wordsWhole some solid]
    simp [words]
  | cons c rest =>
    have gap := ends c rfl
    rw [wordsSplit gap, wordsWhole some solid, wordsBehind gap, List.singleton_append]

theorem Worded.behind (gap : isBlank c = true) (worded : Worded text ws) : Worded (c :: text) ws := by
  cases worded with
  | done blank => exact .done (by simp [Text.blank, gap, show text.all isBlank = true from blank])
  | @next space word rest words blank some solid ends onward =>
    exact show Worded ((c :: space) ++ word ++ rest) _ from
      .next (by simp [Text.blank, gap, show space.all isBlank = true from blank]) some solid ends onward

theorem worded (text : List Char) : Worded text (words text) := by
  induction length : text.length using Nat.strongRecOn generalizing text with
  | _ n ih =>
    subst length
    cases text with
    | nil => exact .done rfl
    | cons c text =>
      cases gap : isBlank c with
      | true =>
        rw [wordsBehind gap]
        exact (ih _ (Nat.lt_succ_self _) text rfl).behind gap
      | false =>
        let solid := text.takeWhile fun c => !isBlank c
        let behind := text.dropWhile fun c => !isBlank c
        have cut : c :: text = [] ++ (c :: solid) ++ behind := by simp [solid, behind]
        have run : ∀ d ∈ c :: solid, isBlank d = false :=
          List.forall_mem_cons.mpr ⟨gap, fun d inside => by simpa using List.mem_takeWhile_imp inside⟩
        have ends : ∀ d ∈ behind.head?, isBlank d = true := by
          intro d first
          have stopped := List.head?_dropWhile_not (fun c => !isBlank c) text
          rw [show (text.dropWhile fun c => !isBlank c).head? = some d from first] at stopped
          simpa using stopped
        have shorter : behind.length < (c :: text).length :=
          Nat.lt_succ_of_le (List.length_dropWhile_le ..)
        rw [cut, List.nil_append, wordsNext (by simp) run ends]
        exact show Worded ([] ++ (c :: solid) ++ behind) _ from
          .next rfl (by simp) run ends (ih _ shorter behind rfl)

theorem wordedIff : Worded text ws ↔ words text = ws := by
  constructor
  · intro runs
    induction runs with
    | @done space gap =>
      rw [← List.append_nil space, wordsSpaced gap]
      simp [words]
    | next gap some solid ends _ ih => rw [List.append_assoc, wordsSpaced gap, wordsNext some solid ends, ih]
  · rintro rfl
    exact worded text

theorem wordless : words text = [] ↔ blank text = true := by
  rw [← wordedIff]
  constructor
  · intro runs
    cases runs with
    | done gap => exact gap
  · exact .done

end BuildReuse.Text
