import BuildReuse.Text.Substitute
import Mathlib.Data.List.Infix
import Mathlib.Data.List.Count

/-! A text as pieces: marks, and the characters between them. Two substitutions one behind the
other come to the same as both at once exactly if the first makes no mark for the second. -/
namespace BuildReuse.Text

inductive Piece where
  | mark (text : List Char)
  | plain (c : Char)
  deriving DecidableEq, Repr

inductive Reads (marks : List (List Char)) : List Char → List Piece → Prop where
  | done : Reads marks [] []
  | mark {m rest pieces} (known : m ∈ marks) (onward : Reads marks rest pieces) :
      Reads marks (m ++ rest) (.mark m :: pieces)
  | plain {c rest pieces} (other : ∀ m ∈ marks, ¬ m <+: c :: rest) (onward : Reads marks rest pieces) :
      Reads marks (c :: rest) (.plain c :: pieces)

def count (pattern : List Char) : List Char → Nat
  | [] => 0
  | c :: rest => count pattern rest + if pattern.isPrefixOf (c :: rest) then 1 else 0

variable {marks : List (List Char)} {pattern new text rest : List Char} {pieces : List Piece} {c : Char}

theorem occursIff : occurs pattern text = true ↔ pattern <:+: text := by
  induction text with
  | nil => simp [occurs]
  | cons c rest ih => simp [occurs, ih, List.infix_cons_iff]

theorem countNone (some : pattern ≠ []) (none : count pattern text = 0) : occurs pattern text = false := by
  induction text with
  | nil => simpa [occurs] using some
  | cons c rest ih =>
    simp only [count, Nat.add_eq_zero_iff] at none
    simpa [occurs, ih none.1, List.isPrefixOf_iff_prefix, Bool.eq_false_iff] using none.2

theorem readsExist (filled : ∀ m ∈ marks, m ≠ []) (text : List Char) : ∃ pieces, Reads marks text pieces := by
  induction size : text.length using Nat.strongRecOn generalizing text with
  | ind n ih =>
    by_cases begun : ∃ m ∈ marks, m <+: text
    · obtain ⟨m, known, rest, rfl⟩ := begun
      have shorter : rest.length < n := by
        have := List.length_pos_of_ne_nil (filled m known)
        simp only [List.length_append] at size
        omega
      obtain ⟨pieces, onward⟩ := ih _ shorter rest rfl
      exact ⟨_, .mark known onward⟩
    · cases text with
      | nil => exact ⟨[], .done⟩
      | cons c rest =>
        obtain ⟨pieces, onward⟩ := ih rest.length (by rw [← size]; exact Nat.lt_succ_self _) rest rfl
        exact ⟨_, .plain (fun m known begins => begun ⟨m, known, begins⟩) onward⟩

theorem Reads.unique (filled : ∀ m ∈ marks, m ≠ []) (apart : ∀ m ∈ marks, ∀ n ∈ marks, m <+: n → m = n)
    (reads : Reads marks text pieces) {others : List Piece} (again : Reads marks text others) :
    others = pieces := by
  induction reads generalizing others with
  | done =>
    generalize whole : ([] : List Char) = text at again
    cases again with
    | done => rfl
    | mark known => exact absurd (List.append_eq_nil_iff.mp whole.symm).1 (filled _ known)
    | plain => cases whole
  | @mark m rest pieces known onward ih =>
    generalize whole : m ++ rest = text at again
    cases again with
    | done => exact absurd (List.append_eq_nil_iff.mp whole).1 (filled m known)
    | @mark n rest' pieces' known' onward' =>
      have begins : m <+: n ++ rest' := ⟨rest, whole⟩
      obtain rfl : m = n := by
        rcases List.prefix_or_prefix_of_prefix begins (List.prefix_append n rest') with short | long
        · exact apart m known n known' short
        · exact (apart n known' m known long).symm
      cases List.append_cancel_left whole
      rw [ih onward']
    | plain other => exact absurd ⟨rest, whole⟩ (other m known)
  | @plain c rest pieces other onward ih =>
    generalize whole : c :: rest = text at again
    cases again with
    | done => cases whole
    | @mark n rest' _ known => exact absurd ⟨rest', whole.symm⟩ (other n known)
    | plain _ onward' =>
      cases whole
      rw [ih onward']

theorem substituteAfterDrop (skip : Nat) (text : List Char) :
    substituteAfter pattern new skip text = substitute pattern new (text.drop skip) := by
  induction text generalizing skip with
  | nil => simp [substitute, substituteAfter]
  | cons c rest ih =>
    cases skip with
    | zero => rfl
    | succ skip => exact ih skip

theorem substituteFound (some : pattern ≠ []) (rest : List Char) :
    substitute pattern new (pattern ++ rest) = new ++ substitute pattern new rest := by
  obtain ⟨c, more, rfl⟩ := List.exists_cons_of_ne_nil some
  have begins : (c :: more).isPrefixOf (c :: (more ++ rest)) = true := by simp
  rw [substitute, List.cons_append, substituteAfter, if_pos begins, substituteAfterDrop]
  simp

theorem substituteOther (other : ¬ pattern <+: c :: rest) :
    substitute pattern new (c :: rest) = c :: substitute pattern new rest := by
  rw [substitute, substituteAfter, if_neg (by simpa using other)]
  rfl

theorem countOther (other : ¬ pattern <+: c :: rest) : count pattern (c :: rest) = count pattern rest := by
  simp [count, other]

theorem scanned {holds : List Char → Prop} (some : pattern ≠ []) (done : holds [])
    (found : ∀ rest, holds rest → holds (pattern ++ rest))
    (other : ∀ c rest, ¬ pattern <+: c :: rest → holds rest → holds (c :: rest)) (text : List Char) : holds text := by
  have filled : ∀ m ∈ [pattern], m ≠ [] := by simpa using some
  obtain ⟨pieces, reads⟩ := readsExist filled text
  induction reads with
  | done => exact done
  | mark known onward ih =>
    cases List.mem_singleton.mp known
    exact found _ ih
  | plain none onward ih => exact other _ _ (none _ (List.mem_singleton.mpr rfl)) ih

section

variable {o : Char} {inner seg : List Char}

theorem substituteBefore (without : o ∉ seg) (rest : List Char) :
    substitute (o :: inner) new (seg ++ rest) = seg ++ substitute (o :: inner) new rest := by
  induction seg with
  | nil => rfl
  | cons c seg ih =>
    simp only [List.mem_cons, not_or] at without
    have other : ¬ o :: inner <+: c :: (seg ++ rest) := by simp [List.cons_prefix_cons, without.1]
    rw [List.cons_append, substituteOther other, ih without.2, List.cons_append]

theorem countBefore (without : o ∉ seg) (rest : List Char) :
    count (o :: inner) (seg ++ rest) = count (o :: inner) rest := by
  induction seg with
  | nil => rfl
  | cons c seg ih =>
    simp only [List.mem_cons, not_or] at without
    have other : ¬ o :: inner <+: c :: (seg ++ rest) := by simp [List.cons_prefix_cons, without.1]
    rw [List.cons_append, countOther other, ih without.2]

theorem countFound (once : o ∉ inner) (rest : List Char) :
    count (o :: inner) (o :: inner ++ rest) = count (o :: inner) rest + 1 := by
  have begins : (o :: inner).isPrefixOf (o :: (inner ++ rest)) = true := by simp
  rw [List.cons_append, count, if_pos begins, countBefore once]

theorem prefixWithin (once : o ∉ inner) (opens : ∀ c ∈ rest.head?, c = o) (some : seg ≠ [])
    (begins : o :: inner <+: seg ++ rest) : o :: inner <+: seg := by
  rcases List.prefix_or_prefix_of_prefix begins (List.prefix_append seg rest) with within | ⟨last, whole⟩
  · exact within
  cases last with
  | nil => exact ⟨[], by rw [← whole]; simp⟩
  | cons c last =>
    rw [← whole, List.prefix_append_right_inj] at begins
    obtain ⟨behind, rfl⟩ := begins
    have own : c = o := opens c rfl
    obtain ⟨first, seg, rfl⟩ := List.exists_cons_of_ne_nil some
    have inside : c ∈ inner := by
      rw [← (List.cons.inj whole).2]
      simp
    exact absurd (own ▸ inside) once

variable (once : o ∉ inner)

include once

theorem substituteAppend (opens : ∀ c ∈ rest.head?, c = o) (seg : List Char) :
    substitute (o :: inner) new (seg ++ rest) =
      substitute (o :: inner) new seg ++ substitute (o :: inner) new rest := by
  induction seg using scanned (List.cons_ne_nil o inner) with
  | done => rfl
  | found seg ih =>
    rw [List.append_assoc, substituteFound (List.cons_ne_nil _ _), substituteFound (List.cons_ne_nil _ _), ih,
      List.append_assoc]
  | other c seg other ih =>
    have still : ¬ o :: inner <+: c :: (seg ++ rest) := fun begins =>
      other (prefixWithin once opens (List.cons_ne_nil _ _) begins)
    rw [List.cons_append, substituteOther still, substituteOther other, ih, List.cons_append]

theorem countAppend (opens : ∀ c ∈ rest.head?, c = o) (seg : List Char) :
    count (o :: inner) (seg ++ rest) = count (o :: inner) seg + count (o :: inner) rest := by
  induction seg using scanned (List.cons_ne_nil o inner) with
  | done => simp [count]
  | found seg ih =>
    rw [List.append_assoc, countFound once, countFound once, ih]
    omega
  | other c seg other ih =>
    have still : ¬ o :: inner <+: c :: (seg ++ rest) := fun begins =>
      other (prefixWithin once opens (List.cons_ne_nil _ _) begins)
    rw [List.cons_append, countOther still, countOther other, ih]

theorem substituteLength (new text : List Char) :
    (substitute (o :: inner) new text).length + count (o :: inner) text * (o :: inner).length =
      text.length + count (o :: inner) text * new.length := by
  induction text using scanned (List.cons_ne_nil o inner) with
  | done => simp [substitute, substituteAfter, count]
  | found rest ih =>
    rw [substituteFound (List.cons_ne_nil _ _), countFound once, List.length_append, List.length_append,
      Nat.add_mul, Nat.add_mul]
    omega
  | other c rest other ih =>
    rw [substituteOther other, countOther other]
    simp only [List.length_cons] at ih ⊢
    omega

omit once

theorem substituteSelf (text : List Char) : substitute (o :: inner) (o :: inner) text = text := by
  induction text using scanned (List.cons_ne_nil o inner) with
  | done => rfl
  | found rest ih => rw [substituteFound (List.cons_ne_nil _ _), ih]
  | other c rest other ih => rw [substituteOther other, ih]

theorem substituteStill (sized : new.length = (o :: inner).length)
    (still : substitute (o :: inner) new text = text) : new = o :: inner ∨ count (o :: inner) text = 0 := by
  induction text using scanned (List.cons_ne_nil o inner) with
  | done => exact .inr rfl
  | found rest =>
    rw [substituteFound (List.cons_ne_nil _ _)] at still
    exact .inl (List.append_inj still sized).1
  | other c rest other ih =>
    rw [substituteOther other] at still
    rw [countOther other]
    exact ih (List.cons.inj still).2

end

section

variable {o : Char} {inner : List Char} {f : Piece → List Char}

def instead (m new : List Char) (f : Piece → List Char) (piece : Piece) : List Char :=
  if piece = .mark m then new else f piece

theorem insteadSelf (own : f (.mark pattern) = pattern) : instead pattern pattern f = f := by
  funext piece
  unfold instead
  split
  · next same => rw [same, own]
  · rfl

theorem insteadLength (own : f (.mark pattern) = pattern) (new : List Char) (pieces : List Piece) :
    (pieces.flatMap (instead pattern new f)).length + pieces.count (.mark pattern) * pattern.length =
      (pieces.flatMap f).length + pieces.count (.mark pattern) * new.length := by
  induction pieces with
  | nil => simp
  | cons piece pieces ih =>
    simp only [List.flatMap_cons, List.length_append]
    by_cases mark : piece = .mark pattern
    · rw [mark, List.count_cons_self, instead, if_pos rfl, own, Nat.add_mul, Nat.add_mul]
      omega
    · rw [List.count_cons_of_ne mark, instead, if_neg mark]
      omega

variable (once : o ∉ inner) (own : f (.mark (o :: inner)) = o :: inner)

include once own

theorem countParted (seg : List Char) (pieces : List Piece) :
    count (o :: inner) (seg ++ (Piece.mark (o :: inner) :: pieces).flatMap f) =
      count (o :: inner) seg + (count (o :: inner) (pieces.flatMap f) + 1) := by
  rw [List.flatMap_cons, own, countAppend once (by simp), countFound once]

theorem substituteParted (seg : List Char) (pieces : List Piece) :
    substitute (o :: inner) new (seg ++ (Piece.mark (o :: inner) :: pieces).flatMap f) =
      substitute (o :: inner) new seg ++ (new ++ substitute (o :: inner) new (pieces.flatMap f)) := by
  rw [List.flatMap_cons, own, substituteAppend once (by simp),
    substituteFound (List.cons_ne_nil _ _)]

theorem countLeft (seg : List Char) (pieces : List Piece) :
    pieces.count (.mark (o :: inner)) ≤ count (o :: inner) (seg ++ pieces.flatMap f) := by
  induction pieces generalizing seg with
  | nil => exact Nat.zero_le _
  | cons piece pieces ih =>
    by_cases mark : piece = .mark (o :: inner)
    · have rest := ih []
      rw [List.nil_append] at rest
      rw [mark, List.count_cons_self, countParted once own]
      omega
    · rw [List.count_cons_of_ne mark, List.flatMap_cons, ← List.append_assoc]
      exact ih (seg ++ f piece)

theorem substituteLeft (seg : List Char)
    (left : count (o :: inner) (seg ++ pieces.flatMap f) = pieces.count (.mark (o :: inner))) :
    substitute (o :: inner) new (seg ++ pieces.flatMap f) = seg ++ pieces.flatMap (instead (o :: inner) new f) := by
  induction pieces generalizing seg with
  | nil =>
    simp only [List.flatMap_nil, List.append_nil, List.count_nil] at left ⊢
    exact substituteAbsent (countNone (List.cons_ne_nil _ _) left)
  | cons piece pieces ih =>
    by_cases mark : piece = .mark (o :: inner)
    · have least := countLeft once own [] pieces
      rw [List.nil_append] at least
      rw [mark, List.count_cons_self, countParted once own] at left
      have first : substitute (o :: inner) new seg = seg :=
        substituteAbsent (countNone (List.cons_ne_nil _ _) (by omega))
      have second := ih [] (by rw [List.nil_append]; omega)
      rw [List.nil_append, List.nil_append] at second
      rw [mark, substituteParted once own, first, second, List.flatMap_cons, instead, if_pos rfl]
    · rw [List.count_cons_of_ne mark, List.flatMap_cons, ← List.append_assoc] at left
      rw [List.flatMap_cons, ← List.append_assoc, ih _ left, List.flatMap_cons, instead, if_neg mark,
        List.append_assoc]

theorem substituteSized (sized : new.length = (o :: inner).length) (seg : List Char)
    (same : substitute (o :: inner) new (seg ++ pieces.flatMap f) =
      seg ++ pieces.flatMap (instead (o :: inner) new f)) :
    new = o :: inner ∨ count (o :: inner) (seg ++ pieces.flatMap f) = pieces.count (.mark (o :: inner)) := by
  induction pieces generalizing seg with
  | nil =>
    simp only [List.flatMap_nil, List.append_nil, List.count_nil] at same ⊢
    exact substituteStill sized same
  | cons piece pieces ih =>
    by_cases mark : piece = .mark (o :: inner)
    · rw [mark, substituteParted once own, List.flatMap_cons, instead, if_pos rfl] at same
      have lengths := substituteLength once new seg
      rw [sized] at lengths
      obtain ⟨first, second⟩ := List.append_inj same (Nat.add_right_cancel lengths)
      rw [mark, List.count_cons_self, countParted once own]
      rcases substituteStill sized first with equal | before
      · exact .inl equal
      rcases ih [] (by simpa using List.append_cancel_left second) with equal | behind
      · exact .inl equal
      rw [List.nil_append] at behind
      exact .inr (by omega)
    · rw [List.count_cons_of_ne mark, List.flatMap_cons, ← List.append_assoc]
      rw [List.flatMap_cons, ← List.append_assoc, List.flatMap_cons, instead, if_neg mark, ← List.append_assoc] at same
      exact ih _ same

theorem substituteInstead (new : List Char) (pieces : List Piece) :
    substitute (o :: inner) new (pieces.flatMap f) = pieces.flatMap (instead (o :: inner) new f) ↔
      new = o :: inner ∨ count (o :: inner) (pieces.flatMap f) = pieces.count (.mark (o :: inner)) := by
  constructor
  · intro same
    by_cases sized : new.length = (o :: inner).length
    · exact substituteSized once own sized [] same
    -- each mark that came about makes the text longer or shorter
    · have found := substituteLength once new (pieces.flatMap f)
      have left := insteadLength own new pieces
      rw [same] at found
      obtain ⟨more, total⟩ := Nat.exists_eq_add_of_le (countLeft once own [] pieces)
      rw [List.nil_append] at total
      rw [total, Nat.add_mul, Nat.add_mul] at found
      have balance : more * new.length = more * (o :: inner).length := by omega
      rcases Nat.eq_zero_or_pos more with none | some
      · exact .inr (by rw [total, none, Nat.add_zero])
      · exact absurd (Nat.eq_of_mul_eq_mul_left some balance) sized
  · rintro (rfl | left)
    · rw [insteadSelf own, substituteSelf]
    · exact substituteLeft once own [] left

end

end BuildReuse.Text
