import BuildReuse.Proofs.Json.Written

/-! Passing over a value as a relation without a bound: which steps lead over it, inside which
frames. -/
namespace BuildReuse.Json

def Frame.opener : Frame → Char
  | list => '['
  | object => '\x7b'

inductive Pass : Bool → List Frame → List Char → List Char → Prop where
  | done {input} : Pass true [] input input
  | comma {frame frames input rest next final} (seen : skipSpace input = ',' :: rest)
      (named : skipName frame rest = .ok next) (onward : Pass false (frame :: frames) next final) :
      Pass true (frame :: frames) input final
  | close {frame frames input rest final} (seen : skipSpace input = frame.closer :: rest)
      (onward : Pass true frames rest final) : Pass true (frame :: frames) input final
  | empty {frame : Frame} {frames input rest behind final} (seen : skipSpace input = frame.opener :: rest)
      (closed : skipSpace rest = frame.closer :: behind) (onward : Pass true frames behind final) :
      Pass false frames input final
  | enter {frame : Frame} {frames input rest c more next final} (seen : skipSpace input = frame.opener :: rest)
      (filled : skipSpace rest = c :: more) (opens : c ≠ frame.closer) (named : skipName frame rest = .ok next)
      (onward : Pass false (frame :: frames) next final) : Pass false frames input final
  | scalar {frames input rest final} (other : ∀ (frame : Frame) rest, skipSpace input ≠ frame.opener :: rest)
      (passed : skipScalar (skipSpace input) = .ok rest) (onward : Pass true frames rest final) :
      Pass false frames input final

variable {frame : Frame} {frames : List Frame} {input rest next final : List Char} {behind : Bool} {bound : Nat}

theorem skipSpaceLength (input : List Char) : (skipSpace input).length ≤ input.length :=
  List.length_dropWhile_le ..

theorem seenLength {c : Char} (seen : skipSpace input = c :: rest) : rest.length < input.length := by
  have shorter := skipSpaceLength input
  rw [seen, List.length_cons] at shorter
  omega

theorem readWordLength {word : List Char} (read : readWord word input = .ok rest) : rest.length ≤ input.length := by
  induction word generalizing input with
  | nil => cases input <;> cases read <;> exact Nat.le_refl _
  | cons c word ih =>
    cases input with
    | nil => cases read
    | cons d input =>
      rw [readWord] at read
      split at read
      · exact Nat.le_succ_of_le (ih read)
      · cases read

theorem skipQuotedLength (skipped : skipQuoted input = .ok rest) : rest.length < input.length := by
  fun_induction skipQuoted input generalizing rest
  case case2 => cases skipped; exact Nat.lt_succ_self _
  case case4 ih | case7 ih | case10 ih =>
    have shorter := ih skipped
    simp only [List.length_cons]
    omega
  all_goals cases skipped

theorem digitsLength {found : List Char} (split : digits input = (found, rest)) :
    found.length + rest.length = input.length := by
  rw [digits, List.span_eq_takeWhile_dropWhile] at split
  cases split
  rw [← List.length_append, List.takeWhile_append_dropWhile]

theorem readExponentLength {n : Numeral} (read : readExponent input = .ok (n, rest)) :
    rest.length ≤ input.length := by
  revert read
  fun_cases readExponent input
  case case3 unsigned found behind empty unended split =>
    have shorter : unsigned.length ≤ input.length := by
      dsimp only [unsigned]
      split <;> simp
    rintro ⟨⟩
    have lengths := digitsLength split
    omega
  all_goals rintro ⟨⟩

theorem readFractionLength {n : Nat} {m : Numeral} (read : readFraction n input = .ok (m, rest)) :
    rest.length ≤ input.length := by
  revert read
  fun_cases readFraction n input
  case case3 split | case4 split =>
    intro read
    have shorter := readExponentLength read
    have lengths := digitsLength split
    simp only [List.length_cons] at lengths ⊢
    omega
  case case5 split =>
    rintro ⟨⟩
    have lengths := digitsLength split
    simp only [List.length_cons]
    omega
  case case6 | case7 => exact fun read => Nat.le_succ_of_le (readExponentLength read)
  case case8 =>
    rintro ⟨⟩
    exact Nat.le_refl _
  all_goals rintro ⟨⟩

theorem readUnsignedLength {n : Numeral} (read : readUnsigned input = .ok (n, rest)) :
    rest.length < input.length := by
  revert read
  fun_cases readUnsigned input
  case case4 some _ split =>
    intro read
    have shorter := readFractionLength read
    have lengths := digitsLength split
    have positive := List.length_pos_iff.mpr some
    omega
  all_goals rintro ⟨⟩

theorem readNumeralLength {n : Numeral} (read : readNumeral input = .ok (n, rest)) : rest.length < input.length := by
  revert read
  fun_cases readNumeral input with
  | case1 input =>
    intro read
    cases unsigned : readUnsigned input with
    | error e => simp [unsigned, Except.map] at read
    | ok found =>
      simp only [unsigned, Except.map, Except.ok.injEq, Prod.mk.injEq] at read
      have shorter := readUnsignedLength unsigned
      rw [read.2] at shorter
      exact Nat.lt_succ_of_lt shorter
  | case2 => exact readUnsignedLength

theorem skipScalarLength (passed : skipScalar input = .ok rest) : rest.length < input.length := by
  revert passed
  fun_cases skipScalar input
  case case2 | case3 | case4 => exact fun passed => Nat.lt_succ_of_le (readWordLength passed)
  case case5 => exact fun passed => Nat.lt_succ_of_lt (skipQuotedLength passed)
  case case6 read =>
    rintro ⟨⟩
    exact readNumeralLength read
  all_goals rintro ⟨⟩

theorem readColonLength (passed : readColon input = .ok rest) : rest.length < input.length := by
  revert passed
  fun_cases readColon input
  case case2 seen =>
    rintro ⟨⟩
    exact seenLength seen
  all_goals rintro ⟨⟩

theorem skipNameLength (named : skipName frame input = .ok rest) : rest.length ≤ input.length := by
  revert named
  fun_cases skipName frame input
  case case1 =>
    rintro ⟨⟩
    exact Nat.le_refl _
  case case3 quoted seen =>
    intro named
    cases skipped : skipQuoted quoted with
    | error e => simp [skipped, bind, Except.bind] at named
    | ok tail =>
      simp only [skipped, bind, Except.bind] at named
      have first := seenLength seen
      have second := skipQuotedLength skipped
      have third := readColonLength named
      omega
  all_goals rintro ⟨⟩

theorem enterFrameCases {onward : Bool → List Frame → List Char → Except Failure (List Char)}
    (entered : enterFrame onward frame frames rest = .ok final) :
    (∃ behind, skipSpace rest = frame.closer :: behind ∧ onward true frames behind = .ok final) ∨
    ∃ c more next, skipSpace rest = c :: more ∧ c ≠ frame.closer ∧ skipName frame rest = .ok next ∧
      onward false (frame :: frames) next = .ok final := by
  revert entered
  fun_cases enterFrame onward frame frames rest
  case case1 => rintro ⟨⟩
  case case2 behind seen => exact fun entered => .inl ⟨behind, seen, entered⟩
  case case3 c more seen opens =>
    intro entered
    cases named : skipName frame rest with
    | error e => simp [named, bind, Except.bind] at entered
    | ok next =>
      simp only [named, bind, Except.bind] at entered
      exact .inr ⟨c, more, next, seen, opens, rfl, entered⟩

theorem bindCases {ε α β : Type} {x : Except ε α} {f : α → Except ε β} {y : β} (told : x >>= f = .ok y) :
    ∃ a, x = .ok a ∧ f a = .ok y := by
  cases x with
  | error e => cases told
  | ok a => exact ⟨a, rfl, told⟩

theorem passOfFrame (seen : skipSpace input = frame.opener :: rest)
    (entered : enterFrame (skipWithin bound) frame frames rest = .ok final)
    (ih : ∀ {frames input behind}, skipWithin bound behind frames input = .ok final → Pass behind frames input final) :
    Pass false frames input final := by
  rcases enterFrameCases entered with ⟨behind, closed, onward⟩ | ⟨c, more, next, filled, opens, named, onward⟩
  · exact .empty seen closed (ih onward)
  · exact .enter seen filled opens named (ih onward)

theorem passOfSkip (skipped : skipWithin bound behind frames input = .ok final) :
    Pass behind frames input final := by
  induction bound generalizing behind frames input with
  | zero => cases skipped
  | succ bound ih =>
    cases behind with
    | true =>
      cases frames with
      | nil =>
        cases skipped
        exact .done
      | cons frame frames =>
        rw [skipWithin] at skipped
        split at skipped
        case h_1 => cases skipped
        case h_2 c rest seen =>
          split at skipped
          case isTrue comma =>
            subst comma
            obtain ⟨next, named, onward⟩ := bindCases skipped
            exact .comma seen named (ih onward)
          case isFalse =>
            split at skipped
            case isTrue closed =>
              subst closed
              exact .close seen (ih skipped)
            case isFalse => cases skipped
    | false =>
      rw [skipWithin] at skipped
      split at skipped
      case h_1 seen => exact passOfFrame (show _ = Frame.list.opener :: _ from seen) skipped ih
      case h_2 seen => exact passOfFrame (show _ = Frame.object.opener :: _ from seen) skipped ih
      case h_3 list object =>
        obtain ⟨rest, passed, onward⟩ := bindCases skipped
        refine .scalar (fun frame rest => ?_) passed (ih onward)
        cases frame with
        | list => exact list rest
        | object => exact object rest

theorem enterOfSeen (seen : skipSpace input = frame.opener :: rest) :
    skipWithin (bound + 1) false frames input = enterFrame (skipWithin bound) frame frames rest := by
  cases frame <;> simp [skipWithin, seen, Frame.opener]

theorem skipOfPass (pass : Pass behind frames input final) {bound : Nat}
    (enough : 2 * input.length + (if behind then 0 else 1) < bound) :
    skipWithin bound behind frames input = .ok final := by
  induction pass generalizing bound with
  | done =>
    obtain ⟨bound, rfl⟩ := Nat.exists_eq_succ_of_ne_zero (Nat.ne_zero_of_lt enough)
    rfl
  | @comma frame frames input rest next final seen named onward ih =>
    obtain ⟨bound, rfl⟩ := Nat.exists_eq_succ_of_ne_zero (Nat.ne_zero_of_lt enough)
    have shorter := seenLength seen
    have named' := skipNameLength named
    have later := @ih bound (by simp at enough ⊢; omega)
    simp [skipWithin, seen, named, bind, Except.bind, later]
  | @close frame frames input rest final seen onward ih =>
    obtain ⟨bound, rfl⟩ := Nat.exists_eq_succ_of_ne_zero (Nat.ne_zero_of_lt enough)
    have shorter := seenLength seen
    have later := @ih bound (by simp at enough ⊢; omega)
    have other : frame.closer ≠ ',' := by cases frame <;> decide
    simp [skipWithin, seen, other, later]
  | @empty frame frames input rest behind final seen closed onward ih =>
    obtain ⟨bound, rfl⟩ := Nat.exists_eq_succ_of_ne_zero (Nat.ne_zero_of_lt enough)
    have first := seenLength seen
    have second := seenLength closed
    have later := @ih bound (by simp at enough ⊢; omega)
    simp [enterOfSeen seen, enterFrame, closed, later]
  | @enter frame frames input rest c more next final seen filled opens named onward ih =>
    obtain ⟨bound, rfl⟩ := Nat.exists_eq_succ_of_ne_zero (Nat.ne_zero_of_lt enough)
    have shorter := seenLength seen
    have named' := skipNameLength named
    have later := @ih bound (by simp at enough ⊢; omega)
    simp [enterOfSeen seen, enterFrame, filled, opens, named, bind, Except.bind, later]
  | @scalar frames input rest final other passed onward ih =>
    obtain ⟨bound, rfl⟩ := Nat.exists_eq_succ_of_ne_zero (Nat.ne_zero_of_lt enough)
    have first := skipScalarLength passed
    have second := skipSpaceLength input
    have later := @ih bound (by simp at enough ⊢; omega)
    rw [skipWithin]
    split
    case h_1 rest list => exact absurd list (other .list rest)
    case h_2 rest object => exact absurd object (other .object rest)
    case h_3 => simp [passed, bind, Except.bind, later]

theorem skipValueIff : skipValue input = .ok rest ↔ Pass false [] input rest :=
  ⟨passOfSkip, fun pass => skipOfPass pass (by simp)⟩

theorem Pass.within (inner : Pass behind frames input rest) {outer : List Frame}
    (onward : Pass true outer rest final) : Pass behind (frames ++ outer) input final := by
  induction inner with
  | done => exact onward
  | comma seen named _ ih => exact .comma seen named (ih onward)
  | close seen _ ih => exact .close seen (ih onward)
  | empty seen closed _ ih => exact .empty seen closed (ih onward)
  | enter seen filled opens named _ ih => exact .enter seen filled opens named (ih onward)
  | scalar other passed _ ih => exact .scalar other passed (ih onward)

theorem Pass.spaced (pass : Pass false frames (skipSpace input) final) : Pass false frames input final := by
  have twice := skipSpaceTwice input
  cases pass with
  | empty seen closed onward => exact .empty (twice ▸ seen) closed onward
  | enter seen filled opens named onward => exact .enter (twice ▸ seen) filled opens named onward
  | scalar other passed onward => exact .scalar (twice ▸ other) (twice ▸ passed) onward

end BuildReuse.Json
