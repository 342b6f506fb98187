import BuildReuse.Json.Basic
import BuildReuse.Json.Reader
import BuildReuse.Proofs.Text.Utf8
import Mathlib.Data.List.DropRight
import Mathlib.Data.List.TakeDrop
import Mathlib.Data.List.TakeWhile

/-! Written values are read back, and of a value that was cut off a reader says that
the text ends too early, or, of a number, that nothing follows. -/
namespace BuildReuse.Json

def Blank (space : List Char) : Prop := ∀ c ∈ space, isSpace c = true

theorem beforeBlank (layout : Layout) (depth : Nat) : Blank (layout.before depth) := by
  cases layout with
  | compact => exact fun _ impossible => nomatch impossible
  | lines =>
    intro c inside
    rcases List.mem_cons.mp inside with rfl | inside
    · rfl
    · rw [List.eq_of_mem_replicate inside]
      rfl

theorem skipSpaceSelf {c : Char} {rest : List Char} (visible : isSpace c = false) :
    skipSpace (c :: rest) = c :: rest := by
  simp [skipSpace, visible]

theorem skipSpaceBlank {space : List Char} (blank : Blank space) (input : List Char) :
    skipSpace (space ++ input) = skipSpace input :=
  List.dropWhile_append_of_pos blank

theorem skipSpaceTwice (input : List Char) : skipSpace (skipSpace input) = skipSpace input :=
  List.dropWhile_idempotent ..

def continues (c : Char) : Bool := c.isDigit || c == '.' || c == 'e' || c == 'E'

def Stops (rest : List Char) : Prop := ∀ c ∈ rest.head?, continues c = false

theorem stopsNil : Stops [] := nofun

theorem stopsCons {c : Char} {rest : List Char} (other : continues c = false) : Stops (c :: rest) := by
  rintro _ ⟨⟩
  exact other

theorem spaceStops {c : Char} (white : isSpace c = true) : continues c = false := by
  simp only [isSpace, Bool.or_eq_true, beq_iff_eq] at white
  rcases white with ((rfl | rfl) | rfl) | rfl <;> rfl

theorem stopsBlank {space rest : List Char} (blank : Blank space) (stops : Stops rest) :
    Stops (space ++ rest) := by
  cases space with
  | nil => exact stops
  | cons c space => exact stopsCons (spaceStops (blank c List.mem_cons_self))

theorem stopsCut {part whole : List Char} (stops : Stops whole) (cut : Cut part whole) : Stops part := by
  cases part with
  | nil => exact stopsNil
  | cons c part =>
    obtain ⟨rest, rfl⟩ := cut.1
    exact stopsCons (stops c rfl)

def Unfinished {α : Type} (answer : Except Failure (α × List Char)) : Prop :=
  answer = .error .truncated ∨ ∃ value, answer = .ok (value, [])

structure Written {α : Type} (read : Reader α) (text : List Char) (value : α) : Prop where
  opens : ∃ c rest, text = c :: rest ∧ isSpace c = false ∧ c ≠ ']'
  blank : ∀ input, read (skipSpace input) = read input
  whole : ∀ rest, Stops rest → read (text ++ rest) = .ok (value, rest)
  cut : ∀ part, Cut part text → Unfinished (read part)

namespace Written

variable {α β : Type} {read : Reader α} {text : List Char} {value : α}

theorem behind (written : Written read text value) {space rest : List Char} (blank : Blank space)
    (stops : Stops rest) : read (space ++ (text ++ rest)) = .ok (value, rest) := by
  rw [← written.blank, skipSpaceBlank blank, written.blank]
  exact written.whole rest stops

theorem empty (written : Written read text value) : Unfinished (read []) := by
  obtain ⟨c, rest, rfl, -⟩ := written.opens
  exact written.cut [] ⟨List.nil_prefix, nofun⟩

theorem cutBehind (written : Written read text value) {space part : List Char} (blank : Blank space)
    (cut : Cut part (space ++ text)) : Unfinished (read part) := by
  rcases cut.ofAppend with ⟨begins, -⟩ | ⟨rest, rfl, inside⟩
  · have nothing : skipSpace part = [] :=
      List.dropWhile_eq_nil_iff.mpr fun c inside => blank c (begins.subset inside)
    rw [← written.blank, nothing]
    exact written.empty
  · rw [← written.blank, skipSpaceBlank blank, written.blank]
    exact written.cut rest inside

theorem map (written : Written read text value) (f : α → β) :
    Written (fun input => (read input).map fun (x, rest) => (f x, rest)) text (f value) where
  opens := written.opens
  blank input := by rw [written.blank]
  whole rest stops := by rw [written.whole rest stops]; rfl
  cut part inside := by
    rcases written.cut part inside with short | ⟨x, all⟩
    · rw [short]
      exact .inl rfl
    · rw [all]
      exact .inr ⟨f x, rfl⟩

end Written

inductive Escaped (c : Char) : List Char → Prop where
  | short {e} (named : shortEscape? e = some c) : Escaped c ['\\', e]
  | number (low : c.toNat < 0x20) :
    Escaped c ['\\', 'u', '0', '0', lowerHex (c.toNat / 16), lowerHex (c.toNat % 16)]
  | plain (quote : c ≠ '"') (backslash : c ≠ '\\') (printed : 0x20 ≤ c.toNat) : Escaped c [c]

theorem escaped (c : Char) : Escaped c (escape c) := by
  unfold escape
  split
  case h_8 quote backslash _ _ _ _ _ =>
    split
    case isTrue low => exact .number low
    case isFalse printed => exact .plain quote backslash (Nat.le_of_not_lt printed)
  all_goals exact .short rfl

theorem hexDigitLower {n : Nat} (digit : n < 16) : hexDigit? (lowerHex n) = some n := by
  decide +revert

theorem lowerHexSize {n : Nat} (digit : n < 16) : (lowerHex n).utf8Size = 1 := by
  decide +revert

theorem readNumbered {c : Char} (low : c.toNat < 0x20) (rest : List Char) :
    readQuoted ('\\' :: 'u' :: '0' :: '0' :: lowerHex (c.toNat / 16) :: lowerHex (c.toNat % 16) :: rest) =
      prepend c (readQuoted rest) := by
  have four : hexFour? '0' '0' (lowerHex (c.toNat / 16)) (lowerHex (c.toNat % 16)) = some c.toNat := by
    have zero : hexDigit? '0' = some 0 := rfl
    simp only [hexFour?, zero, hexDigitLower (show c.toNat / 16 < 16 by omega),
      hexDigitLower (Nat.mod_lt c.toNat (by decide)), Option.bind_eq_bind, Option.bind_some]
    exact congrArg some (by omega)
  have trailing : isTrailing c.toNat = false := by simp [isTrailing]; omega
  have leading : isLeading c.toNat = false := by simp [isLeading]; omega
  rw [readQuoted, four]
  simp only [trailing, leading, Char.ofNat_toNat]
  rfl

theorem readShort {e c : Char} (named : shortEscape? e = some c) (rest : List Char) :
    readQuoted ('\\' :: e :: rest) = prepend c (readQuoted rest) := by
  have lettered : e ≠ 'u' := by
    rintro rfl
    cases named
  rw [readQuoted, named]
  · exact fun _ _ _ _ _ same _ => lettered same
  · exact lettered

theorem readPlain {c : Char} (quote : c ≠ '"') (backslash : c ≠ '\\') (printed : 0x20 ≤ c.toNat)
    (rest : List Char) : readQuoted (c :: rest) = prepend c (readQuoted rest) := by
  rw [readQuoted, if_neg (Nat.not_lt_of_le printed)]
  · exact quote
  · exact fun same _ => backslash same
  · exact fun _ _ _ _ _ same _ => backslash same
  · exact fun _ same _ => backslash same
  · exact fun _ _ same _ => backslash same

namespace Escaped

variable {c : Char} {text : List Char}

theorem whole (form : Escaped c text) (rest : List Char) :
    readQuoted (text ++ rest) = prepend c (readQuoted rest) := by
  cases form with
  | short named => exact readShort named rest
  | number low => exact readNumbered low rest
  | plain quote backslash printed => exact readPlain quote backslash printed rest

theorem ofCut (form : Escaped c text) {part : List Char} (cut : Cut part text) :
    readQuoted part = .error .truncated := by
  obtain ⟨n, short, rfl⟩ := cut.taken
  cases form with
  | short named => match n, short with | 0, _ | 1, _ => rfl
  | number low =>
    have size := lowerHexSize (show c.toNat / 16 < 16 by omega)
    match n, short with
    | 0, _ | 1, _ | 2, _ | 3, _ | 4, _ => rfl
    | 5, _ =>
      have four : shortOfFour ['0', '0', lowerHex (c.toNat / 16)] = true := by
        simp [shortOfFour, Utf8.size, size]
        decide
      exact congrArg (fun b => Except.error (if b = true then Failure.truncated else .malformed)) four
  | plain quote backslash printed => match n, short with | 0, _ => rfl

end Escaped

theorem readQuotedWhole (text rest : List Char) :
    readQuoted (text.flatMap escape ++ '"' :: rest) = .ok (text, rest) := by
  induction text with
  | nil => rfl
  | cons c text ih =>
    rw [List.flatMap_cons, List.append_assoc, (escaped c).whole, ih]
    rfl

theorem readQuotedCut {text part : List Char} (cut : Cut part (text.flatMap escape ++ ['"'])) :
    readQuoted part = .error .truncated := by
  induction text generalizing part with
  | nil =>
    rcases cut.ofCons with rfl | ⟨_, _, beyond⟩
    · rfl
    · exact beyond.ofNil.elim
  | cons c text ih =>
    rw [List.flatMap_cons, List.append_assoc] at cut
    rcases cut.ofAppend with inside | ⟨behind, rfl, beyond⟩
    · exact (escaped c).ofCut inside
    · rw [(escaped c).whole, ih beyond]
      rfl

theorem readTextCut {s : String} {part : List Char} (cut : Cut part (quoted s)) :
    readText part = .error .truncated := by
  rcases cut.ofCons with rfl | ⟨behind, rfl, beyond⟩
  · rfl
  · rw [readText, skipSpaceSelf rfl]
    simp only [readQuotedCut beyond]
    rfl

theorem textWritten (s : String) : Written readText (quoted s) s where
  opens := ⟨'"', _, rfl, rfl, nofun⟩
  blank input := by rw [readText, skipSpaceTwice]; rfl
  whole rest _ := by
    rw [quoted, List.cons_append, List.cons_append, List.append_assoc, readText, skipSpaceSelf rfl]
    simp only [List.singleton_append, readQuotedWhole]
    exact congrArg (fun s => Except.ok (s, rest)) String.ofList_toList
  cut _ inside := .inl (readTextCut inside)

theorem readWordWhole (word rest : List Char) : readWord word (word ++ rest) = .ok rest := by
  induction word with
  | nil => cases rest <;> rfl
  | cons c word ih => rw [List.cons_append, readWord, if_pos rfl, ih]

theorem readWordCut {word part : List Char} (cut : Cut part word) :
    readWord word part = .error .truncated := by
  induction word generalizing part with
  | nil => exact cut.ofNil.elim
  | cons c word ih =>
    rcases cut.ofCons with rfl | ⟨behind, rfl, beyond⟩
    · rfl
    · rw [readWord, if_pos rfl, ih beyond]

theorem boolWritten (layout : Layout) (depth : Nat) (b : Bool) :
    Written readBool (print layout depth (.bool b)) b where
  opens := by cases b <;> exact ⟨_, _, rfl, rfl, nofun⟩
  blank input := by rw [readBool, skipSpaceTwice]; rfl
  whole rest _ := by
    cases b with
    | true => exact congrArg (Except.map _) (readWordWhole ['r', 'u', 'e'] rest)
    | false => exact congrArg (Except.map _) (readWordWhole ['a', 'l', 's', 'e'] rest)
  cut part inside := by
    cases b with
    | true =>
      rcases inside.ofCons with rfl | ⟨behind, rfl, beyond⟩
      · exact .inl rfl
      · exact .inl (congrArg (Except.map _) (readWordCut beyond))
    | false =>
      rcases inside.ofCons with rfl | ⟨behind, rfl, beyond⟩
      · exact .inl rfl
      · exact .inl (congrArg (Except.map _) (readWordCut beyond))

theorem digitsWhole (n : Nat) {rest : List Char} (stops : Stops rest) :
    digits (Nat.toDigits 10 n ++ rest) = (Nat.toDigits 10 n, rest) := by
  have all : ∀ c ∈ Nat.toDigits 10 n, c.isDigit = true :=
    fun c inside => Nat.isDigit_of_mem_toDigits (by decide) (by decide) inside
  have none : rest.takeWhile Char.isDigit = [] ∧ rest.dropWhile Char.isDigit = rest := by
    cases rest with
    | nil => exact ⟨rfl, rfl⟩
    | cons c rest =>
      have other := stops c rfl
      simp only [continues, Bool.or_eq_false_iff] at other
      simp [other.1.1.1]
  rw [digits, List.span_eq_takeWhile_dropWhile, List.takeWhile_append_of_pos all,
    List.dropWhile_append_of_pos all, none.1, none.2, List.append_nil]

theorem valueOfDigits (n : Nat) : valueOf (Nat.toDigits 10 n) = n := by
  have read := Nat.ofDigitChars_toDigits (b := 10) (n := n) (by decide) (by decide)
  rw [Nat.ofDigitChars_eq_foldl] at read
  simp only [Nat.mul_comm 10] at read
  exact read

theorem noLeadingZero {n : Nat} (positive : 0 < n) : (Nat.toDigits 10 n).head? ≠ some '0' := by
  induction n using Nat.strongRecOn with
  | ind n ih =>
    rcases Nat.lt_or_ge n 10 with one | several
    · rw [Nat.toDigits_of_lt_base one]
      intro same
      have zero := Nat.digitChar_eq_zero.mp (Option.some.inj same)
      omega
    · rw [Nat.toDigits_of_base_le (by decide) several, List.head?_append_of_ne_nil _ Nat.toDigits_ne_nil]
      exact ih (n / 10) (by omega) (by omega)

theorem readUnsignedWhole (n : Nat) {rest : List Char} (stops : Stops rest) :
    readUnsigned (Nat.toDigits 10 n ++ rest) = .ok (.natural n, rest) := by
  have fraction : readFraction n rest = .ok (.natural n, rest) := by
    cases rest with
    | nil => rfl
    | cons c rest =>
      have other := stops c rfl
      simp only [continues, Bool.or_eq_false_iff, beq_eq_false_iff_ne] at other
      rw [readFraction] <;> simp_all
  rw [readUnsigned, digitsWhole n stops]
  split
  case h_1 heq => exact (Nat.toDigits_ne_nil (Prod.mk.inj heq).1).elim
  case h_2 heq => exact (Nat.toDigits_ne_nil (Prod.mk.inj heq).1).elim
  case h_3 heq =>
    have zeroFirst := (Prod.mk.inj heq).1
    rcases Nat.eq_zero_or_pos n with rfl | positive
    · cases zeroFirst
    · exact (noLeadingZero positive (by rw [zeroFirst]; rfl)).elim
  case h_4 heq =>
    obtain ⟨rfl, rfl⟩ := Prod.mk.inj heq
    rw [valueOfDigits, fraction]

theorem digitsOpen (n : Nat) : ∃ c more, Nat.toDigits 10 n = c :: more ∧ c.isDigit = true ∧ isSpace c = false := by
  match same : Nat.toDigits 10 n with
  | [] => exact (Nat.toDigits_ne_nil same).elim
  | c :: more =>
    have inside : c ∈ Nat.toDigits 10 n := same ▸ List.mem_cons_self
    have digit : c.isDigit = true := Nat.isDigit_of_mem_toDigits (by decide) (by decide) inside
    refine ⟨c, more, rfl, digit, Bool.eq_false_iff.mpr fun white => ?_⟩
    have other := spaceStops white
    simp [continues, digit] at other

theorem readNatDigits {n bound : Nat} {rest : List Char} (stops : Stops rest) :
    readNat bound (Nat.toDigits 10 n ++ rest) = if n < bound then .ok (n, rest) else .error .malformed := by
  have read := readUnsignedWhole n stops
  obtain ⟨c, more, same, digit, visible⟩ := digitsOpen n
  have unsigned : c ≠ '-' := by rintro rfl; cases digit
  rw [same, List.cons_append] at read ⊢
  rw [readNat, skipSpaceSelf visible]
  simp only [digit, Bool.or_true, if_true]
  rw [readNumeral, read]
  · rfl
  · exact fun _ same => unsigned (List.cons.inj same).1

theorem readNatWhole {n bound : Nat} (small : n < bound) {rest : List Char} (stops : Stops rest) :
    readNat bound (Nat.toDigits 10 n ++ rest) = .ok (n, rest) :=
  (readNatDigits stops).trans (if_pos small)

theorem digitsCut {n : Nat} {part : List Char} (cut : Cut part (Nat.toDigits 10 n)) :
    part = [] ∨ ∃ m < n, part = Nat.toDigits 10 m := by
  induction n using Nat.strongRecOn with
  | ind n ih =>
    rcases Nat.lt_or_ge n 10 with one | several
    · rw [Nat.toDigits_of_lt_base one] at cut
      rcases cut.ofCons with empty | ⟨_, _, beyond⟩
      · exact .inl empty
      · exact beyond.ofNil.elim
    · rw [Nat.toDigits_of_base_le (by decide) several] at cut
      rcases cut.ofAppend with inside | ⟨behind, rfl, beyond⟩
      · rcases ih (n / 10) (by omega) inside with empty | ⟨m, less, same⟩
        · exact .inl empty
        · exact .inr ⟨m, by omega, same⟩
      · rcases beyond.ofCons with rfl | ⟨_, _, beyond⟩
        · exact .inr ⟨n / 10, by omega, List.append_nil _⟩
        · exact beyond.ofNil.elim

theorem natWritten (layout : Layout) (depth : Nat) {n bound : Nat} (small : n < bound) :
    Written (readNat bound) (print layout depth (.number n)) n where
  opens := by
    obtain ⟨c, more, same, digit, visible⟩ := digitsOpen n
    exact ⟨c, more, same, visible, by rintro rfl; cases digit⟩
  blank input := by rw [readNat, skipSpaceTwice]; rfl
  whole rest stops := readNatWhole small stops
  cut part inside := by
    rcases digitsCut inside with rfl | ⟨m, less, rfl⟩
    · exact .inl rfl
    · have read := readNatWhole (less.trans small) stopsNil
      rw [List.append_nil] at read
      exact .inr ⟨m, read⟩

end BuildReuse.Json
