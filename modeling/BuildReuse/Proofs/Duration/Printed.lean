import BuildReuse.Duration.Printer
import BuildReuse.Duration.Reader
import BuildReuse.Proofs.Json.Written

/-! A printed span of time is read back, to the nanosecond. The reader adds up what the
items are worth, and on the way no amount outgrows the span itself. -/
namespace BuildReuse.Duration

theorem totalBound (d : Duration) : d.totalNanos < 0x10000000000000000 * 1000000000 := by
  obtain ⟨s, n, seconds, nanos⟩ := d
  simp only [totalNanos]
  omega

theorem spanOf {nanos : Nat} (bound : nanos < 0x10000000000000000 * 1000000000) :
    ∃ d : Duration, d.totalNanos = nanos := by
  refine ⟨⟨nanos / 1000000000, nanos % 1000000000, by omega, Nat.mod_lt _ (by decide)⟩, ?_⟩
  simp only [totalNanos]
  omega

theorem wordFits {n : Nat} (fits : n < 0x10000000000000000) : word n = .ok n := if_pos fits

def Adds (n : Nat) (name : List Char) (value : Nat) : Prop :=
  ∀ total sum : Duration, sum.totalNanos = total.totalNanos + value → addSpan total n none name = .ok sum

theorem ofPartsWhole {d : Duration} {seconds nanos : Nat}
    (whole : d.totalNanos = seconds * 1000000000 + nanos) : ofParts? seconds nanos = some d := by
  have bound := totalBound d
  have inReach : seconds + nanos / 1000000000 < 0x10000000000000000 := by omega
  cases parts : ofParts? seconds nanos with
  | some e =>
    have same : e = d := extTotal ((ofPartsTotal parts).trans whole.symm)
    rw [same]
  | none => simp [ofParts?, inReach] at parts

theorem addCountWhole {total sum : Duration} {seconds nanos : Nat} (small : nanos < 1000000000)
    (whole : sum.totalNanos = total.totalNanos + (seconds * 1000000000 + nanos)) :
    addCount total seconds nanos = .ok sum := by
  have proper := total.nanos_lt
  have fits : total.nanos + nanos < 0x10000000000000000 := by omega
  have parts : ofParts? (total.seconds + seconds) (total.nanos + nanos) = some sum := by
    refine ofPartsWhole (whole.trans ?_)
    rw [totalNanos]
    omega
  simp [addCount, wordFits fits, bind, Except.bind, parts]

theorem addsSeconds {name : List Char} {unit : TimeUnit} {each : Nat} (n : Nat)
    (named : TimeUnit.ofName? (String.ofList name) = some unit) (scale : unit.scale = .seconds each) :
    Adds n name (n * each * 1000000000) := by
  intro total sum whole
  have bound := totalBound sum
  have fits : n * each < 0x10000000000000000 := by omega
  have added : addCount total (n * each) 0 = .ok sum := by
    refine addCountWhole (by decide) (whole.trans ?_)
    rw [Nat.add_zero]
  simp [addSpan, named, addScaled, scale, wordFits fits, bind, Except.bind, added]

theorem addsNanos {name : List Char} {unit : TimeUnit} {each n : Nat} (small : n * each < 1000000000)
    (named : TimeUnit.ofName? (String.ofList name) = some unit) (scale : unit.scale = .nanos each) :
    Adds n name (n * each) := by
  intro total sum whole
  have fits : n * each < 0x10000000000000000 := by omega
  have added : addCount total 0 (n * each) = .ok sum := addCountWhole small (by omega)
  simp [addSpan, named, addScaled, scale, wordFits fits, bind, Except.bind, added]

theorem inkVisible {c : Char} (ink : (48 ≤ c.toNat ∧ c.toNat ≤ 57) ∨ (65 ≤ c.toNat ∧ c.toNat ≤ 122) ∨ c.toNat = 181) :
    Text.isBlank c = false := by
  simp [Text.isBlank]
  omega

theorem digitRange {c : Char} : c.isDigit = true ↔ 48 ≤ c.toNat ∧ c.toNat ≤ 57 := by
  simp only [Char.isDigit, Bool.and_eq_true, decide_eq_true_eq, ge_iff_le, UInt32.le_iff_toNat_le]
  exact Iff.rfl

theorem letterOther {c : Char} (letter : isLetter c = true) : c.isDigit = false ∧ Text.isBlank c = false := by
  have kinds : (decide (c.val ≥ 65 ∧ c.val ≤ 90) || (decide (c.val ≥ 97) && decide (c.val ≤ 122)) ||
      c == '\u00B5') = true := letter
  simp only [Bool.or_eq_true, decide_eq_true_eq, Bool.and_eq_true, beq_iff_eq, ge_iff_le,
    UInt32.le_iff_toNat_le] at kinds
  have range : (65 ≤ c.toNat ∧ c.toNat ≤ 122) ∨ c.toNat = 181 := by
    rcases kinds with (⟨low, high⟩ | ⟨low, high⟩) | rfl
    · exact .inl ⟨low, high.trans (by decide)⟩
    · exact .inl ⟨(by decide : 65 ≤ 97).trans low, high⟩
    · exact .inr rfl
  refine ⟨Bool.eq_false_iff.mpr fun digit => ?_, inkVisible (.inr range)⟩
  have digit := digitRange.mp digit
  omega

theorem digitRead {n : Nat} (small : n < 10) :
    (Nat.digitChar n).isDigit = true ∧ digitOf (Nat.digitChar n) = n := by
  decide +revert

def Reads (total : Duration) (mode : Mode) (text : List Char) (d : Duration) : Prop :=
  ∀ offset, run total mode offset text = .ok d

variable {total sum d : Duration} {n : Nat} {name rest : List Char}

theorem readsStep {mode next : Mode} {c : Char} (stepped : ∀ offset, step total mode offset c = .ok (sum, next))
    (later : Reads sum next rest d) : Reads total mode (c :: rest) d := by
  intro offset
  simp [run, stepped, bind, Except.bind, later (offset + c.utf8Size)]

theorem readsNumber (fits : n < 0x10000000000000000) (later : Reads total (.number n) rest d) (since : Nat) :
    Reads total (.gap since) (Nat.toDigits 10 n ++ rest) d := by
  induction n using Nat.strongRecOn generalizing rest with
  | ind n ih =>
    rcases Nat.lt_or_ge n 10 with one | several
    · obtain ⟨digit, value⟩ := digitRead one
      rw [Nat.toDigits_of_lt_base one]
      exact readsStep (fun offset => by simp [step, digit, value]) later
    · obtain ⟨digit, value⟩ := digitRead (Nat.mod_lt n (by decide : 0 < 10))
      have whole : n / 10 * 10 + n % 10 = n := by omega
      rw [Nat.toDigits_of_base_le (by decide) several, List.append_assoc]
      refine ih (n / 10) (by omega) (by omega) (readsStep (fun offset => ?_) later)
      simp [step, digit, value, whole, wordFits fits, bind, Except.bind]

theorem readsLetters (letters : ∀ c ∈ name, isLetter c = true) {fraction : Option (Nat × Nat)} {first : List Char}
    (later : Reads total (.unit n fraction (first ++ name)) rest d) :
    Reads total (.unit n fraction first) (name ++ rest) d := by
  induction name generalizing first with
  | nil => simpa using later
  | cons c name ih =>
    have letter := letters c List.mem_cons_self
    obtain ⟨digit, blank⟩ := letterOther letter
    have later : Reads total (.unit n fraction (first ++ [c] ++ name)) rest d := by simpa using later
    have onward := ih (fun c inside => letters c (List.mem_cons_of_mem _ inside)) later
    exact readsStep (fun offset => by simp [step, digit, blank, letter]) onward

theorem readsName (letters : ∀ c ∈ name, isLetter c = true) (named : name ≠ [])
    (later : Reads total (.unit n none name) rest d) : Reads total (.number n) (name ++ rest) d := by
  cases name with
  | nil => exact (named rfl).elim
  | cons c name =>
    have letter := letters c List.mem_cons_self
    obtain ⟨digit, blank⟩ := letterOther letter
    have onward : Reads total (.unit n none [c]) (name ++ rest) d :=
      readsLetters (fun c inside => letters c (List.mem_cons_of_mem _ inside)) later
    exact readsStep (fun offset => by simp [step, digit, blank, letter]) onward

inductive Spells : List (List Char) → Nat → Prop where
  | nil : Spells [] 0
  | cons {n name value items others} (fits : n < 0x10000000000000000) (letters : ∀ c ∈ name, isLetter c = true)
      (named : name ≠ []) (adds : Adds n name value) (onward : Spells items others) :
      Spells ((Nat.toDigits 10 n ++ name) :: items) (value + others)

namespace Spells

variable {items more : List (List Char)} {value others : Nat}

theorem append (first : Spells items value) (second : Spells more others) :
    Spells (items ++ more) (value + others) := by
  induction first with
  | nil => simpa using second
  | cons fits letters named adds onward ih =>
    rw [Nat.add_assoc]
    exact .cons fits letters named adds ih

theorem empty (spells : Spells [] value) : value = 0 := by
  cases spells
  rfl

theorem reads (spells : Spells items value) (some : items ≠ []) (whole : d.totalNanos = total.totalNanos + value)
    (since : Nat) : Reads total (.gap since) ([' '].intercalate items) d := by
  induction spells generalizing total since with
  | nil => contradiction
  | @cons n name value items others fits letters named adds onward ih =>
    cases items with
    | nil =>
      have zero := onward.empty
      have added := adds total d (by omega)
      have ends : Reads total (.number n) (name ++ []) d :=
        readsName letters named fun offset => by simp [run, finish, added]
      simpa [List.intercalate] using readsNumber fits ends since
    | cons next items =>
      have bound := totalBound d
      obtain ⟨sum, upTo⟩ := spanOf (show total.totalNanos + value < _ by omega)
      have added := adds total sum upTo
      have later (since : Nat) : Reads sum (.gap since) ([' '].intercalate (next :: items)) d :=
        ih nofun (by omega) since
      have spaced : Reads total (.unit n none name) (' ' :: [' '].intercalate (next :: items)) d := by
        intro offset
        have digit : (' ').isDigit = false := rfl
        have blank : Text.isBlank ' ' = true := rfl
        simp [run, step, digit, blank, added, bind, Except.bind, later _ _]
      simpa [List.intercalate] using readsNumber fits (readsName letters named spaced) since

theorem opens (spells : Spells items value) (some : items ≠ []) :
    ∃ c e rest, [' '].intercalate items = c :: e :: rest ∧ Text.isBlank c = false := by
  cases spells with
  | nil => contradiction
  | @cons n name value items _ fits letters named =>
    obtain ⟨c, digits, same, digit, -⟩ := Json.digitsOpen n
    obtain ⟨l, name, rfl⟩ := List.exists_cons_of_ne_nil named
    have visible := inkVisible (.inl (digitRange.mp digit))
    cases items <;> cases digits <;> simp [List.intercalate, same, visible]

theorem readWhole (spells : Spells items value) (some : items ≠ []) (whole : d.totalNanos = value) :
    read ([' '].intercalate items) = .ok d := by
  have fromZero : d.totalNanos = zero.totalNanos + value := by simp [← whole, totalNanos, zero]
  have reads := spells.reads some fromZero 0
  obtain ⟨c, e, rest, opens, visible⟩ := spells.opens some
  have long : ([' '].intercalate items) ≠ ['0'] := by simp [opens]
  have visible : Text.blank ([' '].intercalate items) = false := by simp [Text.blank, opens, visible]
  simpa [read, long, visible] using reads 0

end Spells

def Names (name : List Char) (unit : TimeUnit) : Prop :=
  TimeUnit.ofName? (String.ofList name) = some unit ∧ ∀ c ∈ name, isLetter c = true

instance (name : List Char) (unit : TimeUnit) : Decidable (Names name unit) :=
  decidable_of_iff (TimeUnit.ofName? (String.ofList name) = some unit ∧ name.all isLetter = true)
    (by simp [Names])

variable {unit : TimeUnit} {each value : Nat}

theorem itemSpelled (names : Names name unit) (fits : n < 0x10000000000000000) (adds : Adds n name value)
    (nothing : n = 0 → value = 0) : Spells (item n name) value := by
  have named : name ≠ [] := by
    intro empty
    rw [empty] at names
    cases names.1
  unfold item
  split
  case isTrue zero =>
    rw [nothing zero]
    exact .nil
  case isFalse => exact .cons fits names.2 named adds .nil

theorem secondsSpelled (names : Names name unit) (scale : unit.scale = .seconds each)
    (fits : n < 0x10000000000000000) : Spells (item n name) (n * each * 1000000000) :=
  itemSpelled names fits (addsSeconds n names.1 scale) fun zero => by simp [zero]

theorem nanosSpelled (names : Names name unit) (scale : unit.scale = .nanos each) (fine : each ≤ 1000000)
    (small : n < 1000) : Spells (item n name) (n * each) := by
  have less : n * each ≤ 999 * 1000000 := Nat.mul_le_mul (by omega) fine
  exact itemSpelled names (by omega) (addsNanos (by omega) names.1 scale) fun zero => by simp [zero]

theorem pluralSpelled (one : Names name unit) (several : Names (name ++ ['s']) unit)
    (scale : unit.scale = .seconds each) (fits : n < 0x10000000000000000) :
    Spells (itemPlural n name) (n * each * 1000000000) := by
  unfold itemPlural
  split
  case isTrue => exact secondsSpelled several scale fits
  case isFalse => exact secondsSpelled one scale fits

theorem itemsSpelled (d : Duration) : Spells d.items d.totalNanos := by
  have seconds := d.seconds_lt
  have nanos := d.nanos_lt
  have years {n : Nat} (fits : n ≤ d.seconds) : Spells (itemPlural n "year".toList) (n * 31557600 * 1000000000) :=
    pluralSpelled (show Names "year".toList .year by decide) (by decide) rfl (by omega)
  have months {n : Nat} (fits : n ≤ d.seconds) : Spells (itemPlural n "month".toList) (n * 2630016 * 1000000000) :=
    pluralSpelled (show Names "month".toList .month by decide) (by decide) rfl (by omega)
  have days {n : Nat} (fits : n ≤ d.seconds) : Spells (itemPlural n "day".toList) (n * 86400 * 1000000000) :=
    pluralSpelled (show Names "day".toList .day by decide) (by decide) rfl (by omega)
  have hours {n : Nat} (fits : n ≤ d.seconds) : Spells (item n ['h']) (n * 3600 * 1000000000) :=
    secondsSpelled (show Names ['h'] .hour by decide) rfl (by omega)
  have minutes {n : Nat} (fits : n ≤ d.seconds) : Spells (item n ['m']) (n * 60 * 1000000000) :=
    secondsSpelled (show Names ['m'] .minute by decide) rfl (by omega)
  have secs {n : Nat} (fits : n ≤ d.seconds) : Spells (item n ['s']) (n * 1 * 1000000000) :=
    secondsSpelled (show Names ['s'] .second by decide) rfl (by omega)
  have millis {n : Nat} (small : n < 1000) : Spells (item n ['m', 's']) (n * 1000000) :=
    nanosSpelled (show Names ['m', 's'] .millisecond by decide) rfl (by decide) small
  have micros {n : Nat} (small : n < 1000) : Spells (item n ['u', 's']) (n * 1000) :=
    nanosSpelled (show Names ['u', 's'] .microsecond by decide) rfl (by decide) small
  have rest {n : Nat} (small : n < 1000) : Spells (item n ['n', 's']) (n * 1) :=
    nanosSpelled (show Names ['n', 's'] .nanosecond by decide) rfl (by decide) small
  refine (congrArg (Spells d.items) ?whole).mp
    (((((((((years ?_).append (months ?_)).append (days ?_)).append (hours ?_)).append (minutes ?_)).append
      (secs ?_)).append (millis ?_)).append (micros ?_)).append (rest ?_))
  case whole =>
    simp only [totalNanos, yearSeconds, monthSeconds, daySeconds]
    omega
  all_goals simp -failIfUnchanged only [yearSeconds, monthSeconds, daySeconds]; omega

theorem readPrint (d : Duration) : read d.print = .ok d := by
  have spells := itemsSpelled d
  unfold print
  split
  case isTrue nothing =>
    rw [List.isEmpty_iff.mp nothing] at spells
    have zero : d = zero := extTotal spells.empty
    rw [zero]
    decide
  case isFalse some => exact spells.readWhole (by simpa using some) rfl

end BuildReuse.Duration
