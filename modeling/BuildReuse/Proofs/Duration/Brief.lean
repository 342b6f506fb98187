import BuildReuse.Proofs.Duration.Printed

/-! The short form of a span of time is a span again, at most a hundredth of a second
below the one it stands for, and longer spans are not shown as shorter ones. -/
namespace BuildReuse.Duration

def shown (d : Duration) : Duration :=
  ofMillis (if d.seconds = 0 then d.totalMillis else d.totalMillis / 10 * 10)

variable {d e : Duration}

theorem ofMillisTotal {ms : Nat} (fits : ms / 1000 < 0x10000000000000000) :
    (ofMillis ms).totalNanos = ms * 1000000 := by
  simp only [totalNanos, ofMillis]
  omega

theorem millisBound (d : Duration) : d.totalMillis / 1000 < 0x10000000000000000 := by
  obtain ⟨s, n, seconds, nanos⟩ := d
  simp only [totalMillis]
  omega

theorem totalOfMillis (d : Duration) :
    d.totalMillis * 1000000 ≤ d.totalNanos ∧ d.totalNanos < (d.totalMillis + 1) * 1000000 := by
  simp only [totalMillis, totalNanos]
  omega

theorem shownTotal (d : Duration) : d.shown.totalNanos =
    (if d.seconds = 0 then d.totalMillis else d.totalMillis / 10 * 10) * 1000000 := by
  have bound := millisBound d
  unfold shown
  split
  · exact ofMillisTotal bound
  · exact ofMillisTotal (by omega)

theorem readMillis {n : Nat} (small : n < 1000) :
    read (Nat.toDigits 10 n ++ ['m', 's']) = .ok (ofMillis n) := by
  have named : Names ['m', 's'] .millisecond := by decide
  have adds : Adds n ['m', 's'] (n * 1000000) := addsNanos (by omega) named.1 rfl
  have spells : Spells [Nat.toDigits 10 n ++ ['m', 's']] (n * 1000000 + 0) :=
    .cons (by omega) named.2 nofun adds .nil
  have total : (ofMillis n).totalNanos = n * 1000000 + 0 := by
    rw [Nat.add_zero, ofMillisTotal (by omega)]
  simpa [List.intercalate] using spells.readWhole nofun total

theorem readBrief (small : d.totalNanos < 0x10000000000000000 * 1000000) : read d.brief = .ok d.shown := by
  have total := totalOfMillis d
  have nanos := d.nanos_lt
  have word : d.totalMillis % 0x10000000000000000 = d.totalMillis := by omega
  unfold brief shown
  split
  case isTrue short =>
    have millis : d.totalMillis = d.nanos / 1000000 := by simp [totalMillis, short]
    rw [millis]
    exact readMillis (by omega)
  case isFalse =>
    rw [word]
    exact readPrint _

theorem shownBelow (d : Duration) : d.shown.totalNanos ≤ d.totalNanos := by
  have total := totalOfMillis d
  rw [shownTotal]
  split <;> omega

theorem shownMono (below : d.totalNanos ≤ e.totalNanos) : d.shown.totalNanos ≤ e.shown.totalNanos := by
  have short : e.seconds = 0 → d.seconds = 0 := by
    have nanos := e.nanos_lt
    simp only [totalNanos] at below
    omega
  have long : d.seconds = 0 → e.seconds ≠ 0 → d.totalMillis ≤ e.totalMillis / 10 * 10 := by
    have nanos := d.nanos_lt
    simp only [totalMillis]
    omega
  have millis : d.totalMillis ≤ e.totalMillis := by
    have lower := totalOfMillis d
    have upper := totalOfMillis e
    omega
  rw [shownTotal, shownTotal]
  split <;> split <;> omega

theorem briefFaithful :
    (∀ d : Duration, d.totalNanos < 0x10000000000000000 * 1000000 → ∃ v, read d.brief = .ok v ∧
      v.totalNanos ≤ d.totalNanos ∧
      (d.totalNanos < 1000000000 → d.totalNanos - v.totalNanos < 1000000) ∧
      (1000000000 ≤ d.totalNanos → d.totalNanos - v.totalNanos < 10000000 ∧ 10000000 ∣ v.totalNanos)) ∧
    ∀ d e v w : Duration, d.totalNanos ≤ e.totalNanos → e.totalNanos < 0x10000000000000000 * 1000000 →
      read d.brief = .ok v → read e.brief = .ok w → v.totalNanos ≤ w.totalNanos := by
  constructor
  · intro d small
    have total := totalOfMillis d
    have nanos := d.nanos_lt
    have parts : d.totalNanos = d.seconds * 1000000000 + d.nanos := rfl
    refine ⟨d.shown, readBrief small, shownBelow d, fun short => ?_, fun long => ?_⟩
    · rw [shownTotal, if_pos (by omega)]
      omega
    · rw [shownTotal, if_neg (by omega)]
      omega
  · intro d e v w below small first second
    cases (readBrief (Nat.lt_of_le_of_lt below small)).symm.trans first
    cases (readBrief small).symm.trans second
    exact shownMono below

theorem secondCrossed :
    let d : Duration := ⟨0, 999999999, by decide, by decide⟩
    let e : Duration := ⟨31557661, 999999999, by decide, by decide⟩
    ∃ v w, read d.brief = .ok v ∧ read e.brief = .ok w ∧ d.totalNanos - v.totalNanos < 1000000 ∧
      e.totalNanos - w.totalNanos < 10000000 ∧ v.totalNanos ≤ w.totalNanos ∧
      String.ofList d.brief = "999ms" ∧ String.ofList e.brief = "1year 1m 1s 990ms" := by
  intro d e
  obtain ⟨v, first, -, short, -⟩ := briefFaithful.1 d (by decide)
  obtain ⟨w, second, -, -, long⟩ := briefFaithful.1 e (by decide)
  exact ⟨v, w, first, second, short (by decide), (long (by decide)).1,
    briefFaithful.2 d e v w (by decide) (by decide) first second, by decide, by decide⟩

end BuildReuse.Duration
