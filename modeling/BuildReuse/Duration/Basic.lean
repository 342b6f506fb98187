/-! Spans of time, to the nanosecond, below 2^64 seconds. -/

namespace BuildReuse

structure Duration where
  seconds : Nat
  nanos : Nat
  seconds_lt : seconds < 0x10000000000000000 := by decide
  nanos_lt : nanos < 1000000000 := by decide
  deriving DecidableEq, Repr

namespace Duration

def ofParts? (seconds nanos : Nat) : Option Duration :=
  if h : seconds + nanos / 1000000000 < 0x10000000000000000 then
    some ⟨seconds + nanos / 1000000000, nanos % 1000000000, h, Nat.mod_lt _ (by decide)⟩
  else none

def zero : Duration := ⟨0, 0, by decide, by decide⟩

def totalNanos (d : Duration) : Nat := d.seconds * 1000000000 + d.nanos

def totalMillis (d : Duration) : Nat := d.seconds * 1000 + d.nanos / 1000000

def ofMillis (ms : Nat) : Duration :=
  ⟨ms / 1000 % 0x10000000000000000, ms % 1000 * 1000000, Nat.mod_lt _ (by decide), by omega⟩

theorem extTotal {d e : Duration} (h : d.totalNanos = e.totalNanos) : d = e := by
  obtain ⟨s, n, hs, hn⟩ := d
  obtain ⟨s', n', hs', hn'⟩ := e
  simp only [totalNanos] at h
  have seconds : s = s' := by omega
  have nanos : n = n' := by omega
  subst seconds nanos
  rfl

theorem ofPartsTotal {s n : Nat} {d : Duration} (h : ofParts? s n = some d) :
    d.totalNanos = s * 1000000000 + n := by
  unfold ofParts? at h
  split at h
  · cases Option.some.inj h
    simp only [totalNanos]
    omega
  · contradiction

end Duration

def noDeadlineText : String := "overflow when adding duration to instant"

end BuildReuse
