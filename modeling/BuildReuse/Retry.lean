import BuildReuse.Machine

/-! Attempts that are repeated while they fail for a passing reason. The interval
between two attempts is fixed, and no attempt is made after one that ended past
the deadline. Nothing else ends them: `since` is a time that the clock has come to,
and with each rest it comes nearer to the deadline. -/

namespace BuildReuse

inductive RetryError (ε : Type) where
  | noDeadline
  | failed (cause : ε)
  deriving DecidableEq, Repr

namespace Retry

variable {σ ε α : Type} [Timed σ]

def interval : Nat := 50000000

@[semireducible]
def attemptUntil (deadline : Nat) (retryable : ε → Bool) (attempt : Task σ (Except ε α)) (since : Nat) :
    Task σ (Except ε α) :=
  attempt.bind fun
    | .ok a => .done (.ok a)
    | .error e => .look fun s =>
      let now := max since (Timed.clock s)
      if _ : retryable e = true ∧ now < deadline then
        (Task.sleep interval).bind fun _ => attemptUntil deadline retryable attempt (now + interval)
      else .done (.error e)
termination_by deadline - since
decreasing_by
  have rest : 0 < interval := by decide
  omega

theorem rounds (deadline : Nat) {motive : Nat → Prop}
    (round : ∀ since, (∀ now, since ≤ now → now < deadline → motive (now + interval)) → motive since)
    (since : Nat) : motive since := by
  induction left : deadline - since using Nat.strongRecOn generalizing since with
  | ind left ih =>
    refine round since fun now later early => ih (deadline - (now + interval)) ?_ _ rfl
    have rest : 0 < interval := by decide
    omega

end Retry

variable {σ ε α : Type} [Timed σ]

/-- The outcome of the first attempt that succeeds, fails for good, or ends when
the time is over. -/
def whenAvailable (timeout : Duration) (retryable : ε → Bool) (attempt : Task σ (Except ε α)) :
    Job σ (RetryError ε) α :=
  ExceptT.mk do
    match ← Task.get fun s => Timed.deadline? s timeout with
    | none => pure (.error .noDeadline)
    | some deadline =>
      let outcome ← Retry.attemptUntil deadline retryable attempt 0
      pure (outcome.mapError .failed)

def removeWhenAvailable (caller : Caller) (path : Path) (timeout : Duration) :
    MachineJob (RetryError IoError) Unit :=
  ExceptT.mk do
    let remove : MachineJob IoError Unit := changeFiles fun fs _ => fs.removeFile caller.here path
    match ← (whenAvailable timeout IoError.transient remove.run).run with
    | .error (.failed e) => pure (if e.kind == .notFound then .ok () else .error (.failed e))
    | outcome => pure outcome

end BuildReuse
