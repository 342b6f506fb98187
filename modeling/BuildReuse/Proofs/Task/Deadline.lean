import BuildReuse.Proofs.Task.Ends

/-! Attempts last as long as they are allowed to: where the clock does not run
backward, a failure that may pass is the outcome only once the time is over. -/
namespace BuildReuse.Task

variable {ε α : Type}

section

variable {σ : Type} [Timed σ] {rely : σ → σ → Prop} {inv : σ → Prop}

def Since (inv : σ → Prop) (time : Nat) (s : σ) : Prop := inv s ∧ time ≤ Timed.clock s

theorem sinceStable (stable : ∀ s s', inv s → rely s s' → inv s')
    (forward : ∀ s s', rely s s' → Timed.clock s ≤ Timed.clock s') (time : Nat) (s s' : σ)
    (holds : Since inv time s) (others : rely s s') : Since inv time s' :=
  ⟨stable s s' holds.1 others, Nat.le_trans holds.2 (forward s s' others)⟩

theorem sleepLasts (stable : ∀ s s', inv s → rely s s' → inv s')
    (forward : ∀ s s', rely s s' → Timed.clock s ≤ Timed.clock s') (time nanos : Nat) :
    Ensures rely (Since inv time) (Task.sleep nanos) (fun _ => Since inv (time + nanos)) inv := by
  intro s o s' holds ends
  cases ends with
  | look others rest =>
    have begun := sinceStable stable forward time s _ holds others
    cases rest with
    | resume more ready rest =>
      cases rest
      simp only [Wake.Ready, decide_eq_true_eq] at ready
      exact ⟨stable _ _ begun.1 more, by have := begun.2; omega⟩
    | drop more => exact stable _ _ begun.1 more

theorem attemptUntilLasts {retryable : ε → Bool} {attempt : Task σ (Except ε α)}
    {post : Except ε α → σ → Prop} (stable : ∀ s s', inv s → rely s s' → inv s')
    (forward : ∀ s s', rely s s' → Timed.clock s ≤ Timed.clock s')
    (kept : ∀ e s s', post (.error e) s → rely s s' → post (.error e) s')
    (once : ∀ time, Ensures rely (Since inv time) attempt (fun r => Since (post r) time) inv)
    (again : ∀ e s, retryable e = true → post (.error e) s → inv s) (deadline since : Nat) :
    Ensures rely (Since inv since) (Retry.attemptUntil deadline retryable attempt since)
      (fun r s => post r s ∧ ∀ e, r = .error e → retryable e = true → deadline ≤ Timed.clock s) inv := by
  induction since using Retry.rounds deadline with
  | round since ih =>
    rw [Retry.attemptUntil]
    refine (once since).bind fun r => ?_
    cases r with
    | ok a => exact .done fun s holds => ⟨holds.1, fun _ fails => by cases fails⟩
    | error e =>
      refine .look fun s s₁ holds others => ?_
      obtain ⟨failed, come⟩ := sinceStable (kept e) forward since s s₁ holds others
      dsimp only
      rw [Nat.max_eq_right come]
      split
      case isTrue early =>
        have rests : Ensures rely (· = s₁) (Task.sleep Retry.interval)
            (fun _ => Since inv (Timed.clock s₁ + Retry.interval)) inv :=
          (sleepLasts stable forward _ _).strengthen fun _ same => by
            rw [same]
            exact ⟨again e s₁ early.1 failed, Nat.le_refl _⟩
        exact rests.bind fun _ => ih _ come early.2
      case isFalse late =>
        refine .done fun s same => same ▸ ⟨failed, fun e' fails passing => ?_⟩
        cases fails
        exact Nat.le_of_not_lt fun early => late ⟨passing, early⟩

variable {retryable : ε → Bool} {attempt : Task σ (Except ε α)} {s s' : σ} {deadline since : Nat}

theorem Ends.sleeps (refl : ∀ s, rely s s) {nanos : Nat} (others : rely s s')
    (late : Timed.clock s + nanos ≤ Timed.clock s') : Ends rely s (Task.sleep nanos) (some ()) s' :=
  .look (refl s) (.resume others (by simpa [Wake.Ready] using late) .done)

theorem Ends.attemptSucceeds {a : α} (succeeds : Ends rely s attempt (some (.ok a)) s') :
    Ends rely s (Retry.attemptUntil deadline retryable attempt since) (some (.ok a)) s' := by
  rw [Retry.attemptUntil]
  exact succeeds.andThen .done

theorem Ends.attemptFails {e : ε} {s₁ : σ} (fails : Ends rely s attempt (some (.error e)) s₁) (others : rely s₁ s')
    (final : retryable e = true → deadline ≤ Timed.clock s') :
    Ends rely s (Retry.attemptUntil deadline retryable attempt since) (some (.error e)) s' := by
  rw [Retry.attemptUntil]
  refine fails.andThen (.look others ?_)
  dsimp only
  rw [dif_neg fun early => by have := final early.1; omega]
  exact .done

theorem Ends.attemptAgain {e : ε} {s₁ s₂ s₃ : σ} (fails : Ends rely s attempt (some (.error e)) s₁)
    (others : rely s₁ s₂) (passing : retryable e = true) (come : since ≤ Timed.clock s₂)
    (early : Timed.clock s₂ < deadline) {o : Option (Except ε α)}
    (rests : Ends rely s₂ (Task.sleep Retry.interval) (some ()) s₃)
    (rest : Ends rely s₃
      (Retry.attemptUntil deadline retryable attempt (Timed.clock s₂ + Retry.interval)) o s') :
    Ends rely s (Retry.attemptUntil deadline retryable attempt since) o s' := by
  rw [Retry.attemptUntil]
  refine fails.andThen (.look others ?_)
  dsimp only
  rw [Nat.max_eq_right come, dif_pos ⟨passing, early⟩]
  exact rests.andThen rest

end

theorem deadlineTime {m : Machine} {timeout : Duration} {deadline : Nat}
    (representable : m.deadline? timeout = some deadline) : deadline = m.clock + timeout.totalNanos := by
  unfold Machine.deadline? at representable
  simp only at representable
  split at representable
  · exact (Option.some.inj representable).symm
  · cases representable

theorem whenAvailableLasts {rely : Machine → Machine → Prop} {inv : Machine → Prop} (timeout : Duration)
    {retryable : ε → Bool} {attempt : Task Machine (Except ε α)} {post : Except ε α → Machine → Prop}
    (stable : ∀ m m', inv m → rely m m' → inv m') (forward : ∀ m m', rely m m' → m.clock ≤ m'.clock)
    (kept : ∀ e m m', post (.error e) m → rely m m' → post (.error e) m')
    (once : ∀ time, Ensures rely (Since inv time) attempt (fun r => Since (post r) time) inv)
    (again : ∀ e m, retryable e = true → post (.error e) m → inv m) (start : Nat) :
    Ensures rely (Since inv start) (whenAvailable timeout retryable attempt).run (fun r m => match r with
      | .ok a => post (.ok a) m
      | .error (.failed e) =>
        post (.error e) m ∧ (retryable e = true → start + timeout.totalNanos ≤ m.clock)
      | .error .noDeadline => inv m ∧ m.deadline? timeout = none) inv := by
  have reads : Ensures rely (Since inv start) (Task.get fun m => Timed.deadline? m timeout)
      (fun deadline? m => Since inv start m ∧ Timed.deadline? m timeout = deadline?) inv :=
    .get fun m m' holds others => ⟨sinceStable stable forward start m m' holds others, rfl⟩
  refine reads.bind fun deadline? => ?_
  cases deadline? with
  | none => exact .done fun m holds => ⟨holds.1.1, holds.2⟩
  | some deadline =>
    intro m o m' holds ends
    have time : deadline = m.clock + timeout.totalNanos := deadlineTime holds.2
    have begun : start ≤ m.clock := holds.1.2
    have tries := attemptUntilLasts stable forward kept once again deadline 0
    have ended : Ensures rely (Since inv 0)
        ((Retry.attemptUntil deadline retryable attempt 0).bind fun outcome =>
          .done (outcome.mapError RetryError.failed))
        (fun r m' => match r with
          | .ok a => post (.ok a) m'
          | .error (.failed e) =>
            post (.error e) m' ∧ (retryable e = true → start + timeout.totalNanos ≤ m'.clock)
          | .error .noDeadline => inv m' ∧ m'.deadline? timeout = none) inv := by
      refine tries.bind fun r => .done fun m' after => ?_
      cases r with
      | ok a => exact after.1
      | error e =>
        refine ⟨after.1, fun passing => ?_⟩
        have late : deadline ≤ m'.clock := after.2 e rfl passing
        omega
    exact ended ⟨holds.1.1, Nat.zero_le _⟩ ends

end BuildReuse.Task
