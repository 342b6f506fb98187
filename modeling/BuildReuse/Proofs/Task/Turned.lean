import BuildReuse.Proofs.Task.Ends

/-! Tasks that take turns, while others act between two turns. Nobody else acts within a
turn, so that each such run is one of the runs among others. -/
namespace BuildReuse.Task

variable {σ α β : Type}

inductive Turned (rely : σ → σ → Prop) : σ → Task σ α → α → σ → Prop where
  | ended {s t a s'} (turn : poll s t = (s', done a)) : Turned rely s t a s'
  | again {s t s₁ t₁ s₂ a s'} (turn : poll s t = (s₁, t₁)) (waits : t₁.wake?.isSome = true)
      (others : rely s₁ s₂) (rest : Turned rely s₂ t₁ a s') : Turned rely s t a s'

variable {rely : σ → σ → Prop} {s s₁ s' : σ} {t : Task σ α} {a : α}

theorem runStops (t : Task σ α) : ∀ s, (∃ a, (run s t).2 = done a) ∨ (run s t).2.wake?.isSome = true := by
  induction t with
  | done a => exact fun s => .inl ⟨a, rfl⟩
  | look next ih => exact fun s => ih s s
  | put s₁ t ih => exact fun s => ih s₁
  | suspend wake tidy t ih =>
    intro s
    cases wake with
    | turn => exact .inr rfl
    | condition ready alarm =>
      rw [run]
      split
      · exact ih s
      · exact .inr rfl

theorem pollStops (s : σ) (t : Task σ α) : (∃ a, (poll s t).2 = done a) ∨ (poll s t).2.wake?.isSome = true := by
  unfold poll
  split
  · exact runStops _ s
  · exact runStops t s

theorem pollFirst (starts : t.wake?.isSome = false) : poll s t = run s t := by
  cases t with
  | suspend => cases starts
  | done | look | put => rfl

theorem pollOfRun (runs : run s t = (s', done a)) : poll s t = (s', done a) := by
  unfold poll
  split
  · cases runs
  · exact runs

theorem runBind {f : α → Task σ β} : ∀ {s}, run s t = (s₁, done a) → run s (t.bind f) = run s₁ (f a) := by
  induction t with
  | done b =>
    intro s runs
    cases runs
    rfl
  | look next ih => exact fun {s} runs => ih s runs
  | put s₂ t ih => exact fun runs => ih runs
  | suspend wake tidy t ih =>
    intro s runs
    cases wake with
    | turn => cases runs
    | condition ready alarm =>
      rw [run] at runs
      split at runs
      case isTrue now => rw [bind, run, if_pos now, ih runs]
      case isFalse => cases runs

theorem runBindWaits {f : α → Task σ β} {t₁ : Task σ α} (waits : t₁.wake?.isSome = true) :
    ∀ {s}, run s t = (s₁, t₁) → run s (t.bind f) = (s₁, t₁.bind f) := by
  induction t with
  | done b =>
    intro s runs
    cases runs
    cases waits
  | look next ih => exact fun {s} runs => ih s runs
  | put s₂ t ih => exact fun runs => ih runs
  | suspend wake tidy t ih =>
    intro s runs
    cases wake with
    | turn =>
      cases runs
      rfl
    | condition ready alarm =>
      rw [run] at runs
      split at runs
      case isTrue now => rw [bind, run, if_pos now, ih runs]
      case isFalse late =>
        cases runs
        rw [bind, run, if_neg late]

theorem bindWaits {f : α → Task σ β} (waits : t.wake?.isSome = true) : (t.bind f).wake?.isSome = true := by
  cases t with
  | suspend => rfl
  | done | look | put => cases waits

theorem pollBind {f : α → Task σ β} {b : β} (turn : poll s t = (s₁, done a))
    (rest : run s₁ (f a) = (s', done b)) : poll s (t.bind f) = (s', done b) := by
  unfold poll at turn
  split at turn
  · exact (runBind turn).trans rest
  · exact pollOfRun ((runBind turn).trans rest)

theorem pollBindWaits {f : α → Task σ β} {t₁ : Task σ α} (turn : poll s t = (s₁, t₁))
    (waits : t₁.wake?.isSome = true) : poll s (t.bind f) = (s₁, t₁.bind f) := by
  cases t with
  | done b =>
    cases turn
    cases waits
  | look | put => exact runBindWaits waits turn
  | suspend wake tidy t =>
    cases wake with
    | turn => exact runBindWaits waits turn
    | condition ready alarm => exact runBindWaits waits turn

namespace Turned

theorem ends (refl : ∀ s, rely s s) (trans : ∀ s₁ s₂ s₃, rely s₁ s₂ → rely s₂ s₃ → rely s₁ s₃)
    (turned : Turned rely s t a s') : Ends rely s t (some a) s' := by
  induction turned with
  | ended turn => exact .ofPoll refl (by rw [turn]; exact .done)
  | again turn waits others rest ih => exact .ofPoll refl (by rw [turn]; exact ih.later trans waits others)

theorem andThen {f : α → Task σ β} {b : β} (turned : Turned rely s t a s₁)
    (rest : run s₁ (f a) = (s', done b)) : Turned rely s (t.bind f) b s' := by
  induction turned with
  | ended turn => exact .ended (pollBind turn rest)
  | again turn waits others more ih => exact .again (pollBindWaits turn waits) (bindWaits waits) others (ih rest)

end Turned

theorem runJob {ε : Type} {job : Job σ ε α} {f : α → Job σ ε β} {a : α} (runs : run s job.run = (s₁, done (.ok a))) :
    run s (job >>= f).run = run s₁ (f a).run := runBind runs

theorem runMapError {ε ε' : Type} {job : Job σ ε α} {f : ε → ε'} {a : α}
    (runs : run s job.run = (s₁, done (.ok a))) : run s (job.mapError f).run = (s₁, done (.ok a)) := runBind runs

theorem runEnsuring {fin : σ → σ} : ∀ {s}, run s t = (s₁, done a) → run s (t.ensuring fin) = (fin s₁, done a) := by
  induction t with
  | done b =>
    intro s runs
    cases runs
    rfl
  | look next ih => exact fun {s} runs => ih s runs
  | put s₂ t ih => exact fun runs => ih runs
  | suspend wake tidy t ih =>
    intro s runs
    cases wake with
    | turn => cases runs
    | condition ready alarm =>
      rw [run] at runs
      split at runs
      case isTrue now => rw [ensuring, run, if_pos now, ih runs]
      case isFalse => cases runs

variable [Timed σ]

theorem runAttemptUntil {ε : Type} {attempt : Task σ (Except ε α)} {retryable : ε → Bool} {r : Except ε α}
    (final : ∀ e, r = .error e → retryable e = false) (deadline : Nat) (runs : run s attempt = (s₁, done r))
    (since : Nat) : run s (Retry.attemptUntil deadline retryable attempt since) = (s₁, done r) := by
  rw [Retry.attemptUntil]
  refine (runBind runs).trans ?_
  cases r with
  | ok a => rfl
  | error e =>
    have stops : ¬(retryable e = true ∧ max since (Timed.clock s₁) < deadline) := by simp [final e rfl]
    simp only [run, dif_neg stops]

theorem runWhenAvailable {ε : Type} {attempt : Task σ (Except ε α)} {retryable : ε → Bool} {timeout : Duration}
    {r : Except ε α} (final : ∀ e, r = .error e → retryable e = false)
    (timely : Timed.deadline? s timeout ≠ none) (runs : run s attempt = (s₁, done r)) :
    run s (whenAvailable timeout retryable attempt).run = (s₁, done (r.mapError .failed)) := by
  obtain ⟨deadline, ends⟩ := Option.ne_none_iff_exists'.mp timely
  have reads : run s (Task.get fun s => Timed.deadline? s timeout) = (s, done (some deadline)) := by
    rw [← ends]
    rfl
  exact (runBind reads).trans (runBind (runAttemptUntil final deadline runs _))

end BuildReuse.Task
