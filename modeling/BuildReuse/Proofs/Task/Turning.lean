import BuildReuse.Proofs.Task.Turned

/-! Turn after turn of a task without an end, while time goes on between the turns. A task
that waits for nothing but time comes to its value, and all the turns until then are a run. -/
namespace BuildReuse.Task

variable {σ α β ε : Type}

theorem pollCondition (s : σ) (ready : σ → Bool) (alarm : Option Nat) (tidy : σ → σ) (rest : Task σ α) :
    poll s (suspend (.condition ready alarm) tidy rest) =
      if ready s then run s rest else (s, suspend (.condition ready alarm) tidy rest) := rfl

variable [Timed σ]

structure Turning (rely : σ → σ → Prop) (s : σ) (t : Task σ α) where
  states : Nat → σ
  tasks : Nat → Task σ α
  firstState : states 0 = s
  firstTask : tasks 0 = t
  turn : ∀ n, (poll (states n) (tasks n)).2 = tasks (n + 1)
  others : ∀ n, rely (poll (states n) (tasks n)).1 (states (n + 1))
  time : ∀ time, ∃ n, ∀ m, n ≤ m → time ≤ Timed.clock (states m)

inductive Timely : Task σ α → Prop where
  | done (a) : Timely (done a)
  | look {next} (rest : ∀ s, Timely (next s)) : Timely (look next)
  | put {s t} (rest : Timely t) : Timely (put s t)
  | suspend {ready alarm tidy t} (time : Nat) (comes : ∀ s, time ≤ Timed.clock s → ready s = true)
      (rest : Timely t) : Timely (suspend (.condition ready alarm) tidy t)

namespace Timely

theorem bind {t : Task σ α} {f : α → Task σ β} (timely : Timely t) (rest : ∀ a, Timely (f a)) :
    Timely (t.bind f) := by
  induction timely with
  | done a => exact rest a
  | look _ ih => exact .look ih
  | put _ ih => exact .put ih
  | suspend time comes _ ih => exact .suspend time comes ih

theorem get (f : σ → α) : Timely (Task.get f) := .look fun _ => .done _

theorem update (f : σ → α × σ) : Timely (Task.update f) := .look fun _ => .put (.done _)

theorem sleep (nanos : Nat) : Timely (Task.sleep nanos : Task σ Unit) :=
  .look fun s => .suspend (Timed.clock s + nanos) (fun _ late => decide_eq_true late) (.done ())

theorem attemptUntil {attempt : Task σ (Except ε α)} (once : Timely attempt) (deadline : Nat)
    (retryable : ε → Bool) (since : Nat) : Timely (Retry.attemptUntil deadline retryable attempt since) := by
  induction since using Retry.rounds deadline with
  | round since ih =>
    rw [Retry.attemptUntil]
    refine once.bind fun r => ?_
    cases r with
    | ok a => exact .done _
    | error e =>
      refine .look fun s => ?_
      dsimp only
      split
      case isTrue early => exact (Timely.sleep Retry.interval).bind fun _ => ih _ (Nat.le_max_left _ _) early.2
      case isFalse => exact .done _

theorem whenAvailable {attempt : Task σ (Except ε α)} (once : Timely attempt) (timeout : Duration)
    (retryable : ε → Bool) : Timely (BuildReuse.whenAvailable timeout retryable attempt).run := by
  refine (Timely.get fun s => Timed.deadline? s timeout).bind fun deadline? => ?_
  cases deadline? with
  | none => exact .done _
  | some deadline => exact (once.attemptUntil deadline retryable _).bind fun _ => .done _

end Timely

namespace Turning

variable {rely : σ → σ → Prop} {s : σ} {t : Task σ α} {a : α}

theorem wakes (turning : Turning rely s t) {ready : σ → Bool} {alarm : Option Nat} {tidy : σ → σ}
    {rest : Task σ α} {time : Nat} (comes : ∀ s, time ≤ Timed.clock s → ready s = true) {k : Nat}
    (waits : turning.tasks k = suspend (.condition ready alarm) tidy rest) :
    ∃ n, turning.tasks (n + 1) = (run (turning.states n) rest).2 := by
  by_contra stuck
  have never : ∀ n, turning.tasks (n + 1) ≠ (run (turning.states n) rest).2 := fun n goes => stuck ⟨n, goes⟩
  have still : ∀ d, turning.tasks (k + d) = suspend (.condition ready alarm) tidy rest := by
    intro d
    induction d with
    | zero => exact waits
    | succ d ih =>
      have turned := turning.turn (k + d)
      rw [ih, pollCondition] at turned
      split at turned
      · exact (never _ turned.symm).elim
      · exact turned.symm
  obtain ⟨n, late⟩ := turning.time time
  have now := comes _ (late (k + n) (Nat.le_add_left n k))
  have turned := turning.turn (k + n)
  rw [still n, pollCondition, if_pos now] at turned
  exact never _ turned.symm

theorem comesTo (turning : Turning rely s t) {u : Task σ α} (timely : Timely u) :
    ∀ {k s₁}, turning.tasks k = (run s₁ u).2 → ∃ n a, turning.tasks n = done a := by
  induction timely with
  | done a => exact fun {k _} reached => ⟨k, a, reached⟩
  | look _ ih => exact fun {_ s₁} reached => ih s₁ reached
  | put _ ih => exact fun reached => ih reached
  | suspend time comes _ ih =>
    intro k s₁ reached
    rw [run] at reached
    split at reached
    · exact ih reached
    · obtain ⟨n, goes⟩ := turning.wakes comes reached
      exact ih goes

theorem ends (turning : Turning rely s t) (timely : Timely t) : ∃ n a, turning.tasks n = done a := by
  cases stands : t.wake?.isSome with
  | false =>
    have turned := turning.turn 0
    rw [turning.firstState, turning.firstTask, pollFirst stands] at turned
    exact turning.comesTo timely turned.symm
  | true =>
    cases timely with
    | done | look | put => cases stands
    | suspend time comes rest =>
      obtain ⟨n, goes⟩ := turning.wakes comes turning.firstTask
      exact turning.comesTo rest goes

theorem turned (trans : ∀ s₁ s₂ s₃, rely s₁ s₂ → rely s₂ s₃ → rely s₁ s₃) (turning : Turning rely s t) (n : Nat) :
    ∀ {k}, turning.tasks (k + n + 1) = done a →
      ∃ s', Turned rely (turning.states k) (turning.tasks k) a s' ∧ rely s' (turning.states (k + n + 1)) := by
  induction n with
  | zero =>
    intro k ended
    have turned := turning.turn k
    exact ⟨_, .ended (Prod.ext rfl (turned.trans ended)), turning.others k⟩
  | succ n ih =>
    intro k ended
    have place : k + (n + 1) + 1 = k + 1 + n + 1 := by omega
    rw [place] at ended ⊢
    obtain ⟨s', rest, behind⟩ := ih ended
    have turn : poll (turning.states k) (turning.tasks k) =
        ((poll (turning.states k) (turning.tasks k)).1, turning.tasks (k + 1)) := Prod.ext rfl (turning.turn k)
    rcases pollStops (turning.states k) (turning.tasks k) with ⟨b, value⟩ | waits
    · rw [turning.turn k] at value
      rw [value] at rest turn
      cases rest with
      | ended stays =>
        cases stays
        exact ⟨_, .ended turn, trans _ _ _ (turning.others k) behind⟩
      | again stays stopped others rest =>
        cases stays
        cases stopped
    · rw [turning.turn k] at waits
      exact ⟨s', .again turn waits (turning.others k) rest, behind⟩

end Turning
end BuildReuse.Task
