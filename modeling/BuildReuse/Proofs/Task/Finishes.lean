import BuildReuse.Proofs.Task.Ends

/-! Tasks that can always be brought to their end: whatever they wait for, there are
others, or there is time, to make it come true. -/
namespace BuildReuse.Task

variable {σ α β ε : Type} {rely : σ → σ → Prop} {s : σ}

def Finishes (rely : σ → σ → Prop) (t : Task σ α) : Prop := ∀ s, ∃ a s', Ends rely s t (some a) s'

namespace Finishes

variable {t : Task σ α}

theorem done (a : α) : Finishes rely (.done a) := fun s => ⟨a, s, .done⟩

theorem bind {f : α → Task σ β} (h : Finishes rely t) (k : ∀ a, Finishes rely (f a)) :
    Finishes rely (t.bind f) := by
  intro s
  obtain ⟨a, s₁, first⟩ := h s
  obtain ⟨b, s', rest⟩ := k a s₁
  exact ⟨b, s', first.andThen rest⟩

theorem jobBind {job : Job σ ε α} {f : α → Job σ ε β} (h : Finishes rely job.run)
    (k : ∀ a, Finishes rely (f a).run) : Finishes rely (job >>= f).run := by
  refine h.bind fun r => ?_
  cases r with
  | ok a => exact k a
  | error e => exact .done _

theorem lift (h : Finishes rely t) : Finishes rely (Job.lift t : Job σ ε α).run := h.bind fun _ => .done _

theorem mapError {ε' : Type} {job : Job σ ε α} {f : ε → ε'} (h : Finishes rely job.run) :
    Finishes rely (job.mapError f).run := h.bind fun _ => .done _

theorem tryCatch {job : Job σ ε α} {handle : ε → Job σ ε α} (h : Finishes rely job.run)
    (k : ∀ e, Finishes rely (handle e).run) :
    Finishes rely (MonadExcept.tryCatch job handle : Job σ ε α).run := by
  refine h.bind fun r => ?_
  cases r with
  | ok a => exact .done _
  | error e => exact k e

section

variable (refl : ∀ s, rely s s)
include refl

theorem look {next : σ → Task σ α} (h : ∀ s, Finishes rely (next s)) : Finishes rely (.look next) := by
  intro s
  obtain ⟨a, s', rest⟩ := h s s
  exact ⟨a, s', .look (refl s) rest⟩

theorem get (f : σ → α) : Finishes rely (Task.get f) := fun s => ⟨f s, s, .look (refl s) .done⟩

theorem update (f : σ → α × σ) : Finishes rely (Task.update f) :=
  fun s => ⟨(f s).1, (f s).2, .look (refl s) (.put .done)⟩

theorem yield : Finishes rely (Task.yield : Task σ Unit) := fun s => ⟨(), s, .resume (refl s) trivial .done⟩

end
end Finishes

variable [Timed σ]

structure Patient (rely : σ → σ → Prop) : Prop where
  refl : ∀ s, rely s s
  later : ∀ s time, ∃ s', rely s s' ∧ time ≤ Timed.clock s'

namespace Patient

variable (patient : Patient rely)
include patient

theorem sleep (nanos : Nat) : Finishes rely (Task.sleep nanos : Task σ Unit) := by
  intro s
  obtain ⟨s', others, late⟩ := patient.later s (Timed.clock s + nanos)
  exact ⟨(), s', .look (patient.refl s) (.resume others (by simpa [Wake.Ready] using late) .done)⟩

theorem attemptUntil {attempt : Task σ (Except ε α)} (once : Finishes rely attempt) (deadline : Nat)
    (retryable : ε → Bool) (since : Nat) :
    Finishes rely (Retry.attemptUntil deadline retryable attempt since) := by
  induction since using Retry.rounds deadline with
  | round since ih =>
    rw [Retry.attemptUntil]
    refine once.bind fun r => ?_
    cases r with
    | ok a => exact .done _
    | error e =>
      refine .look patient.refl fun s => ?_
      dsimp only
      split
      case isTrue early => exact (patient.sleep Retry.interval).bind fun _ => ih _ (Nat.le_max_left _ _) early.2
      case isFalse => exact .done _

theorem whenAvailable {attempt : Task σ (Except ε α)} (once : Finishes rely attempt) (timeout : Duration)
    (retryable : ε → Bool) : Finishes rely (BuildReuse.whenAvailable timeout retryable attempt).run := by
  refine (Finishes.get patient.refl fun s => Timed.deadline? s timeout).bind fun deadline? => ?_
  cases deadline? with
  | none => exact .done _
  | some deadline => exact (patient.attemptUntil once deadline retryable _).bind fun _ => .done _

end Patient
end BuildReuse.Task
