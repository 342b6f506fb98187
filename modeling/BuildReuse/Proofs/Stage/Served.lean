import BuildReuse.Proofs.Task.Turned
import BuildReuse.Stage.Basic

/-! A caller that takes its turns until it is answered, while others act in between. On
three new stages in a row it has the body of the first one run, and what follows. -/
namespace BuildReuse.Stage.Forest

variable {σ V E : Type}

inductive Served (specs : List (Spec σ V E)) (rely : σ → σ → Prop) :
    Waiter → σ → Forest σ V E → Outcome V E → σ → Forest σ V E → Prop where
  | answered {w s f o s' f'} (turn : poll specs w s f = (.inl o, s', f')) : Served specs rely w s f o s' f'
  | again {w s f w₁ s₁ f₁ s₂ o s' f'} (turn : poll specs w s f = (.inr w₁, s₁, f₁)) (others : rely s₁ s₂)
      (rest : Served specs rely w₁ s₂ f₁ o s' f') : Served specs rely w s f o s' f'

namespace Served

variable {specs : List (Spec σ V E)} {rely : σ → σ → Prop} {w w₁ : Waiter} {s s' : σ} {f f' : Forest σ V E}
  {o : Outcome V E}

theorem ofAnswer (turn : (poll specs w s f).1 = .inl o) :
    Served specs rely w s f o (poll specs w s f).2.1 (poll specs w s f).2.2 := .answered (Prod.ext turn rfl)

theorem ofWait (refl : ∀ s, rely s s) (turn : (poll specs w s f).1 = .inr w₁)
    (rest : Served specs rely w₁ (poll specs w s f).2.1 (poll specs w s f).2.2 o s' f') :
    Served specs rely w s f o s' f' := .again (Prod.ext turn rfl) (refl _) rest

end Served

def held (phase : Phase σ V E) : Forest σ V E where
  stages := #[⟨.inFlight 2, 1, 1⟩, ⟨.inFlight 1, 1, 0⟩, ⟨.inFlight 0, 1, 0⟩]
  runs := #[⟨2, .waiting 1⟩, ⟨1, .waiting 2⟩, ⟨0, phase⟩]

def failed (e : E) : Forest σ V E where
  stages := #[⟨.empty, 1, 1⟩, ⟨.empty, 1, 0⟩, ⟨.empty, 1, 0⟩]
  runs := #[⟨2, .finished (.error e)⟩, ⟨1, .finished (.error e)⟩, ⟨0, .finished (.error e)⟩]

def completed (u v w : V) : Forest σ V E where
  stages := #[⟨.completed 2 u, 1, 1⟩, ⟨.completed 1 v, 1, 1⟩, ⟨.completed 0 w, 1, 1⟩]
  runs := #[⟨2, .finished (.ok w)⟩, ⟨1, .finished (.ok v)⟩, ⟨0, .finished (.ok u)⟩]

section

variable {a b c : Spec σ V E} (root : a.source = none) (second : b.source = some 0) (third : c.source = some 1)

def answer (stage run : Nat) : Option (Except E V) × σ × Forest σ V E → (Outcome V E ⊕ Waiter) × σ × Forest σ V E
  | (none, s, f) => (.inr ⟨stage, some run⟩, s, f)
  | (some outcome, s, f) => (.inl (outcome.map fun v => (run, v)), s, f.settle stage run outcome)

theorem waitAnswer (specs : List (Spec σ V E)) (w : Waiter) (run : Nat) (s : σ) (f : Forest σ V E) :
    poll.wait specs w run s f = answer w.stage run (pollRun specs w.stage run s f) := by
  unfold poll.wait answer
  rcases pollRun specs w.stage run s f with ⟨_ | _, _, _⟩ <;> rfl

def passOn (b c : Spec σ V E) (x : Option (Except E V) × σ × Forest σ V E) :
    (Outcome V E ⊕ Waiter) × σ × Forest σ V E :=
  answer 2 0 (pollRun.awaitSource c 2 0 1 1 (pollRun.awaitSource b 1 1 0 2 x))

section

include second third

theorem laterTurn (s : σ) (t : Task σ (Except E V)) : poll [a, b, c] ⟨2, some 0⟩ s (held (.running t)) =
    passOn b c (runBody Task.poll 2 t s (held (.running t))) := by
  have first : pollRun [a, b, c] 0 2 s (held (.running t)) = runBody Task.poll 2 t s (held (.running t)) := by
    rw [pollRun]
    rfl
  have next : pollRun [a, b, c] 1 1 s (held (.running t)) =
      pollRun.awaitSource b 1 1 0 2 (runBody Task.poll 2 t s (held (.running t))) := by
    rw [pollRun, ← first]
    simp [held, second]
  have last : pollRun [a, b, c] 2 0 s (held (.running t)) = pollRun.awaitSource c 2 0 1 1
      (pollRun.awaitSource b 1 1 0 2 (runBody Task.poll 2 t s (held (.running t)))) := by
    rw [pollRun, ← next]
    simp [held, third]
  exact (waitAnswer [a, b, c] ⟨2, some 0⟩ 0 s _).trans (congrArg (answer 2 0) last)

include root

theorem firstTurn (s : σ) : poll [a, b, c] ⟨2, none⟩ s (ofSpecs [a, b, c]) =
    passOn b c (runBody Task.run 2 (a.body none) s (held .fresh)) := by
  have first : pollRun [a, b, c] 0 2 s
      ⟨#[⟨.inFlight 2, 1, 0⟩, ⟨.inFlight 1, 1, 0⟩, ⟨.inFlight 0, 1, 0⟩],
        #[⟨2, .waiting 1⟩, ⟨1, .waiting 2⟩, ⟨0, .fresh⟩]⟩ =
      runBody Task.run 2 (a.body none) s (held .fresh) := by
    rw [pollRun]
    simp [held, root, enterBody]
  have next : pollRun [a, b, c] 1 1 s
      ⟨#[⟨.empty, 0, 0⟩, ⟨.inFlight 1, 1, 0⟩, ⟨.inFlight 0, 1, 0⟩], #[⟨2, .waiting 1⟩, ⟨1, .fresh⟩]⟩ =
      pollRun.awaitSource b 1 1 0 2 (runBody Task.run 2 (a.body none) s (held .fresh)) := by
    rw [pollRun, ← first]
    simp [second, join, status, start, setPhase]
  have last : pollRun [a, b, c] 2 0 s
      ⟨#[⟨.empty, 0, 0⟩, ⟨.empty, 0, 0⟩, ⟨.inFlight 0, 1, 0⟩], #[⟨2, .fresh⟩]⟩ = pollRun.awaitSource c 2 0 1 1
      (pollRun.awaitSource b 1 1 0 2 (runBody Task.run 2 (a.body none) s (held .fresh))) := by
    rw [pollRun, ← next]
    simp [third, join, status, start, setPhase]
  exact (waitAnswer [a, b, c] ⟨2, none⟩ 0 s _).trans (congrArg (answer 2 0) last)

end

inductive Told (u v w : V) : Except E V → Outcome V E → Forest σ V E → Prop where
  | value : Told u v w (.ok u) (.ok (0, w)) (completed u v w)
  | error (e : E) : Told u v w (.error e) (.error e) (failed e)

variable {u v w : V} {turn : σ → Task σ (Except E V) → σ × Task σ (Except E V)} {s s' : σ}
  {t t' : Task σ (Except E V)} {phase : Phase σ V E}

theorem passOnWaits (turned : turn s t = (s', t')) (waits : t'.wake?.isSome = true) :
    passOn b c (runBody turn 2 t s (held phase)) = (.inr ⟨2, some 0⟩, s', held (.running t')) := by
  cases t' with
  | suspend wake tidy rest =>
    simp only [runBody, turned]
    rfl
  | done | look | put => cases waits

theorem passOnTold {r : Except E V} {o : Outcome V E} {f : Forest σ V E} (turned : turn s t = (s', .done r))
    (next : b.body (some u) = .done (.ok v)) (last : c.body (some v) = .done (.ok w)) (told : Told u v w r o f) :
    passOn b c (runBody turn 2 t s (held phase)) = (.inl o, s', f) := by
  cases told with
  | value =>
    simp only [runBody, turned, passOn, pollRun.awaitSource, enterBody, next, last, Task.run]
    rfl
  | error e =>
    simp only [runBody, turned]
    rfl

variable {rely : σ → σ → Prop} {caller : Waiter} {f f' : Forest σ V E} {o : Outcome V E}

theorem turnCases (next : b.body (some u) = .done (.ok v)) (last : c.body (some v) = .done (.ok w))
    (only : ∀ r s', Task.Turned rely s t r s' → r = .ok u ∨ ∃ e, r = .error e) (phase : Phase σ V E) :
    (∃ r s' o f', Task.poll s t = (s', .done r) ∧ Told u v w r o f' ∧
      passOn b c (runBody Task.poll 2 t s (held phase)) = (.inl o, s', f')) ∨
    ∃ s' t', Task.poll s t = (s', t') ∧ t'.wake?.isSome = true ∧
      passOn b c (runBody Task.poll 2 t s (held phase)) = (.inr ⟨2, some 0⟩, s', held (.running t')) := by
  rcases stands : Task.poll s t with ⟨s', t'⟩
  rcases Task.pollStops s t with ⟨r, ended⟩ | waits
  · rw [stands] at ended
    cases ended
    have told : ∃ o, ∃ f' : Forest σ V E, Told u v w r o f' := by
      rcases only r s' (.ended stands) with rfl | ⟨e, rfl⟩
      · exact ⟨_, _, .value⟩
      · exact ⟨_, _, .error e⟩
    obtain ⟨o, f', told⟩ := told
    exact .inl ⟨r, s', o, f', rfl, told, passOnTold stands next last told⟩
  · rw [stands] at waits
    exact .inr ⟨s', t', rfl, waits, passOnWaits stands waits⟩

theorem servedIff (next : b.body (some u) = .done (.ok v)) (last : c.body (some v) = .done (.ok w))
    (second : b.source = some 0) (third : c.source = some 1)
    (turns : ∀ s, ∃ phase, poll [a, b, c] caller s f = passOn b c (runBody Task.poll 2 t s (held phase)))
    (only : ∀ r s', Task.Turned rely s t r s' → r = .ok u ∨ ∃ e, r = .error e) :
    Served [a, b, c] rely caller s f o s' f' ↔ ∃ r, Task.Turned rely s t r s' ∧ Told u v w r o f' := by
  have later (t : Task σ (Except E V)) (s : σ) : ∃ phase, poll [a, b, c] ⟨2, some 0⟩ s (held (.running t)) =
      passOn b c (runBody Task.poll 2 t s (held phase)) := ⟨_, laterTurn second third s t⟩
  constructor
  · intro served
    induction served generalizing t with
    | @answered caller s f o s' f' turn =>
      obtain ⟨phase, same⟩ := turns s
      rcases turnCases next last only phase with ⟨r, s₁, o₁, f₁, ended, told, answers⟩ | ⟨s₁, t₁, -, -, waits⟩
      · cases answers.symm.trans (same.symm.trans turn)
        exact ⟨r, .ended ended, told⟩
      · cases waits.symm.trans (same.symm.trans turn)
    | @again caller s f caller₁ s₁ f₁ s₂ o s' f' turn others rest ih =>
      obtain ⟨phase, same⟩ := turns s
      rcases turnCases next last only phase with ⟨r, s₁, o₁, f₁, -, -, answers⟩ | ⟨s₁, t₁, stands, waiting, waits⟩
      · cases answers.symm.trans (same.symm.trans turn)
      · cases waits.symm.trans (same.symm.trans turn)
        obtain ⟨r, turned, told⟩ := ih (later t₁) fun r s' turned => only r s' (.again stands waiting others turned)
        exact ⟨r, .again stands waiting others turned, told⟩
  · rintro ⟨r, turned, told⟩
    induction turned generalizing caller f with
    | ended turn =>
      obtain ⟨phase, same⟩ := turns _
      exact .answered (same.trans (passOnTold turn next last told))
    | @again s t s₁ t₁ s₂ a s' turn waits others rest ih =>
      obtain ⟨phase, same⟩ := turns s
      exact .again (same.trans (passOnWaits turn waits)) others
        (ih (later t₁) (fun r s' turned => only r s' (.again turn waits others turned)) told)

theorem freshServedIff (root : a.source = none) (second : b.source = some 0) (third : c.source = some 1)
    (starts : (a.body none).wake?.isSome = false)
    (next : b.body (some u) = .done (.ok v)) (last : c.body (some v) = .done (.ok w))
    (only : ∀ r s', Task.Turned rely s (a.body none) r s' → r = .ok u ∨ ∃ e, r = .error e) :
    Served [a, b, c] rely ⟨2, none⟩ s (ofSpecs [a, b, c]) o s' f' ↔
      ∃ r, Task.Turned rely s (a.body none) r s' ∧ Told u v w r o f' := by
  refine servedIff next last second third (fun s => ⟨.fresh, ?_⟩) only
  rw [firstTurn root second third]
  simp only [runBody, Task.pollFirst starts]

end
end BuildReuse.Stage.Forest
