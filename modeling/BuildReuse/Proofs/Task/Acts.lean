import BuildReuse.Task
import Mathlib.Tactic.Common

/-! Tasks, one atomic action at a time. A look at the state and the change that it
leads to are one action; between any two actions others may act. A turn of a task
is made of actions. -/
namespace BuildReuse.Task

variable {σ α β ε : Type}

theorem ofValue {t : Task σ α} {a : α} (atEnd : t.value? = some a) : t = done a := by
  cases t with
  | done b => rw [Option.some.inj atEnd]
  | look next => cases atEnd
  | put s rest => cases atEnd
  | suspend wake tidy rest => cases atEnd

def act (s : σ) : Task σ α → Option (σ × Task σ α)
  | done _ => none
  | look next =>
    match next s with
    | put s' rest => some (s', rest)
    | t => some (s, t)
  | put s' rest => some (s', rest)
  | suspend .turn _ rest => some (s, rest)
  | suspend (.condition ready _) _ rest => if ready s then some (s, rest) else none

theorem actUnfinished {t t' : Task σ α} {s s' : σ} (acts : act s t = some (s', t')) : t.value? = none := by
  cases t with
  | done a => cases acts
  | look next => rfl
  | put s₁ rest => rfl
  | suspend wake tidy rest => rfl

inductive Acts : σ → Task σ α → σ → Task σ α → Prop where
  | refl (s : σ) (t : Task σ α) : Acts s t s t
  | head {s s' s'' : σ} {t t' t'' : Task σ α} (first : act s t = some (s', t'))
      (rest : Acts s' t' s'' t'') : Acts s t s'' t''

theorem runActs (t : Task σ α) (s : σ) : Acts s t (run s t).1 (run s t).2 := by
  suffices both : Acts s t (run s t).1 (run s t).2 ∧
      ∀ s' rest, t = put s' rest → Acts s' rest (run s t).1 (run s t).2 from both.1
  induction t generalizing s with
  | done a => exact ⟨.refl s _, nofun⟩
  | put s' rest ih =>
    have after := (ih s').1
    refine ⟨.head rfl after, fun _ _ same => ?_⟩
    cases same
    exact after
  | look next ih =>
    refine ⟨?_, nofun⟩
    obtain ⟨whole, behind⟩ := ih s s
    cases shape : next s with
    | put s' rest =>
      have after := behind s' rest shape
      exact .head (by simp only [act, shape]) after
    | _ =>
      have plain : act s (look next) = some (s, next s) := by simp only [act, shape]
      exact .head plain whole
  | suspend wake tidy rest ih =>
    refine ⟨?_, nofun⟩
    cases wake with
    | turn => exact .refl s _
    | condition ready alarm =>
      by_cases now : ready s = true
      · have same : run s (suspend (.condition ready alarm) tidy rest) = run s rest := by
          rw [run, if_pos now]
        rw [same]
        exact .head (by simp only [act, now, if_true]) (ih s).1
      · have same : run s (suspend (.condition ready alarm) tidy rest) =
            (s, suspend (.condition ready alarm) tidy rest) := by
          rw [run, if_neg now]
        rw [same]
        exact .refl s _

theorem pollActs (t : Task σ α) (s : σ) : Acts s t (poll s t).1 (poll s t).2 := by
  unfold poll
  split
  · exact .head rfl (runActs _ s)
  · exact runActs t s

section

variable {undo : σ → σ} {t t' : Task σ (Except ε α)} {s s' : σ}

theorem actOrUndo (acts : act s (t.orUndo undo) = some (s', t')) :
    (∃ u, act s t = some (s', u) ∧ t' = u.orUndo undo) ∨
      ∃ e, t = done (.error e) ∧ s' = undo s ∧ t' = done (.error e) := by
  cases t with
  | done r =>
    cases r with
    | ok a => cases acts
    | error e =>
      cases acts
      exact .inr ⟨e, rfl, rfl, rfl⟩
  | put s₁ rest =>
    cases acts
    exact .inl ⟨rest, rfl, rfl⟩
  | look next =>
    left
    simp only [orUndo, act] at acts ⊢
    cases shape : next s with
    | done r =>
      rw [shape] at acts
      cases r <;> cases acts <;> exact ⟨_, rfl, rfl⟩
    | _ =>
      rw [shape] at acts
      cases acts
      exact ⟨_, rfl, rfl⟩
  | suspend wake tidy rest =>
    cases wake with
    | turn =>
      cases acts
      exact .inl ⟨rest, rfl, rfl⟩
    | condition ready alarm =>
      simp only [orUndo, act] at acts ⊢
      split at acts
      · cases acts
        exact .inl ⟨rest, by rw [if_pos ‹_›], rfl⟩
      · cases acts

theorem abandonOrUndo {wake : Wake σ} (waits : (t.orUndo undo).wake? = some wake) (s : σ) :
    t.wake? = some wake ∧ (t.orUndo undo).abandon s = undo (t.abandon s) := by
  cases t with
  | done r => cases r <;> cases waits
  | look next => cases waits
  | put s₁ rest => cases waits
  | suspend wake' tidy rest => exact ⟨waits, rfl⟩

theorem doneOrUndo {r : Except ε α} (ended : t.orUndo undo = done r) : ∃ a, r = .ok a ∧ t = done (.ok a) := by
  cases t with
  | done r' =>
    cases r' with
    | ok a =>
      cases ended
      exact ⟨a, rfl, rfl⟩
    | error e => cases ended
  | look next => cases ended
  | put s₁ rest => cases ended
  | suspend wake tidy rest => cases ended

end

variable {G : Type} {move : G → σ → G → σ → Prop} {gone gone' g g' : G}

inductive Obeys (move : G → σ → G → σ → Prop) (gone : G) (post : G → α → Prop) :
    G → Task σ α → Prop where
  | done {g a} (h : post g a) : Obeys move gone post g (done a)
  | look {g next} (ghost : σ → G) (after : σ → σ) (rest : σ → Task σ α)
      (shape : ∀ s, next s = rest s ∧ after s = s ∨ next s = put (after s) (rest s))
      (moves : ∀ s, move g s (ghost s) (after s))
      (obeys : ∀ s, Obeys move gone post (ghost s) (rest s)) : Obeys move gone post g (look next)
  | suspend {g wake tidy rest} (quits : ∀ s, move g s gone (tidy s))
      (obeys : Obeys move gone post g rest) : Obeys move gone post g (suspend wake tidy rest)

namespace Obeys

variable {post post' : G → α → Prop} {t : Task σ α} {s s' : σ}

theorem act (h : Obeys move gone post g t) (idle : ∀ g s, move g s g s) {t'}
    (acts : Task.act s t = some (s', t')) : ∃ g', move g s g' s' ∧ Obeys move gone post g' t' := by
  cases h with
  | done h => cases acts
  | look ghost after rest shape moves obeys =>
    refine ⟨ghost s, ?_⟩
    rcases shape s with ⟨plain, same⟩ | changed
    · have notPut : ∀ s₁ r, rest s ≠ .put s₁ r := by
        intro s₁ r shape
        have := obeys s
        rw [shape] at this
        cases this
      simp only [Task.act, plain] at acts
      cases acts
      have moved := moves s
      rw [same] at moved
      exact ⟨moved, obeys s⟩
    · simp only [Task.act, changed] at acts
      cases acts
      exact ⟨moves s, obeys s⟩
  | @suspend _ wake tidy rest quits obeys =>
    cases wake with
    | turn =>
      cases acts
      exact ⟨g, idle g s, obeys⟩
    | condition ready alarm =>
      simp only [Task.act] at acts
      split at acts
      · cases acts
        exact ⟨g, idle g s, obeys⟩
      · cases acts

theorem abandon (h : Obeys move gone post g t) {wake} (waits : t.wake? = some wake) (s : σ) :
    move g s gone (t.abandon s) := by
  cases h with
  | done h => cases waits
  | look ghost after rest shape moves obeys => cases waits
  | suspend quits obeys => exact quits s

theorem bind {post' : G → β → Prop} {f : α → Task σ β} (h : Obeys move gone post g t)
    (k : ∀ g a, post g a → Obeys move gone post' g (f a)) : Obeys move gone post' g (t.bind f) := by
  induction h with
  | done h => exact k _ _ h
  | look ghost after rest shape moves obeys ih =>
    refine .look ghost after (fun s => (rest s).bind f) (fun s => ?_) moves ih
    rcases shape s with ⟨plain, same⟩ | changed
    · exact .inl ⟨by rw [plain], same⟩
    · exact .inr (by rw [changed]; rfl)
  | suspend quits obeys ih => exact .suspend quits ih

theorem weaken {post' : G → α → Prop} (h : Obeys move gone post g t) (weaker : ∀ g a, post g a → post' g a) :
    Obeys move gone post' g t := by
  have same : Obeys move gone post' g (t.bind Task.done) := h.bind fun g a holds => .done (weaker g a holds)
  rwa [bindDone] at same

theorem get {f : σ → α} (idle : ∀ g s, move g s g s) (h : ∀ s, post g (f s)) :
    Obeys move gone post g (Task.get f) :=
  .look (fun _ => g) id (fun s => .done (f s)) (fun _ => .inl ⟨rfl, rfl⟩) (idle g) fun s => .done (h s)

theorem update {f : σ → α × σ} (ghost : σ → G) (moves : ∀ s, move g s (ghost s) (f s).2)
    (h : ∀ s, post (ghost s) (f s).1) : Obeys move gone post g (Task.update f) :=
  .look ghost (fun s => (f s).2) (fun s => .done (f s).1) (fun _ => .inr rfl) moves fun s => .done (h s)

theorem orUndo {post post' : G → Except ε α → Prop} {undo : σ → σ} {t : Task σ (Except ε α)}
    (h : Obeys move gone' post g t)
    (trans : ∀ {g₁ g₂ g₃ s₁ s₂ s₃}, move g₁ s₁ g₂ s₂ → move g₂ s₂ g₃ s₃ → move g₁ s₁ g₃ s₃)
    (dropped : ∀ s, move gone' s gone (undo s)) (ok : ∀ g a, post g (.ok a) → post' g (.ok a))
    (failed : ∀ g e, post g (.error e) → ∃ g', (∀ s, move g s g' (undo s)) ∧ post' g' (.error e)) :
    Obeys move gone post' g (t.orUndo undo) := by
  induction h with
  | @done g r h =>
    cases r with
    | ok a => exact .done (ok g a h)
    | error e =>
      obtain ⟨g', moves, h'⟩ := failed g e h
      exact .look (fun _ => g') undo (fun _ => .done (.error e)) (fun _ => .inr rfl) moves
        fun _ => .done h'
  | look ghost after rest shape moves obeys ih =>
    refine .look ghost after (fun s => (rest s).orUndo undo) (fun s => ?_) moves ih
    rcases shape s with ⟨plain, same⟩ | changed
    · exact .inl ⟨by rw [plain], same⟩
    · exact .inr (by rw [changed]; rfl)
  | suspend quits obeys ih => exact .suspend (fun s => trans (quits s) (dropped _)) ih

theorem lift {post : G → Except ε α → Prop} (h : Obeys move gone (fun g a => post g (.ok a)) g t) :
    Obeys move gone post g (Job.lift t : Job σ ε α).run :=
  h.bind fun _ _ holds => .done holds

theorem jobBind {post : G → Except ε α → Prop} {post' : G → Except ε β → Prop} {job : Job σ ε α}
    {f : α → Job σ ε β} (h : Obeys move gone post g job.run)
    (ok : ∀ g a, post g (.ok a) → Obeys move gone post' g (f a).run)
    (error : ∀ g e, post g (.error e) → post' g (.error e)) :
    Obeys move gone post' g (job >>= f).run := by
  refine h.bind fun g r holds => ?_
  cases r with
  | ok a => exact ok g a holds
  | error e => exact .done (error g e holds)

end Obeys
end BuildReuse.Task
