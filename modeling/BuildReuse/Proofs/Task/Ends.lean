import BuildReuse.Proofs.Task.Acts
import BuildReuse.Retry

/-! Whole runs of tasks among others. Before each look at the state, and while the
task waits, others may change the state as they are relied on to do. A run ends
with a value, or is dropped where it waits. -/
namespace BuildReuse

variable {σ α β ε : Type}

def Wake.Ready (s : σ) : Wake σ → Prop
  | .turn => True
  | .condition ready _ => ready s = true

namespace Task

inductive Ends (rely : σ → σ → Prop) : σ → Task σ α → Option α → σ → Prop where
  | done {s a} : Ends rely s (done a) (some a) s
  | look {s s₁ next o s'} (others : rely s s₁) (rest : Ends rely s₁ (next s₁) o s') :
      Ends rely s (look next) o s'
  | put {s s₁ t o s'} (rest : Ends rely s₁ t o s') : Ends rely s (put s₁ t) o s'
  | resume {s s₁ wake tidy t o s'} (others : rely s s₁) (ready : wake.Ready s₁)
      (rest : Ends rely s₁ t o s') : Ends rely s (suspend wake tidy t) o s'
  | drop {s s₁ wake tidy t} (others : rely s s₁) : Ends rely s (suspend wake tidy t) none (tidy s₁)

namespace Ends

variable {rely : σ → σ → Prop} {s s' : σ} {t : Task σ α}

theorem ofRun (refl : ∀ s, rely s s) {o : Option α} (t : Task σ α) :
    ∀ {s s' : σ}, Ends rely (run s t).1 (run s t).2 o s' → Ends rely s t o s' := by
  induction t with
  | done a => exact id
  | look next ih => exact fun rest => .look (refl _) (ih _ rest)
  | put s₁ t ih => exact fun rest => .put (ih rest)
  | suspend wake tidy t ih =>
    intro s s' rest
    cases wake with
    | turn => exact rest
    | condition ready alarm =>
      rw [run] at rest
      split at rest
      · rename_i now
        exact .resume (refl s) now (ih rest)
      · exact rest

theorem ofPoll (refl : ∀ s, rely s s) {o : Option α}
    (rest : Ends rely (poll s t).1 (poll s t).2 o s') : Ends rely s t o s' := by
  unfold poll at rest
  split at rest
  · exact .resume (refl s) trivial (ofRun refl _ rest)
  · exact ofRun refl t rest

theorem ofValue (refl : ∀ s, rely s s) {a : α} (ended : (poll s t).2.value? = some a) :
    Ends rely s t (some a) (poll s t).1 := by
  refine ofPoll refl ?_
  rw [Task.ofValue ended]
  exact .done

theorem later (trans : ∀ s₁ s₂ s₃, rely s₁ s₂ → rely s₂ s₃ → rely s₁ s₃) {o : Option α} {s₁ : σ}
    (waits : t.wake?.isSome = true) (others : rely s s₁) (rest : Ends rely s₁ t o s') : Ends rely s t o s' := by
  cases rest with
  | resume more ready rest => exact .resume (trans _ _ _ others more) ready rest
  | drop more => exact .drop (trans _ _ _ others more)
  | done | look | put => cases waits

theorem mono {rely' : σ → σ → Prop} (more : ∀ s s', rely s s' → rely' s s') {o : Option α}
    (h : Ends rely s t o s') : Ends rely' s t o s' := by
  induction h with
  | done => exact .done
  | look others rest ih => exact .look (more _ _ others) ih
  | put rest ih => exact .put ih
  | resume others ready rest ih => exact .resume (more _ _ others) ready ih
  | drop others => exact .drop (more _ _ others)

theorem bind {f : α → Task σ β} {o : Option β} (h : Ends rely s (t.bind f) o s') :
    (∃ a s₁, Ends rely s t (some a) s₁ ∧ Ends rely s₁ (f a) o s') ∨
      o = none ∧ Ends rely s t none s' := by
  induction t generalizing s with
  | done a => exact .inl ⟨a, s, .done, h⟩
  | look next ih =>
    cases h with
    | look others rest =>
      rcases ih _ rest with ⟨a, s₁, first, second⟩ | ⟨dropped, first⟩
      · exact .inl ⟨a, s₁, .look others first, second⟩
      · exact .inr ⟨dropped, .look others first⟩
  | put s₁ t ih =>
    cases h with
    | put rest =>
      rcases ih rest with ⟨a, s₂, first, second⟩ | ⟨dropped, first⟩
      · exact .inl ⟨a, s₂, .put first, second⟩
      · exact .inr ⟨dropped, .put first⟩
  | suspend wake tidy t ih =>
    cases h with
    | resume others ready rest =>
      rcases ih rest with ⟨a, s₁, first, second⟩ | ⟨dropped, first⟩
      · exact .inl ⟨a, s₁, .resume others ready first, second⟩
      · exact .inr ⟨dropped, .resume others ready first⟩
    | drop others => exact .inr ⟨rfl, .drop others⟩

theorem andThen {f : α → Task σ β} {a : α} {o : Option β} {s₁ : σ} (h : Ends rely s t (some a) s₁)
    (rest : Ends rely s₁ (f a) o s') : Ends rely s (t.bind f) o s' := by
  induction t generalizing s with
  | done b =>
    cases h
    exact rest
  | look next ih =>
    cases h with
    | look others first => exact .look others (ih _ first)
  | put s₂ t ih =>
    cases h with
    | put first => exact .put (ih first)
  | suspend wake tidy t ih =>
    cases h with
    | resume others ready first => exact .resume others ready (ih first)

theorem dropped {f : α → Task σ β} (h : Ends rely s t none s') :
    Ends rely s (t.bind f) none s' := by
  induction t generalizing s with
  | done b => cases h
  | look next ih =>
    cases h with
    | look others first => exact .look others (ih _ first)
  | put s₂ t ih =>
    cases h with
    | put first => exact .put (ih first)
  | suspend wake tidy t ih =>
    cases h with
    | resume others ready first => exact .resume others ready (ih first)
    | drop others => exact .drop others

theorem jobBind {job : Job σ ε α} {f : α → Job σ ε β} {o : Option (Except ε β)}
    (h : Ends rely s (job >>= f).run o s') :
    (∃ a s₁, Ends rely s job.run (some (.ok a)) s₁ ∧ Ends rely s₁ (f a).run o s') ∨
      (∃ e, o = some (.error e) ∧ Ends rely s job.run (some (.error e)) s') ∨
      o = none ∧ Ends rely s job.run none s' := by
  rcases bind h with ⟨r, s₁, first, second⟩ | dropped
  · cases r with
    | ok a => exact .inl ⟨a, s₁, first, second⟩
    | error e =>
      cases second
      exact .inr (.inl ⟨e, rfl, first⟩)
  · exact .inr (.inr dropped)

theorem ensuring {fin : σ → σ} {o : Option α} (h : Ends rely s (t.ensuring fin) o s') :
    (∃ s₁ s₂, Ends rely s t o s₁ ∧ rely s₁ s₂ ∧ s' = fin s₂) ∨
      o = none ∧ ∃ s₁, Ends rely s t none s₁ ∧ s' = fin s₁ := by
  induction t generalizing s with
  | done a =>
    cases h with
    | look others rest =>
      cases rest with
      | put rest =>
        cases rest
        exact .inl ⟨s, _, .done, others, rfl⟩
  | look next ih =>
    cases h with
    | look others rest =>
      rcases ih _ rest with ⟨s₁, s₂, first, last⟩ | ⟨rfl, s₁, first, same⟩
      · exact .inl ⟨s₁, s₂, .look others first, last⟩
      · exact .inr ⟨rfl, s₁, .look others first, same⟩
  | put s₁ t ih =>
    cases h with
    | put rest =>
      rcases ih rest with ⟨s₁, s₂, first, last⟩ | ⟨rfl, s₁, first, same⟩
      · exact .inl ⟨s₁, s₂, .put first, last⟩
      · exact .inr ⟨rfl, s₁, .put first, same⟩
  | suspend wake tidy t ih =>
    cases h with
    | resume others ready rest =>
      rcases ih rest with ⟨s₁, s₂, first, last⟩ | ⟨rfl, s₁, first, same⟩
      · exact .inl ⟨s₁, s₂, .resume others ready first, last⟩
      · exact .inr ⟨rfl, s₁, .resume others ready first, same⟩
    | drop others => exact .inr ⟨rfl, _, .drop others, rfl⟩

theorem thenEnsured {fin : σ → σ} {a : α} {s₁ s₂ : σ} (h : Ends rely s t (some a) s₁) (others : rely s₁ s₂) :
    Ends rely s (t.ensuring fin) (some a) (fin s₂) := by
  induction t generalizing s with
  | done b =>
    cases h
    exact .look others (.put .done)
  | look next ih =>
    cases h with
    | look before rest => exact .look before (ih _ rest)
  | put s₃ t ih =>
    cases h with
    | put rest => exact .put (ih rest)
  | suspend wake tidy t ih =>
    cases h with
    | resume before ready rest => exact .resume before ready (ih rest)

theorem orUndo {undo : σ → σ} {t : Task σ (Except ε α)} {o : Option (Except ε α)}
    (h : Ends rely s (t.orUndo undo) o s') :
    (∃ a, o = some (.ok a) ∧ Ends rely s t (some (.ok a)) s') ∨
      (∃ e s₁ s₂, o = some (.error e) ∧ Ends rely s t (some (.error e)) s₁ ∧ rely s₁ s₂ ∧ s' = undo s₂) ∨
      o = none ∧ ∃ s₁, Ends rely s t none s₁ ∧ s' = undo s₁ := by
  induction t generalizing s with
  | done r =>
    cases r with
    | ok a =>
      cases h
      exact .inl ⟨a, rfl, .done⟩
    | error e =>
      cases h with
      | look others rest =>
        cases rest with
        | put rest =>
          cases rest
          exact .inr (.inl ⟨e, s, _, rfl, .done, others, rfl⟩)
  | look next ih =>
    cases h with
    | look others rest =>
      rcases ih _ rest with ⟨a, rfl, first⟩ | ⟨e, s₁, s₂, rfl, first, last⟩ | ⟨rfl, s₁, first, same⟩
      · exact .inl ⟨a, rfl, .look others first⟩
      · exact .inr (.inl ⟨e, s₁, s₂, rfl, .look others first, last⟩)
      · exact .inr (.inr ⟨rfl, s₁, .look others first, same⟩)
  | put s₀ t ih =>
    cases h with
    | put rest =>
      rcases ih rest with ⟨a, rfl, first⟩ | ⟨e, s₁, s₂, rfl, first, last⟩ | ⟨rfl, s₁, first, same⟩
      · exact .inl ⟨a, rfl, .put first⟩
      · exact .inr (.inl ⟨e, s₁, s₂, rfl, .put first, last⟩)
      · exact .inr (.inr ⟨rfl, s₁, .put first, same⟩)
  | suspend wake tidy t ih =>
    cases h with
    | resume others ready rest =>
      rcases ih rest with ⟨a, rfl, first⟩ | ⟨e, s₁, s₂, rfl, first, last⟩ | ⟨rfl, s₁, first, same⟩
      · exact .inl ⟨a, rfl, .resume others ready first⟩
      · exact .inr (.inl ⟨e, s₁, s₂, rfl, .resume others ready first, last⟩)
      · exact .inr (.inr ⟨rfl, s₁, .resume others ready first, same⟩)
    | drop others => exact .inr (.inr ⟨rfl, _, .drop others, rfl⟩)

theorem update {f : σ → α × σ} {o : Option α} (h : Ends rely s (Task.update f) o s') :
    ∃ s₁, rely s s₁ ∧ o = some (f s₁).1 ∧ s' = (f s₁).2 := by
  cases h with
  | look others rest =>
    cases rest with
    | put rest =>
      cases rest
      exact ⟨_, others, rfl, rfl⟩

theorem get {f : σ → α} {o : Option α} (h : Ends rely s (Task.get f) o s') : rely s s' ∧ o = some (f s') := by
  cases h with
  | look others rest =>
    cases rest
    exact ⟨others, rfl⟩

theorem lift {r : Except ε α} (h : Ends rely s (Job.lift t : Job σ ε α).run (some r) s') :
    ∃ a, r = .ok a ∧ Ends rely s t (some a) s' := by
  rcases bind h with ⟨a, s₁, first, second⟩ | ⟨no, -⟩
  · cases second
    exact ⟨a, rfl, first⟩
  · cases no

end Ends

def Ensures (rely : σ → σ → Prop) (pre : σ → Prop) (t : Task σ α) (post : α → σ → Prop)
    (quit : σ → Prop) : Prop :=
  ∀ ⦃s o s'⦄, pre s → Ends rely s t o s' → match o with
    | some a => post a s'
    | none => quit s'

namespace Ensures

variable {rely : σ → σ → Prop} {pre quit : σ → Prop} {t : Task σ α}

theorem done {post : α → σ → Prop} {a : α} (h : ∀ s, pre s → post a s) :
    Ensures rely pre (.done a) post quit := by
  intro s o s' holds ends
  cases ends
  exact h s holds

theorem weaken {post post' : α → σ → Prop} {quit' : σ → Prop} (h : Ensures rely pre t post quit)
    (value : ∀ a s, post a s → post' a s) (dropped : ∀ s, quit s → quit' s) :
    Ensures rely pre t post' quit' := by
  intro s o s' holds ends
  have := h holds ends
  cases o with
  | some a => exact value a s' this
  | none => exact dropped s' this

theorem bind {mid : α → σ → Prop} {post : β → σ → Prop} {f : α → Task σ β}
    (h : Ensures rely pre t mid quit) (k : ∀ a, Ensures rely (mid a) (f a) post quit) :
    Ensures rely pre (t.bind f) post quit := by
  intro s o s' holds ends
  rcases ends.bind with ⟨a, s₁, first, second⟩ | ⟨rfl, dropped⟩
  · exact k a (h holds first) second
  · exact h holds dropped

theorem strengthen {pre' : σ → Prop} {post : α → σ → Prop} (h : Ensures rely pre t post quit)
    (weaker : ∀ s, pre' s → pre s) : Ensures rely pre' t post quit :=
  fun _ _ _ holds ends => h (weaker _ holds) ends

theorem look {post : α → σ → Prop} {next : σ → Task σ α}
    (h : ∀ s s₁, pre s → rely s s₁ → Ensures rely (· = s₁) (next s₁) post quit) :
    Ensures rely pre (.look next) post quit := by
  intro s o s' holds ends
  cases ends with
  | look others rest => exact h s _ holds others rfl rest

theorem get {post : α → σ → Prop} {f : σ → α}
    (h : ∀ s s₁, pre s → rely s s₁ → post (f s₁) s₁) : Ensures rely pre (Task.get f) post quit := by
  intro s o s' holds ends
  cases ends with
  | look others rest =>
    cases rest
    exact h s _ holds others

theorem update {post : α → σ → Prop} {f : σ → α × σ}
    (h : ∀ s s₁, pre s → rely s s₁ → post (f s₁).1 (f s₁).2) :
    Ensures rely pre (Task.update f) post quit := by
  intro s o s' holds ends
  cases ends with
  | look others rest =>
    cases rest with
    | put rest =>
      cases rest
      exact h s _ holds others

theorem wait {post : Unit → σ → Prop} {wake : Wake σ} (h : ∀ s s₁, pre s → rely s s₁ → post () s₁)
    (dropped : ∀ s s₁, pre s → rely s s₁ → quit s₁) :
    Ensures rely pre (.suspend wake id (.done ())) post quit := by
  intro s o s' holds ends
  cases ends with
  | resume others ready rest =>
    cases rest
    exact h s _ holds others
  | drop others => exact dropped s _ holds others

theorem lift {post : Except ε α → σ → Prop} (h : Ensures rely pre t (fun a => post (.ok a)) quit) :
    Ensures rely pre (Job.lift t : Job σ ε α).run post quit :=
  h.bind fun _ => .done fun _ => id

theorem jobBind {job : Job σ ε α} {f : α → Job σ ε β} {mid : Except ε α → σ → Prop}
    {post : Except ε β → σ → Prop} (h : Ensures rely pre job.run mid quit)
    (ok : ∀ a, Ensures rely (mid (.ok a)) (f a).run post quit)
    (error : ∀ e s, mid (.error e) s → post (.error e) s) :
    Ensures rely pre (job >>= f).run post quit := by
  refine h.bind fun r => ?_
  cases r with
  | ok a => exact ok a
  | error e => exact .done (error e)

theorem change {post : Except ε Unit → σ → Prop} {f : σ → Except ε σ}
    (ok : ∀ s s₁ s₂, pre s → rely s s₁ → f s₁ = .ok s₂ → post (.ok ()) s₂)
    (error : ∀ s s₁ e, pre s → rely s s₁ → f s₁ = .error e → post (.error e) s₁) :
    Ensures rely pre (Job.change f).run post quit := by
  refine .update fun s s₁ holds others => ?_
  cases changed : f s₁ with
  | ok s₂ => exact ok s s₁ s₂ holds others changed
  | error e => exact error s s₁ e holds others changed

theorem tryCatch {job : Job σ ε α} {handle : ε → Job σ ε α} {mid post : Except ε α → σ → Prop}
    (h : Ensures rely pre job.run mid quit) (ok : ∀ a s, mid (.ok a) s → post (.ok a) s)
    (error : ∀ e, Ensures rely (mid (.error e)) (handle e).run post quit) :
    Ensures rely pre (MonadExcept.tryCatch job handle : Job σ ε α).run post quit := by
  refine h.bind fun r => ?_
  cases r with
  | ok a => exact .done (ok a)
  | error e => exact error e

theorem mapError {ε' : Type} {job : Job σ ε α} {f : ε → ε'} {post : Except ε' α → σ → Prop}
    (h : Ensures rely pre job.run (fun r => post (r.mapError f)) quit) :
    Ensures rely pre (job.mapError f).run post quit :=
  h.bind fun _ => .done fun _ => id

end Ensures

theorem Obeys.ensures {G : Type} {move : G → σ → G → σ → Prop} {gone g : G} {post : G → α → Prop}
    {rely : σ → σ → Prop} {inv : G → σ → Prop} {t : Task σ α} (h : Obeys move gone post g t)
    (moves : ∀ {g s g' s'}, inv g s → move g s g' s' → inv g' s')
    (stable : ∀ {g s s'}, inv g s → rely s s' → inv g s') :
    Ensures rely (inv g) t (fun a s => ∃ g', post g' a ∧ inv g' s) (inv gone) := by
  induction h with
  | done h =>
    intro s o s' holds ends
    cases ends
    exact ⟨_, h, holds⟩
  | look ghost after rest shape acts obeys ih =>
    intro s o s' holds ends
    cases ends with
    | look others behind =>
      rename_i s₁
      have holds' := moves (stable holds others) (acts s₁)
      rcases shape s₁ with ⟨plain, same⟩ | changed
      · rw [plain] at behind
        rw [same] at holds'
        exact ih s₁ holds' behind
      · rw [changed] at behind
        cases behind with
        | put behind => exact ih s₁ holds' behind
  | suspend quits obeys ih =>
    intro s o s' holds ends
    cases ends with
    | resume others ready behind => exact ih (stable holds others) behind
    | drop others => exact moves (stable holds others) (quits _)

variable [Timed σ]

theorem sleepEnsures {rely : σ → σ → Prop} {inv : σ → Prop} (stable : ∀ s s₁, inv s → rely s s₁ → inv s₁)
    (nanos : Nat) : Ensures rely inv (Task.sleep nanos) (fun _ => inv) inv := by
  intro s o s' holds ends
  cases ends with
  | look others rest =>
    have waits {wake : Wake σ} : Ensures rely inv (.suspend wake id (.done ())) (fun _ => inv) inv :=
      .wait stable stable
    exact waits (stable s _ holds others) rest

theorem attemptUntilEnsures {rely : σ → σ → Prop} {inv : σ → Prop} (deadline : Nat)
    {retryable : ε → Bool} {attempt : Task σ (Except ε α)} {post : Except ε α → σ → Prop}
    (stable : ∀ s s₁, inv s → rely s s₁ → inv s₁)
    (kept : ∀ r s s₁, post r s → rely s s₁ → post r s₁)
    (once : Ensures rely inv attempt post inv)
    (again : ∀ e s, retryable e = true → post (.error e) s → inv s) (since : Nat) :
    Ensures rely inv (Retry.attemptUntil deadline retryable attempt since) post inv := by
  induction since using Retry.rounds deadline with
  | round since ih =>
    rw [Retry.attemptUntil]
    refine once.bind fun r => ?_
    cases r with
    | ok a => exact .done fun _ => id
    | error e =>
      refine .look fun s s₁ holds others => ?_
      have failed := kept _ s s₁ holds others
      dsimp only
      split
      case isTrue early =>
        have rests : Ensures rely (· = s₁) (Task.sleep Retry.interval) (fun _ => inv) inv :=
          (sleepEnsures stable _).strengthen fun _ same => same ▸ again e s₁ early.1 failed
        exact rests.bind fun _ => ih _ (Nat.le_max_left _ _) early.2
      case isFalse => exact .done fun _ same => same ▸ failed

theorem whenAvailableEnsures {rely : σ → σ → Prop} {inv : σ → Prop} (timeout : Duration)
    {retryable : ε → Bool} {attempt : Task σ (Except ε α)} {post : Except ε α → σ → Prop}
    (stable : ∀ s s₁, inv s → rely s s₁ → inv s₁)
    (kept : ∀ r s s₁, post r s → rely s s₁ → post r s₁)
    (once : Ensures rely inv attempt post inv)
    (again : ∀ e s, retryable e = true → post (.error e) s → inv s) :
    Ensures rely inv (whenAvailable timeout retryable attempt).run (fun r s => match r with
      | .ok a => post (.ok a) s
      | .error (.failed e) => post (.error e) s
      | .error .noDeadline => inv s ∧ Timed.deadline? s timeout = none) inv := by
  have reads : Ensures rely inv (Task.get fun s => Timed.deadline? s timeout)
      (fun deadline? s => inv s ∧ Timed.deadline? s timeout = deadline?) inv :=
    .get fun s s₁ holds others => ⟨stable s s₁ holds others, rfl⟩
  refine reads.bind fun deadline? => ?_
  cases deadline? with
  | none => exact .done fun s holds => holds
  | some deadline =>
    have tries : Ensures rely (fun s => inv s ∧ Timed.deadline? s timeout = some deadline)
        (Retry.attemptUntil deadline retryable attempt 0) post inv :=
      fun s o s' holds => attemptUntilEnsures deadline stable kept once again _ holds.1
    refine tries.bind fun r => .done fun s holds => ?_
    cases r with
    | ok a => exact holds
    | error e => exact holds

theorem changeFilesEnsures {rely : Machine → Machine → Prop} {pre quit : Machine → Prop}
    {post : Except IoError Unit → Machine → Prop} {f : FileSystem → Int → Except IoError FileSystem}
    (ok : ∀ m m₁ fs, pre m → rely m m₁ → f m₁.files m₁.now = .ok fs →
      post (.ok ()) { m₁ with files := fs, clock := m₁.clock + Machine.tick })
    (error : ∀ m m₁ e, pre m → rely m m₁ → f m₁.files m₁.now = .error e → post (.error e) m₁) :
    Ensures rely pre (changeFiles f).run post quit := by
  refine .change (fun m m₁ m₂ holds others changed => ?_) fun m m₁ e holds others failed => ?_
  · unfold Machine.withFiles at changed
    cases result : f m₁.files m₁.now with
    | error e => simp [result, Except.map] at changed
    | ok fs =>
      simp only [result, Except.map, Except.ok.injEq] at changed
      exact changed ▸ ok m m₁ fs holds others result
  · unfold Machine.withFiles at failed
    cases result : f m₁.files m₁.now with
    | error e' =>
      simp only [result, Except.map, Except.error.injEq] at failed
      exact error m m₁ e holds others (failed ▸ result)
    | ok fs => simp [result, Except.map] at failed

end Task
end BuildReuse
