import BuildReuse.Proofs.Stage.Frozen

/-! Memoization. Callers take whole turns, in any order, among arrivals, departures and
changes elsewhere. Between two turns no stage is in flight with a run that is over, so a
stage whose run has succeeded is completed; and it stays so, whoever asks. -/
namespace BuildReuse.Stage

open Forest

variable {σ V E : Type}

inductive Upstream (specs : List (Spec σ V E)) : Nat → Nat → Prop where
  | self (i : Nat) : Upstream specs i i
  | source {i q j : Nat} {spec} (spec? : specs[i]? = some spec) (source : spec.source = some q)
      (earlier : q < i) (above : Upstream specs q j) : Upstream specs i j

theorem Upstream.le {specs : List (Spec σ V E)} {i j : Nat} (h : Upstream specs i j) : j ≤ i := by
  induction h with
  | self i => exact Nat.le_refl i
  | source spec? source earlier above ih => exact Nat.le_of_lt (Nat.lt_of_le_of_lt ih earlier)

theorem Upstream.apart {specs : List (Spec σ V E)} {i c j : Nat} (h : Upstream specs i c) (other : c ≠ i)
    (below : j ≤ c) : j ≠ i :=
  Nat.ne_of_lt (Nat.lt_of_le_of_lt below (Nat.lt_of_le_of_ne h.le other))

theorem Upstream.behind {specs : List (Spec σ V E)} {i j q : Nat} {spec} (h : Upstream specs i j)
    (other : j ≠ i) (spec? : specs[i]? = some spec) (source : spec.source = some q) :
    Upstream specs q j := by
  cases h with
  | self => exact (other rfl).elim
  | source spec'? source' earlier above =>
    rw [spec?] at spec'?
    cases spec'?
    rw [source] at source'
    cases source'
    exact above

namespace Forest

def NotedBut (late : Option Nat) (f : Forest σ V E) : Prop :=
  ∀ ⦃r i : Nat⦄ ⦃o⦄, f.runs[r]? = some ⟨i, .finished o⟩ → f.status i = .inFlight r → late = some r

namespace NotedBut

variable {f f' : Forest σ V E} {late : Option Nat} {i run : Nat}

theorem rephased {ph : Phase σ V E} (noted : f.NotedBut none) (status : ∀ j, f'.status j = f.status j)
    (runs : ∀ k : Nat, f'.runs[k]? = (f.setPhase run ph).runs[k]?)
    (isLate : ∀ o, ph = .finished o → late = some run) : f'.NotedBut late := by
  intro r j o ended flying
  rw [status] at flying
  rw [runs, runsSetPhase] at ended
  split at ended
  · rename_i same
    subst same
    obtain ⟨old, -, same⟩ := Option.map_eq_some_iff.mp ended
    cases same
    exact isLate o rfl
  · cases noted ended flying

theorem turned {out : Option (Except E V)} (noted : f.NotedBut none) (turn : BodyTurn f run out f') :
    f'.NotedBut (out.map fun _ => run) := by
  obtain ⟨-, status, ph, runs, ⟨body, rfl, rfl⟩ | ⟨o, rfl, rfl⟩⟩ := turn
  · exact noted.rephased status runs nofun
  · exact noted.rephased status runs fun _ _ => rfl

theorem joined (noted : f.NotedBut none) (known : i < f.stages.size) (joins : f.join i = (.run run, f')) :
    f'.NotedBut none := by
  rcases joinRun joins with ⟨-, rfl⟩ | ⟨-, -, rfl⟩
  · exact noted
  · intro r j o ended flying
    rw [runsStart] at ended
    rw [statusStart known] at flying
    split at ended
    · cases ended
    · rename_i old
      split at flying
      · cases flying
        exact (old rfl).elim
      · exact noted ended flying

theorem settled {o : Except E V} (noted : f.NotedBut (some run))
    (atEnd : f.runs[run]? = some ⟨i, .finished o⟩) : (f.settle i run o).NotedBut none := by
  intro r j o' ended flying
  rw [runsSettle] at ended
  have current : f.status j = .inFlight r ∧ ¬ (j = i ∧ r = run) := by
    rw [statusSettle] at flying
    split at flying
    · rename_i same
      subst same
      split at flying
      · rename_i current now
        split at flying
        · cases o <;> cases flying
        · rename_i other
          cases flying
          exact ⟨now, fun both => other both.2⟩
      · rename_i grounded
        exact (grounded r flying).elim
    · rename_i other
      exact ⟨flying, fun both => other both.1⟩
  cases noted ended current.1
  rw [atEnd] at ended
  cases ended
  exact (current.2 ⟨rfl, rfl⟩).elim

end NotedBut

structure Heeds (specs : List (Spec σ V E)) (f : Forest σ V E) (i run : Nat)
    (result : Option (Except E V) × σ × Forest σ V E) : Prop where
  noted : f.NotedBut none → result.2.2.NotedBut (result.1.map fun _ => run)
  spared : ∀ ⦃c r v⦄, f.status c = .completed r v → Upstream specs i c →
    ∀ ⦃j⦄, j ≤ c → result.2.2.stages[j]? = f.stages[j]?

namespace Heeds

variable {specs : List (Spec σ V E)} {f f' : Forest σ V E} {i q run src : Nat} {spec : Spec σ V E}

theorem idle (s : σ) : Heeds specs f i run (none, s, f) := ⟨id, fun _ _ _ _ _ _ _ => rfl⟩

theorem entered {input : Option V} {s s' : σ} {out ph} (sound : Sound specs f)
    (at? : f.runs[run]? = some ⟨i, ph⟩) (isOpen : ph.Open)
    (turn : enterBody spec i run input s f = (out, s', f')) : Heeds specs f i run (out, s', f') := by
  refine ⟨fun noted => noted.turned (enterBodyTurn turn), fun c r v done up j below => ?_⟩
  exact enterBodyStages turn (up.apart (sound.elsewhere done at? isOpen) below)

theorem told {s : σ} {o : Except E V} (turn : Heeds specs f i run (some o, s, f'))
    (atEnd : f'.runs[run]? = some ⟨i, .finished o⟩) :
    (f.NotedBut none → (f'.settle i run o).NotedBut none) ∧
      ∀ ⦃c r v⦄, f.status c = .completed r v → Upstream specs i c →
        ∀ ⦃j⦄, j ≤ c → (f'.settle i run o).stages[j]? = f.stages[j]? := by
  refine ⟨fun noted => (turn.noted noted).settled atEnd, fun c r v done up j below => ?_⟩
  have before := turn.spared done up below
  by_cases same : c = i
  · have still := (statusOfStage (turn.spared done up (Nat.le_refl c))).trans done
    rw [settleCompleted (same ▸ still), before]
  · exact (stagesSettle f' run o (up.apart same below)).trans before

theorem after {s : σ} {out : Option (Except E V)} {result ph} (sound : Sound specs f)
    (at? : f.runs[run]? = some ⟨i, ph⟩) (isOpen : ph.Open)
    (spec? : specs[i]? = some spec) (source : spec.source = some q) (first : Heeds specs f q src (out, s, f'))
    (atEnd : ∀ o, out = some o → f'.runs[src]? = some ⟨q, .finished o⟩)
    (whole : pollRun.awaitSource spec i run q src (out, s, f') = result) :
    Heeds specs f i run result := by
  subst whole
  have behind {c r v} (done : f.status c = .completed r v) (up : Upstream specs i c) : Upstream specs q c :=
    up.behind (sound.elsewhere done at? isOpen) spec? source
  cases out with
  | none => exact ⟨first.noted, fun c r v done up j below => first.spared done (behind done up) below⟩
  | some o =>
    obtain ⟨noted', spared'⟩ := first.told (atEnd o rfl)
    cases o with
    | error e =>
      refine ⟨fun noted => ?_, fun c r v done up j below => spared' done (behind done up) below⟩
      exact (noted' noted).rephased (fun _ => rfl) (fun _ => rfl) fun _ _ => rfl
    | ok v =>
      refine ⟨fun noted => (noted' noted).turned (enterBodyTurn rfl), fun c r v done up j below => ?_⟩
      have other := up.apart (sound.elsewhere done at? isOpen) below
      exact (enterBodyStages rfl other).trans (spared' done (behind done up) below)

theorem behindJoin {result} (sound : Sound specs f) (at? : f.runs[run]? = some ⟨i, .fresh⟩)
    (spec? : specs[i]? = some spec) (source : spec.source = some q) (earlier : q < i)
    (joins : f.join q = (.run src, f')) (rest : Heeds specs (f'.setPhase run (.waiting src)) i run result) :
    Heeds specs f i run result := by
  have known : q < f.stages.size := sound.size ▸ Nat.lt_trans earlier (sound.known at?)
  refine ⟨fun noted => ?_, fun c r v done up j below => ?_⟩
  · exact rest.noted ((noted.joined known joins).rephased (fun _ => rfl) (fun _ => rfl) nofun)
  · have behind := up.behind (sound.elsewhere done at? trivial) spec? source
    have far {j : Nat} (below : j ≤ c) : (f'.setPhase run (.waiting src)).stages[j]? = f.stages[j]? :=
      (stagesJoin joins (behind.apart (joinElsewhere done joins) below) :)
    have still := (statusOfStage (far (Nat.le_refl c))).trans done
    exact (rest.spared still up below).trans (far below)

end Heeds

end Forest

namespace Play

variable {specs : List (Spec σ V E)} {p p' : Play σ V E}

theorem turnOfRun {f : Forest σ V E} (sound : Sound specs f) (s : σ) {i run : Nat} {ph}
    (at? : f.runs[run]? = some ⟨i, ph⟩) : Polled specs ⟨s, f, []⟩ i run (pollRun specs i run s f) :=
  pollRunPolled specs i run ⟨s, f, []⟩ ⟨sound, nofun, nofun⟩ ph at?

theorem pollRunHeeds (i : Nat) : ∀ (run : Nat) (s : σ) (f : Forest σ V E) (ph : Phase σ V E),
    Sound specs f → f.runs[run]? = some ⟨i, ph⟩ → Heeds specs f i run (pollRun specs i run s f) := by
  -- Along the sources, as a turn first takes the turn of the source's run.
  induction i using Nat.strongRecOn with
  | ind i ih =>
    intro run s f ph sound at?
    have known := sound.known at?
    obtain ⟨spec, spec?⟩ : ∃ spec, specs[i]? = some spec := ⟨_, List.getElem?_eq_getElem known⟩
    rw [pollRun, spec?, at?]
    cases ph with
    | finished o =>
      refine ⟨fun noted r j o' ended flying => ?_, fun _ _ _ _ _ _ _ => rfl⟩
      cases noted ended flying
    | running body =>
      have turn : runBody Task.poll run body s f = runBody Task.poll run body s f := rfl
      exact ⟨fun noted => noted.turned (runBodyTurn turn), fun _ _ _ _ _ j _ => congrArg (·[j]?) (runBodyStages turn)⟩
    | fresh =>
      cases source : spec.source with
      | none =>
        simp only [Option.map_some, source]
        exact .entered sound at? trivial rfl
      | some q =>
        simp only [Option.map_some, source]
        split
        · rename_i earlier
          split
          · rename_i src v f' joins
            obtain ⟨done, rfl⟩ := joinValue joins
            exact .entered sound at? trivial rfl
          · rename_i src f' joins
            have ready : Ready specs ⟨s, f, []⟩ := ⟨sound, nofun, nofun⟩
            have sound' := ((Step.await at? spec? source earlier joins).ready ready).sound
            have waits : (f'.setPhase run (.waiting src)).runs[run]? = some ⟨i, .waiting src⟩ := by
              simp [runsSetPhase, runsJoin joins at?]
            obtain ⟨q', ph', source', there⟩ := sourceOf sound' spec? waits
            rw [source] at source'
            cases source'
            have rest := Heeds.after sound' waits trivial spec? source (ih q earlier src s _ ph' sound' there)
              (turnOfRun sound' s there).atEnd rfl
            exact rest.behindJoin sound at? spec? source earlier joins
        · exact .idle s
    | waiting src =>
      cases source : spec.source with
      | none =>
        simp only [Option.map_some, source]
        exact .idle s
      | some q =>
        simp only [Option.map_some, source]
        split
        · rename_i earlier
          obtain ⟨q', ph', source', there⟩ := sourceOf sound spec? at?
          rw [source] at source'
          cases source'
          exact .after sound at? trivial spec? source (ih q earlier src s f ph' sound there)
            (turnOfRun sound s there).atEnd rfl
        · exact .idle s

theorem waitHeeds {w : Waiter} {run : Nat} {ph} {f : Forest σ V E} (sound : Sound specs f) (s : σ)
    (at? : f.runs[run]? = some ⟨w.stage, ph⟩) :
    (f.NotedBut none → (poll.wait specs w run s f).2.2.NotedBut none) ∧
      ∀ ⦃c r v⦄, f.status c = .completed r v → Upstream specs w.stage c →
        ∀ ⦃j⦄, j ≤ c → (poll.wait specs w run s f).2.2.stages[j]? = f.stages[j]? := by
  have heeds := pollRunHeeds w.stage run s f ph sound at?
  have atEnd := (turnOfRun sound s at?).atEnd
  unfold poll.wait
  generalize pollRun specs w.stage run s f = result at heeds atEnd
  obtain ⟨out, s', f'⟩ := result
  cases out with
  | none => exact ⟨heeds.noted, heeds.spared⟩
  | some o => exact heeds.told (atEnd o rfl)

theorem pollHeeds {k : Nat} {w : Waiter} (ready : Ready specs p) (waits : p.callers[k]? = some (some w)) :
    (p.forest.NotedBut none → (Forest.poll specs w p.state p.forest).2.2.NotedBut none) ∧
      ∀ ⦃c r v⦄, p.forest.status c = .completed r v → Upstream specs w.stage c →
        ∀ ⦃j⦄, j ≤ c → (Forest.poll specs w p.state p.forest).2.2.stages[j]? = p.forest.stages[j]? := by
  obtain ⟨i, at?⟩ := w
  cases at? with
  | some run =>
    obtain ⟨ph, there⟩ := ready.bound waits
    exact waitHeeds ready.sound p.state there
  | none =>
    have known := ready.known waits
    simp only [Forest.poll]
    rcases joins : p.forest.join i with ⟨⟨run, v⟩ | ⟨run⟩, f⟩
    · obtain ⟨-, rfl⟩ := joinValue joins
      exact ⟨id, fun _ _ _ _ _ _ _ => rfl⟩
    · have step : Step specs p [.joined (.caller k) i run] _ := .meetRun waits joins
      have sound := (step.ready ready).sound
      obtain ⟨ph, there⟩ := sound.inFlight (i := i) (r := run) (by
        rcases joinRun joins with ⟨flying, rfl⟩ | ⟨-, rfl, rfl⟩
        · exact flying
        · simp [statusStart (ready.sound.size ▸ known)])
      obtain ⟨noted', spared'⟩ := waitHeeds (w := ⟨i, none⟩) sound p.state there
      refine ⟨fun noted => noted' (noted.joined (ready.sound.size ▸ known) joins), ?_⟩
      intro c r v done up j below
      have far {j : Nat} (below : j ≤ c) : f.stages[j]? = p.forest.stages[j]? :=
        stagesJoin joins (up.apart (joinElsewhere done joins) below)
      have still := (statusOfStage (far (Nat.le_refl c))).trans done
      exact (spared' still up below).trans (far below)

def polled (specs : List (Spec σ V E)) (p : Play σ V E) (k : Nat) (w : Waiter) : Play σ V E :=
  match Forest.poll specs w p.state p.forest with
  | (.inl _, s, f) => ⟨s, f, p.callers.set k none⟩
  | (.inr w', s, f) => ⟨s, f, p.callers.set k (some w')⟩

theorem polledForest (p : Play σ V E) (k : Nat) (w : Waiter) :
    (polled specs p k w).forest = (Forest.poll specs w p.state p.forest).2.2 := by
  unfold polled
  split <;> simp_all

inductive Turn (specs : List (Spec σ V E)) : Play σ V E → Play σ V E → Prop where
  | others (p : Play σ V E) (s : σ) : Turn specs p { p with state := s }
  | call (p : Play σ V E) (i : Nat) (known : i < specs.length) :
      Turn specs p { p with callers := p.callers ++ [some ⟨i, none⟩] }
  | drop (p : Play σ V E) (k : Nat) : Turn specs p { p with callers := p.callers.set k none }
  | poll {p : Play σ V E} {k : Nat} {w : Waiter} (waits : p.callers[k]? = some (some w)) :
      Turn specs p (polled specs p k w)

inductive Turns (specs : List (Spec σ V E)) : Play σ V E → Play σ V E → Prop where
  | refl (p : Play σ V E) : Turns specs p p
  | tail {p q r : Play σ V E} (first : Turns specs p q) (last : Turn specs q r) : Turns specs p r

theorem Turn.steps (h : Turn specs p p') (ready : Ready specs p) : ∃ events, Steps specs p events p' := by
  cases h with
  | others s => exact ⟨_, .single (.others p s)⟩
  | call i known => exact ⟨_, .single (.call p i known)⟩
  | drop k => exact ⟨_, .single (.drop p k)⟩
  | @poll k w waits =>
    have turn := pollSteps ready waits
    unfold polled
    generalize Forest.poll specs w p.state p.forest = result at turn
    obtain ⟨outcome | w', s, f⟩ := result
    · obtain ⟨events, _, _, steps, -⟩ := turn
      exact ⟨events, steps⟩
    · obtain ⟨-, -, events, steps⟩ := turn
      exact ⟨events, steps⟩

theorem Turn.noted (h : Turn specs p p') (ready : Ready specs p) (noted : p.forest.NotedBut none) :
    p'.forest.NotedBut none := by
  cases h with
  | others s => exact noted
  | call i known => exact noted
  | drop k => exact noted
  | poll waits =>
    rw [polledForest]
    exact (pollHeeds ready waits).1 noted

theorem Turns.steps (h : Turns specs p p') (ready : Ready specs p) : ∃ events, Steps specs p events p' := by
  induction h with
  | refl => exact ⟨[], .refl p⟩
  | tail first last ih =>
    obtain ⟨before, steps⟩ := ih
    obtain ⟨after, rest⟩ := last.steps (steps.ready ready)
    exact ⟨before ++ after, steps.trans rest⟩

theorem Turns.noted (h : Turns specs p p') (ready : Ready specs p) (noted : p.forest.NotedBut none) :
    p'.forest.NotedBut none := by
  induction h with
  | refl => exact noted
  | tail first last ih =>
    obtain ⟨_, steps⟩ := first.steps ready
    exact last.noted (steps.ready ready) ih

theorem completedOf {s : σ} (reached : Turns specs (start specs s) p) {r i : Nat} {v : V}
    (won : p.forest.runs[r]? = some ⟨i, .finished (.ok v)⟩) : p.forest.status i = .completed r v := by
  obtain ⟨_, steps⟩ := reached.steps (readyStart specs s)
  have noted := reached.noted (readyStart specs s) nofun
  rcases (steps.ready (readyStart specs s)).sound.succeeded won with flying | done
  · cases noted won flying
  · exact done

theorem firstPoll {f : Forest σ V E} {i r : Nat} {v : V} (done : f.status i = .completed r v) (s : σ) :
    Forest.poll specs ⟨i, none⟩ s f = (.inl (.ok (r, v)), s, f) := by
  simp only [Forest.poll, join, done]

theorem pollCompleted {k r : Nat} {v : V} {w : Waiter} (ready : Ready specs p)
    (done : p.forest.status w.stage = .completed r v) (waits : p.callers[k]? = some (some w)) (s : σ) :
    ∃ outcome, Forest.poll specs w s p.forest = (.inl outcome, s, p.forest) := by
  obtain ⟨i, at?⟩ := w
  cases at? with
  | none => exact ⟨_, firstPoll done s⟩
  | some run =>
    obtain ⟨ph, there⟩ := ready.bound waits
    have closed : ¬ ph.Open := fun isOpen => ready.sound.elsewhere done there isOpen rfl
    cases ph with
    | finished o =>
      have turn : pollRun specs i run s p.forest = (some o, s, p.forest) := by
        rw [pollRun, List.getElem?_eq_getElem (ready.sound.known there), there]
        rfl
      refine ⟨o.map fun v => (run, v), ?_⟩
      simp only [Forest.poll, poll.wait, turn, settleCompleted done]
    | fresh => exact (closed trivial).elim
    | waiting src => exact (closed trivial).elim
    | running body => exact (closed trivial).elim

/-- Whatever turns follow once a run of a stage has succeeded: it stays the only one that
has, the stage stays completed with its value and counts, whoever asks the stage gets that
value in the first turn, and no turn that comes upon the stage, in its own right or for a
later stage, changes a count of it or of an earlier stage. Also when actions of several
turns mix, a stage whose value anybody has got is completed, and stays as it is. -/
theorem memoized (specs : List (Spec σ V E)) (s : σ) :
    (∀ ⦃p⦄, Turns specs (start specs s) p →
      ∀ ⦃r i : Nat⦄ ⦃v⦄, p.forest.runs[r]? = some ⟨i, .finished (.ok v)⟩ → ∀ ⦃p'⦄, Turns specs p p' →
        (∀ ⦃r' : Nat⦄ ⦃v'⦄, p'.forest.runs[r']? = some ⟨i, .finished (.ok v')⟩ → r' = r ∧ v' = v) ∧
        p'.forest.status i = .completed r v ∧ p'.forest.peek i = some (r, v) ∧
        p'.forest.runsOf i = p.forest.runsOf i ∧ p'.forest.callsOf i = p.forest.callsOf i ∧
        (∀ s, Forest.poll specs ⟨i, none⟩ s p'.forest = (.inl (.ok (r, v)), s, p'.forest)) ∧
        (∀ ⦃k : Nat⦄ ⦃w⦄, p'.callers[k]? = some (some w) → w.stage = i →
          ∃ outcome, Forest.poll specs w p'.state p'.forest = (.inl outcome, p'.state, p'.forest)) ∧
        ∀ ⦃k : Nat⦄ ⦃w⦄, p'.callers[k]? = some (some w) → Upstream specs w.stage i → ∀ ⦃j⦄, j ≤ i →
          (polled specs p' k w).forest.runsOf j = p'.forest.runsOf j ∧
            (polled specs p' k w).forest.callsOf j = p'.forest.callsOf j) ∧
    ∀ ⦃trace p⦄, Reaches specs s trace p →
      (∀ ⦃r r' i : Nat⦄ ⦃v v'⦄, p.forest.runs[r]? = some ⟨i, .finished (.ok v)⟩ →
        p.forest.runs[r']? = some ⟨i, .finished (.ok v')⟩ → r' = r ∧ v' = v) ∧
      ∀ ⦃who i r v⦄, .received who i r (.ok v) ∈ trace → ∀ ⦃events p'⦄, Steps specs p events p' →
        p'.forest.status i = .completed r v ∧ p'.forest.runsOf i = p.forest.runsOf i ∧
          p'.forest.callsOf i = p.forest.callsOf i := by
  refine ⟨fun p reached r i v won p' later => ?_, fun trace p reached => ⟨?_, ?_⟩⟩
  · obtain ⟨_, steps⟩ := reached.steps (readyStart specs s)
    have ready := steps.ready (readyStart specs s)
    obtain ⟨_, steps'⟩ := later.steps ready
    have ready' := steps'.ready ready
    have done := completedOf reached won
    have same := steps'.frozen ready done
    have done' := (statusOfStage same).trans done
    refine ⟨fun r' v' won' => ready'.sound.oneSuccess (ready'.sound.completed done') won', done',
      by rw [peek, done'], runsOfStage same, callsOfStage same, firstPoll done', ?_, ?_⟩
    · rintro k w waits rfl
      exact pollCompleted ready' done' waits p'.state
    · intro k w waits up j below
      have spared := (pollHeeds ready' waits).2 done' up below
      rw [polledForest]
      exact ⟨runsOfStage spared, callsOfStage spared⟩
  · intro r r' i v v' won won'
    exact reached.ready.sound.oneSuccess won won'
  · intro who i r v received events p' later
    have done := Steps.keeps reached (readyStart specs s) received
    have same := later.frozen reached.ready done
    exact ⟨(statusOfStage same).trans done, runsOfStage same, callsOfStage same⟩

def countedOn : List (Spec Bool Nat Unit) :=
  [⟨none, fun _ => .look fun up => .done (if up then .ok 7 else .error ())⟩,
    ⟨some 0, fun input => .done (.ok (input.getD 0 + 1))⟩]

def firstDone : Play Bool Nat Unit where
  state := true
  forest := ⟨#[⟨.completed 0 7, 1, 1⟩, ⟨.empty, 0, 0⟩], #[⟨0, .finished (.ok 7)⟩]⟩
  callers := [none]

theorem firstDoneReached : Turns countedOn (start countedOn true) firstDone := by
  have call : Turns countedOn (start countedOn true) _ := .tail (.refl _) (.call _ 0 Nat.two_pos)
  have polled : polled countedOn { start countedOn true with callers := [some ⟨0, none⟩] } 0 ⟨0, none⟩ =
      firstDone := by
    simp [Play.polled, Forest.poll, poll.wait, pollRun, start, countedOn, ofSpecs, join, status,
      Forest.start, enterBody, runBody, Task.run, setPhase, settle, firstDone, Except.map]
  exact polled ▸ call.tail (.poll (w := ⟨0, none⟩) rfl)

theorem secondFindsFirst : ∃ p, Turns countedOn firstDone p ∧ p.state = false ∧
    p.forest.peek 0 = some (0, 7) ∧ (polled countedOn p 1 ⟨1, none⟩).forest.callsOf 0 = 1 := by
  have down : Turns countedOn firstDone _ := .tail (.refl firstDone) (.others _ false)
  have later := down.tail (.call _ 1 Nat.one_lt_two)
  obtain ⟨-, -, found, -, -, -, -, spared⟩ := (memoized countedOn true).1 firstDoneReached (r := 0) rfl later
  have up : Upstream countedOn 1 0 := .source rfl rfl Nat.one_pos (.self 0)
  exact ⟨_, later, rfl, found, (spared (k := 1) (w := ⟨1, none⟩) rfl up (Nat.le_refl 0)).2⟩

end Play
end BuildReuse.Stage
