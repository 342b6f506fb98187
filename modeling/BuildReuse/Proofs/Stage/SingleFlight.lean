import BuildReuse.Proofs.Stage.Polls

/-! Single flight. In every play a stage has one unfinished run at most, a new run
begins only behind failed ones, and all recipients of a run agree on its outcome,
however late they take it. -/
namespace BuildReuse.Stage

open Forest

variable {σ V E : Type}

namespace Play

variable {specs : List (Spec σ V E)} {p p' : Play σ V E} {events : List (Event V E)}

theorem Step.adds (h : Step specs p events p') {r i : Nat} {ph} (new : p.forest.runs.size ≤ r)
    (there : p'.forest.runs[r]? = some ⟨i, ph⟩) : p.forest.status i = .empty ∧ ph = .fresh := by
  have notOld : p.forest.runs[r]? = none := Array.getElem?_eq_none new
  have none_of_turn {f f' : Forest σ V E} {k out} (same : f.runs[r]? = p.forest.runs[r]?)
      (turn : BodyTurn f k out f') : f'.runs[r]? = none := by
    obtain ⟨-, -, ph, runs, -⟩ := turn
    simp [runs, runsSetPhase, same, notOld]
  have ofJoin {f : Forest σ V E} {j k : Nat} (joins : p.forest.join j = (.run k, f))
      {ph : Phase σ V E} (there : f.runs[r]? = some ⟨i, ph⟩) : p.forest.status i = .empty ∧ ph = .fresh := by
    rcases joinRun joins with ⟨-, rfl⟩ | ⟨empty, -, rfl⟩
    · rw [notOld] at there
      cases there
    · rw [runsStart] at there
      split at there
      · cases there
        exact ⟨empty, rfl⟩
      · rw [notOld] at there
        cases there
  have nobody {run : Option (Run σ V E)} (same : run = none) (there : run = some ⟨i, ph⟩) :
      p.forest.status i = .empty ∧ ph = .fresh := by
    rw [same] at there
    cases there
  cases h with
  | others s => exact nobody notOld there
  | call j known => exact nobody notOld there
  | drop k => exact nobody notOld there
  | meetValue waits done => exact nobody notOld there
  | meetRun waits joins => exact ofJoin joins there
  | answer waits atEnd => exact nobody (by rw [runsSettle, notOld]) there
  | enter fresh spec? root turn => exact nobody (none_of_turn rfl (enterBodyTurn turn)) there
  | take fresh spec? source earlier done turn =>
    exact nobody (none_of_turn rfl (enterBodyTurn turn)) there
  | @await k j spec q src f fresh spec? source earlier joins =>
    rw [runsSetPhase] at there
    split at there
    · rename_i own
      rw [own, notOld] at fresh
      cases fresh
    · exact ofJoin joins there
  | fail waits spec? source earlier atEnd =>
    exact nobody (by simp [runsSetPhase, runsSettle, notOld]) there
  | feed waits spec? source earlier atEnd turn =>
    exact nobody (none_of_turn (by rw [runsSettle]) (enterBodyTurn turn)) there
  | work busy turn => exact nobody (none_of_turn rfl (runBodyTurn turn)) there

theorem Step.begins (h : Step specs p events p') {r i : Nat} {ph} (new : p.forest.runs.size ≤ r)
    (there : p'.forest.runs[r]? = some ⟨i, ph⟩) : p.forest.status i = .empty := (h.adds new there).1

theorem Step.stale (h : Step specs p events p') {who i r o} (event : .received who i r o ∈ events)
    (old : p.forest.status i ≠ .inFlight r) (j : Nat) : p'.forest.status j = p.forest.status j := by
  cases h with
  | others s => cases event
  | call i known => cases event
  | drop k => cases event
  | meetValue waits done => rfl
  | meetRun waits joins => simp at event
  | answer waits atEnd =>
    simp only [List.mem_singleton, Event.received.injEq] at event
    obtain ⟨rfl, rfl, rfl, rfl⟩ := event
    exact statusSettleOther o old j
  | enter fresh spec? root turn => exact (enterBodyTurn turn).status j
  | take fresh spec? source earlier done turn => exact (enterBodyTurn turn).status j
  | await fresh spec? source earlier joins => simp at event
  | fail waits spec? source earlier atEnd =>
    simp only [List.mem_cons, Event.received.injEq, List.not_mem_nil, reduceCtorEq, or_false] at event
    obtain ⟨rfl, rfl, rfl, rfl⟩ := event
    exact statusSettleOther _ old j
  | feed waits spec? source earlier atEnd turn =>
    obtain ⟨rfl, rfl, rfl, rfl⟩ := onlyReceipt event
    exact ((enterBodyTurn turn).status j).trans (statusSettleOther _ old j)
  | work busy turn => exact (runBodyTurn turn).status j

theorem Told.agree {trace} (told : Told trace p) {who who' i j j' r r₁ r₂ o o'}
    (joined : .joined who i r ∈ trace) (joined' : .joined who' i r ∈ trace)
    (received : .received who j r₁ o ∈ trace) (received' : .received who' j' r₂ o' ∈ trace) :
    (j = i ∧ r₁ = r) ∧ (j' = i ∧ r₂ = r) ∧ o = o' := by
  have own := told.paired joined received
  have own' := told.paired joined' received'
  subst own own'
  obtain ⟨-, ph, there⟩ := told.joined joined
  have atEnd := (told.received received).2
  have atEnd' := (told.received received').2
  rw [atEnd] at there atEnd'
  cases there
  cases atEnd'
  exact ⟨⟨rfl, rfl⟩, ⟨rfl, rfl⟩, rfl⟩

/-- In every play: a stage has at most one unfinished run. A run begins only in
an empty stage, all of whose runs have failed. Recipients of one run agree, those
that joined it and those that came later. A stale outcome changes no stage. And
every turn of a caller is such a play. -/
theorem singleFlight (specs : List (Spec σ V E)) (s : σ) {trace p} (reached : Reaches specs s trace p) :
    (∀ ⦃i r r' : Nat⦄ ⦃ph ph'⦄, p.forest.runs[r]? = some ⟨i, ph⟩ →
      p.forest.runs[r']? = some ⟨i, ph'⟩ → ph.Open → ph'.Open → r = r') ∧
    (∀ ⦃events p'⦄, Step specs p events p' → ∀ ⦃r i : Nat⦄ ⦃ph⦄, p.forest.runs.size ≤ r →
      p'.forest.runs[r]? = some ⟨i, ph⟩ → p.forest.status i = .empty ∧
        ∀ ⦃r' : Nat⦄ ⦃ph'⦄, p.forest.runs[r']? = some ⟨i, ph'⟩ → ∃ e, ph' = .finished (.error e)) ∧
    (∀ ⦃who who' i j j' r r₁ r₂ o o'⦄, .joined who i r ∈ trace → .joined who' i r ∈ trace →
      .received who j r₁ o ∈ trace → .received who' j' r₂ o' ∈ trace →
        (j = i ∧ r₁ = r) ∧ (j' = i ∧ r₂ = r) ∧ o = o') ∧
    (∀ ⦃who who' i j r o o'⦄, .received who i r o ∈ trace → .received who' j r o' ∈ trace →
      i = j ∧ o = o') ∧
    (∀ ⦃events p'⦄, Step specs p events p' → ∀ ⦃who i r o⦄, .received who i r o ∈ events →
      p.forest.status i ≠ .inFlight r → ∀ j, p'.forest.status j = p.forest.status j) ∧
    ∀ ⦃k : Nat⦄ ⦃w⦄, p.callers[k]? = some (some w) →
      match Forest.poll specs w p.state p.forest with
      | (.inl outcome, s, f) => ∃ events run o, Steps specs p events ⟨s, f, p.callers.set k none⟩ ∧
          .received (.caller k) w.stage run o ∈ events ∧ outcome = o.map fun v => (run, v)
      | (.inr w', s, f) => w'.stage = w.stage ∧ w'.run.isSome ∧
          ∃ events, Steps specs p events ⟨s, f, p.callers.set k (some w')⟩ := by
  have ready := reached.ready
  have told := reached.told
  refine ⟨?_, ?_, ?_, ?_, ?_, ?_⟩
  · intro i r r' ph ph' at? at' isOpen open'
    have flying := ready.sound.unfinished at? isOpen
    have flying' := ready.sound.unfinished at' open'
    rw [flying] at flying'
    cases flying'
    rfl
  · intro events p' step r i ph new there
    have empty := step.begins new there
    exact ⟨empty, fun r' ph' at' => ready.sound.failedBefore empty at'⟩
  · intro who who' i j j' r r₁ r₂ o o' joined joined' received received'
    exact told.agree joined joined' received received'
  · intro who who' i j r o o' received received'
    have atEnd := (told.received received).2
    have atEnd' := (told.received received').2
    rw [atEnd] at atEnd'
    cases atEnd'
    exact ⟨rfl, rfl⟩
  · intro events p' step who i r o event old j
    exact step.stale event old j
  · intro k w waits
    exact pollSteps ready waits

def flaky : List (Spec Bool Nat Unit) :=
  [⟨none, fun _ => .look fun up => .done (if up then .ok 7 else .error ())⟩]

def lateWaiter : Play Bool Nat Unit where
  state := true
  forest := ⟨#[⟨.inFlight 1, 2, 1⟩], #[⟨0, .finished (.error ())⟩, ⟨0, .fresh⟩]⟩
  callers := [none, some ⟨0, some 0⟩, some ⟨0, some 1⟩]

theorem lateWaiterReached : ∃ trace, Reaches flaky false trace lateWaiter := by
  have first : Reaches flaky false _ _ := Steps.single (.call _ 0 Nat.one_pos)
  have second := (first.tail (.call _ 0 Nat.one_pos)).tail (.meetRun (k := 0) rfl rfl)
  have failed := (second.tail (.meetRun (k := 1) rfl rfl)).tail (.enter (r := 0) rfl rfl rfl rfl)
  have known := (failed.tail (.answer (k := 0) rfl rfl)).tail (.others _ true)
  have third := (known.tail (.call _ 0 Nat.one_pos)).tail (.meetRun (k := 2) rfl rfl)
  exact ⟨_, third⟩

theorem lateWaiterHarmless : ∃ trace p events, Reaches flaky false trace lateWaiter ∧
    Step flaky lateWaiter events p ∧ .received (.caller 1) 0 0 (.error ()) ∈ events ∧
      p.forest.status 0 = .inFlight 1 := by
  obtain ⟨trace, reached⟩ := lateWaiterReached
  have step : Step flaky lateWaiter _ _ := .answer (k := 1) (i := 0) (r := 0) (o := .error ()) rfl rfl
  obtain ⟨-, -, -, -, stale, -⟩ := singleFlight flaky false reached
  have event {e : Event Nat Unit} : e ∈ [e] := List.mem_singleton.mpr rfl
  exact ⟨trace, _, _, reached, step, event, stale step event nofun 0⟩

end Play
end BuildReuse.Stage
