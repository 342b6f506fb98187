import BuildReuse.Proofs.Stage.SingleFlight

/-! A completed stage is frozen. No action changes its value or its counts, and who
has received a value has received the one that the stage keeps. -/
namespace BuildReuse.Stage

open Forest

variable {σ V E : Type}

namespace Forest

theorem statusOfStage {f f' : Forest σ V E} {i : Nat} (same : f'.stages[i]? = f.stages[i]?) :
    f'.status i = f.status i := by
  rw [status, same, status]

theorem runsOfStage {f f' : Forest σ V E} {i : Nat} (same : f'.stages[i]? = f.stages[i]?) :
    f'.runsOf i = f.runsOf i := by
  rw [runsOf, same, runsOf]

theorem callsOfStage {f f' : Forest σ V E} {i : Nat} (same : f'.stages[i]? = f.stages[i]?) :
    f'.callsOf i = f.callsOf i := by
  rw [callsOf, same, callsOf]

theorem stagesStart (f : Forest σ V E) {i j : Nat} (other : j ≠ i) :
    (f.start i).stages[j]? = f.stages[j]? := by
  simp only [start, Array.getElem?_modify, if_neg (Ne.symm other)]

theorem stagesJoin {f f' : Forest σ V E} {i j r : Nat} (joins : f.join i = (.run r, f')) (other : j ≠ i) :
    f'.stages[j]? = f.stages[j]? := by
  rcases joinRun joins with ⟨-, rfl⟩ | ⟨-, -, rfl⟩
  · rfl
  · exact stagesStart f other

theorem joinElsewhere {f f' : Forest σ V E} {c i r run : Nat} {v : V}
    (done : f.status c = .completed run v) (joins : f.join i = (.run r, f')) : c ≠ i := by
  rintro rfl
  rcases joinRun joins with ⟨flying, -⟩ | ⟨empty, -⟩
  · cases done.symm.trans flying
  · cases done.symm.trans empty

theorem stagesSettle (f : Forest σ V E) {i j : Nat} (r : Nat) (o : Except E V) (other : j ≠ i) :
    (f.settle i r o).stages[j]? = f.stages[j]? := by
  unfold settle
  split
  · split
    · simp only [Array.getElem?_modify, if_neg (Ne.symm other)]
    · rfl
  · rfl

theorem settleCompleted {f : Forest σ V E} {i run : Nat} {v : V} (done : f.status i = .completed run v)
    (r : Nat) (o : Except E V) : f.settle i r o = f := by
  simp only [settle, done]

theorem runBodyStages {turn : σ → Task σ (Except E V) → σ × Task σ (Except E V)} {run body s s' out}
    {f f' : Forest σ V E} (h : runBody turn run body s f = (out, s', f')) : f'.stages = f.stages := by
  unfold runBody at h
  split at h <;> cases h <;> rfl

theorem enterBodyStages {spec : Spec σ V E} {i j run input s s' out} {f f' : Forest σ V E}
    (h : enterBody spec i run input s f = (out, s', f')) (other : j ≠ i) :
    f'.stages[j]? = f.stages[j]? := by
  rw [runBodyStages h, Array.getElem?_modify, if_neg (Ne.symm other)]

end Forest

namespace Sound

variable {specs : List (Spec σ V E)} {f : Forest σ V E}

theorem elsewhere (h : Sound specs f) {i j r run : Nat} {v : V} {ph}
    (done : f.status i = .completed run v) (at? : f.runs[r]? = some ⟨j, ph⟩) (isOpen : ph.Open) : i ≠ j := by
  rintro rfl
  have flying := h.unfinished at? isOpen
  rw [done] at flying
  cases flying

theorem oneSuccess (h : Sound specs f) {i r r' : Nat} {v v' : V}
    (won : f.runs[r]? = some ⟨i, .finished (.ok v)⟩) (won' : f.runs[r']? = some ⟨i, .finished (.ok v')⟩) :
    r' = r ∧ v' = v := by
  have same : r' = r := by
    rcases h.succeeded won with now | now <;> rcases h.succeeded won' with now' | now' <;>
      rw [now] at now' <;> cases now' <;> rfl
  subst same
  rw [won] at won'
  cases won'
  exact ⟨rfl, rfl⟩

theorem settledSuccess (h : Sound specs f) {i r : Nat} {v : V}
    (won : f.runs[r]? = some ⟨i, .finished (.ok v)⟩) :
    (f.settle i r (.ok v)).status i = .completed r v := by
  rcases h.succeeded won with now | now
  · rw [statusSettleOwn _ now, if_pos rfl, Status.after]
  · rw [settleCompleted now, now]

end Sound

namespace Play

variable {specs : List (Spec σ V E)} {p p' : Play σ V E} {events : List (Event V E)}

theorem Step.frozen (h : Step specs p events p') (ready : Ready specs p) {i run : Nat} {v : V}
    (done : p.forest.status i = .completed run v) :
    p'.forest.stages[i]? = p.forest.stages[i]? := by
  have notJoined {f : Forest σ V E} {j r : Nat} (joins : p.forest.join j = (.run r, f)) :
      f.stages[i]? = p.forest.stages[i]? := stagesJoin joins (joinElsewhere done joins)
  have notSettled (j r : Nat) (o : Except E V) :
      (p.forest.settle j r o).stages[i]? = p.forest.stages[i]? := by
    by_cases same : i = j
    · rw [← same, settleCompleted done]
    · exact stagesSettle p.forest r o same
  have elsewhere {r j : Nat} {ph : Phase σ V E} (at? : p.forest.runs[r]? = some ⟨j, ph⟩) (isOpen : ph.Open) :
      i ≠ j := ready.sound.elsewhere done at? isOpen
  cases h with
  | others s => rfl
  | call j known => rfl
  | drop k => rfl
  | meetValue waits done' => rfl
  | meetRun waits joins => exact notJoined joins
  | answer waits atEnd => exact notSettled ..
  | enter fresh spec? root turn => exact enterBodyStages turn (elsewhere fresh trivial)
  | take fresh spec? source earlier done' turn => exact enterBodyStages turn (elsewhere fresh trivial)
  | await fresh spec? source earlier joins => exact (notJoined joins :)
  | fail waits spec? source earlier atEnd => exact notSettled ..
  | feed waits spec? source earlier atEnd turn =>
    exact (enterBodyStages turn (elsewhere waits trivial)).trans (notSettled ..)
  | work busy turn => rw [runBodyStages turn]

theorem Steps.frozen (h : Steps specs p events p') (ready : Ready specs p) {i run : Nat} {v : V}
    (done : p.forest.status i = .completed run v) :
    p'.forest.stages[i]? = p.forest.stages[i]? := by
  induction h with
  | refl => rfl
  | tail first last ih =>
    have still := (statusOfStage ih).trans done
    exact (last.frozen (first.ready ready) still).trans ih

theorem Step.keeps (h : Step specs p events p') (ready : Ready specs p) {who i r v}
    (event : .received who i r (.ok v) ∈ events) : p'.forest.status i = .completed r v := by
  cases h with
  | others s => cases event
  | call j known => cases event
  | drop k => cases event
  | meetValue waits done =>
    simp only [List.mem_singleton, Event.received.injEq] at event
    obtain ⟨rfl, rfl, rfl, same⟩ := event
    cases same
    exact done
  | meetRun waits joins => simp at event
  | answer waits atEnd =>
    simp only [List.mem_singleton, Event.received.injEq] at event
    obtain ⟨rfl, rfl, rfl, rfl⟩ := event
    exact ready.sound.settledSuccess atEnd
  | enter fresh spec? root turn => simp [endOf] at event
  | take fresh spec? source earlier done turn =>
    obtain ⟨rfl, rfl, rfl, same⟩ := onlyReceipt event
    cases same
    rw [(enterBodyTurn turn).status, done]
  | await fresh spec? source earlier joins => simp at event
  | fail waits spec? source earlier atEnd => simp at event
  | feed waits spec? source earlier atEnd turn =>
    obtain ⟨rfl, rfl, rfl, same⟩ := onlyReceipt event
    cases same
    rw [(enterBodyTurn turn).status, ready.sound.settledSuccess atEnd]
  | work busy turn => simp [endOf] at event

theorem Steps.keeps (h : Steps specs p events p') (ready : Ready specs p) {who i r v}
    (event : .received who i r (.ok v) ∈ events) : p'.forest.status i = .completed r v := by
  induction h with
  | refl => cases event
  | tail first last ih =>
    have ready' := first.ready ready
    rcases List.mem_append.mp event with old | new
    · have done := ih old
      exact (statusOfStage (last.frozen ready' done)).trans done
    · exact last.keeps ready' new

end Play
end BuildReuse.Stage
